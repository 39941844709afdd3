import DynamicConfig.Firestore.Batch
import DynamicConfig.Git.Walk
import DynamicConfig.Stores.Prefix
import DynamicConfig.Transition.Changes
import DynamicConfig.Transition.Run

/-!
# Watching with blocking queries

A blocking query carries the index of the last answer, and the agent holds it until what it asks for has
moved past that index, or until the wait runs out. The answer is the subtree as it stands, so the loop
reads nothing back: it folds the answer and compares the document with the last one.

The agent's index grows with every write, and goes back when it is restarted or its tombstones are
reaped. Both happen at any time, and queries fail at any time. What the loop gives its caller are the
changes of what it was answered (`recorded_of_watch`, which rests on the comparison alone and not on the
index). The index is for two other things: while the agent holds a query there is nothing to miss
(`current_of_held`), and a query is answered at once only when there is something to answer
(`asked_le_of_watch`).
-/

namespace DynamicConfig.Consul.Blocking

open Changes (changes changes_concat pairwise_changes)
open Documents (foldedUnder)
open Etcd (from_utf8)
open Firestore (asStr member)
open Git (underPrefix withinKeyBudget)
open Transition

/-! ### The document in an answer -/

/-- What a source reads: one key, several named keys, or a prefix. -/
inductive Keys where
  | one (key : String)
  | several (keys : List String)
  | under (root : String)

namespace Keys

/-- The keys the caller wrote down. A prefix has none to list. -/
def named : Keys → List String
  | one key => [key]
  | several keys => keys
  | under _ => []

end Keys

/-- The encodings of a stored value, which are other crates'. An error is kept as it is displayed. -/
structure Decoder where
  base64 : String → Except String (List UInt8)
  /-- The complaint about bytes that are not UTF-8. -/
  notUtf8 : List UInt8 → String

/-- A source, and what its documents are read and written with. -/
structure Source where
  describe : String
  keys : Keys
  format : Option Format
  /-- Why the keys do not agree on a format, when they do not. -/
  disagreement : Option String
  formats : Formats
  decoder : Decoder

namespace Source

variable (source : Source)

/-- `format`: the format, or an error naming the call that supplies one. -/
def chosen : Except Error Format :=
  match source.disagreement, source.format with
  | some complaint, _ => .error (.remote (source.describe ++ ": " ++ complaint))
  | none, some format => .ok format
  | none, none =>
    .error (.remote (source.describe ++ ": the key names no format; call \x60with_format\x60"))

/-- What a query asks for, and whether with everything below it. -/
def watched : Except Error (String × Bool) :=
  match source.keys with
  | .one key => .ok (key, false)
  | .under root => .ok (root, true)
  | .several _ => .error (.remote (source.describe ++ ": a source that reads a named list of keys " ++
      "cannot be watched; Consul has no batch read, so the set would be blocked on one key and then " ++
      "read key by key, which can deliver a document that never existed — watch a prefix, or poll " ++
      "\x60refresh_remote()\x60 on a timer instead"))

/-- The document of one entry. -/
def decoded (key : String) (entry : Value) : Except Error (String × String) := do
  let encoded ← match (member "Value" entry).bind asStr with
    | some encoded => .ok encoded
    | none => .error (.remote (source.describe ++ ": \x60" ++ key ++ "\x60 holds no value"))
  let bytes ← (source.decoder.base64 encoded).mapError fun error ↦
    .remote (source.describe ++ ": \x60" ++ key ++ "\x60 is not valid base64: " ++ error)
  match from_utf8 bytes with
  | some text => .ok (key, text)
  | none => .error (.remote (source.describe ++ ": \x60" ++ key ++ "\x60 is not UTF-8: " ++
      source.decoder.notUtf8 bytes))

/-- One entry of an answer, if it is a document. -/
def pairOf (expected : Option String) (entry : Value) : Except Error (Option (String × String)) :=
  let key := (((member "Key" entry).bind asStr).or expected).getD ""
  match source.keys with
  | .under root => do
    -- The URL drops a leading slash, and the agent answers without one.
    underPrefix key (String.ofList (root.toList.dropWhile (· == '/'))) source.describe
    -- What the agent's interface makes for a folder is not a document.
    if key.toList.getLast? = some '/' then .ok none else (source.decoded key entry).map some
  | .one _ | .several _ => (source.decoded key entry).map some

/-- The keys and documents of an answer. A key that was asked for and is not there holds no value. -/
def pairsOf (expected : Option String) (entries : List Value) :
    Except Error (List (String × String)) :=
  match expected, entries with
  | some key, [] => .error (.remote (source.describe ++ ": \x60" ++ key ++ "\x60 holds no value"))
  | _, _ => (entries.mapM (source.pairOf expected)).map List.reduceOption

/-- `documents::merged`, of documents that must not overlap. -/
def mergedApart (documents : List (String × String)) (format : Format) : Except Error Fetched :=
  match documents with
  | [] => .error (.remote (source.describe ++ ": no key held a value, so there is nothing to load"))
  | [(_, only)] => .ok ⟨only, format⟩
  | _ => do
    let value ← foldedUnder source.formats documents format .refused source.describe
    let text ← (source.formats.render value format).mapError fun error ↦
      .remote (source.describe ++ ": the merged document cannot be written back as " ++
        format.debug ++ ": " ++ error)
    return ⟨text, format⟩

/-- The document an answer folds into, if it holds one. What is wrong with one key is waited out; what
is wrong with a subtree no retry cures. -/
def watchedDocument (entries : List Value) (recurse : Bool) (format : Format) :
    Except Error (Option String) :=
  if recurse then do
    withinKeyBudget entries.length source.describe
    let pairs ← source.pairsOf none entries
    if pairs.isEmpty then return none
    else return some (← source.mergedApart pairs format).text
  else
    .ok (((source.pairsOf source.keys.named.head? entries).toOption.bind List.getLast?).map Prod.snd)

/-- What a query comes back with: the index the agent names, and the entries. -/
structure Response where
  index : Option ℕ
  entries : Except String (List Value)

structure Answered where
  index : ℕ
  entries : List Value

/-- `blocking_read`, of what its request comes to. An answer that names no index leaves it. -/
def blockingRead (index : ℕ) (response : Except Error Response) : Except Error Answered := do
  let response ← response
  let entries ← response.entries.mapError fun error ↦
    .remote (source.describe ++ ": the response was not JSON: " ++ error)
  return ⟨response.index.getD index, entries⟩

end Source

/-! ### The agent and the loop -/

/-- What the agent has of what is watched, after so many writes and so many times that its index was
set anew. -/
structure Agent where
  index : ℕ
  entries : List Value
  commits : ℕ
  restores : ℕ

namespace Agent

/-- What it has before anything is asked of it. -/
def fresh (index : ℕ) (entries : List Value) : Agent := ⟨index, entries, 0, 0⟩

/-- How often it has moved. -/
def moves (agent : Agent) : ℕ := agent.commits + agent.restores

/-- A write takes a greater index. -/
def commit (agent : Agent) (index : ℕ) (entries : List Value) : Option Agent :=
  if agent.index < index then some { agent with index, entries, commits := agent.commits + 1 } else none

/-- The index starts anew, anywhere but at zero. -/
def restore (agent : Agent) (index : ℕ) (entries : List Value) : Option Agent :=
  if 0 < index then some { agent with index, entries, restores := agent.restores + 1 } else none

end Agent

/-- Where the loop is. -/
inductive Point where
  | checking
  /-- A query is with the agent. -/
  | asked
  /-- The query was answered, when the agent had this. -/
  | answered (found : Agent) (answer : Source.Answered)
  | pausing
  | ended (outcome : Except Error Unit)

/-- The loop, the agent, and what has happened between them. -/
structure State where
  agent : Agent
  /-- Whether the handle has not been stopped. -/
  running : Bool
  point : Point
  index : ℕ
  last : Option String
  priming : Bool
  /-- What was given to the caller, and what the agent had at the time. -/
  given : List (Agent × String)
  /-- The failed attempts that were reported. -/
  reported : List Error
  /-- The documents that were answered. -/
  seen : List (Agent × String)
  /-- What the agent had at the last answer that was taken. -/
  read : Option Agent
  asked : ℕ
  /-- How many queries were answered because there was something to answer, and how many because the
  wait ran out. -/
  prompt : ℕ
  expired : ℕ
  pauses : ℕ

namespace State

/-- A loop that has not asked anything. -/
def start (agent : Agent) : State where
  agent := agent
  running := true
  point := .checking
  index := 0
  last := none
  priming := true
  given := []
  reported := []
  seen := []
  read := none
  asked := 0
  prompt := 0
  expired := 0
  pauses := 0

/-- A failed attempt is reported, and slept on. -/
def pause (s : State) (error : Error) : State :=
  { s with reported := s.reported ++ [error], point := .pausing, pauses := s.pauses + 1 }

/-- The next query's index. One that has gone back would park the query forever. -/
def nextIndex (index answered : ℕ) : ℕ := if answered < index then 0 else answered

/-- A document was answered: it is the first, the last one again, or news. -/
def document (s : State) (found : Agent) (text : String) (outcome : Except Error Unit) : State :=
  let s' : State :=
    { s with
      last := some text
      priming := false
      seen := s.seen ++ [(found, text)]
      read := some found }
  if s.priming ∨ s.last = some text then { s' with point := .checking }
  else
    { s' with
      given := s.given ++ [(found, text)]
      point := match outcome with
        | .ok () => .checking
        -- The callback's refusal ends the watch, and is not the store's failure.
        | .error error => .ended (.error error) }

variable (source : Source) (recurse : Bool) (format : Format)

/-- The rest of a turn, with an answer. -/
def take (s : State) (found : Agent) (answer : Source.Answered) (outcome : Except Error Unit) : State :=
  let s := { s with index := nextIndex s.index answer.index }
  match source.watchedDocument answer.entries recurse format with
  | .error error =>
    { s with reported := s.reported ++ [error], read := some found, point := .ended (.error error) }
  | .ok none =>
    { s with read := some found }.pause
      (.remote (source.describe ++ ": the watched key holds no value"))
  | .ok (some text) => s.document found text outcome

end State

/-- What becomes of a query: the agent answers it, with its index or without, or the answer is not read,
or the request fails. -/
inductive Reply where
  | answer (headed : Bool)
  | garbled (error : String)
  | failed (error : Error)

/-- A reply is of the agent as it stands. -/
def Reply.response (agent : Agent) : Reply → Except Error Source.Response
  | .answer headed => .ok ⟨if headed then some agent.index else none, .ok agent.entries⟩
  | .garbled error => .ok ⟨some agent.index, .error error⟩
  | .failed error => .error error

/-- One move of the agent, of the handle, or of the loop. -/
inductive Event where
  | commit (index : ℕ) (entries : List Value)
  | restore (index : ℕ) (entries : List Value)
  | stop
  | ask
  | reply (reply : Reply)
  /-- The answer is taken, and this is what the callback would say to news. -/
  | take (outcome : Except Error Unit)
  | wake

/-- The agent has something to answer: the query asks for whatever there is, or there has been a write
since. Otherwise it holds the query. -/
def State.Due (s : State) : Prop := s.index = 0 ∨ s.index < s.agent.index

instance (s : State) : Decidable s.Due := inferInstanceAs (Decidable (_ ∨ _))

/-- `Consul::watch`, one move of it or of those around it. -/
def State.step (source : Source) (recurse : Bool) (format : Format) (s : State) :
    Event → Option State
  | .commit index entries => (s.agent.commit index entries).map fun agent ↦ { s with agent }
  | .restore index entries => (s.agent.restore index entries).map fun agent ↦ { s with agent }
  | .stop => some { s with running := false }
  | .ask =>
    match s.point with
    | .checking =>
      if s.running then some { s with point := .asked, asked := s.asked + 1 }
      else some { s with point := .ended (.ok ()) }
    | _ => none
  | .reply reply =>
    match s.point with
    | .asked =>
      match source.blockingRead s.index (reply.response s.agent) with
      | .error error => some (s.pause error)
      | .ok answer => some
          { s with
            point := .answered s.agent answer
            prompt := if s.Due then s.prompt + 1 else s.prompt
            expired := if s.Due then s.expired else s.expired + 1 }
    | _ => none
  | .take outcome =>
    match s.point with
    | .answered found answer => some (s.take source recurse format found answer outcome)
    | _ => none
  | .wake =>
    match s.point with
    | .pausing => some { s with point := .checking }
    | _ => none

/-- `Consul::watch` as far as it comes with some moves of its own, the agent's and the handle's, or why it
does not begin. -/
def Source.watch (source : Source) (index : ℕ) (entries : List Value) (events : List Event) :
    Except Error (Option State) := do
  let format ← source.chosen
  let (_, recurse) ← source.watched
  return run (State.step source recurse format) (.start (.fresh index entries)) events

/-! ### What the agent had -/

namespace Agent

/-- One move. -/
def Moved (a b : Agent) : Prop :=
  0 < b.index ∧ (b.restores = a.restores ∧ b.commits = a.commits + 1 ∧ a.index < b.index ∨
    b.restores = a.restores + 1 ∧ b.commits = a.commits)

theorem moved_of_commit {a b : Agent} {index : ℕ} {entries : List Value}
    (h : a.commit index entries = some b) : a.Moved b := by
  rw [commit] at h
  split at h
  · next hlt =>
    cases h
    exact ⟨Nat.zero_lt_of_lt hlt, .inl ⟨rfl, rfl, hlt⟩⟩
  · cases h

theorem moved_of_restore {a b : Agent} {index : ℕ} {entries : List Value}
    (h : a.restore index entries = some b) : a.Moved b := by
  rw [restore] at h
  split at h
  · next hpos =>
    cases h
    exact ⟨hpos, .inr ⟨rfl, rfl⟩⟩
  · cases h

/-- What the agent had is what it has, or it has moved since: by writes alone, which its index shows, or
not. -/
def Before (a b : Agent) : Prop :=
  a = b ∨ a.restores = b.restores ∧ a.commits < b.commits ∧ a.index < b.index ∨
    a.restores < b.restores ∧ a.commits ≤ b.commits

theorem Before.refl (a : Agent) : a.Before a := .inl rfl

theorem Before.moved {a b c : Agent} (h : a.Before b) (hmoved : b.Moved c) : a.Before c := by
  obtain ⟨-, ⟨hrestores, hcommits, hindex⟩ | ⟨hrestores, hcommits⟩⟩ := hmoved
  · obtain rfl | ⟨h1, h2, h3⟩ | ⟨h1, h2⟩ := h
    · exact .inr (.inl ⟨hrestores.symm, by omega, hindex⟩)
    · exact .inr (.inl ⟨by omega, by omega, by omega⟩)
    · exact .inr (.inr ⟨by omega, by omega⟩)
  · obtain rfl | ⟨h1, h2, h3⟩ | ⟨h1, h2⟩ := h
    · exact .inr (.inr ⟨by omega, by omega⟩)
    · exact .inr (.inr ⟨by omega, by omega⟩)
    · exact .inr (.inr ⟨by omega, by omega⟩)

theorem Before.moves_le {a b : Agent} (h : a.Before b) : a.moves ≤ b.moves := by
  obtain rfl | ⟨h1, h2, h3⟩ | ⟨h1, h2⟩ := h
  · exact Nat.le_refl _
  · simp only [moves]
    omega
  · simp only [moves]
    omega

/-- As many moves, and it is the same. -/
theorem Before.eq_of_moves {a b : Agent} (h : a.Before b) (hmoves : a.moves = b.moves) : a = b := by
  obtain rfl | ⟨h1, h2, h3⟩ | ⟨h1, h2⟩ := h
  · rfl
  · simp only [moves] at hmoves
    omega
  · simp only [moves] at hmoves
    omega

/-- What the moves are worth: a write one query that is answered at once, a new beginning two. -/
def worth (agent : Agent) : ℕ := agent.commits + 2 * agent.restores

theorem Before.worth_le {a b : Agent} (h : a.Before b) : a.worth ≤ b.worth := by
  obtain rfl | ⟨h1, h2, h3⟩ | ⟨h1, h2⟩ := h
  · exact Nat.le_refl _
  · simp only [worth]
    omega
  · simp only [worth]
    omega

theorem Before.worth_lt {a b : Agent} (h : a.Before b) (hindex : a.index ≠ b.index) :
    a.worth < b.worth := by
  obtain rfl | ⟨h1, h2, h3⟩ | ⟨h1, h2⟩ := h
  · exact absurd rfl hindex
  · simp only [worth]
    omega
  · simp only [worth]
    omega

end Agent

/-! ### What a move can do -/

section

variable {source : Source} {recurse : Bool} {format : Format} {s s' : State}

/-- What comes of a move. -/
inductive Effect (source : Source) (recurse : Bool) (format : Format) (s : State) :
    Event → State → Prop
  | moved {event : Event} {agent : Agent} (hmoved : s.agent.Moved agent) :
    Effect source recurse format s event { s with agent }
  | stopped : Effect source recurse format s .stop { s with running := false }
  | asked (hpoint : s.point = .checking) :
    Effect source recurse format s .ask { s with point := .asked, asked := s.asked + 1 }
  | ended (hpoint : s.point = .checking) :
    Effect source recurse format s .ask { s with point := .ended (.ok ()) }
  | lost {reply : Reply} {error : Error} (hpoint : s.point = .asked) :
    Effect source recurse format s (.reply reply) (s.pause error)
  | answered {headed : Bool} (hpoint : s.point = .asked) :
    Effect source recurse format s (.reply (.answer headed))
      { s with
        point := .answered s.agent ⟨if headed then s.agent.index else s.index, s.agent.entries⟩
        prompt := if s.Due then s.prompt + 1 else s.prompt
        expired := if s.Due then s.expired else s.expired + 1 }
  | refused {found : Agent} {answer : Source.Answered} {outcome : Except Error Unit} {error : Error}
    (hpoint : s.point = .answered found answer)
    (hfold : source.watchedDocument answer.entries recurse format = .error error) :
    Effect source recurse format s (.take outcome)
      { s with
        index := State.nextIndex s.index answer.index
        reported := s.reported ++ [error]
        read := some found
        point := .ended (.error error) }
  | empty {found : Agent} {answer : Source.Answered} {outcome : Except Error Unit} {error : Error}
    (hpoint : s.point = .answered found answer)
    (hfold : source.watchedDocument answer.entries recurse format = .ok none) :
    Effect source recurse format s (.take outcome)
      { s with
        index := State.nextIndex s.index answer.index
        read := some found
        reported := s.reported ++ [error]
        point := .pausing
        pauses := s.pauses + 1 }
  | again {found : Agent} {answer : Source.Answered} {outcome : Except Error Unit} {text : String}
    (hpoint : s.point = .answered found answer)
    (hfold : source.watchedDocument answer.entries recurse format = .ok (some text))
    (hknown : s.priming = true ∨ s.last = some text) :
    Effect source recurse format s (.take outcome)
      { s with
        index := State.nextIndex s.index answer.index
        last := some text
        priming := false
        seen := s.seen ++ [(found, text)]
        read := some found
        point := .checking }
  | news {found : Agent} {answer : Source.Answered} {outcome : Except Error Unit} {text : String}
    {point : Point} (hpoint : s.point = .answered found answer)
    (hfold : source.watchedDocument answer.entries recurse format = .ok (some text))
    (hnews : ¬ (s.priming = true ∨ s.last = some text))
    (hnext : point = .checking ∨ ∃ error, point = .ended (.error error)) :
    Effect source recurse format s (.take outcome)
      { s with
        index := State.nextIndex s.index answer.index
        last := some text
        priming := false
        seen := s.seen ++ [(found, text)]
        read := some found
        given := s.given ++ [(found, text)]
        point := point }
  | woke (hpoint : s.point = .pausing) :
    Effect source recurse format s .wake { s with point := .checking }

theorem effect_of_take {found : Agent} {answer : Source.Answered} (outcome : Except Error Unit)
    (hpoint : s.point = .answered found answer) :
    Effect source recurse format s (.take outcome)
      (s.take source recurse format found answer outcome) := by
  rw [State.take]
  split
  · next hfold => exact .refused hpoint hfold
  · next hfold => exact .empty hpoint hfold
  · next hfold =>
    unfold State.document
    split
    · next hknown => exact .again hpoint hfold hknown
    · next hnews =>
      refine .news hpoint hfold hnews ?_
      cases outcome with
      | ok => exact .inl rfl
      | error error => exact .inr ⟨error, rfl⟩

/-- **What a move can do.** -/
theorem effect_of_step {event : Event} (h : s.step source recurse format event = some s') :
    Effect source recurse format s event s' := by
  cases event with
  | commit index entries =>
    obtain ⟨agent, hagent, rfl⟩ := Option.map_eq_some_iff.1 h
    exact .moved (Agent.moved_of_commit hagent)
  | restore index entries =>
    obtain ⟨agent, hagent, rfl⟩ := Option.map_eq_some_iff.1 h
    exact .moved (Agent.moved_of_restore hagent)
  | stop =>
    cases h
    exact .stopped
  | ask =>
    simp only [State.step] at h
    split at h
    · next hpoint =>
      split at h
      · cases h
        exact .asked hpoint
      · cases h
        exact .ended hpoint
    · cases h
  | reply reply =>
    simp only [State.step] at h
    split at h
    · next hpoint =>
      cases reply with
      | answer headed =>
        cases headed with
        | false =>
          cases h
          exact @Effect.answered source recurse format s false hpoint
        | true =>
          cases h
          exact @Effect.answered source recurse format s true hpoint
      | garbled error =>
        cases h
        exact .lost hpoint
      | failed error =>
        cases h
        exact .lost hpoint
    · cases h
  | take outcome =>
    simp only [State.step] at h
    split at h
    · next hpoint =>
      cases h
      exact effect_of_take outcome hpoint
    · cases h
  | wake =>
    simp only [State.step] at h
    split at h
    · next hpoint =>
      cases h
      exact .woke hpoint
    · cases h

/-! ### The changes of what was answered -/

/-- What the comparison with the last document keeps. -/
structure Known (s : State) : Prop where
  last : s.last = s.seen.getLast?.map Prod.snd
  priming : s.priming = s.seen.isEmpty
  given : changes Prod.snd s.seen = s.seen.head?.toList ++ s.given

theorem known_start (agent : Agent) : Known (.start agent) := ⟨rfl, rfl, rfl⟩

theorem Known.step {event : Event} (h : Known s)
    (hstep : s.step source recurse format event = some s') : Known s' := by
  cases effect_of_step hstep with
  | moved | stopped | asked | ended | lost | answered | refused | empty | woke => exact ⟨h.1, h.2, h.3⟩
  | @again found _ _ text _ _ hknown =>
    refine ⟨by simp, by simp, ?_⟩
    show changes Prod.snd (s.seen ++ [(found, text)]) =
      (s.seen ++ [(found, text)]).head?.toList ++ s.given
    rw [changes_concat, h.given]
    by_cases hseen : s.seen = []
    · have hgiven : s.given = [] := by
        have hgiven := h.given
        rw [hseen] at hgiven
        exact hgiven.symm
      rw [hseen, hgiven]
      rfl
    · have hlast : s.seen.getLast?.map Prod.snd = some text := by
        rw [← h.last]
        refine hknown.resolve_left fun hpriming ↦ hseen ?_
        rwa [h.priming, List.isEmpty_iff] at hpriming
      rw [if_pos hlast, List.append_nil, List.head?_append_of_ne_nil _ hseen]
  | @news found _ _ text _ _ _ hnews =>
    obtain ⟨hpriming, hlast⟩ := not_or.1 hnews
    have hseen : s.seen ≠ [] := by
      rw [h.priming, List.isEmpty_iff] at hpriming
      exact hpriming
    refine ⟨by simp, by simp, ?_⟩
    show changes Prod.snd (s.seen ++ [(found, text)]) = _
    rw [changes_concat, h.given, if_neg (by rwa [← h.last]), List.head?_append_of_ne_nil _ hseen,
      List.append_assoc]

/-- What was answered so far was answered when the agent had moved less, or as much. -/
structure Taken (seen : List (Agent × String)) (read : Option Agent) (agent : Agent) : Prop where
  seen : ∀ e ∈ seen, e.1.Before agent
  read : ∀ found, read = some found → found.Before agent

theorem Taken.moved {seen : List (Agent × String)} {read : Option Agent} {agent agent' : Agent}
    (h : Taken seen read agent) (hmoved : agent.Moved agent') : Taken seen read agent' :=
  ⟨fun e he ↦ (h.seen e he).moved hmoved, fun found hfound ↦ (h.read found hfound).moved hmoved⟩

/-- What holds of the answers and of what the agent had at the time. -/
structure Dated (source : Source) (recurse : Bool) (format : Format) (s : State) : Prop where
  agent : Taken s.seen s.read s.agent
  answered : ∀ found answer, s.point = .answered found answer →
    Taken s.seen s.read found ∧ found.Before s.agent ∧ answer.entries = found.entries
  ordered : s.seen.Pairwise fun a b ↦ a.1.Before b.1
  folded : ∀ e ∈ s.seen, source.watchedDocument e.1.entries recurse format = .ok (some e.2)
  read : ∀ found text, s.read = some found →
    source.watchedDocument found.entries recurse format = .ok (some text) → s.last = some text

theorem dated_start (agent : Agent) : Dated source recurse format (.start agent) where
  agent := ⟨fun e he ↦ absurd he List.not_mem_nil, fun found hfound ↦ (by cases hfound)⟩
  answered found answer hpoint := by cases hpoint
  ordered := .nil
  folded e he := absurd he List.not_mem_nil
  read found text hfound := by cases hfound

/-- A document was answered. -/
theorem Dated.document {found : Agent} {answer : Source.Answered} {text : String}
    (h : Dated source recurse format s) (hpoint : s.point = .answered found answer)
    (hfold : source.watchedDocument answer.entries recurse format = .ok (some text))
    (hagent : s'.agent = s.agent) (hseen : s'.seen = s.seen ++ [(found, text)])
    (hread : s'.read = some found) (hlast : s'.last = some text)
    (hnext : ∀ found answer, s'.point ≠ .answered found answer) : Dated source recurse format s' := by
  obtain ⟨htaken, hbefore, hentries⟩ := h.answered found answer hpoint
  rw [hentries] at hfold
  refine ⟨⟨fun e he ↦ ?_, fun r hr ↦ ?_⟩, fun r a hr ↦ absurd hr (hnext r a), ?_, fun e he ↦ ?_,
    fun r t hr ht ↦ ?_⟩
  · rw [hagent]
    rw [hseen, List.mem_append, List.mem_singleton] at he
    obtain he | rfl := he
    · exact h.agent.seen e he
    · exact hbefore
  · rw [hagent]
    obtain rfl := Option.some.inj (hread.symm.trans hr)
    exact hbefore
  · rw [hseen, List.pairwise_append]
    refine ⟨h.ordered, List.pairwise_singleton _ _, fun a ha b hb ↦ ?_⟩
    obtain rfl := List.mem_singleton.1 hb
    exact htaken.seen a ha
  · rw [hseen, List.mem_append, List.mem_singleton] at he
    obtain he | rfl := he
    · exact h.folded e he
    · exact hfold
  · obtain rfl := Option.some.inj (hread.symm.trans hr)
    rw [hfold] at ht
    rw [hlast]
    exact Except.ok.inj ht

/-- An answer was taken that holds no document. -/
theorem Dated.undocumented {found : Agent} {answer : Source.Answered}
    (h : Dated source recurse format s) (hpoint : s.point = .answered found answer)
    (hfold : ∀ text, source.watchedDocument answer.entries recurse format ≠ .ok (some text))
    (hagent : s'.agent = s.agent) (hseen : s'.seen = s.seen) (hread : s'.read = some found)
    (hnext : ∀ found answer, s'.point ≠ .answered found answer) : Dated source recurse format s' := by
  obtain ⟨htaken, hbefore, hentries⟩ := h.answered found answer hpoint
  rw [hentries] at hfold
  refine ⟨⟨fun e he ↦ ?_, fun r hr ↦ ?_⟩, fun r a hr ↦ absurd hr (hnext r a), ?_, fun e he ↦ ?_,
    fun r t hr ht ↦ ?_⟩
  · rw [hagent]
    exact h.agent.seen e (hseen ▸ he)
  · rw [hagent]
    obtain rfl := Option.some.inj (hread.symm.trans hr)
    exact hbefore
  · rw [hseen]
    exact h.ordered
  · exact h.folded e (hseen ▸ he)
  · obtain rfl := Option.some.inj (hread.symm.trans hr)
    exact absurd ht (hfold t)

theorem Dated.step {event : Event} (h : Dated source recurse format s)
    (hstep : s.step source recurse format event = some s') : Dated source recurse format s' := by
  cases effect_of_step hstep with
  | moved hmoved =>
    refine ⟨h.agent.moved hmoved, fun found answer hpoint ↦ ?_, h.ordered, h.folded, h.read⟩
    obtain ⟨htaken, hbefore, hentries⟩ := h.answered found answer hpoint
    exact ⟨htaken, hbefore.moved hmoved, hentries⟩
  | stopped => exact ⟨h.agent, h.answered, h.ordered, h.folded, h.read⟩
  | asked | ended | lost | woke =>
    exact ⟨h.agent, fun found answer hnext ↦ (by cases hnext), h.ordered, h.folded, h.read⟩
  | answered hpoint =>
    refine ⟨h.agent, fun found answer hnext ↦ ?_, h.ordered, h.folded, h.read⟩
    cases hnext
    exact ⟨h.agent, .refl _, rfl⟩
  | refused hpoint hfold =>
    refine h.undocumented hpoint (fun text ↦ ?_) rfl rfl rfl fun found answer hnext ↦ by cases hnext
    rw [hfold]
    exact fun hok ↦ by cases hok
  | empty hpoint hfold =>
    refine h.undocumented hpoint (fun text ↦ ?_) rfl rfl rfl fun found answer hnext ↦ by cases hnext
    rw [hfold]
    exact fun hok ↦ by cases hok
  | again hpoint hfold =>
    exact h.document hpoint hfold rfl rfl rfl rfl fun found answer hnext ↦ by cases hnext
  | news hpoint hfold _ hnext =>
    refine h.document hpoint hfold rfl rfl rfl rfl fun found answer hanswered ↦ ?_
    obtain rfl | ⟨error, rfl⟩ := hnext
    · cases hanswered
    · cases hanswered

/-- What the caller knows: what it had at the start, and what it was given. -/
def State.documents (s : State) : List (Agent × String) := s.seen.head?.toList ++ s.given

/-- What was given, and when. -/
structure Recorded (source : Source) (recurse : Bool) (format : Format) (s : State) : Prop where
  /-- The caller was given the changes of what was answered. -/
  changes : s.documents = changes Prod.snd s.seen
  /-- Each is what the agent had, folded, -/
  folded : ∀ e ∈ s.documents, source.watchedDocument e.1.entries recurse format = .ok (some e.2)
  /-- later than the one before. -/
  later : s.documents.Pairwise fun a b ↦ a.1.moves < b.1.moves
  /-- So the agent has moved for each. -/
  length_le : s.given.length ≤ s.agent.moves

theorem recorded_of (hknown : Known s) (hdated : Dated source recurse format s) :
    Recorded source recurse format s := by
  have hchanges : s.documents = changes Prod.snd s.seen := hknown.given.symm
  have hsub : ∀ e ∈ s.documents, e ∈ s.seen := by
    rw [hchanges]
    exact fun e he ↦ (List.destutter_sublist _ _).subset he
  have hlater : s.documents.Pairwise fun a b ↦ a.1.moves < b.1.moves := by
    rw [hchanges]
    refine pairwise_changes (hdated.ordered.imp Agent.Before.moves_le) fun a ha b hb hmoves ↦ ?_
    have hsymm : Std.Symm fun x y : Agent × String ↦ x.1.moves = y.1.moves → x.1 = y.1 :=
      ⟨fun x y hxy hyx ↦ (hxy hyx.symm).symm⟩
    have hpairs := hdated.ordered.imp fun hbefore ↦ hbefore.eq_of_moves
    have hsame : a.1 = b.1 := hpairs.forall_of_forall (fun _ _ _ ↦ rfl) ha hb hmoves
    have hfold := hdated.folded a ha
    rw [hsame, hdated.folded b hb] at hfold
    exact (Option.some.inj (Except.ok.inj hfold)).symm
  refine ⟨hchanges, fun e he ↦ hdated.folded e (hsub e he), hlater, ?_⟩
  have hle : ∀ e ∈ s.documents, e.1.moves ≤ s.agent.moves := fun e he ↦
    (hdated.agent.seen e (hsub e he)).moves_le
  cases hseen : s.seen with
  | nil =>
    have hgiven := hknown.given
    rw [hseen] at hgiven
    rw [show s.given = [] from hgiven.symm]
    exact Nat.zero_le _
  | cons first rest =>
    rw [State.documents, hseen] at hlater hle
    have hlength : first.1.moves + s.given.length ≤ s.agent.moves := Changes.length_add_le hlater hle
    omega

/-! ### What the index is for -/

/-- The next query's index, and what the agent had at the answer it is from, once the answer at hand is
taken. -/
def State.settled (s : State) : ℕ × Option Agent :=
  match s.point with
  | .answered found answer => (State.nextIndex s.index answer.index, some found)
  | _ => (s.index, s.read)

/-- The queries with the agent. -/
def Point.out : Point → ℕ
  | .asked => 1
  | _ => 0

/-- What holds as long as every answer names its index. -/
structure Tracked (s : State) : Prop where
  pos : 0 < s.agent.index
  index : s.settled.1 = 0 ∨ ∃ found, s.settled.2 = some found ∧ found.index = s.settled.1
  before : ∀ found, s.settled.2 = some found → found.Before s.agent
  prompt : s.prompt + (if s.settled.1 = 0 then 1 else 0) ≤ 1 + s.settled.2.elim 0 Agent.worth
  asked : s.asked ≤ s.prompt + s.expired + s.pauses + s.point.out

theorem tracked_start {index : ℕ} (hpos : 0 < index) (entries : List Value) :
    Tracked (.start (.fresh index entries)) where
  pos := hpos
  index := .inl rfl
  before found hfound := by cases hfound
  prompt := Nat.le_refl 1
  asked := Nat.le_refl 0

/-- What the agent had at the last answer is worth no more than what it has. -/
theorem Tracked.worth_le (h : Tracked s) : s.settled.2.elim 0 Agent.worth ≤ s.agent.worth := by
  cases hsettled : s.settled.2 with
  | none => exact Nat.zero_le _
  | some found => exact (h.before found hsettled).worth_le

/-- An index that is not the agent's is worth a move. -/
theorem Tracked.worth_lt (h : Tracked s) (hpos : s.settled.1 ≠ 0) (hindex : s.settled.1 ≠ s.agent.index) :
    s.settled.2.elim 0 Agent.worth < s.agent.worth := by
  obtain ⟨found, hfound, hsame⟩ := h.index.resolve_left hpos
  rw [hfound]
  exact (h.before found hfound).worth_lt (hsame.trans_ne hindex)

/-- A move that leaves what is settled. -/
theorem Tracked.of_settled (h : Tracked s) (hsettled : s'.settled = s.settled) (hagent : s'.agent = s.agent)
    (hprompt : s'.prompt = s.prompt) (hasked : s'.asked ≤ s'.prompt + s'.expired + s'.pauses + s'.point.out) :
    Tracked s' := by
  refine ⟨?_, ?_, ?_, ?_, hasked⟩
  · rw [hagent]
    exact h.pos
  · rw [hsettled]
    exact h.index
  · rw [hsettled, hagent]
    exact h.before
  · rw [hsettled, hprompt]
    exact h.prompt

/-- **An answer that came at once is paid for** by the first query, by a write, or by a new beginning. -/
theorem Tracked.answered (h : Tracked s) (hpoint : s.point = .asked) :
    (if s.Due then s.prompt + 1 else s.prompt) +
      (if State.nextIndex s.index s.agent.index = 0 then 1 else 0) ≤ 1 + s.agent.worth := by
  have hsettled : s.settled = (s.index, s.read) := by rw [State.settled, hpoint]
  have hprompt := h.prompt
  have hle := h.worth_le
  have hlt := h.worth_lt
  have hpos := h.pos
  rw [hsettled] at hprompt hle hlt
  dsimp only at hprompt hle hlt
  by_cases hback : s.agent.index < s.index
  · -- Only a new beginning takes the index back.
    have hworth := hlt (by omega) (by omega)
    have hdue : ¬ s.Due := fun hdue ↦ by
      rw [State.Due] at hdue
      omega
    have hnext : State.nextIndex s.index s.agent.index = 0 := if_pos hback
    rw [hnext, if_neg hdue, if_pos rfl]
    omega
  · have hnext : State.nextIndex s.index s.agent.index = s.agent.index := if_neg hback
    rw [hnext, if_neg (by omega : ¬ s.agent.index = 0)]
    by_cases hzero : s.index = 0
    · rw [if_pos hzero] at hprompt
      rw [if_pos (.inl hzero)]
      omega
    · rw [if_neg hzero] at hprompt
      by_cases hmoved : s.index < s.agent.index
      · have hworth := hlt hzero (by omega)
        rw [if_pos (.inr hmoved)]
        omega
      · rw [if_neg fun hdue ↦ hdue.elim hzero hmoved]
        omega

theorem Tracked.step {event : Event} (h : Tracked s) (hheaded : event ≠ .reply (.answer false))
    (hstep : s.step source recurse format event = some s') : Tracked s' := by
  have hasked := h.asked
  cases effect_of_step hstep with
  | moved hmoved =>
    exact ⟨hmoved.1, h.index, fun found hfound ↦ (h.before found hfound).moved hmoved, h.prompt, h.asked⟩
  | stopped => exact h.of_settled rfl rfl rfl h.asked
  | asked hpoint =>
    refine h.of_settled (by simp only [State.settled, hpoint]) rfl rfl ?_
    rw [hpoint] at hasked
    exact Nat.succ_le_succ hasked
  | ended hpoint | woke hpoint =>
    refine h.of_settled (by simp only [State.settled, hpoint]) rfl rfl ?_
    rw [hpoint] at hasked
    exact hasked
  | lost hpoint =>
    refine h.of_settled (by simp only [State.settled, State.pause, hpoint]) rfl rfl ?_
    rw [hpoint] at hasked
    exact hasked
  | @answered headed hpoint =>
    cases headed with
    | false => exact absurd rfl hheaded
    | true =>
      refine ⟨h.pos, ?_, ?_, h.answered hpoint, ?_⟩
      · show State.nextIndex s.index s.agent.index = 0 ∨
          ∃ found, some s.agent = some found ∧ found.index = State.nextIndex s.index s.agent.index
        rw [State.nextIndex]
        split
        · exact .inl rfl
        · exact .inr ⟨s.agent, rfl, rfl⟩
      · intro found hfound
        obtain rfl := Option.some.inj hfound
        exact .refl _
      · rw [hpoint] at hasked
        show s.asked ≤ (if s.Due then s.prompt + 1 else s.prompt) +
          (if s.Due then s.expired else s.expired + 1) + s.pauses + 0
        have hone : Point.asked.out = 1 := rfl
        split
        · omega
        · omega
  | refused hpoint | again hpoint =>
    refine h.of_settled (by simp only [State.settled, hpoint]) rfl rfl ?_
    rw [hpoint] at hasked
    exact hasked
  | empty hpoint =>
    refine h.of_settled (by simp only [State.settled, hpoint]) rfl rfl ?_
    rw [hpoint] at hasked
    exact Nat.le_succ_of_le hasked
  | news hpoint _ _ hnext =>
    rw [hpoint] at hasked
    obtain rfl | ⟨error, rfl⟩ := hnext
    · exact h.of_settled (by simp only [State.settled, hpoint]) rfl rfl hasked
    · exact h.of_settled (by simp only [State.settled, hpoint]) rfl rfl hasked

end

/-! ### Whole watches -/

section

variable {source : Source} {index : ℕ} {entries : List Value} {events : List Event} {s : State}

theorem run_of_watch (h : source.watch index entries events = .ok (some s)) :
    ∃ format key recurse, source.chosen = .ok format ∧ source.watched = .ok (key, recurse) ∧
      run (State.step source recurse format) (.start (.fresh index entries)) events = some s := by
  obtain ⟨format, hformat, hrest⟩ := exists_of_bind_eq_ok h
  obtain ⟨⟨key, recurse⟩, hwatched, hrun⟩ := exists_of_bind_eq_ok hrest
  exact ⟨format, key, recurse, hformat, hwatched, Except.ok.inj hrun⟩

/-- **The caller is given the changes of what the agent answered**: in every watch, whatever is written,
set anew, garbled or lost meanwhile, and whether or not the agent names its index. -/
theorem recorded_of_watch (h : source.watch index entries events = .ok (some s)) :
    ∃ format key recurse, source.chosen = .ok format ∧ source.watched = .ok (key, recurse) ∧
      Recorded source recurse format s := by
  obtain ⟨format, key, recurse, hformat, hwatched, hrun⟩ := run_of_watch h
  have hboth := run_invariant (I := fun s ↦ Known s ∧ Dated source recurse format s)
    (fun _ _ _ hstep hs ↦ ⟨hs.1.step hstep, hs.2.step hstep⟩) hrun ⟨known_start _, dated_start _⟩
  exact ⟨format, key, recurse, hformat, hwatched, recorded_of hboth.1 hboth.2⟩

/-- One key, whose value is YAML. -/
def kvSource : Source where
  describe := "consul http://consul:8500 kv/app.yaml"
  keys := .one "app.yaml"
  format := some .yaml
  disagreement := none
  formats := ⟨fun _ _ ↦ .error "", fun _ _ ↦ .error ""⟩
  decoder :=
    { base64 := fun text ↦
        if text = "YTogMQ==" then .ok [97, 58, 32, 49]
        else if text = "YTogMg==" then .ok [97, 58, 32, 50]
        else .error "Invalid input length"
      notUtf8 := fun _ ↦ "invalid utf-8 sequence" }

def kvEntry (value : String) : Value :=
  .table [("Key", .scalar (.string "app.yaml")), ("Value", .scalar (.string value))]

/-- A first document, a write while the second query is held, an expired one, and another. -/
def kvEvents : List Event :=
  [.ask, .reply (.answer true), .take (.ok ()), .ask, .commit 9 [kvEntry "YTogMg=="],
    .reply (.answer true), .take (.ok ()), .ask, .reply (.answer true), .take (.ok ()), .ask]

/-- Where that leads. -/
theorem exists_watch_kv :
    ∃ s, kvSource.watch 4 [kvEntry "YTogMQ=="] kvEvents = .ok (some s) ∧
      s.documents.map Prod.snd = ["a: 1", "a: 2"] ∧ s.point = .asked ∧ s.index = 9 ∧ s.agent.index = 9 ∧
        s.read.map Agent.restores = some s.agent.restores ∧ s.prompt = 2 ∧ s.asked = 4 :=
  ⟨_, rfl, rfl, rfl, rfl, rfl, rfl, rfl, rfl⟩

theorem headed_kv : ∀ e ∈ kvEvents, e ≠ .reply (.answer false) := by
  simp [kvEvents]

theorem recorded_of_watch_kv :
    ∃ s, kvSource.watch 4 [kvEntry "YTogMQ=="] kvEvents = .ok (some s) ∧
      s.documents.map Prod.snd = ["a: 1", "a: 2"] ∧ ∃ format key recurse,
        kvSource.chosen = .ok format ∧ kvSource.watched = .ok (key, recurse) ∧
          Recorded kvSource recurse format s := by
  obtain ⟨s, hwatch, hdocuments, -⟩ := exists_watch_kv
  exact ⟨s, hwatch, hdocuments, recorded_of_watch hwatch⟩

theorem tracked_of_run {recurse : Bool} {format : Format}
    (hrun : run (State.step source recurse format) (.start (.fresh index entries)) events = some s)
    (hpos : 0 < index) (hheaded : ∀ e ∈ events, e ≠ .reply (.answer false)) : Tracked s :=
  run_invariant_of (fun _ _ _ he hstep hs ↦ Tracked.step hs he hstep) hheaded hrun
    (tracked_start hpos entries)

/-- The agent holds the query: it has nothing to answer. -/
def State.Held (s : State) : Prop := s.point = .asked ∧ ¬ s.Due

/-- **While the agent holds a query there is nothing to miss.** Where it names its index with every
answer and one was taken since its index was last set anew, the caller knows the document that is
stored. -/
theorem current_of_held (h : source.watch index entries events = .ok (some s)) (hpos : 0 < index)
    (hheaded : ∀ e ∈ events, e ≠ .reply (.answer false)) (hheld : s.Held)
    (hsince : s.read.map Agent.restores = some s.agent.restores) :
    ∃ format key recurse, source.chosen = .ok format ∧ source.watched = .ok (key, recurse) ∧
      ∀ text, source.watchedDocument s.agent.entries recurse format = .ok (some text) →
        s.documents.getLast?.map Prod.snd = some text := by
  obtain ⟨format, key, recurse, hformat, hwatched, hrun⟩ := run_of_watch h
  obtain ⟨hknown, hdated⟩ := run_invariant (I := fun s ↦ Known s ∧ Dated source recurse format s)
    (fun _ _ _ hstep hs ↦ ⟨hs.1.step hstep, hs.2.step hstep⟩) hrun ⟨known_start _, dated_start _⟩
  have htracked := tracked_of_run hrun hpos hheaded
  refine ⟨format, key, recurse, hformat, hwatched, fun text htext ↦ ?_⟩
  obtain ⟨hpoint, hdue⟩ := hheld
  obtain ⟨hzero, hle⟩ := not_or.1 hdue
  have hsettled : s.settled = (s.index, s.read) := by rw [State.settled, hpoint]
  have hindex := htracked.index
  rw [hsettled] at hindex
  obtain ⟨found, hfound, hsame⟩ := hindex.resolve_left hzero
  dsimp only at hfound hsame
  have hrestores : found.restores = s.agent.restores := by
    rw [hfound] at hsince
    exact Option.some.inj hsince
  have hagent : found = s.agent := by
    obtain hagent | ⟨-, -, hlater⟩ | ⟨hmore, -⟩ := hdated.agent.read found hfound
    · exact hagent
    · exact absurd (hsame ▸ hlater) hle
    · omega
  rw [← hagent] at htext
  show (s.seen.head?.toList ++ s.given).getLast?.map Prod.snd = some text
  rw [← hknown.given, Changes.getLast?_changes, ← hknown.last]
  exact hdated.read found text hfound htext

theorem current_of_held_kv :
    ∃ s, kvSource.watch 4 [kvEntry "YTogMQ=="] kvEvents = .ok (some s) ∧ s.Held ∧
      ∃ format key recurse, kvSource.chosen = .ok format ∧ kvSource.watched = .ok (key, recurse) ∧
        ∀ text, kvSource.watchedDocument s.agent.entries recurse format = .ok (some text) →
          s.documents.getLast?.map Prod.snd = some text := by
  obtain ⟨s, hwatch, -, hpoint, hindex, hagent, hsince, -⟩ := exists_watch_kv
  have hheld : s.Held := by
    refine ⟨hpoint, ?_⟩
    rw [State.Due, hindex, hagent]
    decide
  exact ⟨s, hwatch, hheld, current_of_held hwatch (by decide) headed_kv hheld hsince⟩

/-- **The loop does not spin** where every answer names the index: without one it asks again from 0, and is
answered at once. A query is answered at once for being the first, for a write, or for a new beginning,
which costs two; any other waits or is slept on. -/
theorem asked_le_of_watch (h : source.watch index entries events = .ok (some s)) (hpos : 0 < index)
    (hheaded : ∀ e ∈ events, e ≠ .reply (.answer false)) :
    s.prompt ≤ 1 + s.agent.commits + 2 * s.agent.restores ∧
      s.asked ≤ 2 + s.agent.commits + 2 * s.agent.restores + s.expired + s.pauses := by
  obtain ⟨format, key, recurse, -, -, hrun⟩ := run_of_watch h
  have htracked := tracked_of_run hrun hpos hheaded
  have hprompt := htracked.prompt
  have hworth := htracked.worth_le
  have hasked := htracked.asked
  have hout : s.point.out ≤ 1 := by
    cases s.point with
    | asked => exact Nat.le_refl 1
    | checking | answered | pausing | ended => exact Nat.zero_le 1
  rw [Agent.worth] at hworth
  constructor
  · omega
  · omega

theorem asked_le_of_watch_kv :
    ∃ s, kvSource.watch 4 [kvEntry "YTogMQ=="] kvEvents = .ok (some s) ∧ s.prompt = 2 ∧ s.asked = 4 ∧
      (s.prompt ≤ 1 + s.agent.commits + 2 * s.agent.restores ∧
        s.asked ≤ 2 + s.agent.commits + 2 * s.agent.restores + s.expired + s.pauses) := by
  obtain ⟨s, hwatch, -, -, -, -, -, hprompt, hasked⟩ := exists_watch_kv
  exact ⟨s, hwatch, hprompt, hasked, asked_le_of_watch hwatch (by decide) headed_kv⟩

end

end DynamicConfig.Consul.Blocking
