import DynamicConfig.Etcd.Source
import DynamicConfig.Transition.Run

/-!
# Watching etcd

The loop of `Etcd::watch`. A stream hands over the writes it was established for; a token that expires
ends the stream, the token is replaced, and the stream is established again from `resume_from`, which
is one past the header of the last message. Until a message has come there is nothing to resume from,
and the stream is established where the store then is.

Once there is a revision to resume from, it is no later than anything outstanding, whatever headers
the messages have come with (`Kept.resume`). Nothing else is said here of what a recovery keeps.
-/

namespace DynamicConfig.Etcd

open Revisions Transition

/-! ### The loop -/

/-- A request that needs the token. -/
inductive Call where
  /-- The first `watch_once`. -/
  | first
  /-- The `watch_once` of a recovery. -/
  | resume
  /-- The range read of a batch, at its revision. -/
  | read (revision : Nat)
  deriving DecidableEq

/-- Where the loop is. -/
inductive Point where
  /-- A request is out, and whether the token has been replaced for it. -/
  | asking (call : Call) (retried : Bool)
  /-- The token is being replaced. -/
  | refreshing (call : Call)
  /-- The stream's next message is awaited. -/
  | message
  /-- `watch` has returned an error. -/
  | ended
  deriving DecidableEq

/-- The request a point has to do with. -/
def Point.call : Point → Option Call
  | .asking call _ | .refreshing call => some call
  | _ => none

/-- The store, the loop, and what has been delivered. -/
structure Watch where
  store : Store
  point : Point
  format : Format
  /-- The stream. -/
  feed : Option Feed
  token_recoveries : Nat
  resume_from : Option Nat
  /-- The first revision after the watch was first established. No turn reads it. -/
  opened : Option Nat
  /-- What `on_change` has been given, oldest first, each with the revision it is of. -/
  delivered : List (Nat × Fetched)

/-- How a request comes back. -/
inductive Answer where
  | granted | expired | failed
  deriving DecidableEq

/-- One turn, the store's or the loop's. -/
inductive Turn where
  | commit (writes : List Write)
  /-- The request comes back. A document it brings is accepted, or refused. -/
  | answer (answer : Answer) (accepted : Bool)
  | refresh (granted : Bool)
  /-- A message with the next events, and with a header's revision. So many of its documents are
  accepted before one is refused. -/
  | message (count : Nat) (header : Option Nat) (canceled : Bool) (accepted : Nat)
  /-- The stream fails, because the token has expired or otherwise. -/
  | failed (expired : Bool)
  | closed

/-- Consecutive is what matters: any message resets the count. -/
def MOST_TOKEN_RECOVERIES : Nat := 3

/-- A watch before its first request, or nothing where it is refused without one. -/
def watch (etcd : Source) (store : Store) : Option Watch :=
  match etcd.chosen, etcd.keys with
  | none, _ => none
  | some _, .several _ => none
  | some format, _ => some ⟨store, .asking .first false, format, none, 0, none, none, []⟩

namespace Watch

/-- A stream established from a revision, or where the store is. -/
def watch_once (sys : Watch) (from_revision : Option Nat) : Watch :=
  { sys with feed := some ⟨from_revision.getD (sys.store.revision + 1), 0⟩, point := .message }

/-- The stream is established for the first time. -/
def establish (sys : Watch) : Watch :=
  { sys.watch_once none with opened := some (sys.store.revision + 1) }

/-- A range has been read, and its document is delivered. -/
def reread (folded : List (String × String) → Format → Option String) (etcd : Source) (sys : Watch)
    (revision : Nat) (accepted : Bool) : Watch :=
  match etcd.keys with
  | .prefixed root =>
    match readAt folded sys.store root sys.format revision with
    | .failed => { sys with point := .ended }
    -- No configuration is not a configuration.
    | .empty => { sys with point := .message }
    | .document document =>
      { sys with
        delivered := sys.delivered ++ [(revision, document)]
        point := if accepted then .message else .ended }
  | _ => { sys with point := .ended }

/-- Delivers the puts of a batch, and says whether the loop goes on. -/
def deliver (format : Format) : List (Nat × Write) → Nat → List (Nat × Fetched) × Bool
  | [], _ => ([], true)
  | e :: events, accepted =>
    match e.2.value with
    | none => deliver format events accepted
    | some value =>
      match from_utf8 value with
      | none => ([], false)
      | some text =>
        match accepted with
        | 0 => ([(e.1, ⟨text, format⟩)], false)
        | accepted + 1 =>
          let rest := deliver format events accepted
          ((e.1, ⟨text, format⟩) :: rest.1, rest.2)

/-- A message proves the token good, and its header is where a recovery resumes. -/
def heard (sys : Watch) (feed : Feed) (header : Option Nat) : Watch :=
  { sys with
    feed := some feed
    token_recoveries := 0
    resume_from := (header.map (· + 1)).or sys.resume_from }

/-- What a batch comes to: of a prefix a read at its revision, of a key its puts. -/
def batch (etcd : Source) (sys : Watch) (events : List (Nat × Write)) (header : Option Nat)
    (accepted : Nat) : Watch :=
  match etcd.keys with
  | .prefixed _ =>
    if events.isEmpty then { sys with point := .message }
    else
      match header with
      | none => { sys with point := .message }
      | some revision => { sys with point := .asking (.read revision) false }
  | _ =>
    { sys with
      delivered := sys.delivered ++ (deliver sys.format events accepted).1
      point := if (deliver sys.format events accepted).2 then .message else .ended }

/-- A message has been received. -/
def receive (etcd : Source) (sys : Watch) (feed : Feed) (events : List (Nat × Write))
    (header : Option Nat) (canceled : Bool) (accepted : Nat) : Watch :=
  if canceled then { sys.heard (feed.hand events.length) header with point := .ended }
  else (sys.heard (feed.hand events.length) header).batch etcd events header accepted

/-- A header is at or past the events it comes with, and before the next one. -/
def Fits (store : Store) (events rest : List (Nat × Write)) : Option Nat → Prop
  | none => True
  | some revision =>
    revision ≤ store.revision ∧ (∀ e ∈ events, e.1 ≤ revision) ∧ ∀ e ∈ rest, revision < e.1

instance (store : Store) (events rest : List (Nat × Write)) :
    (header : Option Nat) → Decidable (Fits store events rest header)
  | none => isTrue trivial
  | some revision => inferInstanceAs (Decidable
      (revision ≤ store.revision ∧ (∀ e ∈ events, e.1 ≤ revision) ∧ ∀ e ∈ rest, revision < e.1))

/-- The events the stream has yet to hand over. -/
def outstanding (etcd : Source) (sys : Watch) : List (Nat × Write) :=
  match sys.feed with
  | none => []
  | some feed => feed.outstanding etcd.watches sys.store

/-- A request comes back. -/
def answered (folded : List (String × String) → Format → Option String) (etcd : Source)
    (sys : Watch) (call : Call) (retried accepted : Bool) : Answer → Watch
  | .failed => { sys with point := .ended }
  | .expired => { sys with point := if retried then .ended else .refreshing call }
  | .granted =>
    match call with
    | .first => sys.establish
    | .resume => sys.watch_once sys.resume_from
    | .read revision => sys.reread folded etcd revision accepted

/-- The stream fails. -/
def failing (sys : Watch) (expired : Bool) : Watch :=
  if expired then
    { sys with
      token_recoveries := sys.token_recoveries + 1
      point :=
        if MOST_TOKEN_RECOVERIES < sys.token_recoveries + 1 then .ended else .refreshing .resume }
  else { sys with point := .ended }

/-- What one turn does. -/
def step (folded : List (String × String) → Format → Option String) (etcd : Source) (sys : Watch) :
    Turn → Option Watch
  | .commit writes =>
    if hwrites : writes.Pairwise Apart then
      some { sys with store := sys.store.commit writes hwrites }
    else none
  | .answer answer accepted =>
    match sys.point with
    | .asking call retried => some (sys.answered folded etcd call retried accepted answer)
    | _ => none
  | .refresh granted =>
    match sys.point with
    | .refreshing call =>
      some { sys with point := if granted then .asking call true else .ended }
    | _ => none
  | .message count header canceled accepted =>
    match sys.point, sys.feed with
    | .message, some feed =>
      if count ≤ (sys.outstanding etcd).length ∧ Fits sys.store ((sys.outstanding etcd).take count)
          ((sys.outstanding etcd).drop count) header then
        some (sys.receive etcd feed ((sys.outstanding etcd).take count) header canceled accepted)
      else none
    | _, _ => none
  | .failed expired => if sys.point = .message then some (sys.failing expired) else none
  | .closed => if sys.point = .message then some { sys with point := .ended } else none

end Watch

/-! ### What one turn can do -/

namespace Watch

variable {folded : List (String × String) → Format → Option String} {etcd : Source}
  {sys sys' : Watch}

/-- What a turn leaves behind. -/
inductive Effect (folded : List (String × String) → Format → Option String) (etcd : Source)
    (sys : Watch) (turn : Turn) : Watch → Prop where
  | committed (writes : List Write) (hwrites : writes.Pairwise Apart) :
      Effect folded etcd sys turn { sys with store := sys.store.commit writes hwrites }
  | moved (point : Point) (recoveries : Nat) (hlive : sys.point ≠ .ended)
      (hpoint : point = .ended ∨ point.call = sys.point.call ∨
        sys.point = .message ∧ point.call = some .resume)
      (hrecoveries : point = .ended ∨ recoveries = sys.token_recoveries ∨
        recoveries ≤ MOST_TOKEN_RECOVERIES) :
      Effect folded etcd sys turn { sys with point, token_recoveries := recoveries }
  | established (hcall : sys.point.call = some .first) : Effect folded etcd sys turn sys.establish
  | resumed (accepted : Bool) (hturn : turn = .answer .granted accepted)
      (hcall : sys.point.call = some .resume) :
      Effect folded etcd sys turn (sys.watch_once sys.resume_from)
  | reread (revision : Nat) (accepted : Bool) (hcall : sys.point.call = some (.read revision)) :
      Effect folded etcd sys turn (sys.reread folded etcd revision accepted)
  | received (count : Nat) (header : Option Nat) (canceled : Bool) (accepted : Nat) (feed : Feed)
      (hturn : turn = .message count header canceled accepted) (hpoint : sys.point = .message)
      (hfeed : sys.feed = some feed) (hcount : count ≤ (sys.outstanding etcd).length)
      (hfits : Fits sys.store ((sys.outstanding etcd).take count)
        ((sys.outstanding etcd).drop count) header) :
      Effect folded etcd sys turn
        (sys.receive etcd feed ((sys.outstanding etcd).take count) header canceled accepted)

/-- The loop only gives up. -/
theorem Effect.stopped {turn : Turn} (hlive : sys.point ≠ .ended) :
    Effect folded etcd sys turn { sys with point := .ended } :=
  Effect.moved .ended sys.token_recoveries hlive (Or.inl rfl) (Or.inl rfl)

/-- **Every turn does one of these.** -/
theorem effect_of_step {turn : Turn} (hstep : sys.step folded etcd turn = some sys') :
    Effect folded etcd sys turn sys' := by
  have hlive : ∀ {point : Point}, sys.point = point → point ≠ .ended → sys.point ≠ .ended :=
    fun hpoint hne ↦ hpoint ▸ hne
  rcases turn with writes | ⟨answer, accepted⟩ | granted | ⟨count, header, canceled, accepted⟩ |
    expired | -
  case commit =>
    rw [step] at hstep
    split at hstep
    · next hwrites =>
      obtain rfl := Option.some.inj hstep
      exact Effect.committed writes hwrites
    · cases hstep
  case answer =>
    rw [step] at hstep
    split at hstep
    · next call retried hpoint =>
      obtain rfl := Option.some.inj hstep
      have hcall : sys.point.call = some call := by rw [hpoint]; rfl
      have hne := hlive hpoint (by intro h; cases h)
      rcases answer with - | - | -
      case granted =>
        rcases call with - | - | revision
        · exact Effect.established hcall
        · exact Effect.resumed accepted rfl hcall
        · exact Effect.reread revision accepted hcall
      case expired =>
        refine Effect.moved (if retried then .ended else .refreshing call) sys.token_recoveries hne ?_
          (Or.inr (Or.inl rfl))
        split
        · exact Or.inl rfl
        · exact Or.inr (Or.inl hcall.symm)
      case failed => exact Effect.stopped hne
    · cases hstep
  case refresh =>
    rw [step] at hstep
    split at hstep
    · next call hpoint =>
      obtain rfl := Option.some.inj hstep
      have hne := hlive hpoint (by intro h; cases h)
      split
      · refine Effect.moved (.asking call true) sys.token_recoveries hne (Or.inr (Or.inl ?_))
          (Or.inr (Or.inl rfl))
        rw [hpoint]
        rfl
      · exact Effect.stopped hne
    · cases hstep
  case message =>
    rw [step] at hstep
    split at hstep
    · next feed hpoint hfeed =>
      split at hstep
      · next hmessage =>
        obtain rfl := Option.some.inj hstep
        exact Effect.received count header canceled accepted feed rfl hpoint hfeed hmessage.1
          hmessage.2
      · cases hstep
    · cases hstep
  case failed =>
    rw [step] at hstep
    split at hstep
    · next hpoint =>
      obtain rfl := Option.some.inj hstep
      have hne := hlive hpoint (by intro h; cases h)
      rw [failing]
      split
      · refine Effect.moved _ (sys.token_recoveries + 1) hne ?_ ?_
        · split
          · exact Or.inl rfl
          · exact Or.inr (Or.inr ⟨hpoint, rfl⟩)
        · split
          · exact Or.inl rfl
          · next hcap => exact Or.inr (Or.inr (Nat.le_of_not_lt hcap))
      · exact Effect.stopped hne
    · cases hstep
  case closed =>
    rw [step] at hstep
    split at hstep
    · next hpoint =>
      obtain rfl := Option.some.inj hstep
      exact Effect.stopped (hlive hpoint (by intro h; cases h))
    · cases hstep

/-- A range read changes what is delivered, and where the loop is. -/
theorem reread_frame (folded : List (String × String) → Format → Option String) (etcd : Source)
    (revision : Nat) (accepted : Bool) :
    ∃ point delivered, point.call = none ∧
      sys.reread folded etcd revision accepted = { sys with point, delivered } := by
  rw [reread]
  split
  · split
    · exact ⟨.ended, sys.delivered, rfl, rfl⟩
    · exact ⟨.message, sys.delivered, rfl, rfl⟩
    · refine ⟨if accepted then .message else .ended, _, ?_, rfl⟩
      split <;> rfl
  · exact ⟨.ended, sys.delivered, rfl, rfl⟩

/-- So does a message, beside the stream's place and the resume point. -/
theorem receive_frame (etcd : Source) (feed : Feed) (events : List (Nat × Write))
    (header : Option Nat) (canceled : Bool) (accepted : Nat) :
    ∃ point delivered,
      (point.call = none ∨ ∃ revision, header = some revision ∧
        point.call = some (.read revision)) ∧
      sys.receive etcd feed events header canceled accepted =
        { sys.heard (feed.hand events.length) header with point, delivered } := by
  rw [receive]
  split
  · exact ⟨.ended, sys.delivered, Or.inl rfl, rfl⟩
  · unfold batch
    split
    · split
      · exact ⟨.message, sys.delivered, Or.inl rfl, rfl⟩
      · split
        · exact ⟨.message, sys.delivered, Or.inl rfl, rfl⟩
        · next revision =>
          exact ⟨.asking (.read revision) false, sys.delivered, Or.inr ⟨revision, rfl, rfl⟩, rfl⟩
    · refine ⟨if (deliver sys.format events accepted).2 then .message else .ended, _, Or.inl ?_, rfl⟩
      split <;> rfl

@[simp] theorem reread_store (revision : Nat) (accepted : Bool) :
    (sys.reread folded etcd revision accepted).store = sys.store := by
  obtain ⟨point, delivered, -, hframe⟩ := sys.reread_frame folded etcd revision accepted
  rw [hframe]

@[simp] theorem reread_opened (revision : Nat) (accepted : Bool) :
    (sys.reread folded etcd revision accepted).opened = sys.opened := by
  obtain ⟨point, delivered, -, hframe⟩ := sys.reread_frame folded etcd revision accepted
  rw [hframe]

@[simp] theorem reread_format (revision : Nat) (accepted : Bool) :
    (sys.reread folded etcd revision accepted).format = sys.format := by
  obtain ⟨point, delivered, -, hframe⟩ := sys.reread_frame folded etcd revision accepted
  rw [hframe]

@[simp] theorem reread_outstanding (revision : Nat) (accepted : Bool) :
    (sys.reread folded etcd revision accepted).outstanding etcd = sys.outstanding etcd := by
  obtain ⟨point, delivered, -, hframe⟩ := sys.reread_frame folded etcd revision accepted
  rw [hframe]
  rfl

section Receive

variable (feed : Feed) (events : List (Nat × Write)) (header : Option Nat) (canceled : Bool)
  (accepted : Nat)

@[simp] theorem receive_store :
    (sys.receive etcd feed events header canceled accepted).store = sys.store := by
  obtain ⟨point, delivered, -, hframe⟩ := sys.receive_frame etcd feed events header canceled accepted
  rw [hframe]
  rfl

@[simp] theorem receive_opened :
    (sys.receive etcd feed events header canceled accepted).opened = sys.opened := by
  obtain ⟨point, delivered, -, hframe⟩ := sys.receive_frame etcd feed events header canceled accepted
  rw [hframe]
  rfl

@[simp] theorem receive_format :
    (sys.receive etcd feed events header canceled accepted).format = sys.format := by
  obtain ⟨point, delivered, -, hframe⟩ := sys.receive_frame etcd feed events header canceled accepted
  rw [hframe]
  rfl

end Receive

/-! ### The stream and its resume point -/

theorem outstanding_of_feed (etcd : Source) {feed : Feed} (hfeed : sys.feed = some feed) :
    sys.outstanding etcd = feed.outstanding etcd.watches sys.store := by
  rw [outstanding, hfeed]

theorem mem_log_of_outstanding {e : Nat × Write} (he : e ∈ sys.outstanding etcd) :
    e ∈ sys.store.log ∧ etcd.watches e.2 = true := by
  rcases hfeed : sys.feed with - | feed
  · rw [outstanding, hfeed] at he
    exact absurd he List.not_mem_nil
  · rw [outstanding_of_feed etcd hfeed] at he
    exact Feed.mem_log_of_mem he

/-- A stream that is established hands over everything from its first revision on. -/
theorem outstanding_watch_once (from_revision : Option Nat) :
    (sys.watch_once from_revision).outstanding etcd =
      sys.store.events etcd.watches (from_revision.getD (sys.store.revision + 1)) := rfl

/-- What holds of the loop, whatever has been skipped. -/
structure Kept (etcd : Source) (sys : Watch) : Prop where
  behind : ∀ feed, sys.feed = some feed → feed.Behind etcd.watches sys.store
  fed : ∀ opened, sys.opened = some opened → ∃ feed, sys.feed = some feed
  opened_le : ∀ opened, sys.opened = some opened → opened ≤ sys.store.revision + 1
  fresh : sys.point.call = some .first → sys.delivered = [] ∧ sys.resume_from = none
  /-- A recovery does not skip what is outstanding, once there is a revision to resume from. -/
  resume : ∀ revision, sys.resume_from = some revision →
    revision ≤ sys.store.revision + 1 ∧ ∀ e ∈ sys.outstanding etcd, revision ≤ e.1
  reading : ∀ revision, sys.point.call = some (.read revision) → revision ≤ sys.store.revision
  recoveries : sys.point ≠ .ended → sys.token_recoveries ≤ MOST_TOKEN_RECOVERIES

/-- A loop that has a request out is not over. -/
theorem live_of_call {call : Call} (hcall : sys.point.call = some call) : sys.point ≠ .ended := by
  intro hended
  rw [hended] at hcall
  cases hcall

theorem kept_watch {store : Store} (h : watch etcd store = some sys) : Kept etcd sys := by
  have hnone : ∀ {α : Type} {P : α → Prop} (a : α), none = some a → P a :=
    fun a ha ↦ absurd ha (Option.some_ne_none a).symm
  rw [watch] at h
  split at h
  · cases h
  · cases h
  · obtain rfl := Option.some.inj h
    exact ⟨hnone, hnone, hnone, fun _ ↦ ⟨rfl, rfl⟩, hnone, fun revision hcall ↦ (by cases hcall),
      fun _ ↦ Nat.zero_le _⟩

/-- Commits are outstanding on the stream there is. -/
theorem Kept.outstanding_commit (h : Kept etcd sys) {feed : Feed} (hfeed : sys.feed = some feed)
    (writes : List Write) (hwrites : writes.Pairwise Apart) :
    ({ sys with store := sys.store.commit writes hwrites } : Watch).outstanding etcd =
      sys.outstanding etcd ++
        (writes.filter etcd.watches).map fun write ↦ (sys.store.revision + 1, write) := by
  have hnew : ({ sys with store := sys.store.commit writes hwrites } : Watch).outstanding etcd =
      feed.outstanding etcd.watches (sys.store.commit writes hwrites) := by
    rw [outstanding, hfeed]
  rw [hnew, outstanding_of_feed etcd hfeed]
  exact (h.behind feed hfeed).outstanding_commit writes hwrites

theorem Kept.commit (h : Kept etcd sys) (writes : List Write) (hwrites : writes.Pairwise Apart) :
    Kept etcd { sys with store := sys.store.commit writes hwrites } where
  behind feed hfeed := (h.behind feed hfeed).commit writes hwrites
  fed := h.fed
  opened_le opened hopened := Nat.le_succ_of_le (h.opened_le opened hopened)
  fresh := h.fresh
  resume revision hresume := by
    obtain ⟨hle, hafter⟩ := h.resume revision hresume
    refine ⟨Nat.le_succ_of_le hle, fun e he ↦ ?_⟩
    rcases hfeed : sys.feed with - | feed
    · rw [outstanding, hfeed] at he
      exact absurd he List.not_mem_nil
    · rw [h.outstanding_commit hfeed] at he
      rcases List.mem_append.1 he with hold | hnew
      · exact hafter e hold
      · obtain ⟨write, -, rfl⟩ := List.mem_map.1 hnew
        exact hle
  reading revision hcall := Nat.le_succ_of_le (h.reading revision hcall)
  recoveries := h.recoveries

theorem Kept.moved (h : Kept etcd sys) {point : Point} {recoveries : Nat}
    (hlive : sys.point ≠ .ended)
    (hpoint : point = .ended ∨ point.call = sys.point.call ∨
      sys.point = .message ∧ point.call = some .resume)
    (hrecoveries : point = .ended ∨ recoveries = sys.token_recoveries ∨
      recoveries ≤ MOST_TOKEN_RECOVERIES) :
    Kept etcd { sys with point, token_recoveries := recoveries } := by
  have hold : ∀ call, call ≠ .resume → point.call = some call → sys.point.call = some call := by
    intro call hne hcall
    rcases hpoint with rfl | hsame | ⟨-, hresume⟩
    · cases hcall
    · exact hsame ▸ hcall
    · exact absurd (Option.some.inj (hcall.symm.trans hresume)) hne
  refine ⟨h.behind, h.fed, h.opened_le, fun hfirst ↦ ?_, h.resume, fun r hread ↦ ?_, fun hne ↦ ?_⟩
  · exact h.fresh (hold .first (by decide) hfirst)
  · exact h.reading r (hold (.read r) (fun hread ↦ by cases hread) hread)
  · rcases hrecoveries with hended | hsame | hle
    · exact absurd hended hne
    · exact Nat.le_trans (Nat.le_of_eq hsame) (h.recoveries hlive)
    · exact hle

theorem Kept.establish (h : Kept etcd sys) (hlive : sys.point ≠ .ended) :
    Kept etcd sys.establish where
  behind feed hfeed := Option.some.inj hfeed ▸ Feed.behind_opened (Nat.le_refl _)
  fed _ _ := ⟨_, rfl⟩
  opened_le opened hopened := Nat.le_of_eq (Option.some.inj hopened).symm
  fresh hfirst := by cases hfirst
  resume r hr := by
    -- Nothing is on a stream that is established where the store is.
    have hnone : sys.establish.outstanding etcd = [] := History.events_eq_nil (Nat.lt_succ_self _)
    exact ⟨(h.resume r hr).1, fun e he ↦ absurd (hnone ▸ he : e ∈ []) List.not_mem_nil⟩
  reading r hr := by cases hr
  recoveries _ := h.recoveries hlive

theorem Kept.watch_once (h : Kept etcd sys) (hlive : sys.point ≠ .ended) :
    Kept etcd (sys.watch_once sys.resume_from) where
  behind feed hfeed := by
    obtain rfl := Option.some.inj hfeed
    refine Feed.behind_opened ?_
    rcases hresume : sys.resume_from with - | r
    · exact Nat.le_refl _
    · exact (h.resume r hresume).1
  fed _ _ := ⟨_, rfl⟩
  opened_le := h.opened_le
  fresh hfirst := by cases hfirst
  resume r hr := by
    have hfrom : sys.resume_from = some r := hr
    refine ⟨(h.resume r hr).1, fun e he ↦ ?_⟩
    rw [hfrom, outstanding_watch_once] at he
    exact (History.mem_events.1 he).2.1
  reading r hr := by cases hr
  recoveries _ := h.recoveries hlive

theorem Kept.reread (h : Kept etcd sys) (hlive : sys.point ≠ .ended) (revision : Nat)
    (accepted : Bool) : Kept etcd (sys.reread folded etcd revision accepted) := by
  obtain ⟨point, delivered, hnone, hframe⟩ :=
    sys.reread_frame folded etcd revision accepted
  have hno : ∀ call, point.call ≠ some call := fun call hcall ↦
    absurd (hcall.symm.trans hnone) (Option.some_ne_none call)
  rw [hframe]
  exact ⟨h.behind, h.fed, h.opened_le, fun hfirst ↦ absurd hfirst (hno .first), h.resume,
    fun r hr ↦ absurd hr (hno (.read r)), fun _ ↦ h.recoveries hlive⟩

/-- What a message hands over is what was next, and the rest is still outstanding. -/
theorem outstanding_heard (etcd : Source) {feed : Feed} (hfeed : sys.feed = some feed)
    (count : Nat) (header : Option Nat) : (sys.heard (feed.hand count) header).outstanding etcd =
      (sys.outstanding etcd).drop count := by
  rw [outstanding_of_feed etcd hfeed]
  exact Feed.outstanding_hand count

theorem outstanding_receive {feed : Feed} (hfeed : sys.feed = some feed) {count : Nat}
    (hcount : count ≤ (sys.outstanding etcd).length) (header : Option Nat) (canceled : Bool)
    (accepted : Nat) :
    (sys.receive etcd feed ((sys.outstanding etcd).take count) header canceled accepted).outstanding
      etcd = (sys.outstanding etcd).drop count := by
  obtain ⟨point, delivered, -, hframe⟩ := sys.receive_frame etcd feed
    ((sys.outstanding etcd).take count) header canceled accepted
  rw [hframe, List.length_take_of_le hcount]
  exact outstanding_heard etcd hfeed count header

theorem Kept.receive (h : Kept etcd sys) {feed : Feed} (hfeed : sys.feed = some feed) {count : Nat}
    (hcount : count ≤ (sys.outstanding etcd).length) {header : Option Nat}
    (hfits : Fits sys.store ((sys.outstanding etcd).take count)
      ((sys.outstanding etcd).drop count) header) (canceled : Bool) (accepted : Nat) :
    Kept etcd (sys.receive etcd feed ((sys.outstanding etcd).take count) header canceled accepted) := by
  obtain ⟨point, delivered, hcall, hframe⟩ := sys.receive_frame etcd feed
    ((sys.outstanding etcd).take count) header canceled accepted
  rw [hframe, List.length_take_of_le hcount]
  refine ⟨fun feed' hfeed' ↦ ?_, fun _ _ ↦ ⟨_, rfl⟩, h.opened_le, fun hfirst ↦ ?_, fun r hr ↦ ?_,
    fun r hr ↦ ?_, fun _ ↦ Nat.zero_le _⟩
  · obtain rfl := Option.some.inj hfeed'
    exact (h.behind feed hfeed).hand (outstanding_of_feed etcd hfeed ▸ hcount)
  · rw [show point.call = some .first from hfirst] at hcall
    rcases hcall with hcall | ⟨_, -, hcall⟩
    · cases hcall
    · cases hcall
  · have hrest := outstanding_heard etcd hfeed count header
    rcases header with - | header
    · obtain ⟨hle, hafter⟩ := h.resume r hr
      exact ⟨hle, fun e he ↦ hafter e (List.mem_of_mem_drop (hrest ▸ he))⟩
    · obtain rfl := Option.some.inj hr
      exact ⟨Nat.succ_le_succ hfits.1, fun e he ↦ hfits.2.2 e (hrest ▸ he)⟩
  · rw [show point.call = some (.read r) from hr] at hcall
    rcases hcall with hcall | ⟨revision, hheader, hcall⟩
    · cases hcall
    · obtain rfl : r = revision := by
        have hread := Option.some.inj hcall
        injection hread
      rw [hheader] at hfits
      exact hfits.1

/-- **One turn keeps it.** -/
theorem Kept.step (h : Kept etcd sys) {turn : Turn} (hstep : sys.step folded etcd turn = some sys') :
    Kept etcd sys' := by
  rcases effect_of_step hstep with ⟨writes, hwrites⟩ | ⟨point, recoveries, hlive, hpoint, hrecoveries⟩ |
    ⟨hcall⟩ | ⟨accepted, -, hcall⟩ | ⟨revision, accepted, hcall⟩ |
    ⟨count, header, canceled, accepted, feed, -, hpoint, hfeed, hcount, hfits⟩
  · exact h.commit writes hwrites
  · exact h.moved hlive hpoint hrecoveries
  · exact h.establish (live_of_call hcall)
  · exact h.watch_once (live_of_call hcall)
  · exact h.reread (live_of_call hcall) revision accepted
  · exact h.receive hfeed hcount hfits canceled accepted

end Watch

end DynamicConfig.Etcd
