import DynamicConfig.Redis.Source
import DynamicConfig.Transition.Run
import Mathlib.Data.List.Chain

/-!
# Watching Redis

The loop of `Redis::watch`. The server queues a notification for every command that changes a key
whose channel has been subscribed to; the loop takes them in order, skips a deletion, and answers
anything else with a fetch of its own. The fetch is one command, so what it brings is what the keys
held together at one point, whatever the notification was of.

A document is delivered at a point no earlier than the last (`Replays`), of several keys never the
same one twice in a row, and the answer to the last write is what the keys hold until one of them
holds nothing (`watch_of_run`). The last rests on the order of the queue: nothing has been read for a
write whose notification has not been taken (`Kept.reads_lt`).
-/

namespace DynamicConfig.Redis

open Transition

/-- What a channel publishes: the key, and the event that is its payload. -/
structure Notification where
  key : String
  event : String
  deriving DecidableEq

/-- The key holds nothing. -/
def Notification.isGone (notification : Notification) : Bool :=
  notification.event == "del" || notification.event == "expired"

/-- A fetch the loop has made, and the notification it was made for, by its place in the queue. -/
structure Read where
  index : Nat
  outcome : Except Error Fetched

/-- Where the loop is. -/
inductive Point where
  /-- The channels are being subscribed to. -/
  | subscribing
  /-- The next message is awaited. -/
  | message
  /-- A notification has been taken, and the keys are being read. -/
  | reading
  /-- `watch` has returned. -/
  | ended
  deriving DecidableEq

/-- The server, the loop, and what has been delivered. -/
structure Watch where
  /-- Every command so far. -/
  log : List Command
  /-- The keys whose channel is yet to be subscribed to. -/
  pending : List String
  /-- The keys whose channel has been. -/
  subscribed : List String
  /-- Every notification that has been queued. -/
  sent : List Notification
  /-- How many of them have been taken. -/
  taken : Nat
  point : Point
  /-- What the last delivery carried, of several keys. -/
  last : Option String
  /-- Every fetch. No turn reads it. -/
  reads : List Read
  /-- What `on_change` has been given. -/
  delivered : List Fetched
  /-- What the sink has been told. -/
  reported : List Error

/-- One turn, the server's or the loop's. -/
inductive Turn where
  | command (command : Command)
  /-- The next channel is subscribed to, or is not. -/
  | subscribe (failure : Option Error)
  | message
  /-- The subscription fails. -/
  | failed (error : Error)
  /-- The fetch, unless it fails on its way. The document it brings is accepted, or refused. -/
  | mget (failure : Option Error) (accepted : Bool)
  | stop

/-- A watch before its first `SUBSCRIBE`, or the error where it is refused without one. -/
def watch (redis : Source) (log : List Command) : Except Error Watch := do
  let _ ← redis.chosen
  let keys ← redis.watched
  return ⟨log, keys, [], [], 0, .subscribing, none, [], [], []⟩

/-- What a command publishes. Deleting what is not there changes nothing. -/
def published (subscribed : List String) (store : Store) : Command → List Notification
  | .set key _ => if key ∈ subscribed then [⟨key, "set"⟩] else []
  | .del keys =>
    (keys.eraseDups.filter fun key ↦ (store key).isSome && decide (key ∈ subscribed)).map fun key ↦
      ⟨key, "del"⟩

/-- A set written together is not delivered once per key. -/
def coalescing (redis : Source) : Bool := 1 < redis.keys.named.length

namespace Watch

/-- A command runs, and is published. -/
def command (sys : Watch) (command : Command) : Watch :=
  { sys with
    log := sys.log ++ [command]
    sent := sys.sent ++ published sys.subscribed (held sys.log) command }

/-- A channel has been subscribed to. -/
def subscribe (sys : Watch) (key : String) (rest : List String) : Watch :=
  { sys with
    pending := rest
    subscribed := sys.subscribed ++ [key]
    point := if rest = [] then .message else .subscribing }

/-- The loop returns an error, which is reported as well. -/
def failing (sys : Watch) (error : Error) : Watch :=
  { sys with point := .ended, reported := sys.reported ++ [error] }

/-- A message has been received. -/
def receive (sys : Watch) (notification : Notification) : Watch :=
  { sys with
    taken := sys.taken + 1
    point := if notification.isGone then .message else .reading }

/-- The loop goes on where the document is accepted, and returns its refusal where it is not. -/
def deliver (redis : Source) (sys : Watch) (document : Fetched) (accepted : Bool) : Watch :=
  { sys with
    last := if coalescing redis then some document.text else sys.last
    delivered := sys.delivered ++ [document]
    point := if accepted then .message else .ended }

/-- The keys have been read, for the notification taken last. -/
def reread (redis : Source) (sys : Watch) (outcome : Except Error Fetched) (accepted : Bool) :
    Watch :=
  let read := { sys with reads := sys.reads ++ [⟨sys.taken - 1, outcome⟩], point := .message }
  match outcome with
  | .error error => { read with reported := sys.reported ++ [error] }
  | .ok document =>
    if coalescing redis && sys.last == some document.text then read
    else read.deliver redis document accepted

/-- What one turn does. `unread` is the client's error for a value that is not text. -/
def step (formats : Formats) (unread : Error) (redis : Source) (sys : Watch) : Turn → Option Watch
  | .command command => some (sys.command command)
  | .subscribe failure =>
    match sys.point, sys.pending, failure with
    | .subscribing, key :: rest, none => some (sys.subscribe key rest)
    | .subscribing, _ :: _, some error => some (sys.failing error)
    | _, _, _ => none
  | .message =>
    match sys.point, sys.sent[sys.taken]? with
    | .message, some notification => some (sys.receive notification)
    | _, _ => none
  | .failed error => if sys.point = .message then some (sys.failing error) else none
  | .mget failure accepted =>
    if sys.point = .reading then
      let outcome := match failure with
        | some error => .error error
        | none => redis.fetch formats unread (held sys.log)
      some (sys.reread redis outcome accepted)
    else none
  | .stop => if sys.point = .message then some { sys with point := .ended } else none

end Watch

/-! ### What is delivered -/

/-- Documents are the in-order merges of what the keys held at points of the command sequence that
never go back. -/
def Replays (formats : Formats) (redis : Source) (log : List Command) (documents : List Fetched) :
    Prop :=
  ∃ points : List Nat, points.Pairwise (· ≤ ·) ∧
    List.Forall₂ (fun n document ↦ n ≤ log.length ∧ redis.Merge formats (held (log.take n)) document)
      points documents

section Replays

variable {formats : Formats} {redis : Source} {log : List Command} {documents : List Fetched}

theorem replays_nil (formats : Formats) (redis : Source) (log : List Command) :
    Replays formats redis log [] := ⟨[], .nil, .nil⟩

/-- A command leaves the points where they are. -/
theorem Replays.command (h : Replays formats redis log documents) (command : Command) :
    Replays formats redis (log ++ [command]) documents := by
  obtain ⟨points, hordered, hmerges⟩ := h
  refine ⟨points, hordered, hmerges.imp fun n document ⟨hle, hmerge⟩ ↦ ⟨?_, ?_⟩⟩
  · rw [List.length_append]
    exact Nat.le_add_right_of_le hle
  · rw [List.take_append_of_le_length hle]
    exact hmerge

/-- What the keys hold now comes after everything delivered before. -/
theorem Replays.append (h : Replays formats redis log documents) {document : Fetched}
    (hdocument : redis.Merge formats (held log) document) :
    Replays formats redis log (documents ++ [document]) := by
  obtain ⟨points, hordered, hmerges⟩ := h
  have hle : ∀ n ∈ points, n ≤ log.length := by
    have hall := hmerges.imp fun n document hn ↦ (⟨hn.1, hn⟩ : n ≤ log.length ∧ _)
    exact ((List.forall₂_and_left _ _).1 hall).1
  refine ⟨points ++ [log.length], ?_, List.rel_append hmerges (.cons ⟨Nat.le_refl _, ?_⟩ .nil)⟩
  · refine List.pairwise_append.2 ⟨hordered, List.pairwise_singleton _ _, fun n hn m hm ↦ ?_⟩
    exact List.mem_singleton.1 hm ▸ hle n hn
  · rw [List.take_length]
    exact hdocument

theorem Replays.chosen (h : Replays formats redis log documents) {document : Fetched}
    (hdocument : document ∈ documents) : redis.chosen = .ok document.format := by
  obtain ⟨points, -, hmerges⟩ := h
  have hall := hmerges.flip.imp fun document n hn ↦
    (⟨hn.2.format_eq, hn⟩ : redis.chosen = .ok document.format ∧ _)
  exact ((List.forall₂_and_left _ _).1 hall).1 document hdocument

end Replays

/-! ### The last write in the queue -/

/-- The last notification of a write is this one. -/
def LastSet (sent : List Notification) (i : Nat) : Prop :=
  (∃ n, sent[i]? = some n ∧ n.event = "set") ∧
    ∀ j n, i < j → sent[j]? = some n → n.event ≠ "set"

/-- A write queued before stays the last one where none is queued. -/
theorem LastSet.of_append {sent more : List Notification} {i : Nat} (h : LastSet (sent ++ more) i)
    (hi : i < sent.length) : LastSet sent i ∧ ∀ n ∈ more, n.event ≠ "set" := by
  obtain ⟨⟨n, hn, hset⟩, hlater⟩ := h
  refine ⟨⟨⟨n, ?_, hset⟩, fun j m hij hm ↦ hlater j m hij ?_⟩, fun m hm ↦ ?_⟩
  · rwa [List.getElem?_append_left hi] at hn
  · obtain ⟨hj, -⟩ := List.getElem?_eq_some_iff.1 hm
    rwa [List.getElem?_append_left hj]
  · obtain ⟨j, hj, rfl⟩ := List.mem_iff_getElem.1 hm
    refine hlater (sent.length + j) _ (by omega) ?_
    rw [List.getElem?_append_right (by omega), Nat.add_sub_cancel_left]
    exact List.getElem?_eq_getElem hj

theorem LastSet.le {sent : List Notification} {i j : Nat} (h : LastSet sent i) {n : Notification}
    (hn : sent[j]? = some n) (hset : n.event = "set") : j ≤ i := by
  by_contra hlt
  exact h.2 j n (by omega) hn hset

/-- What a command publishes is of a write or a deletion. -/
theorem event_of_published {subscribed : List String} {store : Store} {command : Command}
    {n : Notification} (hn : n ∈ published subscribed store command) :
    n.event = "set" ∨ n.event = "del" := by
  rcases command with ⟨key, value⟩ | keys
  · rw [published] at hn
    split at hn
    · exact Or.inl (List.mem_singleton.1 hn ▸ rfl)
    · cases hn
  · obtain ⟨key, -, rfl⟩ := List.mem_map.1 hn
    exact Or.inr rfl

/-- Where no write is published, a key whose channel is subscribed to holds what it held, or
nothing. -/
theorem apply_eq_of_published {subscribed : List String} {store : Store} {command : Command}
    (hnone : ∀ n ∈ published subscribed store command, n.event ≠ "set") {key : String}
    (hkey : key ∈ subscribed) (hheld : command.apply store key ≠ none) :
    command.apply store key = store key := by
  rcases command with ⟨written, value⟩ | keys
  · refine if_neg fun heq ↦ ?_
    refine hnone ⟨written, "set"⟩ ?_ rfl
    rw [published, if_pos (heq ▸ hkey)]
    exact List.mem_singleton_self _
  · exact if_neg fun hgone ↦ hheld (if_pos hgone)

/-! ### What every turn keeps -/

/-- What holds between the queue, the fetches and the deliveries. -/
structure Kept (formats : Formats) (redis : Source) (sys : Watch) : Prop where
  replays : Replays formats redis sys.log sys.delivered
  distinct : coalescing redis = true → sys.delivered.IsChain (· ≠ ·)
  last : coalescing redis = true → sys.last = sys.delivered.getLast?.map Fetched.text
  taken_le : sys.taken ≤ sys.sent.length
  /-- Nothing has been read for what has not been taken. -/
  reads_lt : ∀ r ∈ sys.reads, r.index < sys.taken
  /-- A notification that is being answered is of a write, and has not been answered before. -/
  reading : sys.point = .reading → 0 < sys.taken ∧ (∀ r ∈ sys.reads, r.index + 1 < sys.taken) ∧
    ∃ n, sys.sent[sys.taken - 1]? = some n ∧ n.event = "set"
  events : ∀ n ∈ sys.sent, n.event = "set" ∨ n.event = "del"
  covered : ∀ key ∈ redis.keys.named, key ∈ sys.subscribed ∨ key ∈ sys.pending
  /-- Nothing is taken before every channel has been subscribed to. -/
  opened : sys.pending = [] ∨ sys.reads = [] ∧ (sys.point = .subscribing ∨ sys.point = .ended)
  /-- The answer to the last write is delivered, and is what the keys hold. -/
  answered : ∀ i document, LastSet sys.sent i → ⟨i, .ok document⟩ ∈ sys.reads →
    sys.delivered.getLast? = some document ∧
      ((∀ key ∈ redis.keys.named, held sys.log key ≠ none) →
        redis.Merge formats (held sys.log) document)

section Kept

variable {formats : Formats} {unread : Error} {redis : Source} {sys sys' : Watch}

/-- Before its first `SUBSCRIBE` a watch has nothing to keep. -/
theorem kept_watch {log : List Command} (h : watch redis log = .ok sys) :
    Kept formats redis sys := by
  obtain ⟨format, hformat, hrest⟩ := exists_of_bind_eq_ok h
  obtain ⟨keys, hkeys, hsys⟩ := exists_of_bind_eq_ok hrest
  obtain rfl := Except.ok.inj hsys
  have hnamed : keys = redis.keys.named := by
    rw [Source.watched] at hkeys
    split at hkeys
    · cases hkeys
    · split at hkeys
      · cases hkeys
      · exact (Except.ok.inj hkeys).symm
  exact {
    replays := replays_nil formats redis log
    distinct := fun _ ↦ .nil
    last := fun _ ↦ rfl
    taken_le := Nat.le_refl _
    reads_lt := fun r hr ↦ absurd hr List.not_mem_nil
    reading := fun h ↦ (by cases h)
    events := fun n hn ↦ absurd hn List.not_mem_nil
    covered := fun key hkey ↦ Or.inr (hnamed ▸ hkey)
    opened := Or.inr ⟨rfl, Or.inl rfl⟩
    answered := fun i document _ hread ↦ absurd hread List.not_mem_nil }

/-- A command makes the last write another one, or leaves what the keys hold, or takes from it. -/
theorem Kept.command (h : Kept formats redis sys) (command : Command) :
    Kept formats redis (sys.command command) where
  replays := h.replays.command command
  distinct := h.distinct
  last := h.last
  taken_le := Nat.le_trans h.taken_le (List.length_append ▸ Nat.le_add_right _ _)
  reads_lt := h.reads_lt
  reading hpoint := by
    obtain ⟨htaken, hreads, n, hn, hset⟩ := h.reading hpoint
    obtain ⟨hlt, -⟩ := List.getElem?_eq_some_iff.1 hn
    exact ⟨htaken, hreads, n, (List.getElem?_append_left hlt).trans hn, hset⟩
  events n hn := (List.mem_append.1 hn).elim (h.events n) event_of_published
  covered := h.covered
  opened := h.opened
  answered i document hlast hread := by
    have hi : i < sys.sent.length := Nat.lt_of_lt_of_le (h.reads_lt _ hread) h.taken_le
    obtain ⟨hbefore, hnone⟩ := LastSet.of_append hlast hi
    obtain ⟨hdelivered, hmerge⟩ := h.answered i document hbefore hread
    refine ⟨hdelivered, fun hheld ↦ ?_⟩
    have hpending : sys.pending = [] := by
      rcases h.opened with hpending | ⟨hreads, -⟩
      · exact hpending
      · exact absurd hread (hreads ▸ List.not_mem_nil)
    have hsame : ∀ key ∈ redis.keys.named,
        held (sys.log ++ [command]) key = held sys.log key := by
      intro key hkey
      have hsubscribed : key ∈ sys.subscribed :=
        (h.covered key hkey).resolve_right (hpending ▸ List.not_mem_nil)
      have hkept := hheld key hkey
      rw [Watch.command, held_append_singleton] at hkept
      rw [held_append_singleton]
      exact apply_eq_of_published hnone hsubscribed hkept
    exact (hmerge fun key hkey ↦ hsame key hkey ▸ hheld key hkey).congr hsame

theorem Kept.subscribe (h : Kept formats redis sys) {key : String} {rest : List String}
    (hpending : sys.pending = key :: rest) :
    Kept formats redis (sys.subscribe key rest) where
  replays := h.replays
  distinct := h.distinct
  last := h.last
  taken_le := h.taken_le
  reads_lt := h.reads_lt
  reading hreading := by
    rw [Watch.subscribe] at hreading
    split at hreading <;> cases hreading
  events := h.events
  covered k hk := by
    show k ∈ sys.subscribed ++ [key] ∨ k ∈ rest
    rcases h.covered k hk with hbefore | hafter
    · exact Or.inl (List.mem_append_left _ hbefore)
    · rcases List.mem_cons.1 (hpending ▸ hafter) with rfl | hrest
      · exact Or.inl (List.mem_append_right _ (List.mem_singleton_self _))
      · exact Or.inr hrest
  opened := by
    rcases h.opened with hnone | ⟨hreads, -⟩
    · exact absurd (hpending.symm.trans hnone) (List.cons_ne_nil _ _)
    · by_cases hrest : rest = []
      · exact Or.inl hrest
      · exact Or.inr ⟨hreads, Or.inl (if_neg hrest)⟩
  answered := h.answered

/-- The loop only gives up. -/
theorem Kept.ended (h : Kept formats redis sys) (reported : List Error) :
    Kept formats redis { sys with point := .ended, reported } where
  replays := h.replays
  distinct := h.distinct
  last := h.last
  taken_le := h.taken_le
  reads_lt := h.reads_lt
  reading hreading := (by cases hreading)
  events := h.events
  covered := h.covered
  opened := h.opened.imp_right fun ⟨hreads, _⟩ ↦ ⟨hreads, Or.inr rfl⟩
  answered := h.answered

/-- A notification that is not of a deletion is of a write. -/
theorem Kept.receive (h : Kept formats redis sys) {notification : Notification}
    (hpoint : sys.point = .message) (hnotification : sys.sent[sys.taken]? = some notification) :
    Kept formats redis (sys.receive notification) where
  replays := h.replays
  distinct := h.distinct
  last := h.last
  taken_le := (List.getElem?_eq_some_iff.1 hnotification).1
  reads_lt r hr := Nat.lt_succ_of_lt (h.reads_lt r hr)
  reading hreading := by
    refine ⟨Nat.succ_pos _, fun r hr ↦ Nat.succ_lt_succ (h.reads_lt r hr), notification,
      hnotification, ?_⟩
    rw [Watch.receive] at hreading
    rcases h.events notification (List.mem_of_getElem? hnotification) with hset | hdel
    · exact hset
    · have hgone : notification.isGone = true := by
        rw [Notification.isGone, hdel]
        decide
      rw [if_pos hgone] at hreading
      cases hreading
  events := h.events
  covered := h.covered
  opened := h.opened.imp_right fun ⟨_, hearly⟩ ↦ by
    rcases hearly with hearly | hearly
    · exact absurd (hpoint.symm.trans hearly) (by decide)
    · exact absurd (hpoint.symm.trans hearly) (by decide)
  answered := h.answered

/-- A fetch answers the notification it was made for, and no later one. -/
theorem Kept.answer (h : Kept formats redis sys) (hpoint : sys.point = .reading)
    {outcome : Except Error Fetched} {after : Watch}
    (hafter : after = { sys with
      reads := sys.reads ++ [⟨sys.taken - 1, outcome⟩]
      point := after.point
      last := after.last
      delivered := after.delivered
      reported := after.reported })
    (hleft : after.point = .message ∨ after.point = .ended) (hreplays : Replays formats redis sys.log after.delivered)
    (hdistinct : coalescing redis = true → after.delivered.IsChain (· ≠ ·) ∧
      after.last = after.delivered.getLast?.map Fetched.text)
    (hanswer : ∀ document, outcome = .ok document →
      after.delivered.getLast? = some document ∧ redis.Merge formats (held sys.log) document) :
    Kept formats redis after := by
  obtain ⟨htaken, hreads, n, hn, hset⟩ := h.reading hpoint
  have hpending : sys.pending = [] := by
    rcases h.opened with hpending | ⟨-, hearly | hearly⟩
    · exact hpending
    · exact absurd (hpoint.symm.trans hearly) (by decide)
    · exact absurd (hpoint.symm.trans hearly) (by decide)
  rw [hafter]
  exact {
    replays := hreplays
    distinct := fun hseveral ↦ (hdistinct hseveral).1
    last := fun hseveral ↦ (hdistinct hseveral).2
    taken_le := h.taken_le
    reads_lt := fun r hr ↦ by
      rcases List.mem_append.1 hr with hbefore | hnew
      · exact h.reads_lt r hbefore
      · rw [List.mem_singleton.1 hnew]
        show sys.taken - 1 < sys.taken
        omega
    reading := fun hreading ↦ by
      rcases hleft with hleft | hleft
      · exact absurd (hleft.symm.trans hreading) (by decide)
      · exact absurd (hleft.symm.trans hreading) (by decide)
    events := h.events
    covered := h.covered
    opened := Or.inl hpending
    answered := fun i document hlast hread ↦ by
      rcases List.mem_append.1 hread with hbefore | hnew
      · -- The write that is being answered is a later one.
        have hle := hlast.le hn hset
        have hlt := hreads _ hbefore
        have hindex : i + 1 < sys.taken := hlt
        omega
      · obtain ⟨hdelivered, hmerge⟩ :=
          hanswer document (Read.mk.inj (List.mem_singleton.1 hnew)).2.symm
        exact ⟨hdelivered, fun _ ↦ hmerge⟩ }

/-- What a fetch brings is delivered, or was delivered last. -/
theorem Kept.reread (h : Kept formats redis sys) (hpoint : sys.point = .reading)
    {outcome : Except Error Fetched} (accepted : Bool)
    (hmerge : ∀ document, outcome = .ok document → redis.Merge formats (held sys.log) document) :
    Kept formats redis (sys.reread redis outcome accepted) := by
  have hkept : coalescing redis = true → sys.delivered.IsChain (· ≠ ·) ∧
      sys.last = sys.delivered.getLast?.map Fetched.text :=
    fun hseveral ↦ ⟨h.distinct hseveral, h.last hseveral⟩
  rcases outcome with error | document
  · exact h.answer hpoint rfl (Or.inl rfl) h.replays hkept fun document hok ↦ (by cases hok)
  · have hnow := hmerge document rfl
    by_cases hsame : (coalescing redis && sys.last == some document.text) = true
    · rw [Watch.reread, if_pos hsame]
      refine h.answer hpoint rfl (Or.inl rfl) h.replays hkept fun other hok ↦ ?_
      obtain rfl := Except.ok.inj hok
      refine ⟨?_, hnow⟩
      -- The last delivery has this text, and the source has one format.
      obtain ⟨hseveral, hlast⟩ := Bool.and_eq_true_iff.1 hsame
      rw [(hkept hseveral).2, beq_iff_eq] at hlast
      obtain ⟨before, hbefore, htext⟩ := Option.map_eq_some_iff.1 hlast
      have hformat := (h.replays.chosen (List.mem_of_getLast? hbefore)).symm.trans hnow.format_eq
      obtain ⟨text, format⟩ := document
      obtain ⟨text', format'⟩ := before
      rw [hbefore]
      exact congrArg some (Fetched.mk.injEq .. ▸ ⟨htext, Except.ok.inj hformat⟩)
    · rw [Watch.reread, if_neg hsame]
      refine h.answer hpoint rfl ?_ (h.replays.append hnow) (fun hseveral ↦ ⟨?_, ?_⟩)
        fun other hok ↦ ⟨?_, ?_⟩
      · rcases accepted with - | -
        · exact Or.inr rfl
        · exact Or.inl rfl
      · refine (h.distinct hseveral).append (.singleton _) fun before hbefore next hnext heq ↦ ?_
        obtain rfl : document = next := Option.some.inj hnext
        refine hsame (Bool.and_eq_true_iff.2 ⟨hseveral, beq_iff_eq.2 ?_⟩)
        rw [h.last hseveral, Option.mem_def.1 hbefore, heq]
        rfl
      · show (if coalescing redis then some document.text else sys.last) =
          (sys.delivered ++ [document]).getLast?.map Fetched.text
        rw [if_pos hseveral, List.getLast?_concat]
        rfl
      · rw [← Except.ok.inj hok]
        exact List.getLast?_concat
      · exact Except.ok.inj hok ▸ hnow

/-- **A turn keeps it.** -/
theorem Kept.step {turn : Turn} (hstep : sys.step formats unread redis turn = some sys')
    (h : Kept formats redis sys) : Kept formats redis sys' := by
  rcases turn with command | failure | - | error | ⟨failure, accepted⟩ | -
  · obtain rfl := Option.some.inj hstep
    exact h.command command
  · simp only [Watch.step] at hstep
    split at hstep
    · next hpending => exact Option.some.inj hstep ▸ h.subscribe hpending
    · exact Option.some.inj hstep ▸ h.ended _
    · cases hstep
  · simp only [Watch.step] at hstep
    split at hstep
    · next hpoint hnotification => exact Option.some.inj hstep ▸ h.receive hpoint hnotification
    · cases hstep
  · simp only [Watch.step] at hstep
    split at hstep
    · exact Option.some.inj hstep ▸ h.ended _
    · cases hstep
  · simp only [Watch.step] at hstep
    split at hstep
    · next hpoint =>
      refine Option.some.inj hstep ▸ h.reread hpoint accepted fun document hok ↦ ?_
      rcases failure with - | error
      · exact Source.fetch_eq_ok_iff.1 hok
      · cases hok
    · cases hstep
  · simp only [Watch.step] at hstep
    split at hstep
    · exact Option.some.inj hstep ▸ h.ended _
    · cases hstep

end Kept

/-- **A watch may repeat, and neither tears nor falls behind.** Whatever commands come between its
turns, every document delivered is the in-order merge of what the keys held at one point, the points
never go back, several keys never give the same document twice in a row, and once the fetch for the
last write in the queue has succeeded, the last document is what the keys hold now, unless one of
them holds nothing. -/
theorem watch_of_run (formats : Formats) (unread : Error) (redis : Source) {log : List Command}
    {start sys : Watch} {turns : List Turn} (hstart : watch redis log = .ok start)
    (hrun : run (Watch.step formats unread redis) start turns = some sys) :
    Replays formats redis sys.log sys.delivered ∧
      (1 < redis.keys.named.length → sys.delivered.IsChain (· ≠ ·)) ∧
      ∀ i document, LastSet sys.sent i → ⟨i, .ok document⟩ ∈ sys.reads →
        (∀ key ∈ redis.keys.named, held sys.log key ≠ none) →
          ∃ last, sys.delivered.getLast? = some last ∧ redis.Merge formats (held sys.log) last := by
  have hkept : Kept formats redis sys :=
    run_invariant (fun _ _ _ hstep h ↦ Kept.step hstep h) hrun (kept_watch hstart)
  refine ⟨hkept.replays, fun hseveral ↦ hkept.distinct (decide_eq_true hseveral), ?_⟩
  intro i document hlast hread hheld
  obtain ⟨hdelivered, hmerge⟩ := hkept.answered i document hlast hread
  exact ⟨document, hdelivered, hmerge hheld⟩

/-- Two keys of JSON. -/
def layered : Source := ⟨"redis://localhost", .several ["base", "local"], some .json, none⟩

/-- What the parser and the writer of JSON make of an empty object. -/
def emptyObject : Formats where
  parse text _ := if text = "{}" then .ok (.table []) else .error "expected value"
  render _ _ := .ok "{}\n"

/-- Both keys are written before either notification is taken. -/
def writtenTogether : List Turn :=
  [.subscribe none, .subscribe none, .command (.set "base" (Etcd.as_bytes "{}")),
    .command (.set "local" (Etcd.as_bytes "{}")), .message, .mget none true, .message,
    .mget none true]

/-- The second fetch brings what the first has delivered. -/
theorem watch_of_writtenTogether : ∃ start sys, watch layered [] = .ok start ∧
    run (Watch.step emptyObject (.remote "unread") layered) start writtenTogether = some sys ∧
    sys.delivered = [⟨"{}\n", .json⟩] ∧
    Replays emptyObject layered sys.log sys.delivered ∧ sys.delivered.IsChain (· ≠ ·) ∧
    ∃ last, sys.delivered.getLast? = some last ∧ layered.Merge emptyObject (held sys.log) last := by
  have hruns : ((run (Watch.step emptyObject (.remote "unread") layered)
      ⟨[], ["base", "local"], [], [], 0, .subscribing, none, [], [], []⟩ writtenTogether).map
        fun sys ↦ (sys.sent, sys.reads.map fun r ↦ (r.index, r.outcome.toOption), sys.delivered)) =
      some ([⟨"base", "set"⟩, ⟨"local", "set"⟩],
        [(0, some ⟨"{}\n", .json⟩), (1, some ⟨"{}\n", .json⟩)], [⟨"{}\n", .json⟩]) := by
    decide +kernel
  have hholds : ((run (Watch.step emptyObject (.remote "unread") layered)
      ⟨[], ["base", "local"], [], [], 0, .subscribing, none, [], [], []⟩ writtenTogether).map
        fun sys ↦ ["base", "local"].map fun key ↦ (held sys.log key).isSome) =
      some [true, true] := by
    decide +kernel
  obtain ⟨sys, hrun, hread⟩ := Option.map_eq_some_iff.1 hruns
  obtain ⟨hsent, hread⟩ := Prod.mk.inj hread
  obtain ⟨hreads, hdelivered⟩ := Prod.mk.inj hread
  rw [hrun, Option.map_some, Option.some.injEq] at hholds
  have hstart : watch layered [] =
      .ok ⟨[], ["base", "local"], [], [], 0, .subscribing, none, [], [], []⟩ := rfl
  obtain ⟨hreplays, hdistinct, hanswer⟩ :=
    watch_of_run emptyObject (.remote "unread") layered hstart hrun
  have hlast : LastSet sys.sent 1 := by
    rw [hsent]
    refine ⟨⟨_, rfl, rfl⟩, fun j n hj hn ↦ absurd (List.getElem?_eq_some_iff.1 hn).1 ?_⟩
    show ¬ j < 2
    omega
  have hanswered : ⟨1, .ok ⟨"{}\n", .json⟩⟩ ∈ sys.reads := by
    have hmem := hreads ▸ List.mem_cons_of_mem _ (List.mem_singleton_self _)
    obtain ⟨⟨index, outcome⟩, hr, hshown⟩ := List.mem_map.1 hmem
    obtain ⟨rfl, houtcome⟩ := Prod.mk.inj hshown
    rcases outcome with error | document
    · cases houtcome
    · exact Option.some.inj houtcome ▸ hr
  have hheld : ∀ key ∈ layered.keys.named, held sys.log key ≠ none := by
    intro key hkey hnone
    have hall : (held sys.log key).isSome ∈ [true, true] := hholds ▸ List.mem_map_of_mem hkey
    rw [hnone] at hall
    exact absurd hall (by decide)
  exact ⟨_, sys, hstart, hrun, hdelivered, hreplays, hdistinct (by decide),
    hanswer 1 _ hlast hanswered hheld⟩

end DynamicConfig.Redis
