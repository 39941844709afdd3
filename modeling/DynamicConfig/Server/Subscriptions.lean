import DynamicConfig.Cell.WakeUp
import DynamicConfig.Server.Stream

/-!
# Streams over a cell

A change stream polls in a loop. It reads the generation the cell has published, and if that is news it
sends it; if it is not, it polls a handle on the cell's changes, and where the handle resolves it reads
again. The generation is published some steps before the store wakes anybody, and the handle knows
nothing of it: it counts wake-ups. What holds the two together is that a store wakes after it
publishes. A stream that waits has heard of every install whose wake-up its handle has counted
(`Heard`), so an install it has not heard of belongs to a store that has yet to wake it, or has.

A `Streams` is a cell with everybody who uses it, and the streams that are open. A stream owns its
handle: nobody else polls it.
-/

namespace DynamicConfig.Server

open Cell (Arc Task Turn Attended)
open Remote (word)
open Transition (run)

variable {T R W : Type}

/-! ### Streams -/

/-- `Section::generation`. -/
def shown (s : Cell.System T R W) : Nat := (s.cell.meta_.map fun m ↦ m.value.generation).getD 0

/-- Where a stream is. -/
inductive StreamPoint where
  | opened
  /-- At the top of its loop, about to read the generation. -/
  | reading
  /-- Polling its handle. -/
  | waiting
  | pending
  | ready
  deriving DecidableEq, Repr

/-- An open stream, and the task that polls it. -/
structure Subscription (W : Type) where
  stream : Generations
  /-- Its handle on the changes of the cell. -/
  handle : Nat
  point : StreamPoint
  /-- The waker of the last poll. -/
  waker : Option W
  /-- The numbers sent, in order. Nothing reads it. -/
  emitted : List Nat

/-- A cell with everybody who uses it, and the streams on it. -/
structure Streams (T R W : Type) where
  section_ : Cell.System T R W
  subscriptions : List (Subscription W)

/-- A fresh section. -/
def Streams.new : Streams T R W := ⟨Cell.System.new, []⟩

/-- What happens next. -/
inductive StreamTurn (T R W : Type) where
  /-- Somebody who uses the cell takes a turn. -/
  | cell (turn : Turn T R W)
  /-- A stream is opened. -/
  | open_ (application profile : String) (resume : Option Nat)
  /-- `poll_next`. -/
  | poll (k : Nat) (waker : W)
  /-- A stream that is being polled takes its next step. -/
  | stream (k : Nat)

/-- The handle a turn polls. -/
def handled : Turn T R W → Option Nat
  | .poll h _ | .task h => some h
  | .begin_ _ _ | .store _ _ | .recordFailure | .subscribe | .generation | .current _ => none

/-- The next step of a poll. -/
def Subscription.step [DecidableEq W] (s : Cell.System T R W) (c : Subscription W) :
    Option (Cell.System T R W × Subscription W) :=
  match c.point with
  | .reading =>
    match c.stream.emit (shown s) with
    | some (stream, _) =>
      some (s, { c with stream, point := .ready, emitted := c.emitted ++ [shown s] })
    -- A fresh future per poll: what has been seen lives in the handle.
    | none => c.waker.bind fun waker ↦ (s.step (.poll c.handle waker)).map fun t ↦
        (t, { c with point := .waiting })
  | .waiting =>
    s.tasks[c.handle]?.bind fun task ↦
      match task.point with
      | .ready _ => some (s, { c with point := .reading })
      | .pending => some (s, { c with point := .pending })
      | _ => (s.step (.task c.handle)).map fun t ↦ (t, c)
  | .opened | .pending | .ready => none

/-- What one turn does. -/
def Streams.step [DecidableEq W] (sys : Streams T R W) : StreamTurn T R W → Option (Streams T R W)
  | .cell turn =>
    if (sys.subscriptions.any fun c ↦ handled turn == some c.handle) = true then none
    else (sys.section_.step turn).map fun s ↦ { sys with section_ := s }
  | .open_ application profile resume =>
    (sys.section_.step .subscribe).map fun s ↦
      { section_ := s
        subscriptions := sys.subscriptions ++
          [{ stream := ⟨application, profile, sys.section_.cell.generation, resume, none⟩
             handle := sys.section_.tasks.length
             point := .opened
             waker := none
             emitted := [] }] }
  | .poll k waker =>
    sys.subscriptions[k]?.bind fun c ↦
      if c.point = .reading ∨ c.point = .waiting then none
      else some { sys with
        subscriptions := sys.subscriptions.set k { c with point := .reading, waker := some waker } }
  | .stream k =>
    sys.subscriptions[k]?.bind fun c ↦ (c.step sys.section_).map fun e ↦
      { section_ := e.1, subscriptions := sys.subscriptions.set k e.2 }

/-! ### What a stream has heard of -/

/-- The number of installs a stream that found no news has heard of: none, those of the number it sent
last, or those of the number its client claimed. -/
def Subscription.Heard (c : Subscription W) (r : Nat) : Prop :=
  r = 0 ∨ c.stream.sent = some r ∨ c.stream.sent = none ∧ c.stream.resume = some r

/-- A handle that has found no change since it was polled. -/
def Unaware (t : Task T W) : Prop :=
  t.point = .check ∨ t.point = .register ∨ t.point = .checkAgain ∨ t.point = .pending

/-- The wake-ups a handle has counted are of installs a number counts. -/
def Covers (log : Cell.Log T R) (r seen : Nat) : Prop :=
  ∀ i ∈ log.bumped.take seen, i ∈ (log.issued.take r).map Arc.owner

/-- What holds of a stream and its handle. -/
structure Follows (s : Cell.System T R W) (c : Subscription W) (t : Task T W) : Prop where
  increasing : c.emitted.Pairwise (· < ·)
  sent : c.stream.sent = c.emitted.getLast?
  published : ∀ n ∈ c.emitted, n ≤ s.log.issued.length
  pending : c.point = .pending → t.point = .pending
  heard : c.point = .waiting ∨ c.point = .pending → Unaware t → s.log.issued.length < word →
    ∃ r ≤ s.log.issued.length, c.Heard r ∧ Covers s.log r t.seen

/-- What holds between turns. -/
structure Attentive (sys : Streams T R W) : Prop where
  attended : Attended sys.section_
  handles : (sys.subscriptions.map Subscription.handle).Nodup
  follows : ∀ c ∈ sys.subscriptions, ∃ t, sys.section_.tasks[c.handle]? = some t ∧
    Follows sys.section_ c t

section Follows

variable {s s' : Cell.System T R W} {c : Subscription W} {t t' : Task T W}

/-- What a number covers stays covered as the log goes on. -/
theorem Covers.mono {log log' : Cell.Log T R} {r seen : Nat} (h : Covers log r seen)
    (hle : log.Le log') (hr : r ≤ log.issued.length) (hseen : seen ≤ log.bumped.length) :
    Covers log' r seen := by
  obtain ⟨issued, hissued⟩ := hle.issued
  obtain ⟨bumped, hbumped⟩ := hle.bumped
  rw [Covers, ← hissued, ← hbumped, List.take_append_of_le_length hr,
    List.take_append_of_le_length hseen]
  exact h

/-- What others do to a stream and its handle. -/
theorem Follows.mono (h : Follows s c t) (hle : s.log.Le s'.log) (hseen : t'.seen = t.seen)
    (hpoint : t'.point = t.point) (hbound : t.seen ≤ s.log.bumped.length) : Follows s' c t' where
  increasing := h.increasing
  sent := h.sent
  published n hn := (h.published n hn).trans hle.issued.length_le
  pending hpending := hpoint.trans (h.pending hpending)
  heard hwaits hunaware hword := by
    have hgrown := hle.issued.length_le
    have hunaware' : Unaware t := by
      rw [Unaware, hpoint] at hunaware
      exact hunaware
    obtain ⟨r, hr, hheard, hcovers⟩ := h.heard hwaits hunaware' (by omega)
    refine ⟨r, hr.trans hgrown, hheard, ?_⟩
    rw [hseen]
    exact hcovers.mono hle hr hbound

/-- A stream at the top of its loop. -/
theorem Follows.reading (h : Follows s c t) (waker : Option W) :
    Follows s { c with point := .reading, waker } t where
  increasing := h.increasing
  sent := h.sent
  published := h.published
  pending hpending := by cases hpending
  heard hwaits := by simp only [reduceCtorEq, or_self] at hwaits

end Follows

/-! ### One turn -/

section Turns

variable [DecidableEq W] {s s' : Cell.System T R W} {c : Subscription W} {t : Task T W}

/-- A handle that a turn does not poll is where it was. -/
theorem exists_task_of_step {turn : Turn T R W} (hstep : s.step turn = some s') {h : Nat}
    (hother : handled turn ≠ some h) (ht : s.tasks[h]? = some t) :
    ∃ t' : Task T W, s'.tasks[h]? = some t' ∧ t'.seen = t.seen ∧ t'.point = t.point := by
  cases Cell.System.moves_of_step hstep with
  | store hc he =>
    show ∃ t', (if _ = _ then s.tasks.map (Task.wake (_ : List W)) else s.tasks)[h]? = some t' ∧ _
    split
    · exact ⟨t.wake _, by rw [List.getElem?_map, ht]; rfl, rfl, rfl⟩
    · exact ⟨t, ht, rfl, rfl⟩
  | subscribe =>
    obtain ⟨hlt, -⟩ := List.getElem?_eq_some_iff.1 ht
    exact ⟨t, (List.getElem?_append_left hlt).trans ht, rfl, rfl⟩
  | poll waker htask hfree =>
    have hne : _ ≠ h := fun heq ↦ hother (congrArg some heq)
    exact ⟨t, (List.getElem?_set_ne hne).trans ht, rfl, rfl⟩
  | task htask he =>
    have hne : _ ≠ h := fun heq ↦ hother (congrArg some heq)
    exact ⟨t, (List.getElem?_set_ne hne).trans ht, rfl, rfl⟩
  | _ => exact ⟨t, ht, rfl, rfl⟩

/-- A handle that has found no change has found none before. -/
theorem unaware_of_step {cell : Cell.ConfigCell T R W} {e : Cell.ConfigCell T R W × Task T W}
    (he : t.step cell = some e) (hunaware : Unaware e.2)
    (hinner : t.point = .load ∨ t.point = .loadAgain → cell.inner.isSome = true) :
    Unaware t ∧ e.2.seen = t.seen := by
  rw [Task.step] at he
  rcases hpoint : t.point
  all_goals
    rw [hpoint] at he
    dsimp only at he
  case check =>
    split at he
    · exact ⟨Or.inl hpoint, Option.some.inj he ▸ rfl⟩
    · obtain rfl := Option.some.inj he
      simp only [Unaware, reduceCtorEq, or_self] at hunaware
  case register =>
    obtain ⟨waker, -, rfl⟩ := Option.map_eq_some_iff.1 he
    exact ⟨Or.inr (Or.inl hpoint), rfl⟩
  case checkAgain =>
    split at he
    · exact ⟨Or.inr (Or.inr (Or.inl hpoint)), Option.some.inj he ▸ rfl⟩
    · obtain rfl := Option.some.inj he
      simp only [Unaware, reduceCtorEq, or_self] at hunaware
  case load | loadAgain =>
    -- A change has been found, so the cell holds something and the handle resolves.
    obtain ⟨a, ha⟩ := Option.isSome_iff_exists.1 (hinner (by simp only [hpoint, true_or, or_true]))
    obtain rfl := Option.some.inj he
    rw [ha] at hunaware
    simp only [Unaware, Task.resolve, Option.map_some, Option.getD_some, reduceCtorEq, or_self]
      at hunaware
  all_goals cases he

/-- What a step of a poll comes to. -/
inductive Subscription.Moves (s : Cell.System T R W) (c : Subscription W) :
    Cell.System T R W → Subscription W → Prop where
  | emit {stream : Generations} {event : Event} (hpoint : c.point = .reading)
    (hemit : c.stream.emit (shown s) = some (stream, event)) :
    Moves s c s { c with stream, point := .ready, emitted := c.emitted ++ [shown s] }
  | listen {s' : Cell.System T R W} {waker : W} (hpoint : c.point = .reading)
    (hemit : c.stream.emit (shown s) = none) (hstep : s.step (.poll c.handle waker) = some s') :
    Moves s c s' { c with point := .waiting }
  | again (hpoint : c.point = .waiting) : Moves s c s { c with point := .reading }
  | rest {t : Task T W} (hpoint : c.point = .waiting) (ht : s.tasks[c.handle]? = some t)
    (hpending : t.point = .pending) : Moves s c s { c with point := .pending }
  | go {s' : Cell.System T R W} (hpoint : c.point = .waiting)
    (hstep : s.step (.task c.handle) = some s') : Moves s c s' c

/-- A stream that finds no news polls its handle. -/
theorem Subscription.step_listen {waker : W} (hpoint : c.point = .reading)
    (hemit : c.stream.emit (shown s) = none) (hwaker : c.waker = some waker)
    (hstep : s.step (.poll c.handle waker) = some s') :
    c.step s = some (s', { c with point := .waiting }) := by
  rw [Subscription.step, hpoint]
  simp only [hemit, hwaker, Option.bind_some, hstep, Option.map_some]

theorem Subscription.moves_of_step {e : Cell.System T R W × Subscription W}
    (he : c.step s = some e) : c.Moves s e.1 e.2 := by
  rw [Subscription.step] at he
  rcases hpoint : c.point
  all_goals
    rw [hpoint] at he
    dsimp only at he
  case reading =>
    split at he
    · next stream event hemit => exact Option.some.inj he ▸ .emit hpoint hemit
    · next hemit =>
      obtain ⟨waker, -, he⟩ := Option.bind_eq_some_iff.1 he
      obtain ⟨s', hstep, rfl⟩ := Option.map_eq_some_iff.1 he
      exact .listen hpoint hemit hstep
  case waiting =>
    obtain ⟨t, ht, he⟩ := Option.bind_eq_some_iff.1 he
    split at he
    · exact Option.some.inj he ▸ .again hpoint
    · next hpending => exact Option.some.inj he ▸ .rest hpoint ht hpending
    · obtain ⟨s', hstep, rfl⟩ := Option.map_eq_some_iff.1 he
      exact .go hpoint hstep
  all_goals cases he

omit [DecidableEq W] in
/-- The number shown is no more than the installs there were. -/
theorem shown_le {s : Cell.System T R W} (h : Cell.Recorded s) : shown s ≤ s.log.issued.length := by
  rw [shown, h.published]
  exact Nat.mod_le _ _

omit [DecidableEq W] in
/-- A stream sends a number that is higher than those it has sent. -/
theorem Follows.emit (h : Follows s c t) (hrecorded : Cell.Recorded s) {stream : Generations}
    {event : Event} (hemit : c.stream.emit (shown s) = some (stream, event)) :
    Follows s { c with stream, point := .ready, emitted := c.emitted ++ [shown s] } t := by
  rw [Generations.emit] at hemit
  split at hemit
  case isFalse => cases hemit
  next hnews =>
    obtain ⟨rfl, -⟩ := Prod.mk.inj (Option.some.inj hemit)
    refine ⟨?_, List.getLast?_concat.symm, fun n hn ↦ ?_, fun hpending ↦ ?_, fun hwaits ↦ ?_⟩
    · refine List.pairwise_append.2 ⟨h.increasing, List.pairwise_singleton _ _, fun n hn m hm ↦ ?_⟩
      obtain rfl := List.mem_singleton.1 hm
      have hlast := h.sent.trans (List.getLast?_eq_some_getLast (List.ne_nil_of_mem hn))
      have hle := (h.increasing.imp le_of_lt).rel_getLast hn
      exact hle.trans_lt ((Generations.isNews_of_sent hlast).1 hnews)
    · rcases List.mem_append.1 hn with hold | hnew
      · exact h.published n hold
      · exact List.mem_singleton.1 hnew ▸ shown_le hrecorded
    · cases hpending
    · simp only [reduceCtorEq, or_self] at hwaits

omit [DecidableEq W] in
/-- A number below a word that is no news has been heard of. -/
theorem Follows.heard_of_quiet (h : Follows s c t) (hrecorded : Cell.Recorded s)
    (hemit : c.stream.emit (shown s) = none) (hword : s.log.issued.length < word) :
    c.Heard s.log.issued.length := by
  have hshown : shown s = s.log.issued.length := by
    rw [shown, hrecorded.published, Nat.mod_eq_of_lt hword]
  have hquiet : ¬ c.stream.isNews s.log.issued.length = true := by
    rw [← hshown]
    intro hnews
    rw [Generations.emit, if_pos hnews] at hemit
    cases hemit
  rcases hsent : c.stream.sent with - | n
  · rw [Generations.isNews_of_opening hsent, not_and_or, not_not, not_not] at hquiet
    exact hquiet.imp_right fun hresume ↦ Or.inr ⟨hsent, hresume⟩
  · rw [Generations.isNews_of_sent hsent] at hquiet
    have hmem := List.mem_of_getLast? (h.sent.symm.trans hsent)
    have hle := h.published n hmem
    have hsame : n = s.log.issued.length := by omega
    exact Or.inr (Or.inl (hsent.trans (congrArg some hsame)))

omit [DecidableEq W] in
/-- Whoever has bumped the counter of changes has published. -/
theorem covers_all (h : Cell.Recorded s) (seen : Nat) : Covers s.log s.log.issued.length seen := by
  intro i hi
  rw [List.take_length]
  exact h.bumped.subset h.issued (by decide) (List.mem_of_mem_take hi)

omit [DecidableEq W] in
/-- A handle that has found a change finds a snapshot. -/
theorem inner_of_loading (h : Attended s) (ht : t ∈ s.tasks)
    (hpoint : t.point = .load ∨ t.point = .loadAgain) : s.cell.inner.isSome = true := by
  have hbumped := (h.tasks t ht).loading hpoint
  have hle := h.recorded.bumped_le_swaps
  obtain ⟨a, ha, -⟩ := h.recorded.inner_of_swaps (by omega)
  exact Option.isSome_iff_exists.2 ⟨a, ha⟩

/-- **One step of a stream, for itself.** -/
theorem Follows.step (h : Follows s c t) (hattended : Attended s) (ht : s.tasks[c.handle]? = some t)
    {c' : Subscription W} (hmoves : c.Moves s s' c') :
    ∃ t' : Task T W, s'.tasks[c'.handle]? = some t' ∧ Follows s' c' t' := by
  have hrecorded := hattended.recorded
  obtain ⟨hlt, -⟩ := List.getElem?_eq_some_iff.1 ht
  cases hmoves with
  | emit hpoint hemit => exact ⟨t, ht, h.emit hrecorded hemit⟩
  | listen hpoint hemit hstep =>
    cases Cell.System.moves_of_step hstep with
    | poll waker htask hfree =>
      obtain rfl := Option.some.inj (ht.symm.trans htask)
      refine ⟨_, List.getElem?_set_self hlt, h.increasing, h.sent, h.published,
        fun hpending ↦ (by cases hpending), fun _ _ hword ↦ ?_⟩
      exact ⟨s.log.issued.length, le_refl _, h.heard_of_quiet hrecorded hemit hword,
        covers_all hrecorded _⟩
  | again hpoint => exact ⟨t, ht, h.reading c.waker⟩
  | rest hpoint htask hpending =>
    obtain rfl := Option.some.inj (ht.symm.trans htask)
    exact ⟨t, ht, h.increasing, h.sent, h.published, fun _ ↦ hpending, fun _ ↦ h.heard (Or.inl hpoint)⟩
  | go hpoint hstep =>
    cases Cell.System.moves_of_step hstep with
    | task htask he =>
      obtain rfl := Option.some.inj (ht.symm.trans htask)
      refine ⟨_, List.getElem?_set_self hlt, h.increasing, h.sent, h.published, fun hpending ↦ ?_,
        fun hwaits hunaware hword ↦ ?_⟩
      · rw [hpoint] at hpending
        cases hpending
      · obtain ⟨hbefore, hseen⟩ := unaware_of_step he hunaware
          (inner_of_loading hattended (List.mem_of_getElem? ht))
        rw [hseen]
        exact h.heard hwaits hbefore hword

/-- A step of a stream is a turn in its section, or none. -/
theorem Subscription.Moves.section_ {c' : Subscription W} (hmoves : c.Moves s s' c') :
    c'.handle = c.handle ∧ (s' = s ∨ ∃ turn, s.step turn = some s' ∧ handled turn = some c.handle) := by
  cases hmoves with
  | listen hpoint hemit hstep => exact ⟨rfl, Or.inr ⟨_, hstep, rfl⟩⟩
  | go hpoint hstep => exact ⟨rfl, Or.inr ⟨_, hstep, rfl⟩⟩
  | _ => exact ⟨rfl, Or.inl rfl⟩

variable {sys sys' : Streams T R W}

/-- What a turn in the section does to the streams whose handles it leaves alone. -/
theorem Attentive.turn (h : Attentive sys) {turn : Turn T R W} (hstep : sys.section_.step turn = some s')
    (hc : c ∈ sys.subscriptions) (hother : handled turn ≠ some c.handle) :
    ∃ t, s'.tasks[c.handle]? = some t ∧ Follows s' c t := by
  obtain ⟨t, ht, hfollows⟩ := h.follows c hc
  obtain ⟨t', ht', hseen, hpoint⟩ := exists_task_of_step hstep hother ht
  exact ⟨t', ht', hfollows.mono (Cell.System.log_le_of_step hstep) hseen hpoint
    (h.attended.tasks t (List.mem_of_getElem? ht)).seen⟩

omit [DecidableEq W] in
/-- A stream keeps its handle. -/
theorem handles_set {subscriptions : List (Subscription W)} {k : Nat} {c' : Subscription W}
    (hc : subscriptions[k]? = some c) (hsame : c'.handle = c.handle) :
    (subscriptions.set k c').map Subscription.handle = subscriptions.map Subscription.handle := by
  obtain ⟨hlt, rfl⟩ := List.getElem?_eq_some_iff.1 hc
  rw [List.map_set, hsame, ← List.map_set, List.set_getElem_self]

/-- **One step of a stream, for all of them.** -/
theorem Attentive.stream (h : Attentive sys) {k : Nat} (hc : sys.subscriptions[k]? = some c)
    {c' : Subscription W} (hmoves : c.Moves sys.section_ s' c') :
    Attentive ⟨s', sys.subscriptions.set k c'⟩ := by
  obtain ⟨hsame, hturn⟩ := hmoves.section_
  obtain ⟨hlt, -⟩ := List.getElem?_eq_some_iff.1 hc
  have hhandles : ((sys.subscriptions.set k c').map Subscription.handle).Nodup := by
    rw [handles_set hc hsame]
    exact h.handles
  obtain ⟨t, ht, hfollows⟩ := h.follows c (List.mem_of_getElem? hc)
  refine ⟨?_, hhandles, fun d hd ↦ ?_⟩
  · rcases hturn with rfl | ⟨turn, hstep, -⟩
    · exact h.attended
    · exact h.attended.step hstep
  · by_cases hown : d.handle = c'.handle
    · -- Handles are not shared, so this is the stream that moved.
      obtain rfl := List.inj_on_of_nodup_map hhandles hd (List.mem_set hlt c') hown
      exact hfollows.step h.attended ht hmoves
    · have hold : d ∈ sys.subscriptions :=
        (List.mem_or_eq_of_mem_set hd).resolve_right fun heq ↦ hown (congrArg _ heq)
      rcases hturn with rfl | ⟨turn, hstep, hhandled⟩
      · exact h.follows d hold
      · refine h.turn hstep hold fun heq ↦ hown ?_
        rw [hsame]
        exact Option.some.inj (heq.symm.trans hhandled)

/-- **One turn.** -/
theorem Attentive.step (h : Attentive sys) {turn : StreamTurn T R W} (hstep : sys.step turn = some sys') :
    Attentive sys' := by
  rcases turn with turn | ⟨application, profile, resume⟩ | ⟨k, waker⟩ | k
  · rw [Streams.step] at hstep
    split at hstep
    · cases hstep
    · next hfree =>
      obtain ⟨s', hs', rfl⟩ := Option.map_eq_some_iff.1 hstep
      refine ⟨h.attended.step hs', h.handles, fun c hc ↦ h.turn hs' hc fun heq ↦ hfree ?_⟩
      exact List.any_eq_true.2 ⟨c, hc, beq_iff_eq.2 heq⟩
  · rw [Streams.step] at hstep
    obtain ⟨s', hs', rfl⟩ := Option.map_eq_some_iff.1 hstep
    -- The new handle is none of those there are.
    have hnew : ∀ c ∈ sys.subscriptions, c.handle < sys.section_.tasks.length := fun c hc ↦ by
      obtain ⟨t, ht, -⟩ := h.follows c hc
      exact (List.getElem?_eq_some_iff.1 ht).1
    refine ⟨h.attended.step hs', ?_, fun c hc ↦ ?_⟩
    · rw [List.map_append, List.nodup_append]
      refine ⟨h.handles, List.nodup_singleton _, fun i hi j hj ↦ ?_⟩
      obtain ⟨c, hc, rfl⟩ := List.mem_map.1 hi
      obtain rfl := List.mem_singleton.1 hj
      exact ne_of_lt (hnew c hc)
    · rcases List.mem_append.1 hc with hold | hopened
      · exact h.turn hs' hold (Option.some_ne_none _).symm
      · obtain rfl := List.mem_singleton.1 hopened
        obtain rfl := Option.some.inj hs'
        refine ⟨_, List.getElem?_concat_length, List.Pairwise.nil, rfl, fun n hn ↦ ?_,
          fun hpending ↦ (by cases hpending), fun hwaits ↦ ?_⟩
        · exact absurd hn List.not_mem_nil
        · simp only [reduceCtorEq, or_self] at hwaits
  · obtain ⟨c, hc, hstep⟩ := Option.bind_eq_some_iff.1 hstep
    split at hstep
    · cases hstep
    · obtain rfl := Option.some.inj hstep
      obtain ⟨t, ht, hfollows⟩ := h.follows c (List.mem_of_getElem? hc)
      refine ⟨h.attended, (congrArg List.Nodup (handles_set hc (by rfl))).mpr h.handles, fun d hd ↦ ?_⟩
      rcases List.mem_or_eq_of_mem_set hd with hold | rfl
      · exact h.follows d hold
      · exact ⟨t, ht, hfollows.reading _⟩
  · obtain ⟨c, hc, hstep⟩ := Option.bind_eq_some_iff.1 hstep
    obtain ⟨e, he, rfl⟩ := Option.map_eq_some_iff.1 hstep
    exact h.stream hc (Subscription.moves_of_step he)

theorem attentive_of_run {turns : List (StreamTurn T R W)}
    (h : run Streams.step Streams.new turns = some sys) : Attentive sys := by
  have hnew : Attentive (Streams.new : Streams T R W) :=
    ⟨⟨Cell.recorded_new, fun _ ht ↦ absurd ht List.not_mem_nil⟩, List.nodup_nil,
      fun _ hc ↦ absurd hc List.not_mem_nil⟩
  exact Transition.run_invariant (fun _ _ _ hstep hattentive ↦ hattentive.step hstep) h hnew

/-! ### A stream that waits -/

omit [DecidableEq W] in
/-- A store that has published has yet to take the list of those who wait, or has taken it and has yet to
wake this one. -/
def Owing (s : Cell.System T R W) (t : Task T W) : Prop :=
  (∃ call ∈ s.calls, 3 < call.point.taken ∧ call.point.taken < 8) ∨ t.Held s.calls

omit [DecidableEq W] in
/-- Nothing is owed where no store is in progress. -/
theorem not_owing_of_quiet (hquiet : s.Quiet) : ¬ Owing s t := by
  have hreturned : ∀ call ∈ s.calls, call.point = .returned := by
    intro call hcall
    obtain ⟨i, hi⟩ := List.mem_iff_getElem?.1 hcall
    exact hquiet i call hi
  rintro (⟨call, hcall, -, hyet⟩ | ⟨-, -, call, hcall, hwake, -⟩)
  · rw [hreturned call hcall] at hyet
    exact absurd hyet (by decide)
  · rw [hreturned call hcall] at hwake
    cases hwake

/-- A stream has sent the number shown, or there is none, or its task has been woken, or will be. -/
def UpToDate (s : Cell.System T R W) (c : Subscription W) : Prop :=
  shown s = 0 ∨ shown s ∈ c.emitted ∨
    ∃ t, s.tasks[c.handle]? = some t ∧ (t.woken = true ∨ Owing s t)

omit [DecidableEq W] in
/-- An install that a waiting stream has not heard of is of a store that has woken it, or will. -/
theorem woken_or_owing (hattended : Attended s) (ht : t ∈ s.tasks)
    (hpending : t.point = .pending) (hword : s.log.issued.length < word) {r : Nat}
    (hr : r < s.log.issued.length) (hcovers : Covers s.log r t.seen) :
    t.woken = true ∨ Owing s t := by
  have hrecorded := hattended.recorded
  have hlast := List.getElem?_eq_getElem hr
  obtain ⟨call, hcall, hpublished⟩ := (hrecorded.issued.mem_iff _).1
    (List.mem_map_of_mem (List.getElem_mem hr))
  by_cases howing : call.point.taken < 8
  · exact Or.inr (Or.inl ⟨call, List.mem_of_getElem? hcall, hpublished, howing⟩)
  · -- It has bumped the counter after the handle's last look.
    have hbumped := (hrecorded.bumped.mem_iff _).2 ⟨call, hcall, by omega⟩
    have hlater : t.seen < s.log.bumped.length := by
      by_contra hseen
      have hcounted := hcovers s.log.issued[r].owner (by
        rw [List.take_of_length_le (by omega)]
        exact hbumped)
      rw [List.map_take, List.mem_take_iff_getElem] at hcounted
      obtain ⟨j, hj, hsame⟩ := hcounted
      rw [List.getElem_map] at hsame
      have hindex := List.inj_on_of_nodup_map hrecorded.issued.nodup (List.getElem_mem _)
        (List.getElem_mem hr) hsame
      rw [(List.Nodup.of_map _ hrecorded.issued.nodup).getElem_inj_iff] at hindex
      omega
    have hle := hrecorded.bumped.length_le hrecorded.issued (by decide)
    rw [List.length_map] at hle
    have hgeneration : s.cell.generation = s.log.bumped.length := by
      rw [hrecorded.generation, Nat.mod_eq_of_lt (by omega)]
    rcases hwoken : t.woken with - | -
    · rcases (hattended.tasks t ht).unchanged (Or.inr hpending) hwoken with
        hsame | ⟨d, hd, htake⟩ | hheld
      · omega
      · exact Or.inr (Or.inl ⟨d, hd, by rw [htake]; decide, by rw [htake]; decide⟩)
      · exact Or.inr (Or.inr hheld)
    · exact Or.inl rfl

omit [DecidableEq W] in
/-- A stream that waits has heard of the number that is shown, or is woken. -/
theorem Follows.heard_or_woken (h : Follows s c t) (hattended : Attended s)
    (ht : s.tasks[c.handle]? = some t) (hword : s.log.issued.length < word)
    (hpoint : c.point = .pending) : c.Heard (shown s) ∨ t.woken = true ∨ Owing s t := by
  have hpending := h.pending hpoint
  obtain ⟨r, hr, hheard, hcovers⟩ := h.heard (Or.inr hpoint)
    (Or.inr (Or.inr (Or.inr hpending))) hword
  rcases hr.eq_or_lt with rfl | hlt
  · rw [shown, hattended.recorded.published, Nat.mod_eq_of_lt hword]
    exact Or.inl hheard
  · exact Or.inr (woken_or_owing hattended (List.mem_of_getElem? ht) hpending hword hlt hcovers)

/-- **No stream goes quiet on news.** What it sends goes up; and as long as there are fewer than a word
of installs, a stream that waits has sent the number that is shown, or is woken. -/
theorem upToDate_of_run {turns : List (StreamTurn T R W)}
    (hrun : run Streams.step Streams.new turns = some sys) :
    ∀ c ∈ sys.subscriptions, c.emitted.Pairwise (· < ·) ∧
      (c.stream.resume = none → sys.section_.log.issued.length < word → c.point = .pending →
        UpToDate sys.section_ c) := by
  have hattentive := attentive_of_run hrun
  intro c hc
  obtain ⟨t, ht, hfollows⟩ := hattentive.follows c hc
  refine ⟨hfollows.increasing, fun hresume hword hpoint ↦ ?_⟩
  rcases hfollows.heard_or_woken hattentive.attended ht hword hpoint with hheard | hwoken
  · rcases hheard with hzero | hsent | ⟨-, hclaimed⟩
    · exact Or.inl hzero
    · exact Or.inr (Or.inl (List.mem_of_getLast? (hfollows.sent.symm.trans hsent)))
    · rw [hresume] at hclaimed
      cases hclaimed
  · exact Or.inr (Or.inr ⟨t, ht, hwoken⟩)

end Turns

/-! ### A word of installs -/

section Word

variable [DecidableEq W] {s : Cell.System T R W}

/-- Turns that poll nobody's handle are turns of the section. -/
theorem run_cell {s t : Cell.System T R W} {turns : List (Turn T R W)}
    (hrun : run Cell.System.step s turns = some t) (hfree : ∀ turn ∈ turns, handled turn = none)
    (subscriptions : List (Subscription W)) :
    run Streams.step ⟨s, subscriptions⟩ (turns.map .cell) = some ⟨t, subscriptions⟩ := by
  induction turns generalizing s with
  | nil => exact Option.some.inj hrun ▸ rfl
  | cons turn turns ih =>
    obtain ⟨u, hu, hrest⟩ := Transition.run_cons_eq_some hrun
    have hstep : Streams.step ⟨s, subscriptions⟩ (.cell turn) = some ⟨u, subscriptions⟩ := by
      have hnone : ¬ (subscriptions.any fun c ↦ handled turn == some c.handle) = true := by
        rw [hfree turn List.mem_cons_self, List.any_eq_true]
        rintro ⟨c, -, hsome⟩
        cases hsome
      rw [Streams.step, if_neg hnone, hu]
      rfl
    rw [List.map_cons, Transition.run_cons, hstep]
    exact ih hrest fun turn hturn ↦ hfree turn (List.mem_cons_of_mem _ hturn)

/-- A call that is the last one takes its step, and wakes nobody with it. -/
theorem exists_step_last {calls : List (Cell.StoreCall T R W)} {c : Cell.StoreCall T R W}
    (hcalls : s.calls = calls ++ [c]) (hpoint : c.point ≠ .wake)
    {e : Cell.ConfigCell T R W × Cell.StoreCall T R W}
    (he : c.step calls.length 0 s.cell = some e) :
    ∃ t : Cell.System T R W, s.step (.store calls.length 0) = some t ∧ t.cell = e.1 ∧
      t.calls = calls ++ [e.2] ∧ t.tasks = s.tasks := by
  refine ⟨{ s with
    cell := e.1
    calls := s.calls.set calls.length e.2
    tasks := if c.point = .wake then s.tasks.map (Task.wake (c.woken.take 1)) else s.tasks
    log := s.log.after calls.length s.cell c e.2 }, ?_, rfl, ?_, if_neg hpoint⟩
  · show (s.calls[calls.length]?.bind fun c ↦ (c.step calls.length 0 s.cell).map _) = _
    rw [hcalls, List.getElem?_concat_length, Option.bind_some, he]
    rfl
  · show s.calls.set calls.length e.2 = _
    rw [hcalls, List.set_append_right _ _ (le_refl _), Nat.sub_self]
    rfl

/-- The step after, of a call that finds nobody in the list. -/
def following : Cell.StorePoint → Cell.StorePoint
  | .initialise => .swap
  | .swap => .read
  | .read => .publish
  | .publish => .explain
  | .explain => .reset
  | .reset => .advance
  | .advance => .take
  | .take | .wake => .dispatch
  | .dispatch | .returned => .returned

/-- The last call is at a point, nobody else has moved since it was made, and nobody waits. -/
structure Midway (calls : List (Cell.StoreCall T R W)) (tasks : List (Task T W))
    (point : Cell.StorePoint) (s : Cell.System T R W) : Prop where
  call : ∃ c, s.calls = calls ++ [c] ∧ c.point = point ∧
    (point = .publish → c.before = s.cell.meta_) ∧ (3 < point.taken → c.installed.isSome = true)
  waiting : s.cell.waiting = []
  tasks : s.tasks = tasks

/-- It moves on. -/
theorem Midway.step {calls : List (Cell.StoreCall T R W)} {tasks : List (Task T W)}
    {point : Cell.StorePoint} (h : Midway calls tasks point s)
    (hpoint : point ≠ .wake ∧ point ≠ .returned) :
    ∃ t, s.step (.store calls.length 0) = some t ∧ Midway calls tasks (following point) t := by
  obtain ⟨⟨⟨value, reason, p, previous, before, installed, woken, event⟩, hcalls, hp, hbefore,
    hinstalled⟩, hwaiting, htasks⟩ := h
  obtain rfl : p = point := hp
  rcases p
  case wake => exact absurd rfl hpoint.1
  case returned => exact absurd rfl hpoint.2
  case publish =>
    obtain rfl : before = s.cell.meta_ := hbefore rfl
    obtain ⟨t, ht, hcell, hmoved, hleft⟩ :=
      exists_step_last hcalls hpoint.1 (if_pos (decide_eq_true rfl))
    exact ⟨t, ht, ⟨_, hmoved, rfl, fun h ↦ (by cases h), fun _ ↦ rfl⟩,
      (congrArg _ hcell).trans hwaiting, hleft.trans htasks⟩
  case dispatch =>
    obtain ⟨m, rfl⟩ := Option.isSome_iff_exists.1 (hinstalled (by decide))
    obtain ⟨t, ht, hcell, hmoved, hleft⟩ := exists_step_last hcalls hpoint.1 rfl
    exact ⟨t, ht, ⟨_, hmoved, rfl, fun h ↦ (by cases h), fun _ ↦ rfl⟩,
      (congrArg _ hcell).trans hwaiting, hleft.trans htasks⟩
  case take =>
    obtain ⟨t, ht, hcell, hmoved, hleft⟩ := exists_step_last hcalls hpoint.1 rfl
    refine ⟨t, ht, ⟨_, hmoved, ?_, fun h ↦ (by cases h), fun _ ↦ hinstalled (by decide)⟩,
      congrArg _ hcell, hleft.trans htasks⟩
    rw [hwaiting]
    rfl
  case read =>
    obtain ⟨t, ht, hcell, hmoved, hleft⟩ := exists_step_last hcalls hpoint.1 rfl
    exact ⟨t, ht, ⟨_, hmoved, rfl, fun _ ↦ (by rw [hcell]), fun h ↦ absurd h (by decide)⟩,
      (congrArg _ hcell).trans hwaiting, hleft.trans htasks⟩
  all_goals
    obtain ⟨t, ht, hcell, hmoved, hleft⟩ := exists_step_last hcalls hpoint.1 rfl
    exact ⟨t, ht, ⟨_, hmoved, rfl, fun h ↦ (by cases h), fun h ↦ hinstalled (by revert h; decide)⟩,
      (congrArg _ hcell).trans hwaiting, hleft.trans htasks⟩

/-- It moves on as often as it has steps. -/
theorem Midway.run {calls : List (Cell.StoreCall T R W)} {tasks : List (Task T W)}
    (n : Nat) {point : Cell.StorePoint} (h : Midway calls tasks point s)
    (hpoint : ∀ k < n, following^[k] point ≠ .wake ∧ following^[k] point ≠ .returned) :
    ∃ t, run Cell.System.step s (List.replicate n (.store calls.length 0)) = some t ∧
      Midway calls tasks (following^[n] point) t := by
  induction n generalizing s point with
  | zero => exact ⟨s, rfl, h⟩
  | succ n ih =>
    obtain ⟨t, ht, hnext⟩ := h.step (hpoint 0 n.succ_pos)
    obtain ⟨u, hu, hlast⟩ := ih hnext fun k hk ↦ hpoint (k + 1) (Nat.succ_lt_succ hk)
    refine ⟨u, ?_, hlast⟩
    rw [List.replicate_succ, Transition.run_cons, ht]
    exact hu

/-- **One more install can always be made**, from the first step of its store to the last, where nobody
waits for one. -/
theorem exists_stored (hwaiting : s.cell.waiting = []) (value : T) (reason : R) :
    ∃ (turns : List (Turn T R W)) (t : Cell.System T R W), run Cell.System.step s turns = some t ∧
      (∀ turn ∈ turns, handled turn = none) ∧ Midway s.calls s.tasks .returned t := by
  have hnew : Midway s.calls s.tasks .initialise
      { s with calls := s.calls ++ [Cell.StoreCall.new value reason] } :=
    ⟨⟨_, rfl, rfl, fun h ↦ (by cases h), fun h ↦ absurd h (by decide)⟩, hwaiting, rfl⟩
  obtain ⟨t, ht, hreturned⟩ := hnew.run 9 (by decide)
  refine ⟨.begin_ value reason :: List.replicate 9 (.store s.calls.length 0), t, ht, ?_, hreturned⟩
  intro turn hturn
  rcases List.mem_cons.1 hturn with rfl | hstore
  · rfl
  · rw [List.eq_of_mem_replicate hstore]
    rfl

/-- Nobody is in the middle of anything. -/
structure Resting (n : Nat) (tasks : List (Task T W)) (s : Cell.System T R W) : Prop where
  quiet : s.Quiet
  calls : s.calls.length = n
  waiting : s.cell.waiting = []
  tasks : s.tasks = tasks

/-- As many installs as one likes, which wake nobody. -/
theorem Resting.exists_installs {tasks : List (Task T W)} {n : Nat} (h : Resting n tasks s)
    (value : T) (reason : R) (m : Nat) :
    ∃ (turns : List (Turn T R W)) (t : Cell.System T R W), run Cell.System.step s turns = some t ∧
      (∀ turn ∈ turns, handled turn = none) ∧ Resting (n + m) tasks t := by
  induction m with
  | zero => exact ⟨[], s, rfl, fun _ hturn ↦ absurd hturn List.not_mem_nil, h⟩
  | succ m ih =>
    obtain ⟨turns, t, hrun, hfree, hrests⟩ := ih
    obtain ⟨more, u, hmore, hfree', hmidway⟩ := exists_stored hrests.waiting value reason
    obtain ⟨d, hcalls, hd, -, -⟩ := hmidway.call
    refine ⟨turns ++ more, u, Transition.run_trans hrun hmore, fun turn hturn ↦ ?_,
      ⟨fun i c hc ↦ ?_, ?_, hmidway.waiting, hmidway.tasks.trans hrests.tasks⟩⟩
    · exact (List.mem_append.1 hturn).elim (hfree turn) (hfree' turn)
    · rw [hcalls] at hc
      rcases List.mem_append.1 (List.mem_of_getElem? hc) with hold | hnew
      · obtain ⟨j, hj⟩ := List.mem_iff_getElem?.1 hold
        exact hrests.quiet j c hj
      · exact List.mem_singleton.1 hnew ▸ hd
    · rw [hcalls, List.length_append, hrests.calls]
      rfl

end Word

/-- A stream that was opened after one install and has sent the number of the second. -/
def sentTwo : Subscription Nat where
  stream := ⟨"billing", "prod", 1, none, some 2⟩
  handle := 0
  point := .ready
  waker := some 7
  emitted := [2]

/-- Its handle, which has not been polled. -/
def unpolled : Task Unit Nat := ⟨1, .idle, none, false⟩

def openedAfterOne : List (StreamTurn Unit Unit Nat) :=
  (.begin_ () () :: Cell.steps 0 0 9).map .cell ++ [.open_ "billing" "prod" none] ++
    (.begin_ () () :: Cell.steps 1 0 9).map .cell ++ [.poll 0 7, .stream 0]

theorem exists_sentTwo : ∃ s : Cell.System Unit Unit Nat,
    run Streams.step Streams.new openedAfterOne = some ⟨s, [sentTwo]⟩ ∧ Resting 2 [unpolled] s :=
  ⟨_, rfl, Cell.quiet_of_all (by decide +kernel), rfl, rfl, rfl⟩

/-- A section that shows 1 and whose handles have counted one wake-up says nothing to it. -/
theorem run_sentTwo {s : Cell.System Unit Unit Nat} (hshown : shown s = 1) (hgeneration : s.cell.generation = 1)
    (hwaiting : s.cell.waiting = []) (htasks : s.tasks = [unpolled]) :
    run Streams.step ⟨s, [sentTwo]⟩
        [.poll 0 7, .stream 0, .stream 0, .stream 0, .stream 0, .stream 0] =
      some ⟨{ s with
          cell := { s.cell with waiting := [7] }, tasks := [⟨1, .pending, some 7, false⟩] },
        [{ sentTwo with point := .pending }]⟩ := by
  obtain ⟨cell, calls, tasks, readers, log⟩ := s
  obtain rfl : tasks = [unpolled] := htasks
  obtain ⟨inner, meta_, lastReason, failures, generation, waiting⟩ := cell
  obtain rfl : generation = 1 := hgeneration
  obtain rfl : waiting = [] := hwaiting
  let s : Cell.System Unit Unit Nat :=
    ⟨⟨inner, meta_, lastReason, failures, 1, []⟩, calls, [unpolled], readers, log⟩
  -- The number is no news, and the handle has counted as many wake-ups as there are.
  have hquiet : sentTwo.stream.emit (shown s) = none := by
    rw [hshown]
    rfl
  have hlisten : Subscription.step s { sentTwo with point := .reading } =
      some ({ s with tasks := [⟨1, .check, some 7, false⟩] }, { sentTwo with point := .waiting }) :=
    Subscription.step_listen rfl hquiet rfl rfl
  show ((Subscription.step s { sentTwo with point := .reading }).map _).bind _ = _
  rw [hlisten]
  rfl

/-- **A stream goes quiet on news when a word of installs has brought the number back below the last one
it sent.** -/
theorem not_upToDate : ¬ ∀ (turns : List (StreamTurn Unit Unit Nat)) (sys : Streams Unit Unit Nat),
    run Streams.step Streams.new turns = some sys → ∀ c ∈ sys.subscriptions,
      c.stream.resume = none → c.point = .pending → UpToDate sys.section_ c := by
  intro hall
  obtain ⟨s, hopened, hresting⟩ := exists_sentTwo
  obtain ⟨turns, t, hinstalls, hfree, hrests⟩ := hresting.exists_installs () () (word - 1)
  have hmany := Transition.run_trans hopened (run_cell hinstalls hfree [sentTwo])
  have hrecorded := (attentive_of_run hmany).attended.recorded
  have hcount : ∀ n, n = t.calls.length → n % word = 1 := by
    rintro n rfl
    rw [hrests.calls]
    decide
  have hshown : shown t = 1 := by
    rw [shown, hrecorded.published]
    have hissued := hrecorded.issued.length_of_quiet hrests.quiet (by decide)
    rw [List.length_map] at hissued
    exact hcount _ hissued
  have hgeneration : t.cell.generation = 1 := by
    rw [hrecorded.generation]
    exact hcount _ (hrecorded.bumped.length_of_quiet hrests.quiet (by decide))
  have hquiet := run_sentTwo hshown hgeneration hrests.waiting hrests.tasks
  rcases hall _ _ (Transition.run_trans hmany hquiet) _ (List.mem_singleton_self _) rfl rfl with
    hzero | hsent | ⟨task, htask, hwoken | howing⟩
  · exact absurd (hshown.symm.trans hzero) (by decide)
  · have htwo : shown t = 2 := List.mem_singleton.1 hsent
    omega
  · obtain rfl := Option.some.inj htask
    cases hwoken
  · exact absurd howing (not_owing_of_quiet hrests.quiet)

def waitsForFirst : List (StreamTurn Unit Unit Nat) :=
  [.open_ "billing" "prod" none, .poll 0 7] ++ List.replicate 5 (.stream 0) ++
    (.begin_ () () :: Cell.steps 0 0 4).map .cell

/-- A stream waits for the first install, which has been published and has yet to wake it. -/
theorem upToDate_first : ∃ sys : Streams Unit Unit Nat,
    run Streams.step Streams.new waitsForFirst = some sys ∧
      ∀ c ∈ sys.subscriptions, c.emitted.Pairwise (· < ·) ∧
        (c.stream.resume = none → sys.section_.log.issued.length < word → c.point = .pending →
          UpToDate sys.section_ c) := by
  have hruns : (run Streams.step Streams.new waitsForFirst).isSome = true := by decide +kernel
  obtain ⟨sys, hrun⟩ := Option.isSome_iff_exists.1 hruns
  exact ⟨sys, hrun, upToDate_of_run hrun⟩

end DynamicConfig.Server
