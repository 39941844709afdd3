import DynamicConfig.Cell.Chain

/-!
# No wake-up is lost

A poll checks the counter of changes, registers its waker and checks again; a bump moves the counter,
then takes the list of wakers, and then wakes them one by one. A change between the two checks is seen
by the second one. A change after it finds the waker in the list, unless another bump has taken it and
has woken it already, or has yet to. `TaskRecord` says where a task is in this. Whoever has moved the
counter without yet taking the list is at the point `take`, and whoever has taken it has in hand what
it has yet to wake.

A task that resolves has loaded the cell after it read the counter, and every bump comes after the
swap of its own store, so what it gets is no older than what it marks as seen.
-/

namespace DynamicConfig.Cell

open Remote (word)
open Transition (run)

variable {T R W : Type}

/-- Somebody has moved the counter of changes and has yet to take the list. -/
def Waking (calls : List (StoreCall T R W)) : Prop := ∃ c ∈ calls, c.point = .take

/-- A task whose waker is parked. -/
def Task.Parked (cell : ConfigCell T R W) (t : Task T W) : Prop :=
  ∃ waker, t.waker = some waker ∧ waker ∈ cell.waiting

/-- A task whose waker somebody has taken and has yet to wake. -/
def Task.Held (calls : List (StoreCall T R W)) (t : Task T W) : Prop :=
  ∃ waker, t.waker = some waker ∧ ∃ c ∈ calls, c.point = .wake ∧ waker ∈ c.woken

/-- A task that waits for a change there has been is woken, or is in the list that somebody is about to
take. -/
def WokenOrListed (s : System T R W) : Prop :=
  ∀ t ∈ s.tasks, t.point = .pending → t.seen ≠ s.cell.generation →
    t.woken = true ∨ t.Parked s.cell ∧ Waking s.calls

/-- A task that waits for a change there has been is woken, or is in the list that somebody is about to
take, or somebody who has taken it is about to wake it. -/
def NoLostWakeUp (s : System T R W) : Prop :=
  ∀ t ∈ s.tasks, t.point = .pending → t.seen ≠ s.cell.generation →
    t.woken = true ∨ t.Parked s.cell ∧ Waking s.calls ∨ t.Held s.calls

/-- What a handle resolves with is no older than what it has marked as seen: of the snapshots swapped
in, it is the one of that number or a later one. -/
def NeverStale (s : System T R W) : Prop :=
  ∀ t ∈ s.tasks, ∀ a, t.point = .ready a → ∃ k, s.log.swaps[k]? = some a ∧ t.seen ≤ k + 1

/-- Where a task is. -/
structure TaskRecord (log : Log T R) (cell : ConfigCell T R W) (calls : List (StoreCall T R W))
    (t : Task T W) : Prop where
  seen : t.seen ≤ log.bumped.length
  loading : t.point = .load ∨ t.point = .loadAgain → 0 < log.bumped.length
  registered : t.point = .checkAgain ∨ t.point = .loadAgain ∨ t.point = .pending →
    t.woken = false → t.Parked cell ∨ t.Held calls
  unchanged : t.point = .loadAgain ∨ t.point = .pending → t.woken = false →
    t.seen = cell.generation ∨ Waking calls ∨ t.Held calls
  resolved : ∀ a, t.point = .ready a → ∃ k, log.swaps[k]? = some a ∧ t.seen ≤ k + 1

/-- What holds between turns. -/
structure Attended (s : System T R W) : Prop where
  recorded : Recorded s
  tasks : ∀ t ∈ s.tasks, TaskRecord s.log s.cell s.calls t

section Tasks

variable {log log' : Log T R} {cell cell' : ConfigCell T R W} {calls calls' : List (StoreCall T R W)}
  {t : Task T W}

/-- What has been swapped in stays in its place. -/
theorem Log.Le.swaps (hle : log.Le log') {k : Nat} {a : Arc T} (h : log.swaps[k]? = some a) :
    log'.swaps[k]? = some a := by
  obtain ⟨rest, hrest⟩ := hle.chain
  rw [Log.swaps, List.getElem?_tail] at h ⊢
  obtain ⟨hlt, -⟩ := List.getElem?_eq_some_iff.1 h
  rw [← hrest, List.getElem?_append_left hlt, h]

/-- A task that has registered nothing. -/
theorem TaskRecord.early (hpoint : t.point = .idle ∨ t.point = .check ∨ t.point = .register)
    (hseen : t.seen ≤ log.bumped.length) : TaskRecord log cell calls t := by
  refine ⟨hseen, fun h ↦ ?_, fun h ↦ ?_, fun h ↦ ?_, fun a h ↦ ?_⟩
  all_goals
    rcases hpoint with hpoint | hpoint | hpoint
    all_goals
      rw [hpoint] at h
      simp only [reduceCtorEq, or_self] at h

/-- A task that has resolved. -/
theorem TaskRecord.ready {a : Arc T} (hpoint : t.point = .ready a)
    (hseen : t.seen ≤ log.bumped.length)
    (hfound : ∃ k, log.swaps[k]? = some a ∧ t.seen ≤ k + 1) : TaskRecord log cell calls t := by
  refine ⟨hseen, fun h ↦ ?_, fun h ↦ ?_, fun h ↦ ?_, fun b h ↦ ?_⟩
  case refine_4 =>
    rw [hpoint] at h
    obtain rfl : a = b := TaskPoint.ready.inj h
    exact hfound
  all_goals
    rw [hpoint] at h
    simp only [reduceCtorEq, or_self] at h

/-- What others do, short of taking the list and waking who was in it. -/
theorem TaskRecord.mono (h : TaskRecord log cell calls t) (hle : log.Le log')
    (hwaiting : cell.waiting ⊆ cell'.waiting)
    (hgeneration : cell'.generation = cell.generation ∨ Waking calls')
    (hwaking : Waking calls → Waking calls') (hheld : t.Held calls → t.Held calls') :
    TaskRecord log' cell' calls' t where
  seen := h.seen.trans hle.bumped.length_le
  loading hpoint := (h.loading hpoint).trans_le hle.bumped.length_le
  registered hpoint hasleep := by
    rcases h.registered hpoint hasleep with ⟨waker, hwaker, hmem⟩ | htaken
    · exact Or.inl ⟨waker, hwaker, hwaiting hmem⟩
    · exact Or.inr (hheld htaken)
  unchanged hpoint hasleep := by
    rcases hgeneration with hsame | hbump
    · rw [hsame]
      exact (h.unchanged hpoint hasleep).imp_right (Or.imp hwaking hheld)
    · exact Or.inr (Or.inl hbump)
  resolved a hpoint := by
    obtain ⟨k, hk, hseen⟩ := h.resolved a hpoint
    exact ⟨k, hle.swaps hk, hseen⟩

/-! ### Those in the middle of a bump -/

variable {i : Nat} {c d : StoreCall T R W}

/-- A call other than the one that moves stays as it is. -/
theorem mem_set_of_ne (hc : calls[i]? = some c) {f : StoreCall T R W} (hf : f ∈ calls)
    (hne : f ≠ c) : f ∈ calls.set i d := by
  obtain ⟨k, hk⟩ := List.mem_iff_getElem?.1 hf
  have hik : i ≠ k := by
    rintro rfl
    exact hne (Option.some.inj (hk.symm.trans hc))
  exact List.mem_of_getElem? ((List.getElem?_set_ne hik).trans hk)

theorem mem_set_moved (hc : calls[i]? = some c) : d ∈ calls.set i d := by
  obtain ⟨hlt, -⟩ := List.getElem?_eq_some_iff.1 hc
  exact List.mem_of_getElem? (List.getElem?_set_self hlt)

/-- Who is about to take the list stays so while others move. -/
theorem Waking.set (h : Waking calls) (hc : calls[i]? = some c) (hpoint : c.point ≠ .take) :
    Waking (calls.set i d) := by
  obtain ⟨f, hf, htake⟩ := h
  exact ⟨f, mem_set_of_ne hc hf fun hsame ↦ hpoint (hsame ▸ htake), htake⟩

/-- What is in somebody's hands stays there while others move. -/
theorem Task.Held.set (h : t.Held calls) (hc : calls[i]? = some c) (hpoint : c.point ≠ .wake) :
    t.Held (calls.set i d) := by
  obtain ⟨waker, hwaker, f, hf, hwake, hmem⟩ := h
  exact ⟨waker, hwaker, f, mem_set_of_ne hc hf fun hsame ↦ hpoint (hsame ▸ hwake), hwake, hmem⟩

/-- Who has these wakers left to wake has them in hand. -/
theorem Task.held_waking (hc : calls[i]? = some c) {waker : W} {woken : List W}
    (hwaker : t.waker = some waker) (hmem : waker ∈ woken) :
    t.Held (calls.set i (c.waking woken)) := by
  refine ⟨waker, hwaker, c.waking woken, mem_set_moved hc, if_neg ?_, hmem⟩
  rw [List.isEmpty_iff]
  exact List.ne_nil_of_mem hmem

/-- **Taking the list**: who was in it is in hand. -/
theorem TaskRecord.take (h : TaskRecord log cell calls t) (hle : log.Le log')
    (hc : calls[i]? = some c) (hpoint : c.point = .take) :
    TaskRecord log' cell' (calls.set i (c.waking cell.waiting)) t where
  seen := h.seen.trans hle.bumped.length_le
  loading hpoint := (h.loading hpoint).trans_le hle.bumped.length_le
  registered hregistered hasleep := by
    rcases h.registered hregistered hasleep with ⟨waker, hwaker, hmem⟩ | hheld
    · exact Or.inr (Task.held_waking hc hwaker hmem)
    · exact Or.inr (hheld.set hc (by rw [hpoint]; decide))
  unchanged hpending hasleep := by
    rcases h.registered (Or.inr hpending) hasleep with ⟨waker, hwaker, hmem⟩ | hheld
    · exact Or.inr (Or.inr (Task.held_waking hc hwaker hmem))
    · exact Or.inr (Or.inr (hheld.set hc (by rw [hpoint]; decide)))
  resolved a hpoint := by
    obtain ⟨k, hk, hseen⟩ := h.resolved a hpoint
    exact ⟨k, hle.swaps hk, hseen⟩

variable [DecidableEq W]

/-- A task that a wake leaves asleep was asleep, and its waker is another. -/
theorem Task.asleep_of_wake {wakers : List W} (h : (t.wake wakers).woken = false) :
    t.woken = false ∧ ∀ waker, t.waker = some waker → waker ∉ wakers := by
  obtain ⟨hasleep, hother⟩ := Bool.or_eq_false_iff.1 h
  refine ⟨hasleep, fun waker hwaker hmem ↦ ?_⟩
  rw [hwaker, Option.any_some, decide_eq_true hmem] at hother
  cases hother

/-- What was in hand is still, unless it was woken. -/
theorem Task.Held.wake (h : t.Held calls) (hc : calls[i]? = some c)
    (hasleep : (t.wake (c.woken.take 1)).woken = false) :
    t.Held (calls.set i (c.waking c.woken.tail)) := by
  obtain ⟨waker, hwaker, f, hf, hwake, hmem⟩ := h
  by_cases hsame : f = c
  · have hother := (Task.asleep_of_wake hasleep).2 waker hwaker
    obtain rfl := hsame
    refine Task.held_waking hc hwaker ?_
    rcases hwoken : f.woken with - | ⟨first, rest⟩
    · rw [hwoken] at hmem
      cases hmem
    · rw [hwoken] at hmem hother
      rcases List.mem_cons.1 hmem with rfl | hrest
      · exact absurd (List.mem_singleton_self waker) hother
      · exact hrest
  · exact ⟨waker, hwaker, f, mem_set_of_ne hc hf hsame, hwake, hmem⟩

/-- **Waking the first of those in hand.** -/
theorem TaskRecord.wake (h : TaskRecord log cell calls t) (hle : log.Le log')
    (hc : calls[i]? = some c) (hpoint : c.point = .wake) :
    TaskRecord log' cell (calls.set i (c.waking c.woken.tail)) (t.wake (c.woken.take 1)) where
  seen := h.seen.trans hle.bumped.length_le
  loading hpoint := (h.loading hpoint).trans_le hle.bumped.length_le
  registered hregistered hasleep := by
    rcases h.registered hregistered (Task.asleep_of_wake hasleep).1 with hparked | hheld
    · exact Or.inl hparked
    · exact Or.inr (hheld.wake hc hasleep)
  unchanged hpending hasleep := by
    rcases h.unchanged hpending (Task.asleep_of_wake hasleep).1 with hsame | hwaking | hheld
    · exact Or.inl hsame
    · exact Or.inr (Or.inl (hwaking.set hc (by rw [hpoint]; decide)))
    · exact Or.inr (Or.inr (hheld.wake hc hasleep))
  resolved a hpoint := by
    obtain ⟨k, hk, hseen⟩ := h.resolved a hpoint
    exact ⟨k, hle.swaps hk, hseen⟩

end Tasks

section Polls

variable {s : System T R W} {t : Task T W}

/-- The counter never shows more than there were bumps. -/
theorem Recorded.generation_le (h : Recorded s) : s.cell.generation ≤ s.log.bumped.length := by
  rw [h.generation]
  exact Nat.mod_le _ _

/-- A counter that has moved on has been bumped. -/
theorem Recorded.bumped_of_moved (h : Recorded s) (hseen : t.seen ≤ s.log.bumped.length)
    (hmoved : s.cell.generation ≠ t.seen) : 0 < s.log.bumped.length := by
  have hle := h.generation_le
  omega

/-- A load after a check that saw a change finds a snapshot no older than the change. -/
theorem Attended.loaded (h : Attended s) (ht : TaskRecord s.log s.cell s.calls t)
    (hpoint : t.point = .load ∨ t.point = .loadAgain) {a : Arc T} (ha : s.cell.inner = some a) :
    ∃ k, s.log.swaps[k]? = some a ∧ t.seen ≤ k + 1 := by
  have hbumped := ht.loading hpoint
  have hle := h.recorded.bumped_le_swaps
  obtain ⟨x, hx, hlast⟩ := h.recorded.inner_of_swaps (by omega)
  obtain rfl : a = x := Option.some.inj (ha.symm.trans hx)
  have hseen := ht.seen
  exact ⟨s.log.swaps.length - 1, hlast, by omega⟩

variable [DecidableEq W]

/-- **One step of a poll.** -/
theorem Attended.taskStep (h : Attended s) (ht : TaskRecord s.log s.cell s.calls t)
    {e : ConfigCell T R W × Task T W} (he : t.step s.cell = some e) :
    TaskRecord s.log e.1 s.calls e.2 := by
  have hgeneration := h.recorded.generation_le
  rw [Task.step] at he
  rcases hpoint : t.point
  all_goals
    rw [hpoint] at he
    dsimp only at he
  case check =>
    split at he
    · obtain rfl := Option.some.inj he
      exact TaskRecord.early (Or.inr (Or.inr rfl)) ht.seen
    · next hmoved =>
      obtain rfl := Option.some.inj he
      refine ⟨hgeneration, fun _ ↦ h.recorded.bumped_of_moved ht.seen hmoved, fun hlater ↦ ?_,
        fun hlater ↦ ?_, fun a hready ↦ by cases hready⟩
      · simp only [reduceCtorEq, or_self] at hlater
      · simp only [reduceCtorEq, or_self] at hlater
  case load =>
    obtain rfl := Option.some.inj he
    rcases hinner : s.cell.inner with - | a
    · exact TaskRecord.early (Or.inr (Or.inr rfl)) ht.seen
    · exact TaskRecord.ready rfl ht.seen (h.loaded ht (Or.inl hpoint) hinner)
  case register =>
    obtain ⟨waker, hwaker, rfl⟩ := Option.map_eq_some_iff.1 he
    refine ⟨ht.seen, fun hload ↦ ?_, fun _ _ ↦ Or.inl ⟨waker, hwaker, ?_⟩, fun hlater ↦ ?_,
      fun a hready ↦ by cases hready⟩
    · simp only [reduceCtorEq, or_self] at hload
    · show waker ∈ if waker ∈ s.cell.waiting then s.cell.waiting else s.cell.waiting ++ [waker]
      split
      · next hmem => exact hmem
      · exact List.mem_append_right _ (List.mem_singleton_self waker)
    · simp only [reduceCtorEq, or_self] at hlater
  case checkAgain =>
    split at he
    · next hsame =>
      obtain rfl := Option.some.inj he
      refine ⟨ht.seen, fun hload ↦ ?_, fun _ ↦ ht.registered (Or.inl hpoint),
        fun _ _ ↦ Or.inl hsame.symm, fun a hready ↦ by cases hready⟩
      simp only [reduceCtorEq, or_self] at hload
    · next hmoved =>
      obtain rfl := Option.some.inj he
      exact ⟨hgeneration, fun _ ↦ h.recorded.bumped_of_moved ht.seen hmoved,
        fun _ ↦ ht.registered (Or.inl hpoint), fun _ _ ↦ Or.inl rfl, fun a hready ↦ by cases hready⟩
  case loadAgain =>
    obtain rfl := Option.some.inj he
    rcases hinner : s.cell.inner with - | a
    · refine ⟨ht.seen, fun hload ↦ ?_, fun _ ↦ ht.registered (Or.inr (Or.inl hpoint)),
        fun _ ↦ ht.unchanged (Or.inl hpoint), fun a hready ↦ by cases hready⟩
      simp only [Task.resolve, Option.map_none, Option.getD_none, reduceCtorEq, or_self] at hload
    · exact TaskRecord.ready rfl ht.seen (h.loaded ht (Or.inr hpoint) hinner)
  all_goals cases he

/-- A poll takes nobody off the list. -/
theorem Task.waiting_subset {cell : ConfigCell T R W} {e : ConfigCell T R W × Task T W}
    (he : t.step cell = some e) :
    cell.waiting ⊆ e.1.waiting ∧ e.1.generation = cell.generation := by
  rw [Task.step] at he
  rcases hpoint : t.point
  all_goals
    rw [hpoint] at he
    dsimp only at he
  case register =>
    obtain ⟨waker, -, rfl⟩ := Option.map_eq_some_iff.1 he
    refine ⟨?_, rfl⟩
    show cell.waiting ⊆ if waker ∈ cell.waiting then cell.waiting else cell.waiting ++ [waker]
    split
    · exact List.Subset.refl _
    · exact List.subset_append_left _ _
  case check =>
    split at he
    all_goals
      obtain rfl := Option.some.inj he
      exact ⟨List.Subset.refl _, rfl⟩
  case checkAgain =>
    split at he
    all_goals
      obtain rfl := Option.some.inj he
      exact ⟨List.Subset.refl _, rfl⟩
  case load =>
    obtain rfl := Option.some.inj he
    exact ⟨List.Subset.refl _, rfl⟩
  case loadAgain =>
    obtain rfl := Option.some.inj he
    exact ⟨List.Subset.refl _, rfl⟩
  all_goals cases he

end Polls

section Stores

variable {s : System T R W} {i now : Nat} {c : StoreCall T R W}
  {e : ConfigCell T R W × StoreCall T R W}

/-- What a step of a call does to the counter, the list and those in the middle of a bump. -/
theorem StoreCall.step_notify (he : c.step i now s.cell = some e) :
    c.point = .take ∧ e.2 = c.waking s.cell.waiting ∨
      c.point = .wake ∧ e = (s.cell, c.waking c.woken.tail) ∨
        (c.point ≠ .take ∧ c.point ≠ .wake) ∧ s.cell.waiting ⊆ e.1.waiting ∧
          (e.1.generation = s.cell.generation ∨ e.2.point = .take) := by
  have hkeep : s.cell.waiting ⊆ s.cell.waiting := List.Subset.refl _
  rw [StoreCall.step] at he
  rcases hpoint : c.point
  all_goals
    rw [hpoint] at he
    dsimp only at he
  case take =>
    obtain rfl := Option.some.inj he
    exact Or.inl ⟨rfl, rfl⟩
  case wake =>
    obtain rfl := Option.some.inj he
    exact Or.inr (Or.inl ⟨rfl, rfl⟩)
  case advance =>
    obtain rfl := Option.some.inj he
    exact Or.inr (Or.inr ⟨by decide, hkeep, Or.inr rfl⟩)
  case publish =>
    split at he
    all_goals
      obtain rfl := Option.some.inj he
      exact Or.inr (Or.inr ⟨by decide, hkeep, Or.inl rfl⟩)
  case dispatch =>
    obtain ⟨m, -, he⟩ := Option.bind_eq_some_iff.1 he
    obtain rfl := Option.some.inj he
    exact Or.inr (Or.inr ⟨by decide, hkeep, Or.inl rfl⟩)
  case returned => cases he
  all_goals
    obtain rfl := Option.some.inj he
    exact Or.inr (Or.inr ⟨by decide, hkeep, Or.inl rfl⟩)

end Stores

/-! ### Every run -/

variable [DecidableEq W]

/-- A step of a call, for everybody who waits. -/
theorem Attended.storeStep {s : System T R W} (h : Attended s) {i now : Nat} {c : StoreCall T R W}
    {e : ConfigCell T R W × StoreCall T R W} (hc : s.calls[i]? = some c)
    (he : c.step i now s.cell = some e) :
    ∀ t ∈ (if c.point = .wake then s.tasks.map (Task.wake (c.woken.take 1)) else s.tasks),
      TaskRecord (s.log.after i s.cell c e.2) e.1 (s.calls.set i e.2) t := by
  have hle : s.log.Le (s.log.after i s.cell c e.2) := Log.le_after s.log i s.cell c e.2
  intro t ht
  rcases StoreCall.step_notify he with ⟨htake, hnext⟩ | ⟨hwake, rfl⟩ | ⟨⟨htake, hwake⟩, hwaiting, hgeneration⟩
  · rw [if_neg (by rw [htake]; decide)] at ht
    rw [hnext] at hle ⊢
    exact (h.tasks t ht).take hle hc htake
  · rw [if_pos hwake] at ht
    obtain ⟨t', ht', rfl⟩ := List.mem_map.1 ht
    exact (h.tasks t' ht').wake hle hc hwake
  · rw [if_neg hwake] at ht
    exact (h.tasks t ht).mono hle hwaiting
      (hgeneration.imp_right fun hbump ↦ ⟨e.2, mem_set_moved hc, hbump⟩)
      (fun hold ↦ hold.set hc htake) fun hold ↦ hold.set hc hwake

/-- **One turn loses no wake-up.** -/
theorem Attended.step {s t : System T R W} (h : Attended s) {turn : Turn T R W}
    (hstep : s.step turn = some t) : Attended t := by
  refine ⟨h.recorded.step hstep, ?_⟩
  have hgeneration := h.recorded.generation_le
  cases System.moves_of_step hstep with
  | begin_ value reason =>
    intro task htask
    refine (h.tasks task htask).mono (Log.Le.refl _) (List.Subset.refl _) (Or.inl rfl) ?_ ?_
    · rintro ⟨c, hc, htake⟩
      exact ⟨c, List.mem_append_left _ hc, htake⟩
    · rintro ⟨waker, hwaker, c, hc, hwake⟩
      exact ⟨waker, hwaker, c, List.mem_append_left _ hc, hwake⟩
  | store hc he => exact h.storeStep hc he
  | recordFailure =>
    intro task htask
    exact (h.tasks task htask).mono (Log.Le.refl _) (List.Subset.refl _) (Or.inl rfl)
      (fun hwaking ↦ hwaking) fun hheld ↦ hheld
  | subscribe =>
    intro task htask
    rcases List.mem_append.1 htask with hold | hnew
    · exact h.tasks task hold
    · obtain rfl := List.mem_singleton.1 hnew
      exact TaskRecord.early (Or.inl rfl) hgeneration
  | poll waker htask hfree =>
    intro other hother
    rcases List.mem_or_eq_of_mem_set hother with hold | rfl
    · exact h.tasks other hold
    · exact TaskRecord.early (Or.inr (Or.inl rfl)) (h.tasks _ (List.mem_of_getElem? htask)).seen
  | task htask he =>
    obtain ⟨hwaiting, hsame⟩ := Task.waiting_subset he
    intro other hother
    rcases List.mem_or_eq_of_mem_set hother with hold | rfl
    · exact (h.tasks other hold).mono (Log.Le.refl _) hwaiting (Or.inl hsame)
        (fun hwaking ↦ hwaking) fun hheld ↦ hheld
    · exact h.taskStep (h.tasks _ (List.mem_of_getElem? htask)) he
  | generation | current hr hfresh => exact h.tasks

theorem attended_of_run {s : System T R W} {turns : List (Turn T R W)}
    (h : run System.step System.new turns = some s) : Attended s := by
  have hnew : Attended (System.new : System T R W) :=
    ⟨recorded_new, fun t ht ↦ absurd ht List.not_mem_nil⟩
  exact Transition.run_invariant (fun _ _ _ hstep hattended ↦ hattended.step hstep) h hnew

/-- **No wake-up is lost, and nobody is woken to something stale.** -/
theorem noLostWakeUp_of_run {s : System T R W} {turns : List (Turn T R W)}
    (h : run System.step System.new turns = some s) : NoLostWakeUp s ∧ NeverStale s := by
  have hattended := attended_of_run h
  refine ⟨fun t ht hpending hchanged ↦ ?_, fun t ht a hready ↦ ?_⟩
  case refine_2 => exact (hattended.tasks t ht).resolved a hready
  rcases hwoken : t.woken with - | -
  · have hrecord := hattended.tasks t ht
    rcases hrecord.unchanged (Or.inr hpending) hwoken with hsame | hwaking | hheld
    · exact absurd hsame hchanged
    · exact Or.inr ((hrecord.registered (Or.inr (Or.inr hpending)) hwoken).imp_left
        fun hparked ↦ ⟨hparked, hwaking⟩)
    · exact Or.inr (Or.inr hheld)
  · exact Or.inl rfl

/-- A store lands between the two checks of a poll, and has moved the counter only after the second. -/
def betweenChecks : List (Turn String Unit Nat) :=
  [.subscribe, .poll 0 7, .task 0, .task 0, .begin_ "first" ()] ++ steps 0 0 6 ++
    [.task 0, .store 0 0]

/-- The task sleeps, and is in the list the store has yet to take. -/
theorem noLostWakeUp_between_checks : ∃ s : System String Unit Nat,
    run System.step System.new betweenChecks = some s ∧
      (s.tasks.all (fun t ↦ !t.woken && decide (t.seen ≠ s.cell.generation)) = true ∧
        s.cell.waiting = [7]) ∧ NoLostWakeUp s ∧ NeverStale s := by
  have hruns : (run System.step (System.new : System String Unit Nat) betweenChecks).map (fun s ↦
      (s.tasks.all (fun t ↦ !t.woken && decide (t.seen ≠ s.cell.generation)), s.cell.waiting)) =
        some (true, [7]) := by
    decide +kernel
  obtain ⟨s, hrun, hread⟩ := Option.map_eq_some_iff.1 hruns
  exact ⟨s, hrun, Prod.mk.inj hread, noLostWakeUp_of_run hrun⟩

/-- **A wake-up that is in hand**: the store goes on and takes the list, and has not yet woken the task,
which is not woken and in no list. -/
theorem not_wokenOrListed_of_taken : ∃ s : System String Unit Nat,
    run System.step System.new (betweenChecks ++ [.store 0 0]) = some s ∧ ¬ WokenOrListed s := by
  have hruns : (run System.step (System.new : System String Unit Nat)
      (betweenChecks ++ [.store 0 0])).map (fun s ↦
        (s.tasks.map fun t ↦ (t.seen, match t.point with | .pending => true | _ => false, t.woken),
          s.cell.generation, s.cell.waiting)) = some ([(0, true, false)], 1, []) := by
    decide +kernel
  obtain ⟨s, hrun, hread⟩ := Option.map_eq_some_iff.1 hruns
  obtain ⟨htasks, hcell⟩ := Prod.mk.inj hread
  obtain ⟨hgeneration, hwaiting⟩ := Prod.mk.inj hcell
  refine ⟨s, hrun, fun hlisted ↦ ?_⟩
  obtain ⟨t, ht, hread⟩ : ∃ t ∈ s.tasks, (t.seen, (match t.point with | .pending => true | _ => false),
      t.woken) = (0, true, false) :=
    List.mem_map.1 (htasks ▸ List.mem_singleton_self _)
  obtain ⟨hseen, hrest⟩ := Prod.mk.inj hread
  obtain ⟨hpending, hasleep⟩ := Prod.mk.inj hrest
  have hpoint : t.point = .pending := by
    split at hpending
    · assumption
    · cases hpending
  rcases hlisted t ht hpoint (by rw [hseen, hgeneration]; decide) with hwoken | ⟨⟨waker, -, hmem⟩, -⟩
  · rw [hasleep] at hwoken
    cases hwoken
  · rw [hwaiting] at hmem
    cases hmem

end DynamicConfig.Cell
