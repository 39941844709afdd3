import DynamicConfig.Config.Value
import DynamicConfig.Transition.Run

/-!
# Blocking work off the executor

`off_thread` hands its work to another thread and awaits a slot the two share: a place for the
outcome, and a place for the waker of the task that waits. The closure holds a guard. Whichever way
it ends (the work returns, it panics, the closure is dropped without having run) either the work's
result is filled in, after the guard has been disarmed, or the guard is dropped armed and fills in a
failure.

The worker and the polls of the task interleave at every lock of the slot. A poll takes the outcome
if it is there, leaves its waker, and looks again; a fill writes the outcome, takes the waker, and
wakes it. Polls are numbered, so that a waker that has been woken is known by the poll that left it
and not by its looks. The ways the work ended, the fills and the wakes are recorded; no step reads
the records.
-/

namespace DynamicConfig.OffThread

open Transition (run)

/-- What a guard fills in when it is dropped armed. -/
def unfinished : Error where
  kind := .backend
  message := "the configuration load did not finish; the task panicked or was cancelled"

/-- The ways the work ends. -/
inductive Ending (T : Type) where
  | returned (outcome : Except Error T)
  | panicked
  /-- Dropped without having run. -/
  | dropped

/-- The outcome that is right for it. -/
def Ending.outcome {T : Type} : Ending T → Except Error T
  | returned outcome => outcome
  | panicked | dropped => .error unfinished

/-- What the worker does next. -/
inductive Point (T W : Type) where
  | queued
  | running
  /-- `fill`, before the outcome is in its place. -/
  | filling (outcome : Except Error T)
  /-- The outcome is there, the waker not yet taken. -/
  | taking
  /-- With the waker in hand. -/
  | waking (waker : Option (Nat × W))
  /-- The closure has come to its end. -/
  | leaving
  | done

/-- The turns a worker still has to take, once its work has ended. -/
def Point.left {T W : Type} : Point T W → ℕ
  | .filling _ => 4
  | .taking => 3
  | .waking _ => 2
  | .leaving => 1
  | .queued | .running | .done => 0

theorem Point.left_le {T W : Type} (point : Point T W) : point.left ≤ 4 := by
  rcases point
  all_goals simp [Point.left]

/-- The task that awaits the slot. -/
inductive Task (T W : Type) where
  /-- It is not polling; the number of its last poll, if there was one, which was pending. -/
  | parked (pending : Option Nat)
  /-- In a poll, before the first look, before leaving the waker, before the second look. -/
  | looking (number : Nat) (waker : W)
  | registering (number : Nat) (waker : W)
  | rechecking (number : Nat)
  | ready (outcome : Except Error T)
  /-- The future was dropped. -/
  | gone

/-- `Slot`: a place for one value, and the task waiting for it. -/
structure Slot (T W : Type) where
  value : Option (Except Error T)
  waker : Option (Nat × W)

/-- The slot, the two parties, and what has happened. -/
structure System (T W : Type) where
  slot : Slot T W
  /-- Whether the guard still holds the slot. -/
  armed : Bool
  point : Point T W
  task : Task T W
  polls : Nat
  /-- How the work ended. -/
  ending : Option (Ending T)
  /-- The outcomes filled in. -/
  fills : List (Except Error T)
  /-- The polls whose wakers were woken. -/
  woken : List Nat

/-- One turn. -/
inductive Turn (T W : Type) where
  /-- The worker runs the closure. -/
  | start
  | finish (outcome : Except Error T)
  | panic
  /-- The closure is dropped instead. -/
  | discard
  /-- The next step of a fill, or of leaving the closure. -/
  | work
  | poll (waker : W)
  /-- The next step of a poll. -/
  | look
  /-- The future is dropped. -/
  | abandon

/-- Whether a turn is a step of a fill, or of leaving the closure. -/
def Turn.isWork {T W : Type} : Turn T W → Bool
  | work => true
  | _ => false

namespace System

variable {T W : Type}

/-- `Guard::drop`: an armed guard fills in the failure. -/
def dropGuard (sys : System T W) : System T W :=
  if sys.armed then { sys with armed := false, point := .filling (.error unfinished) }
  else { sys with point := .done }

/-- `Slot::take`, as a poll uses it: with a value there the future is ready. -/
def take (sys : System T W) (otherwise : System T W) : System T W :=
  match sys.slot.value with
  | some outcome =>
    { sys with slot := { sys.slot with value := none }, task := .ready outcome }
  | none => otherwise

/-- What one turn does. -/
def step (sys : System T W) : Turn T W → Option (System T W)
  | .start =>
    match sys.point with
    | .queued => some { sys with point := .running }
    | _ => none
  | .finish outcome =>
    match sys.point with
    | .running =>
      -- the guard is disarmed before the slot is filled
      some { sys with armed := false, point := .filling outcome, ending := some (.returned outcome) }
    | _ => none
  | .panic =>
    match sys.point with
    | .running => some { sys.dropGuard with ending := some .panicked }
    | _ => none
  | .discard =>
    match sys.point with
    | .queued => some { sys.dropGuard with ending := some .dropped }
    | _ => none
  | .work =>
    match sys.point with
    | .filling outcome =>
      some { sys with
        slot := { sys.slot with value := some outcome }
        point := .taking
        fills := sys.fills ++ [outcome] }
    | .taking =>
      some { sys with slot := { sys.slot with waker := none }, point := .waking sys.slot.waker }
    | .waking waker =>
      some { sys with point := .leaving, woken := sys.woken ++ (waker.map Prod.fst).toList }
    | .leaving => some sys.dropGuard
    | _ => none
  | .poll waker =>
    match sys.task with
    | .parked _ => some { sys with task := .looking sys.polls waker, polls := sys.polls + 1 }
    | _ => none
  | .look =>
    match sys.task with
    | .looking number waker => some (sys.take { sys with task := .registering number waker })
    | .registering number waker =>
      some { sys with
        slot := { sys.slot with waker := some (number, waker) }
        task := .rechecking number }
    | .rechecking number => some (sys.take { sys with task := .parked (some number) })
    | _ => none
  | .abandon =>
    match sys.task with
    | .parked _ => some { sys with task := .gone }
    | _ => none

/-- The closure has been handed over, and the first poll has not come to the slot. -/
def init : System T W := ⟨⟨none, none⟩, true, .queued, .parked none, 0, none, [], []⟩

/-! ### The law -/

/-- The waker a poll left is where the worker will find it, or with the worker, or woken. -/
def Reached (sys : System T W) (number : Nat) : Prop :=
  match sys.point with
  | .queued | .running | .filling _ | .taking => sys.slot.waker.map Prod.fst = some number
  | .waking waker => waker.map Prod.fst = some number
  | .leaving | .done => number ∈ sys.woken

/-- The worker is through: the slot has been filled once, with the outcome that is right, and a future
that is still pending has had its latest waker woken. -/
structure Through (ending : Ending T) (sys : System T W) : Prop where
  point : sys.point = .done
  fills : sys.fills = [ending.outcome]
  woken : ∀ number, sys.task = .parked (some number) → number ∈ sys.woken

/-- **The future resolves exactly once.** -/
structure Resolves (sys : System T W) : Prop where
  /-- The slot is filled at most once, with the outcome that is right for the way the work ended. -/
  right : ∀ outcome ∈ sys.fills, sys.fills = [outcome] ∧ sys.ending.map Ending.outcome = some outcome
  /-- Once the work has ended the worker gets through in four turns of its own or fewer: they are there
  to be taken, and after them it is through, whatever the task does in between. -/
  through : ∀ ending, sys.ending = some ending → ∃ n ≤ 4,
    (∃ t, run step sys (List.replicate n .work) = some t) ∧
      ∀ turns t, run step sys turns = some t → n ≤ turns.countP Turn.isWork → Through ending t
  /-- What the future came to is what was filled in. -/
  same : ∀ outcome, sys.task = .ready outcome → sys.fills = [outcome]
  /-- As long as it has not come to it, what was filled in is there for the next poll. -/
  there : ∀ outcome, sys.fills = [outcome] → (∀ got, sys.task ≠ .ready got) →
    sys.slot.value = some outcome
  /-- A pending future's latest waker is woken once the slot is filled, or is about to be by the fill
  that is under way. -/
  woken : ∀ number, sys.task = .parked (some number) → sys.Reached number

/-! ### What a turn can do -/

/-- A turn that can be taken, and what it does. -/
inductive Moves (sys : System T W) : Turn T W → System T W → Prop where
  | started (hpoint : sys.point = .queued) : Moves sys .start { sys with point := .running }
  | finished (hpoint : sys.point = .running) (outcome : Except Error T) :
    Moves sys (.finish outcome)
      { sys with armed := false, point := .filling outcome, ending := some (.returned outcome) }
  | panicked (hpoint : sys.point = .running) :
    Moves sys .panic { sys.dropGuard with ending := some .panicked }
  | discarded (hpoint : sys.point = .queued) :
    Moves sys .discard { sys.dropGuard with ending := some .dropped }
  | filled {outcome : Except Error T} (hpoint : sys.point = .filling outcome) :
    Moves sys .work { sys with
      slot := { sys.slot with value := some outcome }
      point := .taking
      fills := sys.fills ++ [outcome] }
  | took (hpoint : sys.point = .taking) :
    Moves sys .work { sys with
      slot := { sys.slot with waker := none }
      point := .waking sys.slot.waker }
  | woke {waker : Option (Nat × W)} (hpoint : sys.point = .waking waker) :
    Moves sys .work { sys with
      point := .leaving
      woken := sys.woken ++ (waker.map Prod.fst).toList }
  | left (hpoint : sys.point = .leaving) : Moves sys .work sys.dropGuard
  | polled {pending : Option Nat} (htask : sys.task = .parked pending) (waker : W) :
    Moves sys (.poll waker) { sys with task := .looking sys.polls waker, polls := sys.polls + 1 }
  | looked {number : Nat} {waker : W} (htask : sys.task = .looking number waker) :
    Moves sys .look (sys.take { sys with task := .registering number waker })
  | registered {number : Nat} {waker : W} (htask : sys.task = .registering number waker) :
    Moves sys .look { sys with
      slot := { sys.slot with waker := some (number, waker) }
      task := .rechecking number }
  | rechecked {number : Nat} (htask : sys.task = .rechecking number) :
    Moves sys .look (sys.take { sys with task := .parked (some number) })
  | abandoned {pending : Option Nat} (htask : sys.task = .parked pending) :
    Moves sys .abandon { sys with task := .gone }

theorem moves_of_step {sys t : System T W} {turn : Turn T W} (h : sys.step turn = some t) :
    sys.Moves turn t := by
  cases turn with
  | start | discard =>
    rw [System.step] at h
    split at h
    · next hpoint =>
      obtain rfl := Option.some_inj.1 h
      first | exact .started hpoint | exact .discarded hpoint
    · cases h
  | finish outcome =>
    rw [System.step] at h
    split at h
    · next hpoint =>
      obtain rfl := Option.some_inj.1 h
      exact .finished hpoint outcome
    · cases h
  | panic =>
    rw [System.step] at h
    split at h
    · next hpoint =>
      obtain rfl := Option.some_inj.1 h
      exact .panicked hpoint
    · cases h
  | work =>
    rw [System.step] at h
    split at h
    · next outcome hpoint =>
      obtain rfl := Option.some_inj.1 h
      exact .filled hpoint
    · next hpoint =>
      obtain rfl := Option.some_inj.1 h
      exact .took hpoint
    · next waker hpoint =>
      obtain rfl := Option.some_inj.1 h
      exact .woke hpoint
    · next hpoint =>
      obtain rfl := Option.some_inj.1 h
      exact .left hpoint
    · cases h
  | poll waker =>
    rw [System.step] at h
    split at h
    · next pending htask =>
      obtain rfl := Option.some_inj.1 h
      exact .polled htask waker
    · cases h
  | look =>
    rw [System.step] at h
    split at h
    · next number waker htask =>
      obtain rfl := Option.some_inj.1 h
      exact .looked htask
    · next number waker htask =>
      obtain rfl := Option.some_inj.1 h
      exact .registered htask
    · next number htask =>
      obtain rfl := Option.some_inj.1 h
      exact .rechecked htask
    · cases h
  | abandon =>
    rw [System.step] at h
    split at h
    · next pending htask =>
      obtain rfl := Option.some_inj.1 h
      exact .abandoned htask
    · cases h

/-! ### The invariant -/

/-- What the worker has done at each point. -/
def Phase (sys : System T W) : Prop :=
  match sys.point with
  | .queued | .running => sys.armed = true ∧ sys.fills = [] ∧ sys.ending = none
  | .filling outcome =>
    sys.armed = false ∧ sys.fills = [] ∧ sys.ending.map Ending.outcome = some outcome
  | .taking | .waking _ | .leaving | .done =>
    sys.armed = false ∧ ∃ ending, sys.ending = some ending ∧ sys.fills = [ending.outcome]

/-- What has been filled in is in the slot, until the future takes it. -/
def Held (sys : System T W) : Prop :=
  match sys.task with
  | .ready outcome => sys.fills = [outcome]
  | _ => sys.slot.value = sys.fills.head?

/-- The waker of the present poll, or of the last one, is not lost. -/
def Left (sys : System T W) : Prop :=
  match sys.task with
  | .parked (some number) => sys.Reached number
  | .rechecking number => sys.fills = [] → sys.slot.waker.map Prod.fst = some number
  | _ => True

/-- What every turn keeps. -/
structure Kept (sys : System T W) : Prop where
  phase : sys.Phase
  held : sys.Held
  left : sys.Left

theorem kept_init : (init : System T W).Kept :=
  ⟨⟨rfl, rfl, rfl⟩, rfl, trivial⟩

/-- The slot is filled at most once. -/
theorem Phase.fills_eq {sys : System T W} (h : sys.Phase) :
    sys.fills = [] ∨ ∃ ending, sys.ending = some ending ∧ sys.fills = [ending.outcome] := by
  unfold Phase at h
  split at h
  · exact .inl h.2.1
  · exact .inl h.2.1
  · exact .inl h.2.1
  all_goals exact .inr h.2

/-- Before the slot is filled a waker is left where the worker will look for it. -/
theorem Phase.reached {sys : System T W} (h : sys.Phase) (hfills : sys.fills = []) {number : Nat}
    (hwaker : sys.slot.waker.map Prod.fst = some number) : sys.Reached number := by
  unfold Phase at h
  unfold Reached
  split at h
  · exact hwaker
  · exact hwaker
  · exact hwaker
  all_goals
    obtain ⟨-, ending, -, hfilled⟩ := h
    exact absurd (hfills.symm.trans hfilled) (List.cons_ne_nil _ _).symm

/-- A worker that moves on without touching the slot: the wakers are where they were. -/
theorem Kept.moved {sys t : System T W} (h : sys.Kept) (hphase : t.Phase)
    (hslot : t.slot = sys.slot) (htask : t.task = sys.task) (hfills : t.fills = sys.fills)
    (hreached : ∀ number, sys.Reached number → t.Reached number) : t.Kept := by
  refine ⟨hphase, ?_, ?_⟩
  · have hheld := h.held
    unfold Held at *
    rwa [htask, hslot, hfills]
  · have hleft := h.left
    unfold Left at *
    rw [htask, hslot, hfills]
    split at hleft
    · exact hreached _ hleft
    · exact hleft
    · trivial

/-- A guard that is dropped armed goes on to fill in the failure, for an ending of which that is
right. -/
theorem Kept.discard {sys : System T W} (h : sys.Kept) (harmed : sys.armed = true)
    (hfills : sys.fills = []) {ending : Ending T} (hending : ending.outcome = .error unfinished)
    (hreached : ∀ number, sys.Reached number → sys.slot.waker.map Prod.fst = some number) :
    { sys.dropGuard with ending := some ending }.Kept := by
  have hdrop : sys.dropGuard =
      { sys with armed := false, point := .filling (.error unfinished) } := if_pos harmed
  rw [hdrop]
  exact h.moved ⟨rfl, hfills, congrArg some hending⟩ rfl rfl rfl hreached

/-- The outcome comes to its place, before the waker is looked for. -/
theorem Kept.fill {sys : System T W} (h : sys.Kept) {outcome : Except Error T}
    (hpoint : sys.point = .filling outcome) (harmed : sys.armed = false) (hfills : sys.fills = [])
    (hending : sys.ending.map Ending.outcome = some outcome) :
    { sys with
      slot := { sys.slot with value := some outcome }
      point := .taking
      fills := sys.fills ++ [outcome] }.Kept := by
  obtain ⟨ending, hsome, rfl⟩ := Option.map_eq_some_iff.1 hending
  have hheld := h.held
  have hleft := h.left
  refine ⟨⟨harmed, ending, hsome, by rw [hfills]; rfl⟩, ?_, ?_⟩
  · unfold Held at *
    split at hheld
    · next got htask =>
      -- a future is not ready before
      exact absurd (hfills.symm.trans hheld) (List.cons_ne_nil _ _).symm
    · rw [hfills]
      rfl
  · unfold Left at *
    split at hleft
    · next number htask =>
      rw [Reached, hpoint] at hleft
      rw [htask]
      exact hleft
    · next number htask =>
      rw [htask]
      intro hnil
      exact absurd hnil (by rw [hfills]; exact List.cons_ne_nil _ _)
    · trivial

/-- The worker takes the waker: it finds that of the last poll that was pending. -/
theorem Kept.takeWaker {sys : System T W} (h : sys.Kept) (hpoint : sys.point = .taking) :
    { sys with
      slot := { sys.slot with waker := none }
      point := .waking sys.slot.waker }.Kept := by
  have hphase := h.phase
  have hheld := h.held
  have hleft := h.left
  rw [Phase, hpoint] at hphase
  refine ⟨hphase, hheld, ?_⟩
  unfold Left at *
  split at hleft
  · next number htask =>
    rw [Reached, hpoint] at hleft
    rw [htask]
    exact hleft
  · next number htask =>
    rw [htask]
    obtain ⟨-, ending, -, hfills⟩ := hphase
    exact fun hnil ↦ absurd (hnil.symm.trans hfills) (List.cons_ne_nil _ _).symm
  · trivial

/-- What a look at the slot keeps: the value is taken, or there was none. -/
theorem Kept.take {sys otherwise : System T W} (h : sys.Kept)
    (hready : ∀ outcome, sys.task ≠ .ready outcome)
    (hother : sys.slot.value = none → otherwise.Kept) : (sys.take otherwise).Kept := by
  have hvalue : sys.slot.value = sys.fills.head? := by
    have hheld := h.held
    unfold Held at hheld
    split at hheld
    · next outcome htask => exact absurd htask (hready outcome)
    · exact hheld
  rcases hslot : sys.slot.value with - | outcome
  · rw [System.take, hslot]
    exact hother hslot
  · rw [System.take, hslot]
    refine ⟨h.phase, ?_, trivial⟩
    rcases h.phase.fills_eq with hfills | ⟨ending, -, hfills⟩
    · rw [hfills, hslot] at hvalue
      exact absurd hvalue (Option.some_ne_none outcome)
    · rw [hfills, hslot] at hvalue
      obtain rfl := Option.some_inj.1 hvalue
      exact hfills

/-- A guard that has been disarmed fills nothing in. -/
theorem dropGuard_of_disarmed {sys : System T W} (h : sys.armed = false) :
    sys.dropGuard = { sys with point := .done } :=
  if_neg (Bool.not_eq_true _ ▸ h)

/-- **What a turn keeps.** -/
theorem Kept.step {sys t : System T W} (h : sys.Kept) {turn : Turn T W}
    (hstep : sys.step turn = some t) : t.Kept := by
  have hphase := h.phase
  have hheld := h.held
  have hmoves := moves_of_step hstep
  cases hmoves with
  | started hpoint =>
    rw [Phase, hpoint] at hphase
    refine h.moved hphase rfl rfl rfl fun number hreached ↦ ?_
    rwa [Reached, hpoint] at hreached
  | finished hpoint outcome =>
    rw [Phase, hpoint] at hphase
    refine h.moved ⟨rfl, hphase.2.1, rfl⟩ rfl rfl rfl fun number hreached ↦ ?_
    rwa [Reached, hpoint] at hreached
  | panicked hpoint | discarded hpoint =>
    rw [Phase, hpoint] at hphase
    refine h.discard hphase.1 hphase.2.1 rfl fun number hreached ↦ ?_
    rwa [Reached, hpoint] at hreached
  | filled hpoint =>
    rw [Phase, hpoint] at hphase
    exact h.fill hpoint hphase.1 hphase.2.1 hphase.2.2
  | took hpoint => exact h.takeWaker hpoint
  | woke hpoint =>
    rw [Phase, hpoint] at hphase
    refine h.moved hphase rfl rfl rfl fun number hreached ↦ ?_
    rw [Reached, hpoint] at hreached
    exact List.mem_append_right _ (Option.mem_toList.2 hreached)
  | left hpoint =>
    rw [Phase, hpoint] at hphase
    rw [dropGuard_of_disarmed hphase.1]
    refine h.moved hphase rfl rfl rfl fun number hreached ↦ ?_
    rwa [Reached, hpoint] at hreached
  | polled htask waker =>
    rw [Held, htask] at hheld
    exact ⟨hphase, hheld, trivial⟩
  | looked htask =>
    rw [Held, htask] at hheld
    exact h.take (fun outcome hready ↦ by simp [htask] at hready)
      fun _ ↦ ⟨hphase, hheld, trivial⟩
  | registered htask =>
    rw [Held, htask] at hheld
    exact ⟨hphase, hheld, fun _ ↦ rfl⟩
  | rechecked htask =>
    have hleft := h.left
    rw [Held, htask] at hheld
    rw [Left, htask] at hleft
    refine h.take (fun outcome hready ↦ by simp [htask] at hready)
      fun hnone ↦ ⟨hphase, hheld, ?_⟩
    -- nothing is there at the second look, so the worker has yet to look for the waker
    have hfills : sys.fills = [] := List.head?_eq_none_iff.1 (hheld ▸ hnone)
    exact hphase.reached hfills (hleft hfills)
  | abandoned htask =>
    rw [Held, htask] at hheld
    exact ⟨hphase, hheld, trivial⟩

/-! ### The worker gets through -/

/-- The work has ended in this way. -/
def Ended (ending : Ending T) (sys : System T W) : Prop := sys.Kept ∧ sys.ending = some ending

/-- What has ended is not about to run. -/
theorem Ended.not_starting {ending : Ending T} {sys : System T W} (h : sys.Ended ending) :
    sys.point ≠ .queued ∧ sys.point ≠ .running := by
  obtain ⟨⟨hphase, -, -⟩, hending⟩ := h
  refine ⟨fun hpoint ↦ ?_, fun hpoint ↦ ?_⟩
  all_goals
    rw [Phase, hpoint] at hphase
    exact Option.some_ne_none ending (hending.symm.trans hphase.2.2)

/-- A look at the slot concerns the task alone. -/
theorem take_point (sys : System T W) (task : Task T W) :
    (sys.take { sys with task }).point = sys.point ∧
      (sys.take { sys with task }).ending = sys.ending := by
  rw [System.take]
  split
  · exact ⟨rfl, rfl⟩
  · exact ⟨rfl, rfl⟩

/-- **A turn of the worker brings it nearer**, and a turn of the task leaves it where it is. -/
theorem Ended.step {ending : Ending T} {sys t : System T W} (h : sys.Ended ending) {turn : Turn T W}
    (hstep : sys.step turn = some t) :
    t.Ended ending ∧ t.point.left + (if turn.isWork then 1 else 0) = sys.point.left := by
  have hkept := h.1.step hstep
  obtain ⟨hqueued, hrunning⟩ := h.not_starting
  have hmoves := moves_of_step hstep
  cases hmoves with
  | started hpoint | discarded hpoint => exact absurd hpoint hqueued
  | finished hpoint | panicked hpoint => exact absurd hpoint hrunning
  | filled hpoint | took hpoint | woke hpoint => exact ⟨⟨hkept, h.2⟩, by rw [hpoint]; rfl⟩
  | left hpoint =>
    have hphase := h.1.phase
    rw [Phase, hpoint] at hphase
    rw [dropGuard_of_disarmed hphase.1] at hkept ⊢
    exact ⟨⟨hkept, h.2⟩, by rw [hpoint]; rfl⟩
  | polled | registered | abandoned => exact ⟨⟨hkept, h.2⟩, rfl⟩
  | looked | rechecked =>
    obtain ⟨hpoint, hending⟩ := sys.take_point _
    exact ⟨⟨hkept, hending.trans h.2⟩, congrArg Point.left hpoint⟩

/-- As long as it is not through, the worker has a turn to take. -/
theorem exists_work {sys : System T W} (hleft : sys.point.left ≠ 0) :
    ∃ t, sys.step .work = some t := by
  rw [System.step]
  split
  · exact ⟨_, rfl⟩
  · exact ⟨_, rfl⟩
  · exact ⟨_, rfl⟩
  · exact ⟨_, rfl⟩
  · next hfilling htaking hwaking hleaving =>
    rcases hpoint : sys.point
    case filling outcome => exact absurd hpoint (hfilling outcome)
    case taking => exact absurd hpoint htaking
    case waking waker => exact absurd hpoint (hwaking waker)
    case leaving => exact absurd hpoint hleaving
    all_goals
      rw [hpoint] at hleft
      exact absurd rfl hleft

/-- With no turn left the worker is through. -/
theorem Ended.through {ending : Ending T} {sys : System T W} (h : sys.Ended ending)
    (hleft : sys.point.left = 0) : sys.Through ending := by
  obtain ⟨hqueued, hrunning⟩ := h.not_starting
  obtain ⟨⟨hphase, -, hlatest⟩, hending⟩ := h
  have hdone : sys.point = .done := by
    rcases hpoint : sys.point
    case done => rfl
    case queued => exact absurd hpoint hqueued
    case running => exact absurd hpoint hrunning
    all_goals
      rw [hpoint] at hleft
      cases hleft
  rw [Phase, hdone] at hphase
  obtain ⟨-, got, hgot, hfills⟩ := hphase
  obtain rfl := Option.some_inj.1 (hgot.symm.trans hending)
  refine ⟨hdone, hfills, fun number htask ↦ ?_⟩
  have hreached : sys.Reached number := by rwa [Left, htask] at hlatest
  rwa [Reached, hdone] at hreached

theorem kept_of_run {turns : List (Turn T W)} {sys : System T W}
    (h : run step init turns = some sys) : sys.Kept :=
  Transition.run_invariant (fun _ _ _ hstep hkept ↦ hkept.step hstep) h kept_init

/-- **`off_thread` resolves exactly once**, in every interleaving of the polls with the worker and
whichever way the work ends. -/
theorem resolves_of_run {turns : List (Turn T W)} {sys : System T W}
    (h : run step init turns = some sys) : sys.Resolves := by
  obtain ⟨hphase, hheld, hleft⟩ := kept_of_run h
  constructor
  · intro outcome hmem
    rcases hphase.fills_eq with hfills | ⟨ending, hending, hfills⟩
    · rw [hfills] at hmem
      exact absurd hmem List.not_mem_nil
    · rw [hfills] at hmem
      obtain rfl := List.mem_singleton.1 hmem
      exact ⟨hfills, congrArg (Option.map Ending.outcome) hending⟩
  · intro ending hending
    have hended : sys.Ended ending := ⟨kept_of_run h, hending⟩
    refine ⟨sys.point.left, sys.point.left_le, ?_, fun turns t hrun hcount ↦ ?_⟩
    · refine @Transition.exists_run_replicate _ _ step (Ended ending) (fun s ↦ s.point.left) .work
        (fun s hs hleft ↦ ?_) sys hended
      obtain ⟨t, ht⟩ := exists_work hleft
      exact ⟨t, ht, hs.step ht⟩
    · obtain ⟨hend, hleft⟩ := @Transition.countP_add_left_le _ _ step (Ended ending)
        (fun s ↦ s.point.left) Turn.isWork
        (fun s turn t ht hs ↦ ⟨(hs.step ht).1, Nat.le_of_eq (hs.step ht).2⟩) sys t turns hrun hended
      exact hend.through (by omega)
  · intro outcome htask
    rwa [Held, htask] at hheld
  · intro outcome hfills hready
    unfold Held at hheld
    split at hheld
    · next got htask => exact absurd htask (hready got)
    · rw [hheld, hfills]
      rfl
  · intro number htask
    rwa [Left, htask] at hleft

/-- The task waits, the work panics, and the second poll takes the failure. -/
def panicking : List (Turn Nat Nat) :=
  [.poll 7, .look, .look, .look, .start, .panic, .work, .work, .work, .work, .poll 8, .look]

theorem resolves_panicking :
    ∃ sys : System Nat Nat, run step init panicking = some sys ∧
      (sys.fills = [.error unfinished] ∧ sys.woken = [0] ∧ sys.task = .ready (.error unfinished)) ∧
        sys.Resolves :=
  ⟨_, rfl, ⟨rfl, rfl, rfl⟩, @resolves_of_run _ _ panicking _ rfl⟩

end System

end DynamicConfig.OffThread
