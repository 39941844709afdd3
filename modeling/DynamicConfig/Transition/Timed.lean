import DynamicConfig.Transition.Run

/-!
# Systems with a clock

A move takes no time, and a tick moves nothing but the clock. What has a deadline does not let time pass
beyond it: in a state where something is urgent the clock stands still until it is done. So a deadline is
a bound that every run keeps, and the question left is whether the clock can be stopped for good.

It cannot where what is urgent can always be done by moves of the system's own, each of which leaves less
to do (`exists_later`).
-/

namespace Timed

open Transition

variable {σ ε : Type*}

/-- A tick of the clock, or a move. -/
inductive Moment (ε : Type*) where
  | tick
  | move (event : ε)

/-- Moves that take no time, a clock, and what it waits for. -/
structure System (σ ε : Type*) where
  step : σ → ε → Option σ
  now : σ → ℕ
  tick : σ → σ
  urgent : σ → Bool
  now_tick : ∀ s, now (tick s) = now s + 1
  now_step : ∀ {s t : σ} {e : ε}, step s e = some t → now t = now s

namespace System

variable (system : System σ ε)

/-- One moment. -/
def next (s : σ) : Moment ε → Option σ
  | .tick => if system.urgent s = true then none else some (system.tick s)
  | .move event => system.step s event

/-- Moments of which the moves are of some kind. -/
def Own (own : ε → Prop) : Moment ε → Prop
  | .tick => True
  | .move event => own event

variable {system}

theorem now_run {s t : σ} {events : List ε}
    (h : run system.next s (events.map Moment.move) = some t) : system.now t = system.now s := by
  induction events generalizing s with
  | nil =>
    obtain rfl := Option.some.inj h
    rfl
  | cons event events ih =>
    obtain ⟨u, hstep, hrun⟩ := run_cons_eq_some h
    rw [ih hrun, system.now_step hstep]

section

variable {own : ε → Prop} {I : σ → Prop} {weight : σ → ℕ}

/-- What is urgent gets done, and no time passes. -/
theorem exists_idle
    (hdone : ∀ s, I s → system.urgent s = true →
      ∃ event t, own event ∧ system.step s event = some t ∧ I t ∧ weight t < weight s)
    {s : σ} (hs : I s) :
    ∃ (events : List ε) (t : σ), (∀ event ∈ events, own event) ∧
      run system.next s (events.map Moment.move) = some t ∧ I t ∧ system.urgent t = false := by
  induction hweight : weight s using Nat.strongRecOn generalizing s with
  | ind n ih =>
    cases hurgent : system.urgent s with
    | false => exact ⟨[], s, fun event hevent ↦ absurd hevent List.not_mem_nil, rfl, hs, hurgent⟩
    | true =>
      obtain ⟨event, u, hown, hstep, hu, hless⟩ := hdone s hs hurgent
      obtain ⟨events, t, hall, hrun, ht, hidle⟩ := ih (weight u) (hweight ▸ hless) hu rfl
      refine ⟨event :: events, t, fun e he ↦ ?_, ?_, ht, hidle⟩
      · cases he with
        | head => exact hown
        | tail _ he => exact hall e he
      · have hnext : system.next s (.move event) = some u := hstep
        rw [List.map_cons, run_cons_of_step hnext]
        exact hrun

/-- **Time passes**: every later time is reached by moves of the system's own. -/
theorem exists_later
    (hdone : ∀ s, I s → system.urgent s = true →
      ∃ event t, own event ∧ system.step s event = some t ∧ I t ∧ weight t < weight s)
    (htick : ∀ s, I s → system.urgent s = false → I (system.tick s)) {s : σ} (hs : I s) (n : ℕ) :
    ∃ (moments : List (Moment ε)) (t : σ), (∀ moment ∈ moments, Own own moment) ∧
      run system.next s moments = some t ∧ I t ∧ system.now t = system.now s + n := by
  induction n with
  | zero => exact ⟨[], s, fun moment hmoment ↦ absurd hmoment List.not_mem_nil, rfl, hs, rfl⟩
  | succ n ih =>
    obtain ⟨moments, u, hown, hrun, hu, hnow⟩ := ih
    obtain ⟨events, v, hevents, hidle, hv, hurgent⟩ := exists_idle hdone hu
    have htock : system.next v .tick = some (system.tick v) := by
      rw [next, hurgent]
      rfl
    refine ⟨moments ++ (events.map Moment.move ++ [.tick]), system.tick v, fun moment hmoment ↦ ?_, ?_,
      htick v hv hurgent, ?_⟩
    · obtain hmoment | hmoment := List.mem_append.1 hmoment
      · exact hown moment hmoment
      · obtain hmoment | hmoment := List.mem_append.1 hmoment
        · obtain ⟨event, hevent, rfl⟩ := List.mem_map.1 hmoment
          exact hevents event hevent
        · obtain rfl := List.mem_singleton.1 hmoment
          exact trivial
    · refine run_trans hrun (run_trans hidle ?_)
      rw [run_cons_of_step htock, run_nil]
    · rw [system.now_tick, now_run hidle, hnow, Nat.add_assoc]

end

end System

end Timed
