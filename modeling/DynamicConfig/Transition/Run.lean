import Mathlib.Data.List.Basic
import Mathlib.Logic.Function.Iterate

/-!
# Runs of a transition system

A system is a step function that takes a state and an event and answers the next state, or nothing
where the event cannot happen. A run is a list of events taken one after the other. Interleavings
are runs: the parties are part of the state, and the events say which of them moves.

`run_invariant` is the induction every safety result goes through. Its bounded form is for systems
with counters that wrap: what is preserved as long as the counters stay below their bound holds in
every state below the bound, since the states before it are below it too.
-/

namespace Transition

variable {σ ε : Type*} {step : σ → ε → Option σ}

/-- Take events in order. -/
def run (step : σ → ε → Option σ) : σ → List ε → Option σ
  | s, [] => some s
  | s, e :: es => (step s e).bind fun t ↦ run step t es

@[simp] theorem run_nil (s : σ) : run step s [] = some s := rfl

theorem run_cons (s : σ) (e : ε) (es : List ε) :
    run step s (e :: es) = (step s e).bind fun t ↦ run step t es := rfl

/-- A run goes on where its first step leads. -/
theorem run_cons_of_step {s t : σ} {e : ε} (h : step s e = some t) (es : List ε) :
    run step s (e :: es) = run step t es := by
  rw [run_cons, h]
  rfl

/-- A run is cut anywhere. -/
theorem run_append (s : σ) (es fs : List ε) :
    run step s (es ++ fs) = (run step s es).bind fun t ↦ run step t fs := by
  induction es generalizing s with
  | nil => rfl
  | cons e es ih =>
    rw [List.cons_append, run_cons, run_cons]
    rcases step s e with - | t
    · rfl
    · exact ih t

/-- One run after the other. -/
theorem run_trans {s t u : σ} {es fs : List ε} (h : run step s es = some t)
    (h' : run step t fs = some u) : run step s (es ++ fs) = some u := by
  rw [run_append, h]
  exact h'

theorem run_cons_eq_some {s u : σ} {e : ε} {es : List ε} (h : run step s (e :: es) = some u) :
    ∃ t, step s e = some t ∧ run step t es = some u :=
  Option.bind_eq_some_iff.1 h

/-- **What one step preserves, a run preserves.** -/
theorem run_invariant {I : σ → Prop} (hstep : ∀ s e t, step s e = some t → I s → I t) {s u : σ}
    {es : List ε} (h : run step s es = some u) (hs : I s) : I u := by
  induction es generalizing s with
  | nil => exact Option.some.inj h ▸ hs
  | cons e es ih =>
    obtain ⟨t, ht, hrun⟩ := run_cons_eq_some h
    exact ih hrun (hstep s e t ht hs)

/-- The same for steps of some kind only. -/
theorem run_invariant_of {I : σ → Prop} {P : ε → Prop}
    (hstep : ∀ s e t, P e → step s e = some t → I s → I t) {s u : σ} {es : List ε}
    (hes : ∀ e ∈ es, P e) (h : run step s es = some u) (hs : I s) : I u := by
  induction es generalizing s with
  | nil => exact Option.some.inj h ▸ hs
  | cons e es ih =>
    obtain ⟨t, ht, hrun⟩ := run_cons_eq_some h
    have hrest : ∀ f ∈ es, P f := fun f hf ↦ hes f (List.mem_cons_of_mem e hf)
    exact ih hrest hrun (hstep s e t (hes e List.mem_cons_self) ht hs)

/-- A run whose every step meets a condition in the state it is taken in. -/
def Along (step : σ → ε → Option σ) (P : σ → ε → Prop) : σ → List ε → Prop
  | _, [] => True
  | s, e :: es => P s e ∧ ∀ t, step s e = some t → Along step P t es

/-- A run can be checked step by step. -/
instance Along.decidable {P : σ → ε → Prop} [∀ s e, Decidable (P s e)] :
    (s : σ) → (es : List ε) → Decidable (Along step P s es)
  | _, [] => isTrue trivial
  | s, e :: es =>
    match hstep : step s e with
    | none => decidable_of_iff (P s e)
        ⟨fun he ↦ ⟨he, fun t ht ↦ absurd (ht.symm.trans hstep) (Option.some_ne_none t)⟩, And.left⟩
    | some t =>
      have := Along.decidable (P := P) t es
      decidable_of_iff (P s e ∧ Along step P t es)
        ⟨fun ⟨he, hes⟩ ↦ ⟨he, fun _ hu ↦ Option.some.inj (hstep.symm.trans hu) ▸ hes⟩,
          fun ⟨he, hes⟩ ↦ ⟨he, hes t hstep⟩⟩

/-- **What a step that meets the condition preserves, a run of such steps preserves.** -/
theorem run_invariant_along {I : σ → Prop} {P : σ → ε → Prop}
    (hstep : ∀ s e t, P s e → step s e = some t → I s → I t) {s u : σ} {es : List ε}
    (hes : Along step P s es) (h : run step s es = some u) (hs : I s) : I u := by
  induction es generalizing s with
  | nil => exact Option.some.inj h ▸ hs
  | cons e es ih =>
    obtain ⟨t, ht, hrun⟩ := run_cons_eq_some h
    obtain ⟨hmeets, hrest⟩ := hes
    exact ih (hrest t ht) hrun (hstep s e t hmeets ht hs)

/-- Where an invariant of some events implies the condition, their runs meet it. -/
theorem along_of_invariant {I : σ → Prop} {P : σ → ε → Prop} {Q : ε → Prop}
    (hstep : ∀ s e t, Q e → step s e = some t → I s → I t) (hmeets : ∀ s e, Q e → I s → P s e)
    {s : σ} {es : List ε} (hes : ∀ e ∈ es, Q e) (hs : I s) : Along step P s es := by
  induction es generalizing s with
  | nil => exact trivial
  | cons e es ih =>
    have he := hes e List.mem_cons_self
    refine ⟨hmeets s e he hs, fun t ht ↦ ih (fun f hf ↦ ?_) (hstep s e t he ht hs)⟩
    exact hes f (List.mem_cons_of_mem e hf)

/-- An invariant strengthens the condition a run meets. -/
theorem Along.imp {I : σ → Prop} {P Q : σ → ε → Prop}
    (hstep : ∀ s e t, P s e → step s e = some t → I s → I t) (himp : ∀ s e, I s → P s e → Q s e) {s : σ}
    {es : List ε} (h : Along step P s es) (hs : I s) : Along step Q s es := by
  induction es generalizing s with
  | nil => exact trivial
  | cons e es ih =>
    obtain ⟨hmeets, hrest⟩ := h
    exact ⟨himp s e hs hmeets, fun t ht ↦ ih (hrest t ht) (hstep s e t hmeets ht hs)⟩

/-- **What a step preserves below a bound holds below the bound**, if steps never come back under
it. -/
theorem run_invariant_below {I B : σ → Prop} (hdown : ∀ s e t, step s e = some t → B t → B s)
    (hstep : ∀ s e t, step s e = some t → B t → I s → I t) {s u : σ} {es : List ε}
    (h : run step s es = some u) (hu : B u) (hs : I s) : I u := by
  have hbelow : ∀ {s : σ} {es : List ε}, run step s es = some u → B s := by
    intro s es hrun
    induction es generalizing s with
    | nil => exact Option.some.inj hrun ▸ hu
    | cons e es ih =>
      obtain ⟨t, ht, hrest⟩ := run_cons_eq_some hrun
      exact hdown s e t ht (ih hrest)
  induction es generalizing s with
  | nil => exact Option.some.inj h ▸ hs
  | cons e es ih =>
    obtain ⟨t, ht, hrun⟩ := run_cons_eq_some h
    exact ih hrun (hstep s e t ht (hbelow hrun) hs)

/-- One event that always happens, over and over. -/
theorem run_replicate {e : ε} {g : σ → σ} (hstep : ∀ s, step s e = some (g s)) (n : ℕ) (s : σ) :
    run step s (List.replicate n e) = some (g^[n] s) := by
  induction n generalizing s with
  | zero => rfl
  | succ n ih =>
    rw [List.replicate_succ, run_cons, hstep, Option.bind_some, ih]
    rfl

/-- A state that no event moves is where its runs end. -/
theorem run_of_stuck {s u : σ} (hstuck : ∀ e, step s e = none) {es : List ε}
    (h : run step s es = some u) : es = [] ∧ u = s := by
  rcases es with - | ⟨e, es⟩
  · exact ⟨rfl, (Option.some.inj h).symm⟩
  · obtain ⟨t, ht, -⟩ := run_cons_eq_some h
    rw [hstuck e] at ht
    cases ht

/-- One state comes after another by an event of a kind. -/
def After (step : σ → ε → Option σ) (own : ε → Bool) (t s : σ) : Prop :=
  ∃ e, own e = true ∧ step s e = some t

/-- **Events that come to an end** lead to where none of them is possible. -/
theorem exists_stuck {own : ε → Bool} {s : σ} (h : Acc (After step own) s) :
    ∃ es t, (∀ e ∈ es, own e = true) ∧ run step s es = some t ∧ ∀ e, own e = true → step t e = none := by
  induction h with
  | intro s _ ih =>
    by_cases hstuck : ∀ e, own e = true → step s e = none
    · exact ⟨[], s, fun e he ↦ absurd he List.not_mem_nil, rfl, hstuck⟩
    · obtain ⟨e, hmoves⟩ := not_forall.1 hstuck
      obtain ⟨hown, hsome⟩ := Classical.not_imp.1 hmoves
      obtain ⟨u, hu⟩ := Option.ne_none_iff_exists'.1 hsome
      obtain ⟨es, t, hes, hrun, hend⟩ := ih u ⟨e, hown, hu⟩
      refine ⟨e :: es, t, fun f hf ↦ ?_, (run_cons_of_step hu es).trans hrun, hend⟩
      rcases List.mem_cons.1 hf with rfl | hf
      · exact hown
      · exact hes f hf

/-- **A party's own events come to an end**: where they bring it nearer to its end, and the others do
not take it away from there, a run has no more of them than were left. -/
theorem countP_add_left_le {I : σ → Prop} {left : σ → ℕ} {own : ε → Bool}
    (hstep : ∀ s e t, step s e = some t → I s →
      I t ∧ left t + (if own e then 1 else 0) ≤ left s) {s u : σ} {es : List ε}
    (h : run step s es = some u) (hs : I s) : I u ∧ es.countP own + left u ≤ left s := by
  induction es generalizing s with
  | nil =>
    obtain rfl := Option.some.inj h
    refine ⟨hs, ?_⟩
    rw [List.countP_nil]
    omega
  | cons e es ih =>
    obtain ⟨t, ht, hrun⟩ := run_cons_eq_some h
    obtain ⟨hkept, hnear⟩ := hstep s e t ht hs
    obtain ⟨hend, hrest⟩ := ih hrun hkept
    refine ⟨hend, ?_⟩
    rw [List.countP_cons]
    omega

/-- An event that is possible as long as something is left, taken as often as was left. -/
theorem exists_run_replicate {I : σ → Prop} {left : σ → ℕ} {e : ε}
    (hmoves : ∀ s, I s → left s ≠ 0 → ∃ t, step s e = some t ∧ I t ∧ left t + 1 = left s) {s : σ}
    (hs : I s) : ∃ t, run step s (List.replicate (left s) e) = some t := by
  generalize hn : left s = n
  induction n generalizing s with
  | zero => exact ⟨s, rfl⟩
  | succ n ih =>
    obtain ⟨t, ht, hkept, hnear⟩ := hmoves s hs (by omega)
    obtain ⟨u, hu⟩ := ih hkept (by omega)
    refine ⟨u, ?_⟩
    rw [List.replicate_succ, run_cons_of_step ht, hu]

end Transition
