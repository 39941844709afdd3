import Mathlib.Data.Nat.Notation
import Mathlib.Logic.Relation

/-!
# Loops that may fail

A loop takes turns from a state until there are none left, and a turn may fail and end it. Taken with
a number of turns it may run out of them, and `isSome_loop` is when it does not: every turn takes
something off a weight, and there are more turns than weight.

What a turn preserves holds wherever the loop comes (`reaches_invariant`), and a loop that is done has
come to a state with no turns left (`reaches_of_loop`).
-/

namespace Transition

variable {σ ε : Type*} {next : σ → Except ε (Option σ)}

/-- Take turns, at most so many, until there are none left or one fails. -/
def loop (next : σ → Except ε (Option σ)) : ℕ → σ → Option (Except ε σ)
  | 0, _ => none
  | turns + 1, s =>
    match next s with
    | .error e => some (.error e)
    | .ok none => some (.ok s)
    | .ok (some t) => loop next turns t

/-- One turn takes a state to another. -/
def Turn (next : σ → Except ε (Option σ)) (s t : σ) : Prop := next s = .ok (some t)

/-- The states a loop comes to. -/
def Reaches (next : σ → Except ε (Option σ)) : σ → σ → Prop := Relation.ReflTransGen (Turn next)

/-- **What a turn preserves holds wherever the loop comes.** -/
theorem reaches_invariant {I : σ → Prop} (hturn : ∀ s t, Turn next s t → I s → I t) {s t : σ}
    (h : Reaches next s t) (hs : I s) : I t := by
  induction h with
  | refl => exact hs
  | tail _ hstep ih => exact hturn _ _ hstep ih

/-- **A loop whose turns take something off a weight ends.** -/
theorem isSome_loop (weight : σ → ℕ) (hturn : ∀ s t, Turn next s t → weight t < weight s) {turns : ℕ}
    {s : σ} (h : weight s < turns) : (loop next turns s).isSome := by
  induction turns generalizing s with
  | zero => omega
  | succ turns ih =>
    rw [loop]
    rcases hnext : next s with e | - | t
    · rfl
    · rfl
    · have hdown := hturn s t hnext
      exact ih (by omega)

/-- A loop that is done has come to a state that has no turn. -/
theorem reaches_of_loop {turns : ℕ} {s t : σ} (h : loop next turns s = some (.ok t)) :
    Reaches next s t ∧ next t = .ok none := by
  induction turns generalizing s with
  | zero => cases h
  | succ turns ih =>
    rw [loop] at h
    rcases hnext : next s with e | - | u <;> rw [hnext] at h
    · cases h
    · obtain rfl : s = t := Except.ok.inj (Option.some.inj h)
      exact ⟨.refl, hnext⟩
    · obtain ⟨hreach, hdone⟩ := ih h
      exact ⟨.head hnext hreach, hdone⟩

end Transition
