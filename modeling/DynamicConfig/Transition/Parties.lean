import Mathlib.Algebra.Order.Ring.Nat
import Mathlib.Data.List.Basic

/-!
# Parties of which one moves

The parties of a concurrent system are a list: a new party is put at its end and keeps its place,
and a step of the `i`-th party writes its place. What holds of every party, and how many parties are
of some kind, is what an invariant says of such a list, and either follows the one write.
-/

namespace Transition

variable {α : Type*} {parties : List α} {i : ℕ} {x y : α}

theorem lt_length_of_getElem? (h : parties[i]? = some x) : i < parties.length :=
  (List.getElem?_eq_some_iff.1 h).1

/-- Nobody leaves when one moves. -/
theorem lt_length_set {j : ℕ} (h : j < parties.length) : j < (parties.set i y).length := by
  rwa [List.length_set]

/-- Nor when a new one comes. -/
theorem lt_length_append {j : ℕ} (h : j < parties.length) : j < (parties ++ [y]).length := by
  rw [List.length_append]
  exact Nat.lt_add_right _ h

/-- The one that moved is where it was. -/
theorem getElem?_set_moved (h : parties[i]? = some x) (y : α) : (parties.set i y)[i]? = some y :=
  List.getElem?_set_self (lt_length_of_getElem? h)

/-- What is found after a move is the one that moved, or was found before. -/
theorem getElem?_of_set {j : ℕ} {z : α} (h : (parties.set i y)[j]? = some z) :
    (j = i ∧ z = y) ∨ (j ≠ i ∧ parties[j]? = some z) := by
  by_cases hij : j = i
  · subst hij
    have hlt : j < parties.length := by
      have := lt_length_of_getElem? h
      rwa [List.length_set] at this
    rw [List.getElem?_set_self hlt] at h
    exact .inl ⟨rfl, (Option.some_inj.1 h).symm⟩
  · rw [List.getElem?_set_ne (Ne.symm hij)] at h
    exact .inr ⟨hij, h⟩

/-- A new party has the last place. -/
theorem getElem?_of_append {j : ℕ} {z : α} (h : (parties ++ [y])[j]? = some z) :
    (j = parties.length ∧ z = y) ∨ parties[j]? = some z := by
  rcases Nat.lt_or_ge j parties.length with hlt | hge
  · rw [List.getElem?_append_left hlt] at h
    exact .inr h
  · rw [List.getElem?_append_right hge] at h
    obtain ⟨hzero, hz⟩ := List.getElem?_eq_some_iff.1 h
    rw [List.length_singleton] at hzero
    have hj : j = parties.length := by omega
    subst hj
    exact .inl ⟨rfl, by simpa using hz.symm⟩

/-- **What holds of every party is kept by a move that keeps it of the one.** -/
theorem forall_set {P : ℕ → α → Prop} (h : ∀ j z, parties[j]? = some z → P j z) (hy : P i y) :
    ∀ j z, (parties.set i y)[j]? = some z → P j z := by
  intro j z hz
  rcases getElem?_of_set hz with ⟨rfl, rfl⟩ | ⟨-, hz⟩
  · exact hy
  · exact h j z hz

/-- What holds of every party holds with a new one of which it holds. -/
theorem forall_append {P : ℕ → α → Prop} (h : ∀ j z, parties[j]? = some z → P j z)
    (hy : P parties.length y) : ∀ j z, (parties ++ [y])[j]? = some z → P j z := by
  intro j z hz
  rcases getElem?_of_append hz with ⟨rfl, rfl⟩ | hz
  · exact hy
  · exact h j z hz

/-- **A move changes a count by what it changes of the one.** -/
theorem countP_set_moved (p : α → Bool) (h : parties[i]? = some x) :
    (parties.set i y).countP p + (if p x then 1 else 0) =
      parties.countP p + (if p y then 1 else 0) := by
  obtain ⟨hlt, hx⟩ := List.getElem?_eq_some_iff.1 h
  rw [List.countP_set hlt, hx]
  by_cases hpx : p x = true
  · have hpos : 0 < parties.countP p := List.countP_pos_iff.2 ⟨x, List.mem_of_getElem? h, hpx⟩
    rw [if_pos hpx]
    omega
  · rw [if_neg hpx]
    omega

/-- One of a kind counts. -/
theorem countP_pos_of_getElem? {p : α → Bool} (h : parties[i]? = some x) (hx : p x = true) :
    0 < parties.countP p :=
  List.countP_pos_iff.2 ⟨x, List.mem_of_getElem? h, hx⟩

/-- A move changes what all weigh together by what it changes of the one. -/
theorem sum_map_set_moved (weight : α → ℕ) (h : parties[i]? = some x) :
    ((parties.set i y).map weight).sum + weight x = (parties.map weight).sum + weight y := by
  induction parties generalizing i with
  | nil => cases h
  | cons z parties ih =>
    cases i with
    | zero =>
      obtain rfl := Option.some.inj h
      simp only [List.set_cons_zero, List.map_cons, List.sum_cons]
      omega
    | succ i =>
      have hrest := ih h
      simp only [List.set_cons_succ, List.map_cons, List.sum_cons]
      omega

end Transition
