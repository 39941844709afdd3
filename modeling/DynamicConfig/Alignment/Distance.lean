import Mathlib.Data.List.Basic
import Mathlib.Order.MinMax

/-!
# Optimal string alignment

The distance of two lists in single edits: a letter put in, taken out or put for another, or two
neighbours that change places, where no letter is edited twice. `osa a b i j` is the distance of the
first `i` letters of `a` and the first `j` of `b`, by recursion on what the last edit may have been.

The distance does not depend on which list comes first (`osa_comm`), and is zero for equal lists and
for no others (`osa_eq_zero_iff`).
-/

namespace Alignment

variable {α : Type} [DecidableEq α] (a b : List α) (i j : ℕ)

/-- The cost of putting one letter for another: nothing where they are the same. -/
def substitution : ℕ :=
  if a[i]? = b[j]? then 0 else 1

/-- Whether the last two letters of one list are those of the other, the other way round. -/
def Crossed : Prop :=
  0 < i ∧ 0 < j ∧ a[i]? = b[j - 1]? ∧ a[i - 1]? = b[j]?

instance : Decidable (Crossed a b i j) :=
  inferInstanceAs (Decidable (0 < i ∧ 0 < j ∧ a[i]? = b[j - 1]? ∧ a[i - 1]? = b[j]?))

/-- The optimal string alignment distance of the first `i` letters of `a` and the first `j` of `b`. -/
def osa (a b : List α) : ℕ → ℕ → ℕ
  | 0, j => j
  | i + 1, 0 => i + 1
  | i + 1, j + 1 =>
    if Crossed a b i j then
      min (min (min (osa a b i j + substitution a b i j) (osa a b i (j + 1) + 1))
        (osa a b (i + 1) j + 1)) (osa a b (i - 1) (j - 1) + 1)
    else
      min (min (osa a b i j + substitution a b i j) (osa a b i (j + 1) + 1)) (osa a b (i + 1) j + 1)
  termination_by i j => i + j

theorem osa_zero_left : osa a b 0 j = j := by
  rw [osa]

theorem osa_zero_right : osa a b i 0 = i := by
  cases i with
  | zero => rw [osa]
  | succ i => rw [osa]

theorem osa_succ_succ :
    osa a b (i + 1) (j + 1) =
      if Crossed a b i j then
        min (min (min (osa a b i j + substitution a b i j) (osa a b i (j + 1) + 1))
          (osa a b (i + 1) j + 1)) (osa a b (i - 1) (j - 1) + 1)
      else
        min (min (osa a b i j + substitution a b i j) (osa a b i (j + 1) + 1))
          (osa a b (i + 1) j + 1) := by
  rw [osa]

theorem substitution_comm : substitution a b i j = substitution b a j i := by
  rw [substitution, substitution]
  exact if_congr eq_comm rfl rfl

omit [DecidableEq α] in
theorem crossed_comm : Crossed a b i j ↔ Crossed b a j i := by
  constructor
  · rintro ⟨hi, hj, hlast, hfirst⟩
    exact ⟨hj, hi, hfirst.symm, hlast.symm⟩
  · rintro ⟨hj, hi, hlast, hfirst⟩
    exact ⟨hi, hj, hfirst.symm, hlast.symm⟩

/-- **The distance is symmetric.** -/
theorem osa_comm : osa a b i j = osa b a j i := by
  induction i, j using osa.induct (a := a) (b := b) with
  | case1 j => rw [osa_zero_left, osa_zero_right]
  | case2 i => rw [osa_zero_left, osa_zero_right]
  | case3 i j hcrossed hboth hleft hright hswap =>
    have hback := (crossed_comm a b i j).1 hcrossed
    rw [osa_succ_succ, osa_succ_succ, if_pos hcrossed, if_pos hback, hboth, hleft, hright, hswap,
      substitution_comm a b i j]
    congr 1
    exact min_right_comm _ _ _
  | case4 i j hcrossed hboth hleft hright =>
    have hback := fun h ↦ hcrossed ((crossed_comm a b i j).2 h)
    rw [osa_succ_succ, osa_succ_succ, if_neg hcrossed, if_neg hback, hboth, hleft, hright,
      substitution_comm a b i j]
    exact min_right_comm _ _ _

/-- The last edit costs nothing only where the last letters are the same. -/
theorem osa_succ_succ_eq_zero_iff :
    osa a b (i + 1) (j + 1) = 0 ↔ osa a b i j = 0 ∧ a[i]? = b[j]? := by
  have hedits : ∀ x y : ℕ, min (min (osa a b i j + substitution a b i j) (x + 1)) (y + 1) = 0 ↔
      osa a b i j = 0 ∧ substitution a b i j = 0 := by
    intro x y
    omega
  have hsame : substitution a b i j = 0 ↔ a[i]? = b[j]? := by
    rw [substitution]
    split
    · next h => exact iff_of_true rfl h
    · next h => exact iff_of_false Nat.one_ne_zero h
  rw [← hsame, ← hedits (osa a b i (j + 1)) (osa a b (i + 1) j), osa_succ_succ]
  split
  · omega
  · exact Iff.rfl

/-- **The distance is zero for equal lists**, and for no others. -/
theorem osa_eq_zero_iff_take {a b : List α} {i j : ℕ} (hi : i ≤ a.length) (hj : j ≤ b.length) :
    osa a b i j = 0 ↔ a.take i = b.take j := by
  induction i generalizing j with
  | zero =>
    rw [osa_zero_left]
    constructor
    · rintro rfl
      rfl
    · intro h
      have hlength := congrArg List.length h
      rw [List.length_take, List.length_take] at hlength
      omega
  | succ i ih =>
    rcases j with - | j
    · rw [osa_zero_right]
      refine iff_of_false (Nat.succ_ne_zero i) fun h ↦ ?_
      have hlength := congrArg List.length h
      rw [List.length_take, List.length_take] at hlength
      omega
    · have hletter : ∀ {xs : List α} {k : ℕ} (hk : k < xs.length),
          xs.take (k + 1) = xs.take k ++ [xs[k]] := fun hk ↦ List.take_succ_eq_append_getElem hk
      rw [osa_succ_succ_eq_zero_iff, ih (by omega) (by omega), hletter hi, hletter hj,
        List.getElem?_eq_getElem hi, List.getElem?_eq_getElem hj, Option.some_inj]
      constructor
      · rintro ⟨htake, hlast⟩
        rw [htake, hlast]
      · intro h
        obtain ⟨htake, hlast⟩ := List.append_inj' h rfl
        exact ⟨htake, List.singleton_inj.1 hlast⟩

theorem osa_eq_zero_iff : osa a b a.length b.length = 0 ↔ a = b := by
  rw [osa_eq_zero_iff_take le_rfl le_rfl, List.take_length, List.take_length]

end Alignment
