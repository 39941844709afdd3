import DynamicConfig.Alignment.Distance
import Mathlib.Data.String.Basic

/-!
# Suggesting a field for an unknown key

`check` reports the keys no field reads, and beside each the field that is nearest to it, where one is
near enough to be a typo. `distance` counts the edits with three rows: row `i` holds, for every `j`, the
distance of the first `i` letters of one name from the first `j` of the other, and the row before last
is kept because a transposition looks two rows back. The rows change places after every round, so that
each is written over the one that is needed no more.

`Rows.Kept` is what the rows are after `i` rounds; from it the loops come to the recursive distance
(`distance_eq`).
-/

namespace DynamicConfig.Check

open Alignment (osa Crossed substitution)

/-! ### The rows -/

/-- The three rows. -/
structure Rows where
  beforeLast : List ℕ
  previous : List ℕ
  current : List ℕ

/-- The rows before the first round. -/
def Rows.start (right : List Char) : Rows where
  beforeLast := List.replicate (right.length + 1) 0
  previous := List.range (right.length + 1)
  current := List.replicate (right.length + 1) 0

/-- One entry of the row for the letter `i`, with what is in the row so far. -/
def entry (left right : List Char) (rows : Rows) (i : ℕ) (current : List ℕ) (j : ℕ) : ℕ :=
  let substitution := if left[i]? = right[j]? then 0 else 1
  let edits := min (min (rows.previous.getD j 0 + substitution) (rows.previous.getD (j + 1) 0 + 1))
    (current.getD j 0 + 1)
  -- The two characters are each other's, the other way round.
  if 0 < i ∧ 0 < j ∧ left[i]? = right[j - 1]? ∧ left[i - 1]? = right[j]? then
    min edits (rows.beforeLast.getD (j - 1) 0 + 1)
  else edits

/-- The row for the letter `i`, up to its entry `n`. -/
def fillRow (left right : List Char) (rows : Rows) (i n : ℕ) : List ℕ :=
  (List.range n).foldl (fun current j ↦ current.set (j + 1) (entry left right rows i current j))
    (rows.current.set 0 (i + 1))

/-- The rows change places: the row that was filled is the previous one now. -/
def Rows.turn (left right : List Char) (rows : Rows) (i : ℕ) : Rows where
  beforeLast := rows.previous
  previous := fillRow left right rows i right.length
  current := rows.beforeLast

/-- The rows after some rounds. -/
def Rows.after (left right : List Char) (n : ℕ) : Rows :=
  (List.range n).foldl (Rows.turn left right) (Rows.start right)

/-- Optimal string alignment distance: Levenshtein, plus transposition. -/
def distance (left right : String) : ℕ :=
  (Rows.after left.toList right.toList left.toList.length).previous.getD right.toList.length 0

/-- `Iterator::min_by_key`: the first of the elements with the least key. -/
def minByKey {α : Type} (key : α → ℕ) : List α → Option α
  | [] => none
  | x :: xs =>
    match minByKey key xs with
    | none => some x
    | some y => if key y < key x then some y else some x

/-- How many edits are still a typo. -/
def budget (key : String) : ℕ := max (key.utf8ByteSize / 4) 1

/-- The nearest field name, when it is near enough to be a typo rather than a different word. -/
def closest (key : String) (fields : List String) : Option String :=
  (minByKey Prod.fst ((fields.map fun field ↦ (distance key field, field)).filter fun e ↦
    decide (e.1 ≤ budget key))).map Prod.snd

example : distance "prot" "port" = 1 := by decide

/-! ### One row -/

variable {left right : List Char} {rows : Rows} {i : ℕ}

theorem getD_set {xs : List ℕ} {n : ℕ} (hn : n < xs.length) (x k : ℕ) :
    (xs.set n x).getD k 0 = if k = n then x else xs.getD k 0 := by
  rw [List.getD_eq_getElem?_getD, List.getD_eq_getElem?_getD, List.getElem?_set]
  by_cases hk : k = n
  · rw [if_pos hk, if_pos hk.symm, if_pos hn]
    rfl
  · rw [if_neg hk, if_neg (Ne.symm hk)]

/-- What the rows are after `i` rounds: the previous one holds the distances of the first `i` letters,
and the one before it those of one letter fewer, if there were two. -/
structure Rows.Kept (left right : List Char) (i : ℕ) (rows : Rows) : Prop where
  beforeLast_length : rows.beforeLast.length = right.length + 1
  previous_length : rows.previous.length = right.length + 1
  current_length : rows.current.length = right.length + 1
  previous : ∀ j ≤ right.length, rows.previous.getD j 0 = osa left right i j
  beforeLast : 0 < i → ∀ j ≤ right.length, rows.beforeLast.getD j 0 = osa left right (i - 1) j

theorem kept_start : (Rows.start right).Kept left right 0 where
  beforeLast_length := List.length_replicate
  previous_length := List.length_range
  current_length := List.length_replicate
  previous j hj := by
    rw [Alignment.osa_zero_left, Rows.start, List.getD_eq_getElem?_getD, List.getElem?_range]
    · rfl
    · omega
  beforeLast h := absurd h (Nat.lt_irrefl 0)

/-- **One entry** is the distance, where the rows and what is before it in its row are. -/
theorem Rows.Kept.entry_eq (h : rows.Kept left right i) {current : List ℕ} {j : ℕ}
    (hj : j < right.length) (hcurrent : current.getD j 0 = osa left right (i + 1) j) :
    entry left right rows i current j = osa left right (i + 1) (j + 1) := by
  have hswap : Crossed left right i j →
      rows.beforeLast.getD (j - 1) 0 = osa left right (i - 1) (j - 1) := fun hcrossed ↦
    h.beforeLast hcrossed.1 (j - 1) (by omega)
  rw [Alignment.osa_succ_succ, entry, h.previous j hj.le, h.previous (j + 1) hj, hcurrent]
  by_cases hcrossed : Crossed left right i j
  · rw [if_pos hcrossed, ← hswap hcrossed]
    exact if_pos hcrossed
  · rw [if_neg hcrossed]
    exact if_neg hcrossed

/-- **One row**, as far as it is filled. -/
theorem Rows.Kept.fillRow (h : rows.Kept left right i) {n : ℕ} (hn : n ≤ right.length) :
    (fillRow left right rows i n).length = right.length + 1 ∧
      ∀ j ≤ n, (Check.fillRow left right rows i n).getD j 0 = osa left right (i + 1) j := by
  induction n with
  | zero =>
    refine ⟨(List.length_set).trans h.current_length, fun j hj ↦ ?_⟩
    obtain rfl : j = 0 := by omega
    have hroom : 0 < rows.current.length := by
      rw [h.current_length]
      omega
    show (rows.current.set 0 (i + 1)).getD 0 0 = _
    rw [getD_set hroom, if_pos rfl, Alignment.osa_zero_right]
  | succ n ih =>
    obtain ⟨hlength, hfilled⟩ := ih (by omega)
    have hstep : Check.fillRow left right rows i (n + 1) =
        (Check.fillRow left right rows i n).set (n + 1)
          (entry left right rows i (Check.fillRow left right rows i n) n) := by
      rw [Check.fillRow, List.range_succ, List.foldl_append]
      rfl
    have hroom : n + 1 < (Check.fillRow left right rows i n).length := by omega
    rw [hstep]
    refine ⟨List.length_set.trans hlength, fun j hj ↦ ?_⟩
    rw [getD_set hroom]
    split
    · next heq =>
      rw [heq]
      exact h.entry_eq (by omega) (hfilled n le_rfl)
    · exact hfilled j (by omega)

/-- **One round.** -/
theorem Rows.Kept.turn (h : rows.Kept left right i) :
    (rows.turn left right i).Kept left right (i + 1) := by
  obtain ⟨hlength, hfilled⟩ := h.fillRow le_rfl
  exact ⟨h.previous_length, hlength, h.beforeLast_length, hfilled, fun _ ↦ h.previous⟩

/-- **The rounds.** -/
theorem kept_after (left right : List Char) (n : ℕ) : (Rows.after left right n).Kept left right n := by
  induction n with
  | zero => exact kept_start
  | succ n ih =>
    rw [Rows.after, List.range_succ, List.foldl_append]
    exact ih.turn

/-- The loops come to the recursive distance. -/
theorem distance_eq (left right : String) :
    distance left right =
      osa left.toList right.toList left.toList.length right.toList.length :=
  (kept_after left.toList right.toList left.toList.length).previous right.toList.length le_rfl

theorem distance_comm (left right : String) : distance left right = distance right left := by
  rw [distance_eq, distance_eq, Alignment.osa_comm]

theorem distance_eq_zero_iff {left right : String} : distance left right = 0 ↔ left = right := by
  rw [distance_eq, Alignment.osa_eq_zero_iff, String.toList_inj]

/-! ### The nearest field -/

theorem minByKey_eq_none_iff {α : Type} {key : α → ℕ} {xs : List α} :
    minByKey key xs = none ↔ xs = [] := by
  rcases xs with - | ⟨x, xs⟩
  · exact iff_of_true rfl rfl
  · refine iff_of_false (fun h ↦ ?_) (List.cons_ne_nil x xs)
    rw [minByKey] at h
    split at h
    · cases h
    · split at h <;> cases h

/-- What is found has the least key. -/
theorem of_minByKey_eq_some {α : Type} {key : α → ℕ} {xs : List α} {x : α}
    (h : minByKey key xs = some x) : x ∈ xs ∧ ∀ y ∈ xs, key x ≤ key y := by
  induction xs generalizing x with
  | nil => cases h
  | cons z xs ih =>
    rw [minByKey] at h
    split at h
    · next hnone =>
      obtain rfl := Option.some.inj h
      rw [minByKey_eq_none_iff.1 hnone]
      exact ⟨List.mem_cons_self, fun y hy ↦ (congrArg key (List.mem_singleton.1 hy)).ge⟩
    · next w hw =>
      obtain ⟨hmem, hleast⟩ := ih hw
      split at h
      · next hlt =>
        obtain rfl := Option.some.inj h
        refine ⟨List.mem_cons_of_mem z hmem, fun y hy ↦ ?_⟩
        rcases List.mem_cons.1 hy with rfl | hy
        · exact hlt.le
        · exact hleast y hy
      · next hge =>
        obtain rfl := Option.some.inj h
        refine ⟨List.mem_cons_self, fun y hy ↦ ?_⟩
        rcases List.mem_cons.1 hy with rfl | hy
        · exact le_rfl
        · exact (not_lt.1 hge).trans (hleast y hy)

/-- **What is suggested**: a field within the budget, and none of them is nearer. -/
theorem of_closest_eq_some {key field : String} {fields : List String}
    (h : closest key fields = some field) :
    field ∈ fields ∧ distance key field ≤ budget key ∧
      ∀ other ∈ fields, distance key field ≤ distance key other := by
  obtain ⟨e, he, rfl⟩ := Option.map_eq_some_iff.1 h
  obtain ⟨hmem, hleast⟩ := of_minByKey_eq_some he
  obtain ⟨hmap, hwithin⟩ := List.mem_filter.1 hmem
  obtain ⟨field, hfield, rfl⟩ := List.mem_map.1 hmap
  have hbudget : distance key field ≤ budget key := of_decide_eq_true hwithin
  refine ⟨hfield, hbudget, fun other hother ↦ ?_⟩
  by_cases hnear : distance key other ≤ budget key
  · exact hleast (distance key other, other) (List.mem_filter.2
      ⟨List.mem_map.2 ⟨other, hother, rfl⟩, decide_eq_true hnear⟩)
  · exact hbudget.trans (not_le.1 hnear).le

/-- **When something is suggested.** -/
theorem isSome_closest_iff {key : String} {fields : List String} :
    (closest key fields).isSome ↔ ∃ field ∈ fields, distance key field ≤ budget key := by
  rw [closest, Option.isSome_map, Option.isSome_iff_ne_none, Ne, minByKey_eq_none_iff,
    List.filter_eq_nil_iff]
  constructor
  · intro h
    by_contra hnone
    refine h fun e he hwithin ↦ ?_
    obtain ⟨field, hfield, rfl⟩ := List.mem_map.1 he
    exact hnone ⟨field, hfield, of_decide_eq_true hwithin⟩
  · rintro ⟨field, hfield, hwithin⟩ h
    exact h (distance key field, field) (List.mem_map.2 ⟨field, hfield, rfl⟩)
      (decide_eq_true hwithin)

/-- **Suggestions use a correct edit distance**, and suggest a nearest field, if one is near enough. -/
theorem suggestion_spec :
    (∀ left right, distance left right =
        osa left.toList right.toList left.toList.length right.toList.length) ∧
      (∀ left right, distance left right = distance right left) ∧
      (∀ left right, distance left right = 0 ↔ left = right) ∧
      ∀ key fields,
        ((closest key fields).isSome ↔ ∃ field ∈ fields, distance key field ≤ budget key) ∧
        ∀ field, closest key fields = some field →
          field ∈ fields ∧ distance key field ≤ budget key ∧
            ∀ other ∈ fields, distance key field ≤ distance key other :=
  ⟨distance_eq, distance_comm, fun _ _ ↦ distance_eq_zero_iff, fun _ _ ↦
    ⟨isSome_closest_iff, fun _ h ↦ of_closest_eq_some h⟩⟩

end DynamicConfig.Check
