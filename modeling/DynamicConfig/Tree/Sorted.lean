import DynamicConfig.Tree.Ordered
import Mathlib.Data.List.Nodup
import Mathlib.Data.List.Sort

/-!
# Association lists in key order

A map that keeps its keys in order is a list of pairs whose keys strictly increase. `put` writes a key
where it belongs: the pairs with smaller keys come before it, those with greater ones behind it, and
the pair it had is gone (`put_eq`). Two such lists are equal as soon as every key is looked up to the
same, so that a map in key order is its lookups.
-/

namespace Entries

variable {κ ν : Type} [LinearOrder κ]

/-- Write a key of a map kept in key order. -/
def put (k : κ) (v : ν) : List (κ × ν) → List (κ × ν)
  | [] => [(k, v)]
  | (l, w) :: es =>
    if k < l then (k, v) :: (l, w) :: es
    else if k = l then (k, v) :: es
    else (l, w) :: put k v es

theorem lookup_put (k : κ) (v : ν) (l : κ) (es : List (κ × ν)) :
    (put k v es).lookup l = if l = k then some v else es.lookup l := by
  induction es with
  | nil => exact lookup_cons_eq l k v []
  | cons e es ih =>
    obtain ⟨m, w⟩ := e
    rw [put]
    split
    · exact lookup_cons_eq l k v _
    · split
      · next heq =>
        subst heq
        rw [lookup_cons_eq, lookup_cons_eq]
        split <;> rfl
      · next hne =>
        rw [lookup_cons_eq, lookup_cons_eq, ih]
        by_cases hl : l = m
        · rw [if_pos hl, if_pos hl, if_neg (hl ▸ Ne.symm hne)]
        · rw [if_neg hl, if_neg hl]

theorem mem_put {k : κ} {v : ν} {es : List (κ × ν)} {e : κ × ν} (h : e ∈ put k v es) :
    e = (k, v) ∨ e ∈ es := by
  induction es with
  | nil => exact Or.inl (List.mem_singleton.1 h)
  | cons e' es ih =>
    rw [put] at h
    split at h
    · exact List.mem_cons.1 h
    · split at h
      · exact (List.mem_cons.1 h).imp_right (List.mem_cons_of_mem _)
      · rcases List.mem_cons.1 h with rfl | h
        · exact Or.inr List.mem_cons_self
        · exact (ih h).imp_right (List.mem_cons_of_mem _)

/-- **Where a key is put**: behind the smaller keys and before the greater ones. -/
theorem put_eq {es : List (κ × ν)} (h : (es.map Prod.fst).Pairwise (· < ·)) (k : κ) (v : ν) :
    put k v es =
      es.filter (fun e ↦ decide (e.1 < k)) ++ (k, v) :: es.filter fun e ↦ decide (k < e.1) := by
  induction es with
  | nil => rfl
  | cons e es ih =>
    obtain ⟨l, w⟩ := e
    rw [List.map_cons, List.pairwise_cons] at h
    have habove : ∀ e ∈ es, l < e.1 := fun e he ↦ h.1 e.1 (List.mem_map_of_mem he)
    -- From `l` on every key is greater than `k`, where `k` is at most `l`.
    have hall : k ≤ l → (es.filter fun e ↦ decide (e.1 < k)) = [] ∧
        (es.filter fun e ↦ decide (k < e.1)) = es := by
      intro hkl
      constructor
      · refine List.filter_eq_nil_iff.2 fun e he hlt ↦ ?_
        exact (hkl.trans_lt (habove e he)).asymm (of_decide_eq_true hlt)
      · exact List.filter_eq_self.2 fun e he ↦ decide_eq_true (hkl.trans_lt (habove e he))
    rw [put]
    split
    · next hlt =>
      obtain ⟨hlow, hhigh⟩ := hall hlt.le
      rw [List.filter_cons_of_neg (by simpa using hlt.le), hlow,
        List.filter_cons_of_pos (by simpa using hlt), hhigh]
      rfl
    · next hge =>
      split
      · next heq =>
        subst heq
        obtain ⟨hlow, hhigh⟩ := hall le_rfl
        rw [List.filter_cons_of_neg (by simp), hlow, List.filter_cons_of_neg (by simp), hhigh]
        rfl
      · next hne =>
        have hlt : l < k := lt_of_le_of_ne (not_lt.1 hge) (Ne.symm hne)
        rw [List.filter_cons_of_pos (by simpa using hlt),
          List.filter_cons_of_neg (by simpa using hlt.le), ih h.2]
        rfl

/-- The keys stay in order. -/
theorem pairwise_put {es : List (κ × ν)} (h : (es.map Prod.fst).Pairwise (· < ·)) (k : κ) (v : ν) :
    ((put k v es).map Prod.fst).Pairwise (· < ·) := by
  rw [List.pairwise_map] at h ⊢
  rw [put_eq (List.pairwise_map.2 h), List.pairwise_append, List.pairwise_cons]
  have hlow : ∀ e ∈ es.filter fun e ↦ decide (e.1 < k), e.1 < k := fun e he ↦
    of_decide_eq_true (List.mem_filter.1 he).2
  have hhigh : ∀ e ∈ es.filter fun e ↦ decide (k < e.1), k < e.1 := fun e he ↦
    of_decide_eq_true (List.mem_filter.1 he).2
  refine ⟨h.filter _, ⟨hhigh, h.filter _⟩, fun a ha b hb ↦ ?_⟩
  rcases List.mem_cons.1 hb with rfl | hb
  · exact hlow a ha
  · exact (hlow a ha).trans (hhigh b hb)

theorem pairwise_erase {es : List (κ × ν)} (h : (es.map Prod.fst).Pairwise (· < ·)) (k : κ) :
    ((erase k es).map Prod.fst).Pairwise (· < ·) := by
  rw [List.pairwise_map] at h ⊢
  exact h.filter _

theorem nodup_of_pairwise {es : List (κ × ν)} (h : (es.map Prod.fst).Pairwise (· < ·)) :
    (es.map Prod.fst).Nodup :=
  h.imp ne_of_lt

/-- The pairs of a key are the one it is looked up to. -/
theorem filter_key_eq {es : List (κ × ν)} (h : (es.map Prod.fst).Nodup) (k : κ) :
    (es.filter fun e ↦ decide (e.1 = k)) = ((es.lookup k).map (Prod.mk k)).toList := by
  induction es with
  | nil => rfl
  | cons e es ih =>
    obtain ⟨l, w⟩ := e
    rw [List.map_cons, List.nodup_cons] at h
    rw [lookup_cons_eq]
    by_cases hkl : k = l
    · subst hkl
      have hnone := ih h.2
      rw [lookup_eq_none_iff_not_mem.2 h.1] at hnone
      rw [if_pos rfl, List.filter_cons_of_pos (by simp), hnone]
      rfl
    · rw [if_neg hkl, List.filter_cons_of_neg (by simpa using Ne.symm hkl)]
      exact ih h.2

/-- **A map in key order is its lookups.** -/
theorem eq_of_lookup_eq {xs ys : List (κ × ν)} (hxs : (xs.map Prod.fst).Pairwise (· < ·))
    (hys : (ys.map Prod.fst).Pairwise (· < ·)) (h : ∀ k, xs.lookup k = ys.lookup k) : xs = ys := by
  have hmem : ∀ e, e ∈ xs ↔ e ∈ ys := by
    intro e
    constructor
    · intro he
      exact mem_of_lookup ((h e.1).symm.trans (lookup_of_mem (nodup_of_pairwise hxs) he))
    · intro he
      exact mem_of_lookup ((h e.1).trans (lookup_of_mem (nodup_of_pairwise hys) he))
  have hirrefl : Std.Irrefl fun a b : κ × ν ↦ a.1 < b.1 := ⟨fun a ↦ lt_irrefl a.1⟩
  have hasymm : Std.Asymm fun a b : κ × ν ↦ a.1 < b.1 := ⟨fun _ _ hab ↦ hab.asymm⟩
  exact (List.pairwise_map.1 hxs).eq_of_mem_iff (List.pairwise_map.1 hys) hmem

/-! ### Several keys -/

/-- The last pair of a key decides what several writes put there. -/
theorem lookup_foldl_put (ws es : List (κ × ν)) (k : κ) :
    (ws.foldl (fun es e ↦ put e.1 e.2 es) es).lookup k =
      (ws.reverse.lookup k).or (es.lookup k) := by
  induction ws generalizing es with
  | nil => rfl
  | cons w ws ih =>
    obtain ⟨l, v⟩ := w
    rw [List.foldl_cons, ih, List.reverse_cons, List.lookup_append, lookup_put, lookup_cons_eq]
    rcases ws.reverse.lookup k with - | x
    · by_cases hk : k = l
      · rw [if_pos hk, if_pos hk]
        rfl
      · rw [if_neg hk, if_neg hk]
        rfl
    · rfl

theorem pairwise_foldl_put {es : List (κ × ν)} (h : (es.map Prod.fst).Pairwise (· < ·))
    (ws : List (κ × ν)) :
    ((ws.foldl (fun es e ↦ put e.1 e.2 es) es).map Prod.fst).Pairwise (· < ·) := by
  induction ws generalizing es with
  | nil => exact h
  | cons w ws ih => exact ih (pairwise_put h w.1 w.2)

/-- Without keys twice a map reads the same from either end. -/
theorem lookup_reverse {xs : List (κ × ν)} (h : (xs.map Prod.fst).Nodup) (k : κ) :
    xs.reverse.lookup k = xs.lookup k := by
  rcases hk : xs.lookup k with - | v
  · rw [lookup_eq_none_iff_not_mem, List.map_reverse, List.mem_reverse]
    exact lookup_eq_none_iff_not_mem.1 hk
  · have hnodup : (xs.reverse.map Prod.fst).Nodup := by
      rw [List.map_reverse, List.nodup_reverse]
      exact h
    exact lookup_of_mem hnodup (List.mem_reverse.2 (mem_of_lookup hk))

/-- **Writing changes nothing** exactly where every key has the value written there last. -/
theorem foldl_put_eq_self_iff {es : List (κ × ν)} (h : (es.map Prod.fst).Pairwise (· < ·))
    (ws : List (κ × ν)) :
    ws.foldl (fun es e ↦ put e.1 e.2 es) es = es ↔
      ∀ k v, ws.reverse.lookup k = some v → es.lookup k = some v := by
  constructor
  · intro hsame k v hk
    rw [← hsame, lookup_foldl_put, hk]
    rfl
  · intro hwritten
    refine eq_of_lookup_eq (pairwise_foldl_put h ws) h fun k ↦ ?_
    rw [lookup_foldl_put]
    rcases hk : ws.reverse.lookup k with - | v
    · rfl
    · exact (hwritten k v hk).symm

/-- **Sorting forgets the order.** Things whose keys differ are sorted to one list, whatever order they
come in. -/
theorem mergeSort_eq_of_perm {α : Type} {key : α → κ} {xs ys : List α} (h : xs.Perm ys)
    (hnodup : (xs.map key).Nodup) :
    (xs.mergeSort fun a b ↦ decide (key a ≤ key b)) = ys.mergeSort fun a b ↦ decide (key a ≤ key b) := by
  have hsorted : ∀ zs : List α, (zs.mergeSort fun a b ↦ decide (key a ≤ key b)).Pairwise
      fun a b ↦ decide (key a ≤ key b) = true := fun zs ↦
    List.pairwise_mergeSort
      (fun a b c hab hbc ↦ decide_eq_true ((of_decide_eq_true hab).trans (of_decide_eq_true hbc)))
      (fun a b ↦ by simpa using le_total (key a) (key b)) zs
  refine List.Perm.eq_of_pairwise (fun a b ha hb hab hba ↦ ?_) (hsorted xs) (hsorted ys) ?_
  · have hkey : key a = key b := le_antisymm (of_decide_eq_true hab) (of_decide_eq_true hba)
    exact List.inj_on_of_nodup_map hnodup (List.mem_mergeSort.1 ha)
      (h.mem_iff.2 (List.mem_mergeSort.1 hb)) hkey
  · exact ((List.mergeSort_perm xs _).trans h).trans (List.mergeSort_perm ys _).symm

end Entries
