import DynamicConfig.Tree.Basic
import Mathlib.Order.Basic

/-!
# Trees of ordered tables

A table held as a list of pairs stands for a map when no key comes twice, and for an ordered one when
the keys come in order. A tree is `Distinct`, or `Ordered`, when every table that can be reached in
it is.
-/

namespace Entries

variable {κ ν : Type} [DecidableEq κ]

/-- A key is looked up in vain exactly when no pair has it. -/
theorem lookup_eq_none_iff_not_mem {xs : List (κ × ν)} {k : κ} :
    xs.lookup k = none ↔ k ∉ xs.map Prod.fst := by
  rw [List.lookup_eq_none_iff]
  constructor
  · intro h hk
    obtain ⟨e, he, rfl⟩ := List.mem_map.1 hk
    exact absurd rfl (bne_iff_ne.1 (h e he))
  · intro h e he
    refine bne_iff_ne.2 fun heq ↦ h ?_
    rw [heq]
    exact List.mem_map_of_mem he

theorem isSome_lookup_iff_mem {xs : List (κ × ν)} {k : κ} :
    (xs.lookup k).isSome ↔ k ∈ xs.map Prod.fst := by
  rw [Option.isSome_iff_ne_none, Ne, lookup_eq_none_iff_not_mem, not_not]

/-- What is looked up is one of the pairs. -/
theorem mem_of_lookup {xs : List (κ × ν)} {k : κ} {v : ν} (h : xs.lookup k = some v) :
    (k, v) ∈ xs := by
  induction xs with
  | nil => exact absurd h (Option.some_ne_none v).symm
  | cons f xs ih =>
    obtain ⟨l, w⟩ := f
    rw [lookup_cons_eq] at h
    split at h
    · next heq =>
      rw [heq, Option.some.inj h]
      exact List.mem_cons_self
    · exact List.mem_cons_of_mem _ (ih h)

/-- Without keys twice every pair is the one its key is looked up to. -/
theorem lookup_of_mem {xs : List (κ × ν)} (hnodup : (xs.map Prod.fst).Nodup) {e : κ × ν}
    (he : e ∈ xs) : xs.lookup e.1 = some e.2 := by
  induction xs with
  | nil => exact absurd he List.not_mem_nil
  | cons f xs ih =>
    obtain ⟨k, v⟩ := f
    rw [List.map_cons, List.nodup_cons] at hnodup
    rw [lookup_cons_eq]
    rcases List.mem_cons.1 he with rfl | hmem
    · rw [if_pos rfl]
    · have hkey : e.1 ∈ xs.map Prod.fst := List.mem_map_of_mem hmem
      have hne : e.1 ≠ k := fun heq ↦ hnodup.1 (heq ▸ hkey)
      rw [if_neg hne]
      exact ih hnodup.2 hmem

/-- Writing a key leaves the keys as they are, or adds it at the end. -/
theorem map_fst_insert (k : κ) (v : ν) (xs : List (κ × ν)) :
    (insert k v xs).map Prod.fst =
      if k ∈ xs.map Prod.fst then xs.map Prod.fst else xs.map Prod.fst ++ [k] := by
  induction xs with
  | nil => rfl
  | cons e xs ih =>
    obtain ⟨l, w⟩ := e
    rw [insert]
    by_cases hk : k = l
    · rw [if_pos hk, List.map_cons, List.map_cons, hk, if_pos List.mem_cons_self]
    · rw [if_neg hk, List.map_cons, List.map_cons, ih]
      by_cases hmem : k ∈ xs.map Prod.fst
      · rw [if_pos hmem, if_pos (List.mem_cons_of_mem _ hmem)]
      · rw [if_neg hmem, if_neg fun h ↦ (List.mem_cons.1 h).elim hk hmem]
        rfl

theorem nodup_insert {xs : List (κ × ν)} (hnodup : (xs.map Prod.fst).Nodup) (k : κ) (v : ν) :
    ((insert k v xs).map Prod.fst).Nodup := by
  rw [map_fst_insert]
  split
  · exact hnodup
  · next hmem =>
    refine List.nodup_append.2 ⟨hnodup, List.pairwise_singleton _ k, fun a ha b hb heq ↦ ?_⟩
    rw [List.mem_singleton.1 hb] at heq
    exact hmem (heq ▸ ha)

end Entries

namespace LabelledTree

variable {κ τ α : Type} [DecidableEq κ]

/-- No table of a tree has a key twice. -/
def Distinct (t : LabelledTree κ τ α) : Prop :=
  ∀ p tag entries, t.get p = some (node tag entries) → (entries.map Prod.fst).Nodup

section DistinctTables

variable {tag : τ} {entries : List (κ × LabelledTree κ τ α)}

theorem Distinct.nodup (h : (node tag entries).Distinct) : (entries.map Prod.fst).Nodup :=
  h [] tag entries (get_nil _)

/-- So has what stands under a key. -/
theorem Distinct.child {k : κ} {child : LabelledTree κ τ α} (h : (node tag entries).Distinct)
    (hk : entries.lookup k = some child) : child.Distinct := by
  intro p tag' sub hsub
  refine h (k :: p) tag' sub ?_
  rw [get_node_cons, hk, Option.bind_some]
  exact hsub

theorem distinct_leaf (t : τ) (v : α) : (leaf t v : LabelledTree κ τ α).Distinct := by
  intro p tag entries hget
  rcases p with - | ⟨k, ks⟩
  · rw [get_nil] at hget
    cases hget
  · rw [get_leaf_cons] at hget
    cases hget

/-- A table has no key twice if it has none itself and nothing it holds has. -/
theorem distinct_node (hkeys : (entries.map Prod.fst).Nodup)
    (h : ∀ k child, entries.lookup k = some child → child.Distinct) :
    (node tag entries).Distinct := by
  intro p tag' sub hget
  rcases p with - | ⟨k, ks⟩
  · rw [get_nil] at hget
    obtain ⟨-, rfl⟩ := node.inj (Option.some.inj hget)
    exact hkeys
  · rw [get_node_cons] at hget
    obtain ⟨child, hchild, hsub⟩ := Option.bind_eq_some_iff.1 hget
    exact h k child hchild ks tag' sub hsub

end DistinctTables

variable [Preorder κ]

/-- Every table of a tree has its keys in order, none of them twice. -/
def Ordered (t : LabelledTree κ τ α) : Prop :=
  ∀ p tag entries, t.get p = some (node tag entries) → (entries.map Prod.fst).Pairwise (· < ·)

/-- Keys in order come once. -/
theorem Ordered.distinct {t : LabelledTree κ τ α} (h : t.Ordered) : t.Distinct :=
  fun p tag entries hget ↦ (h p tag entries hget).imp fun hlt ↦ ne_of_lt hlt

section Tables

variable {tag : τ} {entries : List (κ × LabelledTree κ τ α)}

theorem Ordered.keys (h : (node tag entries).Ordered) : (entries.map Prod.fst).Pairwise (· < ·) :=
  h [] tag entries (get_nil _)

theorem Ordered.nodup (h : (node tag entries).Ordered) : (entries.map Prod.fst).Nodup :=
  h.keys.imp fun hlt ↦ ne_of_lt hlt

/-- So has what stands under a key. -/
theorem Ordered.child {k : κ} {child : LabelledTree κ τ α} (h : (node tag entries).Ordered)
    (hk : entries.lookup k = some child) : child.Ordered := by
  intro p tag' sub hsub
  refine h (k :: p) tag' sub ?_
  rw [get_node_cons, hk, Option.bind_some]
  exact hsub

theorem ordered_leaf (t : τ) (v : α) : (leaf t v : LabelledTree κ τ α).Ordered := by
  intro p tag entries hget
  rcases p with - | ⟨k, ks⟩
  · rw [get_nil] at hget
    cases hget
  · rw [get_leaf_cons] at hget
    cases hget

/-- A table is ordered if its keys are and all it holds is. -/
theorem ordered_node (hkeys : (entries.map Prod.fst).Pairwise (· < ·))
    (h : ∀ e ∈ entries, e.2.Ordered) : (node tag entries).Ordered := by
  intro p tag' sub hget
  rcases p with - | ⟨k, ks⟩
  · rw [get_nil] at hget
    obtain ⟨-, rfl⟩ := node.inj (Option.some.inj hget)
    exact hkeys
  · rw [get_node_cons] at hget
    obtain ⟨child, hchild, hsub⟩ := Option.bind_eq_some_iff.1 hget
    exact h (k, child) (Entries.mem_of_lookup hchild) ks tag' sub hsub

end Tables

end LabelledTree
