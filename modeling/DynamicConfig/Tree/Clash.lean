import DynamicConfig.Tree.Ordered
import DynamicConfig.Tree.Shown

/-!
# Trees that clash

Two trees clash at a path where both have something and not both a table. Trees that clash nowhere
are `Compatible`: a merge of the two shows what either shows, so it does not matter which is laid
over which, and a third tree clashes with the merge exactly where it clashes with one of the two.
A list of trees can therefore be merged in any order exactly when its members are compatible pair by
pair, and whether they are can be found out along the way, each against the merge of those before it
(`peekAt_foldl_merge_eq_some_iff`, `clashes_foldl_merge_iff`).

Trees may agree on what is a table and still both have a leaf somewhere. That is all the merge needs
to be associative (`SameShape.merge_assoc`).

`clashList` lists the clashes by walking the two trees together.
-/

namespace LabelledTree

variable {κ τ α : Type} [DecidableEq κ] {a b c : LabelledTree κ τ α} {p : List κ}

/-! ### Clashes -/

/-- Both trees have something at a path, and not both a table. -/
def Clashes (a b : LabelledTree κ τ α) (p : List κ) : Prop :=
  ∃ x y, a.peekAt p = some x ∧ b.peekAt p = some y ∧ (x ≠ none ∨ y ≠ none)

/-- No clash anywhere. -/
def Compatible (a b : LabelledTree κ τ α) : Prop :=
  ∀ p, ¬ Clashes a b p

theorem Clashes.symm (h : Clashes a b p) : Clashes b a p := by
  obtain ⟨x, y, hx, hy, hleaf⟩ := h
  exact ⟨y, x, hy, hx, hleaf.symm⟩

theorem Compatible.symm (h : Compatible a b) : Compatible b a := fun p hclash ↦ h p hclash.symm

/-- A clash is in what shows. -/
theorem SameShown.clashes_iff {a' : LabelledTree κ τ α} (h : a.SameShown a') :
    Clashes a b p ↔ Clashes a' b p := by
  rw [Clashes, Clashes, h p]

/-- Where compatible trees both have something, it is a table. -/
theorem Compatible.tables (h : Compatible a b) {x y : Option α} (hx : a.peekAt p = some x)
    (hy : b.peekAt p = some y) : x = none ∧ y = none := by
  by_contra hnot
  exact h p ⟨x, y, hx, hy, not_and_or.1 hnot⟩

/-- **A merge of compatible trees** shows what either shows. -/
theorem Compatible.peekAt_merge (h : Compatible a b) (p : List κ) :
    (a.merge b).peekAt p = (a.peekAt p).or (b.peekAt p) := by
  rw [LabelledTree.peekAt_merge]
  rcases hb : b.peekAt p with - | y
  · rw [Option.none_or, Option.or_none]
    split
    · next hblocks =>
      obtain ⟨q, r, y, rfl, hr, hq⟩ := blocks_iff_peekAt.1 hblocks
      rcases ha : a.peekAt (q ++ r) with - | x
      · rfl
      · exact absurd (h.tables (peekAt_of_append hr ha) hq).2 (Option.some_ne_none y)
    · rfl
  · rcases ha : a.peekAt p with - | x
    · rfl
    · obtain ⟨rfl, rfl⟩ := h.tables ha hb
      rfl

theorem Compatible.peekAt_merge_eq_some_iff (h : Compatible a b) {x : Option α} :
    (a.merge b).peekAt p = some x ↔ a.peekAt p = some x ∨ b.peekAt p = some x := by
  rw [h.peekAt_merge]
  rcases ha : a.peekAt p with - | y
  · rw [Option.none_or]
    exact ⟨Or.inr, fun hx ↦ hx.resolve_left (Option.some_ne_none x).symm⟩
  · refine ⟨Or.inl, fun hx ↦ hx.elim id fun hb ↦ ?_⟩
    obtain ⟨rfl, rfl⟩ := h.tables ha hb
    rfl

/-- So it does not matter which is laid over which. -/
theorem Compatible.merge_comm (h : Compatible a b) : (a.merge b).SameShown (b.merge a) := by
  intro p
  rw [h.peekAt_merge, h.symm.peekAt_merge]
  rcases ha : a.peekAt p with - | x
  · rw [Option.none_or, Option.or_none]
  · rcases hb : b.peekAt p with - | y
    · rfl
    · obtain ⟨rfl, rfl⟩ := h.tables ha hb
      rfl

/-- **A clash with a merge** is a clash with one of its sides. -/
theorem Compatible.clashes_merge_iff (h : Compatible a b) :
    Clashes (a.merge b) c p ↔ Clashes a c p ∨ Clashes b c p := by
  constructor
  · rintro ⟨x, y, hx, hy, hleaf⟩
    rcases h.peekAt_merge_eq_some_iff.1 hx with ha | hb
    · exact Or.inl ⟨x, y, ha, hy, hleaf⟩
    · exact Or.inr ⟨x, y, hb, hy, hleaf⟩
  · rintro (⟨x, y, hx, hy, hleaf⟩ | ⟨x, y, hx, hy, hleaf⟩)
    · exact ⟨x, y, h.peekAt_merge_eq_some_iff.2 (Or.inl hx), hy, hleaf⟩
    · exact ⟨x, y, h.peekAt_merge_eq_some_iff.2 (Or.inr hx), hy, hleaf⟩

/-! ### Lists of compatible trees -/

section Lists

variable {t : LabelledTree κ τ α} {ts : List (LabelledTree κ τ α)}

/-- A merge in front of a list is compatible with the rest exactly when its sides are. -/
theorem pairwise_compatible_merge_iff {u : LabelledTree κ τ α} (hcompatible : Compatible t u) :
    (t.merge u :: ts).Pairwise Compatible ↔ (t :: u :: ts).Pairwise Compatible := by
  rw [List.pairwise_cons, List.pairwise_cons, List.pairwise_cons]
  constructor
  · rintro ⟨hmerge, hts⟩
    refine ⟨fun v hv ↦ ?_, fun v hv q hclash ↦ ?_, hts⟩
    · rcases List.mem_cons.1 hv with rfl | hv
      · exact hcompatible
      · exact fun q hclash ↦ hmerge v hv q (hcompatible.clashes_merge_iff.2 (Or.inl hclash))
    · exact hmerge v hv q (hcompatible.clashes_merge_iff.2 (Or.inr hclash))
  · rintro ⟨ht, hu, hts⟩
    refine ⟨fun v hv q hclash ↦ ?_, hts⟩
    rcases hcompatible.clashes_merge_iff.1 hclash with hclash | hclash
    · exact ht v (List.mem_cons_of_mem u hv) q hclash
    · exact hu v hv q hclash

/-- **What a list of compatible trees shows** is what its members show. -/
theorem peekAt_foldl_merge_eq_some_iff (h : (t :: ts).Pairwise Compatible) {x : Option α} :
    (ts.foldl merge t).peekAt p = some x ↔ ∃ u ∈ t :: ts, u.peekAt p = some x := by
  induction ts generalizing t with
  | nil => exact ⟨fun hx ↦ ⟨t, List.mem_singleton_self t, hx⟩,
      fun ⟨u, hu, hx⟩ ↦ List.mem_singleton.1 hu ▸ hx⟩
  | cons u ts ih =>
    have hcompatible : Compatible t u := (List.pairwise_cons.1 h).1 u List.mem_cons_self
    rw [List.foldl_cons, ih ((pairwise_compatible_merge_iff hcompatible).2 h)]
    constructor
    · rintro ⟨v, hv, hx⟩
      rcases List.mem_cons.1 hv with rfl | hv
      · rcases hcompatible.peekAt_merge_eq_some_iff.1 hx with hx | hx
        · exact ⟨t, List.mem_cons_self, hx⟩
        · exact ⟨u, List.mem_cons_of_mem _ List.mem_cons_self, hx⟩
      · exact ⟨v, List.mem_cons_of_mem _ (List.mem_cons_of_mem _ hv), hx⟩
    · rintro ⟨v, hv, hx⟩
      rcases List.mem_cons.1 hv with rfl | hv
      · exact ⟨v.merge u, List.mem_cons_self, hcompatible.peekAt_merge_eq_some_iff.2 (Or.inl hx)⟩
      · rcases List.mem_cons.1 hv with rfl | hv
        · exact ⟨t.merge v, List.mem_cons_self, hcompatible.peekAt_merge_eq_some_iff.2 (Or.inr hx)⟩
        · exact ⟨v, List.mem_cons_of_mem _ hv, hx⟩

/-- **What clashes with a list of compatible trees** clashes with a member. -/
theorem clashes_foldl_merge_iff (h : (t :: ts).Pairwise Compatible) :
    Clashes (ts.foldl merge t) c p ↔ ∃ u ∈ t :: ts, Clashes u c p := by
  constructor
  · rintro ⟨x, y, hx, hy, hleaf⟩
    obtain ⟨u, hu, hux⟩ := (peekAt_foldl_merge_eq_some_iff h).1 hx
    exact ⟨u, hu, x, y, hux, hy, hleaf⟩
  · rintro ⟨u, hu, x, y, hx, hy, hleaf⟩
    exact ⟨x, y, (peekAt_foldl_merge_eq_some_iff h).2 ⟨u, hu, hx⟩, hy, hleaf⟩

end Lists

/-! ### Trees of one shape -/

/-- No path has a table in one tree and a leaf in the other. -/
def SameShape (a b : LabelledTree κ τ α) : Prop :=
  ∀ p x y, a.peekAt p = some x → b.peekAt p = some y → (x = none ↔ y = none)

/-- A merge of trees of one shape shows the incoming side, or else the older one. -/
theorem SameShape.peekAt_merge (h : SameShape a b) (p : List κ) :
    (a.merge b).peekAt p = (b.peekAt p).or (a.peekAt p) := by
  rw [LabelledTree.peekAt_merge]
  split
  · next hblocks =>
    obtain ⟨q, r, y, rfl, hr, hq⟩ := blocks_iff_peekAt.1 hblocks
    rcases ha : a.peekAt (q ++ r) with - | x
    · rfl
    · exact absurd ((h q none (some y) (peekAt_of_append hr ha) hq).1 rfl) (Option.some_ne_none y)
  · rfl

/-- **Merging is associative** on trees of one shape. -/
theorem SameShape.merge_assoc (hab : SameShape a b) (hbc : SameShape b c) (hac : SameShape a c) :
    ((a.merge b).merge c).SameShown (a.merge (b.merge c)) := by
  have hleft : SameShape (a.merge b) c := by
    intro q x y hx hy
    rw [hab.peekAt_merge] at hx
    rcases hb : b.peekAt q with - | z
    · rw [hb, Option.none_or] at hx
      exact hac q x y hx hy
    · rw [hb] at hx
      exact hbc q x y (hb.trans hx) hy
  have hright : SameShape a (b.merge c) := by
    intro q x y hx hy
    rw [hbc.peekAt_merge] at hy
    rcases hc : c.peekAt q with - | z
    · rw [hc, Option.none_or] at hy
      exact hab q x y hx hy
    · rw [hc] at hy
      exact hac q x y hx (hc.trans hy)
  intro q
  rw [hleft.peekAt_merge, hright.peekAt_merge, hab.peekAt_merge, hbc.peekAt_merge, Option.or_assoc]

/-! ### The list of clashes -/

mutual

/-- The paths at which two trees clash. -/
def clashList : LabelledTree κ τ α → LabelledTree κ τ α → List (List κ)
  | node _ xs, node _ ys => clashEntries xs ys
  | _, _ => [[]]

/-- The clashes below the keys of a table. -/
def clashEntries : List (κ × LabelledTree κ τ α) → List (κ × LabelledTree κ τ α) → List (List κ)
  | [], _ => []
  | (k, a) :: xs, ys =>
    (match ys.lookup k with
      | some b => (clashList a b).map (k :: ·)
      | none => []) ++ clashEntries xs ys

end

theorem clashList_leaf_left (t : τ) (v : α) : clashList (leaf t v) b = [[]] := by
  rw [clashList.eq_def]

theorem clashList_leaf_right (t : τ) (v : α) : clashList a (leaf t v) = [[]] := by
  rcases a with ⟨s, w⟩ | ⟨s, xs⟩ <;> rw [clashList.eq_def]

theorem mem_clashEntries {xs ys : List (κ × LabelledTree κ τ α)} :
    p ∈ clashEntries xs ys ↔ ∃ k a b q, (k, a) ∈ xs ∧ ys.lookup k = some b ∧
      q ∈ clashList a b ∧ p = k :: q := by
  induction xs with
  | nil =>
    rw [clashEntries]
    exact ⟨fun h ↦ absurd h List.not_mem_nil, fun ⟨k, a, b, q, h, _⟩ ↦ absurd h List.not_mem_nil⟩
  | cons e xs ih =>
    obtain ⟨k, a⟩ := e
    rw [clashEntries, List.mem_append, ih]
    constructor
    · rintro (hhere | ⟨l, c, b, q, hmem, hrest⟩)
      · rcases hb : ys.lookup k with - | b
        · rw [hb] at hhere
          exact absurd hhere List.not_mem_nil
        · rw [hb] at hhere
          obtain ⟨q, hq, rfl⟩ := List.mem_map.1 hhere
          exact ⟨k, a, b, q, List.mem_cons_self, hb, hq, rfl⟩
      · exact ⟨l, c, b, q, List.mem_cons_of_mem _ hmem, hrest⟩
    · rintro ⟨l, c, b, q, hmem, hb, hq, rfl⟩
      rcases List.mem_cons.1 hmem with heq | hmem
      · obtain ⟨rfl, rfl⟩ := Prod.mk.inj heq
        refine Or.inl ?_
        rw [hb]
        exact List.mem_map_of_mem hq
      · exact Or.inr ⟨l, c, b, q, hmem, hb, hq, rfl⟩

/-- **The list is complete and exact**, for a tree without keys twice. -/
theorem mem_clashList (hdistinct : a.Distinct) : p ∈ clashList a b ↔ Clashes a b p := by
  induction p generalizing a b with
  | nil =>
    rw [Clashes, peekAt_nil, peekAt_nil]
    rcases a with ⟨s, v⟩ | ⟨s, xs⟩
    · rw [clashList_leaf_left]
      exact iff_of_true (List.mem_singleton_self _)
        ⟨some v, _, rfl, rfl, Or.inl (Option.some_ne_none v)⟩
    · rcases b with ⟨t, w⟩ | ⟨t, ys⟩
      · rw [clashList_leaf_right]
        exact iff_of_true (List.mem_singleton_self _)
          ⟨none, some w, rfl, rfl, Or.inr (Option.some_ne_none w)⟩
      · rw [clashList, mem_clashEntries]
        refine iff_of_false ?_ ?_
        · rintro ⟨k, c, d, q, -, -, -, hp⟩
          exact List.cons_ne_nil k q hp.symm
        · rintro ⟨x, y, hx, hy, hleaf⟩
          exact hleaf.elim (fun h ↦ h (Option.some.inj hx).symm) fun h ↦ h (Option.some.inj hy).symm
  | cons k ks ih =>
    have hnone : ∀ {t : τ} {v : α}, (leaf t v : LabelledTree κ τ α).peekAt (k :: ks) = none := rfl
    rcases a with ⟨s, v⟩ | ⟨s, xs⟩
    · rw [clashList_leaf_left, List.mem_singleton]
      refine iff_of_false (List.cons_ne_nil k ks) ?_
      rintro ⟨x, y, hx, -⟩
      exact absurd (hnone.symm.trans hx) (Option.some_ne_none x).symm
    · rcases b with ⟨t, w⟩ | ⟨t, ys⟩
      · rw [clashList_leaf_right, List.mem_singleton]
        refine iff_of_false (List.cons_ne_nil k ks) ?_
        rintro ⟨x, y, -, hy, -⟩
        exact absurd (hnone.symm.trans hy) (Option.some_ne_none y).symm
      · rw [clashList, mem_clashEntries, Clashes, peekAt_node_cons, peekAt_node_cons]
        constructor
        · rintro ⟨l, c, d, q, hc, hd, hq, heq⟩
          obtain ⟨rfl, rfl⟩ := List.cons.inj heq
          have hlookup : xs.lookup k = some c := Entries.lookup_of_mem hdistinct.nodup hc
          rw [hlookup, hd]
          exact (ih (hdistinct.child hlookup)).1 hq
        · rintro ⟨x, y, hx, hy, hleaf⟩
          obtain ⟨c, hc, hcx⟩ := Option.bind_eq_some_iff.1 hx
          obtain ⟨d, hd, hdy⟩ := Option.bind_eq_some_iff.1 hy
          exact ⟨k, c, d, ks, Entries.mem_of_lookup hc, hd,
            (ih (hdistinct.child hc)).2 ⟨x, y, hcx, hdy, hleaf⟩, rfl⟩

mutual

/-- **No clash is listed twice.** -/
theorem nodup_clashList (a b : LabelledTree κ τ α) (h : a.Distinct) : (clashList a b).Nodup := by
  match a, b with
  | leaf s v, b => rw [clashList_leaf_left]; exact List.pairwise_singleton _ _
  | node s xs, leaf t w => rw [clashList_leaf_right]; exact List.pairwise_singleton _ _
  | node s xs, node t ys =>
    rw [clashList]
    exact nodup_clashEntries xs ys h.nodup fun e he ↦ h.child (Entries.lookup_of_mem h.nodup he)

theorem nodup_clashEntries (xs ys : List (κ × LabelledTree κ τ α))
    (hkeys : (xs.map Prod.fst).Nodup) (h : ∀ e ∈ xs, e.2.Distinct) :
    (clashEntries xs ys).Nodup := by
  match xs with
  | [] => rw [clashEntries]; exact List.nodup_nil
  | (k, a) :: xs =>
    rw [List.map_cons, List.nodup_cons] at hkeys
    rw [clashEntries]
    have hrest := nodup_clashEntries xs ys hkeys.2 fun e he ↦ h e (List.mem_cons_of_mem _ he)
    rcases ys.lookup k with - | b
    · exact hrest
    · have hhere := nodup_clashList a b (h (k, a) List.mem_cons_self)
      have hbelow : ((clashList a b).map (k :: ·)).Nodup :=
        List.Pairwise.map (k :: ·) (fun _ _ hne heq ↦ hne (List.cons.inj heq).2) hhere
      refine List.nodup_append.2 ⟨hbelow, hrest, fun q hq r hr heq ↦ ?_⟩
      -- Here every path starts with the key, and in the rest none does.
      obtain ⟨q, -, rfl⟩ := List.mem_map.1 hq
      obtain ⟨l, c, d, r, hmem, -, -, rfl⟩ := mem_clashEntries.1 hr
      obtain ⟨rfl, -⟩ := List.cons.inj heq
      have hkey : (k, c).1 ∈ xs.map Prod.fst := List.mem_map_of_mem hmem
      exact hkeys.1 hkey

end

end LabelledTree
