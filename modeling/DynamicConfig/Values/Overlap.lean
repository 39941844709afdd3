import DynamicConfig.Tree.Clash
import DynamicConfig.Values.Document
import Mathlib.Data.String.Basic

/-!
# Where two values overlap

`overlapping_paths` lists the paths both of two trees supply, other than as a table: what a merge of
the two would silently resolve. It walks the trees as `clashList` does, and keeps the paths as text.
With dots in a key two paths can have one text; without, the text is the path.

`mergeAndOverlap` puts the merge and the list side by side.
-/

namespace DynamicConfig

open LabelledTree (SameShown Clashes clashList clashEntries)

/-! ### The list -/

mutual

/-- Records the dotted path of every leaf two trees both supply: `overlaps`. -/
def Value.overlaps (path : List String) : Value → Value → List String
  | .table left, .table right => Value.overlapsIn path left right
  | _, _ => [joined path]

/-- The same below the keys of a table. -/
def Value.overlapsIn (path : List String) :
    List (String × Value) → List (String × Value) → List String
  | [], _ => []
  | (key, value) :: left, right =>
    (match right.lookup key with
      | some other => Value.overlaps (path ++ [key]) value other
      | none => []) ++ Value.overlapsIn path left right

end

/-- Sorted text, as `Vec<String>::sort` leaves it. -/
def sortedTexts (texts : List String) : List String :=
  texts.mergeSort fun a b ↦ decide (a ≤ b)

/-- `Value::overlapping_paths`. -/
def Value.overlappingPaths (v other : Value) : List String :=
  sortedTexts (Value.overlaps [] v other)

theorem perm_sortedTexts (texts : List String) : (sortedTexts texts).Perm texts :=
  List.mergeSort_perm _ _

theorem pairwise_sortedTexts (texts : List String) : (sortedTexts texts).Pairwise (· ≤ ·) := by
  have hsorted : (texts.mergeSort fun a b ↦ decide (a ≤ b)).Pairwise
      fun a b ↦ decide (a ≤ b) = true :=
    List.pairwise_mergeSort
      (fun a b c hab hbc ↦ decide_eq_true ((of_decide_eq_true hab).trans (of_decide_eq_true hbc)))
      (fun a b ↦ by simpa using le_total a b) texts
  exact hsorted.imp of_decide_eq_true

/-- Texts that are all different come in strict order. -/
theorem pairwise_lt_sortedTexts {texts : List String} (hnodup : texts.Nodup) :
    (sortedTexts texts).Pairwise (· < ·) :=
  ((pairwise_sortedTexts texts).and ((perm_sortedTexts texts).nodup_iff.2 hnodup)).imp
    fun h ↦ lt_of_le_of_ne h.1 h.2

mutual

/-- **The list is the list of clashes**, as text. -/
theorem overlaps_eq (path : List String) (a b : Value) :
    Value.overlaps path a b =
      (clashList a.toFigment b.toFigment).map fun p ↦ joined (path ++ p) := by
  match a, b with
  | .scalar s, b =>
    rw [Value.toFigment, LabelledTree.clashList_leaf_left, Value.overlaps.eq_def, List.map_singleton,
      List.append_nil]
  | .array items, b =>
    rw [Value.toFigment, LabelledTree.clashList_leaf_left, Value.overlaps.eq_def, List.map_singleton,
      List.append_nil]
  | .table left, .scalar s =>
    rw [Value.toFigment.eq_1, LabelledTree.clashList_leaf_right, Value.overlaps.eq_def,
      List.map_singleton, List.append_nil]
  | .table left, .array items =>
    rw [Value.toFigment.eq_2, LabelledTree.clashList_leaf_right, Value.overlaps.eq_def,
      List.map_singleton, List.append_nil]
  | .table left, .table right =>
    rw [Value.toFigment, Value.toFigment, clashList, Value.overlaps, overlapsIn_eq]

theorem overlapsIn_eq (path : List String) (left right : List (String × Value)) :
    Value.overlapsIn path left right =
      (clashEntries (Value.toFigmentTable left) (Value.toFigmentTable right)).map
        fun p ↦ joined (path ++ p) := by
  match left with
  | [] =>
    rw [Value.overlapsIn, Value.toFigmentTable, clashEntries]
    rfl
  | (key, value) :: left =>
    rw [Value.overlapsIn, Value.toFigmentTable, clashEntries, lookup_toFigmentTable,
      overlapsIn_eq path left right, List.map_append]
    rcases right.lookup key with - | other
    · rfl
    · have hbelow := overlaps_eq (path ++ [key]) value other
      show Value.overlaps (path ++ [key]) value other ++ _ = List.map _ (List.map _ _) ++ _
      rw [hbelow, List.map_map]
      simp only [List.append_assoc, List.singleton_append]
      rfl

end

/-! ### Values whose tables are maps -/

/-- A value that no table of which has a key twice, as the tables of the source cannot. -/
structure ValueTree where
  value : Value
  distinct : value.toFigment.Distinct

namespace ValueTree

/-- `Value::merge`. -/
def merge (a b : ValueTree) : ValueTree where
  value := a.value.merge b.value
  distinct := distinct_toFigment_merge a.distinct b.distinct

/-- What a path shows. -/
def shows (a : ValueTree) (p : List String) : Option (Option Leaf) :=
  a.value.toFigment.peekAt p

/-- The tree has a value at a path. -/
def Has (a : ValueTree) (p : List String) : Prop := a.shows p ≠ none

/-- The value at a path is a table. -/
def Table (a : ValueTree) (p : List String) : Prop := a.shows p = some none

/-- The value at a path is not a table. -/
def Leaf (a : ValueTree) (p : List String) : Prop := ∃ x, a.shows p = some (some x)

/-- Two trees hold the same value at a path, whatever is in it. -/
def SameAt (a b : ValueTree) (p : List String) : Prop :=
  ∀ q, a.shows (p ++ q) = b.shows (p ++ q)

/-- Two trees are the same. -/
def Same (a b : ValueTree) : Prop := ∀ p, a.shows p = b.shows p

/-- No key has a dot in it. -/
def Undotted (a : ValueTree) : Prop := ∀ p, a.Has p → ∀ k ∈ p, '.' ∉ k.toList

variable {a b c : ValueTree} {p : List String}

/-- A merge is the merge of the trees. -/
theorem shows_merge (a b : ValueTree) (p : List String) :
    (a.merge b).shows p = (a.value.toFigment.merge b.value.toFigment).peekAt p :=
  peekAt_toFigment_merge b.distinct a.value p

/-- Two trees overlap at a path: both have a value there, and not both a table. -/
def OverlapAt (a b : ValueTree) (p : List String) : Prop :=
  a.Has p ∧ b.Has p ∧ ¬ (a.Table p ∧ b.Table p)

theorem overlapAt_iff : OverlapAt a b p ↔ Clashes a.value.toFigment b.value.toFigment p := by
  constructor
  · rintro ⟨ha, hb, hleaf⟩
    obtain ⟨x, hx⟩ := Option.ne_none_iff_exists'.1 ha
    obtain ⟨y, hy⟩ := Option.ne_none_iff_exists'.1 hb
    refine ⟨x, y, hx, hy, ?_⟩
    by_contra hnot
    obtain ⟨hxnone, hynone⟩ := not_or.1 hnot
    exact hleaf ⟨hx.trans (congrArg some (not_not.1 hxnone)),
      hy.trans (congrArg some (not_not.1 hynone))⟩
  · rintro ⟨x, y, hx, hy, hleaf⟩
    refine ⟨fun h ↦ Option.some_ne_none x (hx.symm.trans h),
      fun h ↦ Option.some_ne_none y (hy.symm.trans h), fun ⟨hta, htb⟩ ↦ ?_⟩
    exact hleaf.elim (fun h ↦ h (Option.some.inj (hx.symm.trans hta)))
      fun h ↦ h (Option.some.inj (hy.symm.trans htb))

/-- `Value::overlapping_paths`. -/
def overlappingPaths (a b : ValueTree) : List String := a.value.overlappingPaths b.value

/-- The overlaps, as paths. -/
theorem mem_clashList_iff :
    p ∈ clashList a.value.toFigment b.value.toFigment ↔ OverlapAt a b p := by
  rw [LabelledTree.mem_clashList a.distinct, overlapAt_iff]

theorem perm_overlappingPaths (a b : ValueTree) :
    (overlappingPaths a b).Perm
      ((clashList a.value.toFigment b.value.toFigment).map joined) := by
  have hlist : (overlappingPaths a b).Perm (Value.overlaps [] a.value b.value) :=
    perm_sortedTexts _
  rw [overlaps_eq] at hlist
  exact hlist

/-- Nothing is listed exactly when nothing overlaps. -/
theorem overlappingPaths_eq_nil_iff :
    overlappingPaths a b = [] ↔
      LabelledTree.Compatible a.value.toFigment b.value.toFigment := by
  have hperm := perm_overlappingPaths a b
  have hnil : overlappingPaths a b = [] ↔
      (clashList a.value.toFigment b.value.toFigment).map joined = [] := by
    constructor
    · intro h
      exact List.nil_perm.1 (h ▸ hperm)
    · intro h
      exact List.perm_nil.1 (h ▸ hperm)
  rw [hnil, List.map_eq_nil_iff, List.eq_nil_iff_forall_not_mem]
  refine forall_congr' fun p ↦ not_congr ?_
  rw [mem_clashList_iff, overlapAt_iff]

/-! ### The merge and the list -/

/-- The merge of two trees path by path, the merges of three, and the list of overlaps. -/
structure MergeAndOverlap (a b c : ValueTree) : Prop where
  /-- Where the incoming tree has something that is not a table, or anything where the older tree
  has no table, the merge holds the incoming tree's value. -/
  incoming : ∀ p, b.Leaf p ∨ (b.Has p ∧ ¬ a.Table p) → (a.merge b).SameAt b p
  /-- What the older tree has is kept where the incoming one has nothing, and no leaf above. -/
  kept : ∀ p, a.Has p → ¬ b.Has p → (∀ q, q <+: p → ¬ b.Leaf q) → (a.merge b).SameAt a p
  /-- Where no path has a table in one and a leaf in another, it does not matter which two are merged
  first. -/
  assoc : (∀ p, ∀ t ∈ [a, b, c], ∀ u ∈ [a, b, c], t.Table p → ¬ u.Leaf p) →
    ((a.merge b).merge c).Same (a.merge (b.merge c))
  /-- Without dots in the keys, the list has the paths of the overlaps, each once and in order. -/
  listed : a.Undotted → b.Undotted → (overlappingPaths a b).Pairwise (· < ·) ∧
    ∃ paths : List (List String), (overlappingPaths a b).Perm (paths.map joined) ∧
      paths.Nodup ∧ ∀ p, p ∈ paths ↔ OverlapAt a b p
  /-- And where it is empty, either order of merging gives the same, and loses no leaf. -/
  disjoint : overlappingPaths a b = [] → (a.merge b).Same (b.merge a) ∧
    ∀ p x, a.shows p = some (some x) ∨ b.shows p = some (some x) →
      (a.merge b).shows p = some (some x)

theorem sameAt_incoming (h : b.Leaf p ∨ (b.Has p ∧ ¬ a.Table p)) : (a.merge b).SameAt b p := by
  intro q
  have hhas : b.Has p := by
    rcases h with ⟨x, hx⟩ | ⟨hhas, -⟩
    · rw [Has, hx]
      exact Option.some_ne_none _
    · exact hhas
  rw [shows_merge, LabelledTree.peekAt_merge]
  show (b.shows (p ++ q)).or _ = b.shows (p ++ q)
  rcases hb : b.shows (p ++ q) with - | x
  · have hq : q ≠ [] := by
      rintro rfl
      rw [List.append_nil] at hb
      exact hhas hb
    rw [Option.none_or]
    split
    · rfl
    · next hblocks =>
      rcases ha : a.value.toFigment.peekAt (p ++ q) with - | x
      · rfl
      · -- Below what the older tree has stands a table, which the incoming leaf would block.
        have htable : a.Table p := LabelledTree.peekAt_of_append hq ha
        rcases h with ⟨y, hy⟩ | ⟨-, hnot⟩
        · exact absurd (LabelledTree.blocks_iff_peekAt.2 ⟨p, q, y, rfl, hq, hy⟩) hblocks
        · exact absurd htable hnot
  · rfl

theorem sameAt_kept (hb : ¬ b.Has p) (hleaf : ∀ q, q <+: p → ¬ b.Leaf q) :
    (a.merge b).SameAt a p := by
  intro q
  have hnone : b.shows p = none := not_not.1 hb
  have hbelow : b.value.toFigment.peekAt (p ++ q) = none :=
    LabelledTree.peekAt_append_eq_none hnone q
  have hblocks : b.value.toFigment.blocks (p ++ q) = false := by
    rw [Bool.eq_false_iff]
    intro hblocks
    obtain ⟨r, s, x, heq, hs, hx⟩ := LabelledTree.blocks_iff_peekAt.1 hblocks
    rcases List.append_eq_append_iff.1 heq with ⟨u, rfl, -⟩ | ⟨u, rfl, -⟩
    · rw [LabelledTree.peekAt_append_eq_none hnone u] at hx
      cases hx
    · exact hleaf r (List.prefix_append r u) ⟨x, hx⟩
  rw [shows_merge, LabelledTree.peekAt_merge, hbelow, hblocks, Option.none_or,
    if_neg Bool.false_ne_true]
  rfl

theorem sameShape_of (h : ∀ q, (a.Table q → ¬ b.Leaf q) ∧ (b.Table q → ¬ a.Leaf q)) :
    LabelledTree.SameShape a.value.toFigment b.value.toFigment := by
  intro q x y hx hy
  rcases x with - | x
  · rcases y with - | y
    · exact Iff.rfl
    · exact absurd ⟨y, hy⟩ ((h q).1 hx)
  · rcases y with - | y
    · exact absurd ⟨x, hx⟩ ((h q).2 hy)
    · exact iff_of_false (Option.some_ne_none x) (Option.some_ne_none y)

theorem merge_assoc_of_shape
    (h : ∀ p, ∀ t ∈ [a, b, c], ∀ u ∈ [a, b, c], t.Table p → ¬ u.Leaf p) :
    ((a.merge b).merge c).Same (a.merge (b.merge c)) := by
  have ha : a ∈ [a, b, c] := List.mem_cons_self
  have hb : b ∈ [a, b, c] := List.mem_cons_of_mem _ List.mem_cons_self
  have hc : c ∈ [a, b, c] := List.mem_cons_of_mem _ (List.mem_cons_of_mem _ List.mem_cons_self)
  have hab := sameShape_of fun q ↦ ⟨h q a ha b hb, h q b hb a ha⟩
  have hbc := sameShape_of fun q ↦ ⟨h q b hb c hc, h q c hc b hb⟩
  have hac := sameShape_of fun q ↦ ⟨h q a ha c hc, h q c hc a ha⟩
  have hleft : SameShown (a.merge b).value.toFigment
      (a.value.toFigment.merge b.value.toFigment) := shows_merge a b
  have hright : SameShown (b.merge c).value.toFigment
      (b.value.toFigment.merge c.value.toFigment) := shows_merge b c
  intro p
  rw [shows_merge, shows_merge, hleft.merge (SameShown.refl _) p,
    (SameShown.refl _).merge hright p]
  exact hab.merge_assoc hbc hac p

/-- Two overlaps with one text are one. -/
theorem joined_injective_on_overlaps (ha : a.Undotted) {q : List String} (hp : OverlapAt a b p)
    (hq : OverlapAt a b q) (heq : joined p = joined q) : p = q := by
  -- Where the roots overlap, one of them is a leaf, and has nothing below it.
  have hroot : ∀ q, OverlapAt a b [] → OverlapAt a b q → q = [] := by
    intro q hnil hq
    by_contra hne
    refine hnil.2.2 ⟨?_, ?_⟩
    · obtain ⟨x, hx⟩ := Option.ne_none_iff_exists'.1 hq.1
      exact LabelledTree.peekAt_of_append (p := []) hne hx
    · obtain ⟨x, hx⟩ := Option.ne_none_iff_exists'.1 hq.2.1
      exact LabelledTree.peekAt_of_append (p := []) hne hx
  rcases eq_or_ne p [] with rfl | hpne
  · exact (hroot q hp hq).symm
  · rcases eq_or_ne q [] with rfl | hqne
    · exact hroot p hq hp
    · rw [← segments_joined hpne (ha p hp.1), ← segments_joined hqne (ha q hq.1), heq]

/-- **The merge and the list of overlaps describe each other.** -/
theorem mergeAndOverlap (a b c : ValueTree) : MergeAndOverlap a b c where
  incoming p h := sameAt_incoming h
  kept p _ hb hleaf := sameAt_kept hb hleaf
  assoc h := merge_assoc_of_shape h
  listed ha _ := by
    have hperm := perm_overlappingPaths a b
    have hnodup : ((clashList a.value.toFigment b.value.toFigment).map joined).Nodup := by
      refine (List.nodup_map_iff_inj_on
        (LabelledTree.nodup_clashList _ _ a.distinct)).2 fun p hp q hq heq ↦ ?_
      exact joined_injective_on_overlaps ha (mem_clashList_iff.1 hp) (mem_clashList_iff.1 hq) heq
    refine ⟨?_, _, hperm, LabelledTree.nodup_clashList _ _ a.distinct, fun p ↦ mem_clashList_iff⟩
    refine pairwise_lt_sortedTexts ?_
    rw [overlaps_eq]
    exact hnodup
  disjoint h := by
    have hcompatible := overlappingPaths_eq_nil_iff.1 h
    refine ⟨fun p ↦ ?_, fun p x hx ↦ ?_⟩
    · rw [shows_merge, shows_merge]
      exact hcompatible.merge_comm p
    · rw [shows_merge]
      exact hcompatible.peekAt_merge_eq_some_iff.2 hx

end ValueTree

/-! ### A tree with one setting -/

/-- The tree with one value in it, at a path. -/
def settingAt (p : List String) (s : Scalar) : Value :=
  match p with
  | [] => .scalar s
  | key :: rest => .table [(key, settingAt rest s)]

theorem distinct_settingAt (p : List String) (s : Scalar) : (settingAt p s).toFigment.Distinct := by
  induction p with
  | nil =>
    rw [settingAt, Value.toFigment]
    exact LabelledTree.distinct_leaf _ _
  | cons key rest ih =>
    rw [settingAt, Value.toFigment]
    refine LabelledTree.distinct_node (List.pairwise_singleton _ _) fun k child hchild ↦ ?_
    have hentry : (k, child) ∈ [(key, (settingAt rest s).toFigment)] :=
      Entries.mem_of_lookup hchild
    obtain ⟨-, rfl⟩ := Prod.mk.inj (List.mem_singleton.1 hentry)
    exact ih

/-- As a tree whose tables are maps. -/
def ValueTree.settingAt (p : List String) (s : Scalar) : ValueTree where
  value := DynamicConfig.settingAt p s
  distinct := distinct_settingAt p s

/-- What it has is on the way there. -/
theorem ValueTree.has_settingAt_iff {p : List String} {s : Scalar} {q : List String} :
    (ValueTree.settingAt p s).Has q ↔ q <+: p := by
  show (DynamicConfig.settingAt p s).toFigment.peekAt q ≠ none ↔ q <+: p
  induction p generalizing q with
  | nil =>
    rw [DynamicConfig.settingAt, Value.toFigment, List.prefix_nil]
    rcases q with - | ⟨k, ks⟩
    · exact iff_of_true (Option.some_ne_none _) rfl
    · exact iff_of_false (fun h ↦ h rfl) (List.cons_ne_nil k ks)
  | cons key rest ih =>
    rw [DynamicConfig.settingAt, Value.toFigment]
    rcases q with - | ⟨k, ks⟩
    · exact iff_of_true (Option.some_ne_none _) List.nil_prefix
    · rw [LabelledTree.peekAt_node_cons, lookup_toFigmentTable, List.cons_prefix_cons, ← ih]
      by_cases hkey : k = key
      · rw [hkey, List.lookup_cons_self]
        exact (and_iff_right rfl).symm
      · rw [List.lookup_cons, beq_false_of_ne hkey]
        exact iff_of_false (fun h ↦ h rfl) fun h ↦ hkey h.1

end DynamicConfig
