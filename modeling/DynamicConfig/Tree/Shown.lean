import DynamicConfig.Tree.Fill

/-!
# Trees that show the same

Two trees are the same configuration when they show the same at every path, whatever their labels
and the order their tables list the keys in. What blocks a path can be read off what shows, so a
merge of trees that show the same shows the same.
-/

namespace LabelledTree

variable {κ τ α : Type} [DecidableEq κ]

/-- The same at every path. -/
def SameShown (a b : LabelledTree κ τ α) : Prop :=
  ∀ p, a.peekAt p = b.peekAt p

variable {a a' b b' : LabelledTree κ τ α}

theorem SameShown.refl (a : LabelledTree κ τ α) : a.SameShown a := fun _ ↦ rfl

theorem SameShown.symm (h : a.SameShown b) : b.SameShown a := fun p ↦ (h p).symm

theorem SameShown.trans {c : LabelledTree κ τ α} (h : a.SameShown b) (h' : b.SameShown c) :
    a.SameShown c := fun p ↦ (h p).trans (h' p)

/-- A path is blocked by what shows above it. -/
theorem blocks_iff_peekAt {t : LabelledTree κ τ α} {p : List κ} :
    t.blocks p = true ↔ ∃ q r x, p = q ++ r ∧ r ≠ [] ∧ t.peekAt q = some (some x) := by
  rw [blocks_eq_true_iff]
  constructor
  · rintro ⟨q, r, c, hp, hr, hc, hleaf⟩
    rcases c with ⟨tag, x⟩ | ⟨tag, entries⟩
    · refine ⟨q, r, x, hp, hr, ?_⟩
      rw [peekAt, hc]
      rfl
    · cases hleaf
  · rintro ⟨q, r, x, hp, hr, hq⟩
    obtain ⟨c, hc, hpeek⟩ := Option.map_eq_some_iff.1 hq
    refine ⟨q, r, c, hp, hr, hc, ?_⟩
    rw [isTable, hpeek]
    rfl

theorem SameShown.blocks (h : a.SameShown b) (p : List κ) : a.blocks p = b.blocks p := by
  rw [Bool.eq_iff_iff, blocks_iff_peekAt, blocks_iff_peekAt]
  constructor
  · rintro ⟨q, r, x, hp, hr, hq⟩
    exact ⟨q, r, x, hp, hr, (h q).symm.trans hq⟩
  · rintro ⟨q, r, x, hp, hr, hq⟩
    exact ⟨q, r, x, hp, hr, (h q).trans hq⟩

/-- Merges of trees that show the same show the same. -/
theorem SameShown.merge (h : a.SameShown a') (h' : b.SameShown b') :
    (a.merge b).SameShown (a'.merge b') := by
  intro p
  rw [peekAt_merge, peekAt_merge, h p, h' p, h'.blocks p]

/-- The root shows of every tree. -/
theorem peekAt_nil (a : LabelledTree κ τ α) : a.peekAt [] = some a.peek := by
  rw [peekAt, get_nil]
  rfl

theorem peekAt_node_cons (t : τ) (entries : List (κ × LabelledTree κ τ α)) (k : κ) (ks : List κ) :
    (node t entries).peekAt (k :: ks) = (entries.lookup k).bind fun c ↦ c.peekAt ks := by
  rw [peekAt, get_node_cons, Option.map_bind]
  rfl

/-- What is below a position is read from there. -/
theorem peekAt_append (a : LabelledTree κ τ α) (p q : List κ) :
    a.peekAt (p ++ q) = (a.get p).bind fun c ↦ c.peekAt q := by
  rw [peekAt, get_append, Option.map_bind]
  rfl

/-- Below a position that shows nothing, nothing shows. -/
theorem peekAt_append_eq_none {p : List κ} (h : a.peekAt p = none) (q : List κ) :
    a.peekAt (p ++ q) = none := by
  rw [peekAt, Option.map_eq_none_iff] at h
  rw [peekAt_append, h, Option.bind_none]

/-- Nor below a leaf. -/
theorem peekAt_append_of_leaf {p : List κ} {x : α} (h : a.peekAt p = some (some x)) {q : List κ}
    (hq : q ≠ []) : a.peekAt (p ++ q) = none := by
  obtain ⟨c, hc, hpeek⟩ := Option.map_eq_some_iff.1 h
  rcases c with ⟨tag, y⟩ | ⟨tag, entries⟩
  · obtain ⟨k, ks, rfl⟩ := List.exists_cons_of_ne_nil hq
    rw [peekAt_append, hc, Option.bind_some, peekAt, get_leaf_cons, Option.map_none]
  · cases hpeek

/-- Strictly above what shows stands a table. -/
theorem peekAt_of_append {p q : List κ} (hq : q ≠ []) {x : Option α}
    (h : a.peekAt (p ++ q) = some x) : a.peekAt p = some none := by
  rcases hp : a.peekAt p with - | - | y
  · rw [peekAt_append_eq_none hp] at h
    cases h
  · rfl
  · rw [peekAt_append_of_leaf hp hq] at h
    cases h

/-! ### When a merge is one of its sides -/

/-- The incoming side is all there is exactly when it decides whatever the older side shows. -/
theorem sameShown_merge_right_iff :
    b.SameShown (a.merge b) ↔ ∀ p, (a.peekAt p).isSome → b.decides p = true := by
  constructor
  · intro h p hp
    by_contra hnot
    have hundecided : b.decides p = false := Bool.eq_false_iff.2 hnot
    have hshown := h p
    rw [peekAt_merge_of_not_decides hundecided] at hshown
    rw [decides, Bool.or_eq_false_iff, hshown, hp] at hundecided
    exact Bool.false_ne_true hundecided.1.symm
  · intro h p
    rcases hdecides : b.decides p with - | -
    · rw [peekAt_merge_of_not_decides hdecides]
      rw [decides, Bool.or_eq_false_iff] at hdecides
      rw [Option.isNone_iff_eq_none.1 (Option.isSome_eq_false_iff.1 hdecides.1)]
      by_contra hne
      have hsome : (a.peekAt p).isSome := Option.isSome_iff_ne_none.2 (Ne.symm hne)
      have hboth := h p hsome
      rw [decides, hdecides.1, hdecides.2] at hboth
      exact Bool.false_ne_true hboth
    · exact (peekAt_merge_of_decides hdecides a).symm

/-- The older side is all there is exactly when it shows whatever the incoming side shows. -/
theorem sameShown_merge_left_iff :
    a.SameShown (a.merge b) ↔ ∀ p x, b.peekAt p = some x → a.peekAt p = some x := by
  constructor
  · intro h p x hx
    rw [h p, peekAt_merge, hx]
    rfl
  · intro h p
    rw [peekAt_merge]
    rcases hb : b.peekAt p with - | x
    · rcases hblocks : b.blocks p with - | -
      · rfl
      · -- What blocks the path in the incoming side is a leaf of the older one too.
        obtain ⟨q, r, x, rfl, hr, hq⟩ := blocks_iff_peekAt.1 hblocks
        exact peekAt_append_of_leaf (h q (some x) hq) hr
    · exact h p x hb

end LabelledTree
