import DynamicConfig.Tree.Fill
import Mathlib.Data.List.Induction

/-!
# Many trees laid over each other

A list of trees is laid over each other from the first on. What a path shows in the result is read
off the list from its end: the last tree that has anything to say about the path decides, by showing
something there or by holding a leaf above it (`Prevails`, `readAt_layered`).

Three such results laid over each other are read the same way, group by group, with one difference:
a group as a whole may have nothing to say about a path though one of its trees had, since a later
tree of the group made a table of the leaf in the way. A path is `Settled` in a group that shows
something there or has a leaf above it in the end, and `Holds` reads the three groups in turn
(`readAt_stacked_layered`). Whether anything is shown at all is a matter of the leaves above the path
alone (`exists_holds_iff`).
-/

namespace LabelledTree

variable {κ τ α : Type} [DecidableEq κ]

/-! ### Readings -/

/-- What is at a path without looking inside a table, with its label. -/
def readAt (t : LabelledTree κ τ α) (p : List κ) : Option (τ × Option α) :=
  (t.get p).map fun c ↦ (c.tag, c.peek)

theorem readAt_eq_none_iff {t : LabelledTree κ τ α} {p : List κ} :
    t.readAt p = none ↔ t.get p = none :=
  Option.map_eq_none_iff

theorem readAt_of_get {t c : LabelledTree κ τ α} {p : List κ} (h : t.get p = some c) :
    t.readAt p = some (c.tag, c.peek) := by
  rw [readAt, h]
  rfl

theorem decides_eq_false_iff {t : LabelledTree κ τ α} {p : List κ} :
    t.decides p = false ↔ t.readAt p = none ∧ t.blocks p = false := by
  rw [decides, Bool.or_eq_false_iff, peekAt, readAt_eq_none_iff, Option.isSome_map,
    Option.isSome_eq_false_iff, Option.isNone_iff_eq_none]

/-- What a merge reads at a path. -/
theorem readAt_merge (a b : LabelledTree κ τ α) (p : List κ) :
    (a.merge b).readAt p = (b.readAt p).or (if b.blocks p then none else a.readAt p) := by
  rw [readAt, readAt, readAt, get_merge]
  rcases b.get p with - | v
  · show Option.map _ (if b.blocks p then none else a.get p) = _
    split
    · rfl
    · rfl
  · show some ((mergeOver (a.get p) v).tag, (mergeOver (a.get p) v).peek) = _
    rw [tag_mergeOver, peek_mergeOver]
    rfl

/-- The incoming side decides, or the older side shows through. -/
theorem readAt_merge_eq_some_iff {a b : LabelledTree κ τ α} {p : List κ} {y : τ × Option α} :
    (a.merge b).readAt p = some y ↔
      b.readAt p = some y ∨ b.decides p = false ∧ a.readAt p = some y := by
  rw [readAt_merge, decides_eq_false_iff]
  rcases hb : b.readAt p with - | z
  · rcases b.blocks p with - | -
    · simp
    · simp
  · simp

/-- A path is blocked by a leaf above it, whatever its label. -/
theorem blocks_iff_readAt {t : LabelledTree κ τ α} {p : List κ} :
    t.blocks p = true ↔ ∃ q r m x, p = q ++ r ∧ r ≠ [] ∧ t.readAt q = some (m, some x) := by
  rw [blocks_eq_true_iff]
  constructor
  · rintro ⟨q, r, c, hp, hr, hc, hleaf⟩
    rcases c with ⟨m, x⟩ | ⟨m, es⟩
    · exact ⟨q, r, m, x, hp, hr, readAt_of_get hc⟩
    · cases hleaf
  · rintro ⟨q, r, m, x, hp, hr, hq⟩
    obtain ⟨c, hc, hreading⟩ := Option.map_eq_some_iff.1 hq
    refine ⟨q, r, c, hp, hr, hc, ?_⟩
    have hpeek : c.peek = some x := (Prod.mk.inj hreading).2
    rw [isTable, hpeek]
    rfl

/-! ### One list of trees -/

/-- The trees of a list over a first one, in order. -/
def layered (t : LabelledTree κ τ α) (ts : List (LabelledTree κ τ α)) : LabelledTree κ τ α :=
  ts.foldl merge t

/-- The last tree of a list with anything to say about a path shows this there. -/
def Prevails (ts : List (LabelledTree κ τ α)) (p : List κ) (y : τ × Option α) : Prop :=
  ∃ earlier t later, ts = earlier ++ t :: later ∧ t.readAt p = some y ∧
    ∀ u ∈ later, u.decides p = false

theorem prevails_concat {ts : List (LabelledTree κ τ α)} {t : LabelledTree κ τ α} {p : List κ}
    {y : τ × Option α} :
    Prevails (ts ++ [t]) p y ↔ t.readAt p = some y ∨ t.decides p = false ∧ Prevails ts p y := by
  constructor
  · rintro ⟨earlier, u, later, hsplit, hu, hlater⟩
    rcases List.eq_nil_or_concat later with rfl | ⟨later, v, rfl⟩
    · obtain ⟨-, hlast⟩ := List.append_inj' hsplit rfl
      obtain rfl := List.singleton_inj.1 hlast
      exact Or.inl hu
    · rw [List.concat_eq_append, ← List.cons_append, ← List.append_assoc] at hsplit
      obtain ⟨rfl, hlast⟩ := List.append_inj' hsplit rfl
      obtain rfl := List.singleton_inj.1 hlast
      refine Or.inr ⟨hlater t (by simp), earlier, u, later, rfl, hu, fun w hw ↦ ?_⟩
      exact hlater w (by simp [hw])
  · rintro (ht | ⟨hundecided, earlier, u, later, rfl, hu, hlater⟩)
    · exact ⟨ts, t, [], rfl, ht, fun u hu ↦ absurd hu List.not_mem_nil⟩
    · refine ⟨earlier, u, later ++ [t], by simp, hu, fun w hw ↦ ?_⟩
      rcases List.mem_append.1 hw with hw | hw
      · exact hlater w hw
      · exact List.mem_singleton.1 hw ▸ hundecided

/-- **What a layered list shows** is what its last tree with anything to say shows. -/
theorem readAt_layered {t : LabelledTree κ τ α} {ts : List (LabelledTree κ τ α)} {p : List κ}
    {y : τ × Option α} : (layered t ts).readAt p = some y ↔ Prevails (t :: ts) p y := by
  induction ts using List.reverseRecOn with
  | nil =>
    show t.readAt p = some y ↔ Prevails ([] ++ [t]) p y
    rw [prevails_concat]
    constructor
    · exact Or.inl
    · rintro (ht | ⟨-, earlier, u, later, hnil, -⟩)
      · exact ht
      · exact absurd hnil.symm (by simp)
  | append_singleton ts u ih =>
    rw [layered, List.foldl_append, List.foldl_cons, List.foldl_nil, readAt_merge_eq_some_iff,
      ← List.cons_append, prevails_concat, ← ih]
    rfl

/-- Something of a list still stands at a path: one of its trees shows something there, and none after
it holds a leaf above. -/
def Stands (ts : List (LabelledTree κ τ α)) (p : List κ) : Prop :=
  ∃ earlier t later, ts = earlier ++ t :: later ∧ t.readAt p ≠ none ∧
    ∀ u ∈ later, u.blocks p = false

/-- A list shows something at a path exactly when something of it still stands there. -/
theorem exists_prevails_iff {ts : List (LabelledTree κ τ α)} {p : List κ} :
    (∃ y, Prevails ts p y) ↔ Stands ts p := by
  constructor
  · rintro ⟨y, earlier, t, later, hsplit, ht, hlater⟩
    refine ⟨earlier, t, later, hsplit, ?_, fun u hu ↦ (decides_eq_false_iff.1 (hlater u hu)).2⟩
    rw [ht]
    exact Option.some_ne_none y
  · rintro ⟨earlier, t, later, rfl, ht, hlater⟩
    obtain ⟨y, hy⟩ := Option.ne_none_iff_exists'.1 ht
    -- Induction on what comes after the tree: whatever shows last prevails.
    induction later using List.reverseRecOn with
    | nil => exact ⟨y, earlier, t, [], rfl, hy, fun u hu ↦ absurd hu List.not_mem_nil⟩
    | append_singleton later u ih =>
      rw [← List.cons_append, ← List.append_assoc]
      rcases hu : u.readAt p with - | z
      · obtain ⟨z, hz⟩ := ih fun v hv ↦ hlater v (List.mem_append_left _ hv)
        have hblocks : u.blocks p = false := hlater u (by simp)
        exact ⟨z, prevails_concat.2 (Or.inr ⟨decides_eq_false_iff.2 ⟨hu, hblocks⟩, hz⟩)⟩
      · exact ⟨z, prevails_concat.2 (Or.inl hu)⟩

/-! ### Three lists of trees -/

/-- A list that holds a leaf above a path in the end. -/
def Covers (ts : List (LabelledTree κ τ α)) (p : List κ) : Prop :=
  ∃ q r m x, p = q ++ r ∧ r ≠ [] ∧ Prevails ts q (m, some x)

/-- A path about which a whole list has something to say: it shows something there, or a leaf above
it. -/
def Settled (ts : List (LabelledTree κ τ α)) (p : List κ) : Prop :=
  (∃ y, Prevails ts p y) ∨ Covers ts p

theorem decides_layered {t : LabelledTree κ τ α} {ts : List (LabelledTree κ τ α)} {p : List κ} :
    (layered t ts).decides p = false ↔ ¬ Settled (t :: ts) p := by
  rw [decides_eq_false_iff, Settled, not_or]
  refine and_congr ?_ ?_
  · rw [Option.eq_none_iff_forall_ne_some, not_exists]
    exact forall_congr' fun y ↦ not_congr readAt_layered
  · rw [← Bool.not_eq_true, blocks_iff_readAt]
    refine not_congr (exists_congr fun q ↦ exists_congr fun r ↦ exists_congr fun m ↦
      exists_congr fun x ↦ ?_)
    rw [readAt_layered]

/-- Reading three lists from the last one down. -/
def Holds (low own high : List (LabelledTree κ τ α)) (p : List κ) (y : τ × Option α) : Prop :=
  Prevails high p y ∨
    ¬ Settled high p ∧ (Prevails own p y ∨ ¬ Settled own p ∧ Prevails low p y)

/-- **What three layered lists show.** -/
theorem readAt_stacked_layered {a b c : LabelledTree κ τ α} {as bs cs : List (LabelledTree κ τ α)}
    {p : List κ} {y : τ × Option α} :
    (stacked (layered a as) (layered b bs) (layered c cs)).readAt p = some y ↔
      Holds (a :: as) (b :: bs) (c :: cs) p y := by
  rw [stacked, readAt_merge_eq_some_iff, readAt_merge_eq_some_iff, decides_layered,
    decides_layered, readAt_layered, readAt_layered, readAt_layered]
  rfl

/-- Something of three lists still stands at a path, with no leaf above it in a list over its own. -/
def StandsIn (low own high : List (LabelledTree κ τ α)) (p : List κ) : Prop :=
  Stands high p ∨ ¬ Covers high p ∧ (Stands own p ∨ ¬ Covers own p ∧ Stands low p)

/-- **Three lists show something** exactly where something of them still stands. -/
theorem exists_holds_iff {low own high : List (LabelledTree κ τ α)} {p : List κ} :
    (∃ y, Holds low own high p y) ↔ StandsIn low own high p := by
  have hsettled : ∀ ts : List (LabelledTree κ τ α), Settled ts p ↔ Stands ts p ∨ Covers ts p :=
    fun ts ↦ or_congr_left exists_prevails_iff
  have hholds : (∃ y, Holds low own high p y) ↔ Stands high p ∨
      ¬ Settled high p ∧ (Stands own p ∨ ¬ Settled own p ∧ Stands low p) := by
    rw [← exists_prevails_iff, ← exists_prevails_iff, ← exists_prevails_iff, ← exists_and_left,
      ← exists_or, ← exists_and_left, ← exists_or]
    rfl
  rw [hholds, hsettled, hsettled, StandsIn]
  -- A list that shows something is not asked whether it covers it.
  by_cases hhigh : Stands high p
  · exact iff_of_true (Or.inl hhigh) (Or.inl hhigh)
  · by_cases hown : Stands own p
    · simp only [hhigh, hown, false_or, true_or, and_true]
    · simp only [hhigh, hown, false_or]

end LabelledTree
