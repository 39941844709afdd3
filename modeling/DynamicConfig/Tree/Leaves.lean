import DynamicConfig.Tree.Ordered
import DynamicConfig.Tree.Shown

/-!
# The leaves of a tree

What a listing of a tree by paths names: its leaves, and the tables with nothing in them, which would
vanish from the listing otherwise. `leaves` lists them in order, each once.
-/

namespace LabelledTree

variable {κ τ α : Type} [DecidableEq κ] {a : LabelledTree κ τ α} {p : List κ}

/-- At a path stands a leaf, or a table with nothing in it. -/
def LeafAt (a : LabelledTree κ τ α) (p : List κ) : Prop :=
  a.peekAt p ≠ none ∧ ∀ k, a.peekAt (p ++ [k]) = none

mutual

/-- The paths of the leaves. -/
def leaves : LabelledTree κ τ α → List (List κ)
  | leaf _ _ => [[]]
  | node _ [] => [[]]
  | node _ (e :: es) => leavesBelow (e :: es)

/-- The paths of the leaves under the keys of a table. -/
def leavesBelow : List (κ × LabelledTree κ τ α) → List (List κ)
  | [] => []
  | (k, a) :: es => (leaves a).map (k :: ·) ++ leavesBelow es

end

theorem leafAt_leaf (t : τ) (v : α) : LeafAt (leaf t v : LabelledTree κ τ α) p ↔ p = [] := by
  rcases p with - | ⟨k, ks⟩
  · exact iff_of_true ⟨Option.some_ne_none _, fun _ ↦ rfl⟩ rfl
  · exact iff_of_false (fun h ↦ h.1 rfl) (List.cons_ne_nil k ks)

theorem leafAt_node_nil (t : τ) : LeafAt (node t [] : LabelledTree κ τ α) p ↔ p = [] := by
  rcases p with - | ⟨k, ks⟩
  · exact iff_of_true ⟨Option.some_ne_none _, fun _ ↦ rfl⟩ rfl
  · exact iff_of_false (fun h ↦ h.1 rfl) (List.cons_ne_nil k ks)

/-- Under a key a leaf is one of what stands there. -/
theorem leafAt_node_cons {t : τ} {es : List (κ × LabelledTree κ τ α)} {k : κ} {ks : List κ} :
    LeafAt (node t es) (k :: ks) ↔ ∃ c, es.lookup k = some c ∧ LeafAt c ks := by
  rw [LeafAt, peekAt_node_cons]
  constructor
  · rintro ⟨hshown, hbelow⟩
    obtain ⟨x, hx⟩ := Option.ne_none_iff_exists'.1 hshown
    obtain ⟨c, hc, hcx⟩ := Option.bind_eq_some_iff.1 hx
    refine ⟨c, hc, ?_, fun l ↦ ?_⟩
    · rw [hcx]
      exact Option.some_ne_none x
    · have hnone := hbelow l
      rw [List.cons_append, peekAt_node_cons, hc] at hnone
      exact hnone
  · rintro ⟨c, hc, hshown, hbelow⟩
    rw [hc]
    refine ⟨hshown, fun l ↦ ?_⟩
    rw [List.cons_append, peekAt_node_cons, hc]
    exact hbelow l

/-- A table that holds something is no leaf. -/
theorem not_leafAt_nil {t : τ} {e : κ × LabelledTree κ τ α} {es : List (κ × LabelledTree κ τ α)} :
    ¬ LeafAt (node t (e :: es)) [] := by
  rintro ⟨-, hbelow⟩
  have hnone := hbelow e.1
  rw [List.nil_append, peekAt_node_cons, List.lookup_cons_self, Option.bind_some,
    peekAt_nil] at hnone
  exact Option.some_ne_none _ hnone

omit [DecidableEq κ] in
theorem mem_leavesBelow {es : List (κ × LabelledTree κ τ α)} :
    p ∈ leavesBelow es ↔ ∃ k c q, (k, c) ∈ es ∧ q ∈ leaves c ∧ p = k :: q := by
  induction es with
  | nil =>
    rw [leavesBelow]
    exact ⟨fun h ↦ absurd h List.not_mem_nil, fun ⟨k, c, q, h, _⟩ ↦ absurd h List.not_mem_nil⟩
  | cons e es ih =>
    obtain ⟨k, a⟩ := e
    rw [leavesBelow, List.mem_append, ih]
    constructor
    · rintro (hhere | ⟨l, c, q, hmem, hq, rfl⟩)
      · obtain ⟨q, hq, rfl⟩ := List.mem_map.1 hhere
        exact ⟨k, a, q, List.mem_cons_self, hq, rfl⟩
      · exact ⟨l, c, q, List.mem_cons_of_mem _ hmem, hq, rfl⟩
    · rintro ⟨l, c, q, hmem, hq, rfl⟩
      rcases List.mem_cons.1 hmem with heq | hmem
      · obtain ⟨rfl, rfl⟩ := Prod.mk.inj heq
        exact Or.inl (List.mem_map_of_mem hq)
      · exact Or.inr ⟨l, c, q, hmem, hq, rfl⟩

/-- **The list is complete and exact**, for a tree without keys twice. -/
theorem mem_leaves (hdistinct : a.Distinct) : p ∈ leaves a ↔ LeafAt a p := by
  induction p generalizing a with
  | nil =>
    rcases a with ⟨t, v⟩ | ⟨t, - | ⟨e, es⟩⟩
    · rw [leaves, leafAt_leaf]
      exact iff_of_true List.mem_cons_self rfl
    · rw [leaves, leafAt_node_nil]
      exact iff_of_true List.mem_cons_self rfl
    · rw [leaves, mem_leavesBelow]
      exact iff_of_false (fun ⟨k, c, q, _, _, hp⟩ ↦ List.cons_ne_nil k q hp.symm) not_leafAt_nil
  | cons k ks ih =>
    rcases a with ⟨t, v⟩ | ⟨t, - | ⟨e, es⟩⟩
    · rw [leaves, leafAt_leaf, List.mem_singleton]
    · rw [leaves, leafAt_node_nil, List.mem_singleton]
    · rw [leaves, mem_leavesBelow, leafAt_node_cons]
      constructor
      · rintro ⟨l, c, q, hmem, hq, heq⟩
        obtain ⟨rfl, rfl⟩ := List.cons.inj heq
        have hlookup := Entries.lookup_of_mem hdistinct.nodup hmem
        exact ⟨c, hlookup, (ih (hdistinct.child hlookup)).1 hq⟩
      · rintro ⟨c, hlookup, hleaf⟩
        exact ⟨k, c, ks, Entries.mem_of_lookup hlookup, (ih (hdistinct.child hlookup)).2 hleaf, rfl⟩

/-- The leaves under the keys of a table are its leaves, the table itself aside. -/
theorem mem_leavesBelow_iff {t : τ} {es : List (κ × LabelledTree κ τ α)}
    (hdistinct : (node t es).Distinct) : p ∈ leavesBelow es ↔ p ≠ [] ∧ LeafAt (node t es) p := by
  rcases p with - | ⟨k, ks⟩
  · rw [mem_leavesBelow]
    exact iff_of_false (fun ⟨k, c, q, _, _, hp⟩ ↦ List.cons_ne_nil k q hp.symm) fun h ↦ h.1 rfl
  · rw [and_iff_right (List.cons_ne_nil k ks), ← mem_leaves hdistinct]
    rcases es with - | ⟨e, es⟩
    · rw [leavesBelow, leaves, List.mem_singleton]
      exact iff_of_false List.not_mem_nil (List.cons_ne_nil k ks)
    · rw [leaves]

mutual

/-- **No leaf is listed twice.** -/
theorem nodup_leaves (a : LabelledTree κ τ α) (h : a.Distinct) : (leaves a).Nodup := by
  match a with
  | leaf t v => rw [leaves]; exact List.pairwise_singleton _ _
  | node t [] => rw [leaves]; exact List.pairwise_singleton _ _
  | node t (e :: es) =>
    rw [leaves]
    exact nodup_leavesBelow (e :: es) h.nodup fun e he ↦ h.child (Entries.lookup_of_mem h.nodup he)

theorem nodup_leavesBelow (es : List (κ × LabelledTree κ τ α)) (hkeys : (es.map Prod.fst).Nodup)
    (h : ∀ e ∈ es, e.2.Distinct) : (leavesBelow es).Nodup := by
  match es with
  | [] => rw [leavesBelow]; exact List.nodup_nil
  | (k, a) :: es =>
    rw [List.map_cons, List.nodup_cons] at hkeys
    rw [leavesBelow]
    have hrest := nodup_leavesBelow es hkeys.2 fun e he ↦ h e (List.mem_cons_of_mem _ he)
    have hhere : ((leaves a).map (k :: ·)).Nodup :=
      List.Pairwise.map _ (fun _ _ hne heq ↦ hne (List.cons.inj heq).2)
        (nodup_leaves a (h (k, a) List.mem_cons_self))
    refine List.nodup_append.2 ⟨hhere, hrest, fun p hp q hq heq ↦ ?_⟩
    obtain ⟨p, -, rfl⟩ := List.mem_map.1 hp
    obtain ⟨l, c, q, hmem, -, rfl⟩ := mem_leavesBelow.1 hq
    obtain ⟨rfl, -⟩ := List.cons.inj heq
    have hkey : (k, c).1 ∈ es.map Prod.fst := List.mem_map_of_mem hmem
    exact hkeys.1 hkey

end

end LabelledTree
