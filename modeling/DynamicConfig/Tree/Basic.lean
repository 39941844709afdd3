import DynamicConfig.Tree.Entries

/-!
# Labelled key trees and their deep merge

A `LabelledTree` is a finite tree whose tables are keyed by `κ`, whose leaves carry a value of `α`,
and whose every node carries a label of `τ` recording who supplied it. It is the shape of a layered
configuration: a table is a set of keys, a leaf is a scalar or a list, a label is a provenance.

`merge a b` lays `b` over `a`: two tables are joined key by key and recursively, and anywhere else
the incoming side replaces the old one. The whole theory of the merge is one equation,
`get_merge`, which reads a path in a merge off the two sides: what `b` supplies there, laid over
what `a` supplies; and where `b` supplies nothing, what `a` supplies, unless `b` holds a leaf above
the path and so *blocks* it.

**The merge is not associative**, and nothing below claims it is. A leaf laid over a table and
covered by a table again has discarded what the first table held, so three trees merged from the
left differ from the same three merged from the right. Results about a stack of layers are
therefore stated about the fold in the order it is made.
-/

/-- A tree of tables and leaves, labelled at every node. -/
inductive LabelledTree (κ τ α : Type) where
  /-- A value that is not a table. -/
  | leaf (tag : τ) (value : α)
  /-- A table, as an association list. -/
  | node (tag : τ) (entries : List (κ × LabelledTree κ τ α))

namespace LabelledTree

variable {κ τ α : Type}

/-- The label of the root. -/
def tag : LabelledTree κ τ α → τ
  | leaf t _ => t
  | node t _ => t

/-- What is there without looking inside a table: the value of a leaf, `none` for a table. -/
def peek : LabelledTree κ τ α → Option α
  | leaf _ v => some v
  | node _ _ => none

/-- Whether the root is a table. -/
def isTable (t : LabelledTree κ τ α) : Bool :=
  t.peek.isNone

@[simp] theorem tag_leaf (t : τ) (v : α) : (leaf t v : LabelledTree κ τ α).tag = t := rfl

@[simp] theorem tag_node (t : τ) (es : List (κ × LabelledTree κ τ α)) : (node t es).tag = t := rfl

@[simp] theorem peek_leaf (t : τ) (v : α) : (leaf t v : LabelledTree κ τ α).peek = some v := rfl

@[simp] theorem peek_node (t : τ) (es : List (κ × LabelledTree κ τ α)) :
    (node t es).peek = none := rfl

variable [DecidableEq κ]

/-! ### Paths -/

/-- The subtree at a path. Only tables have a below. -/
def get : LabelledTree κ τ α → List κ → Option (LabelledTree κ τ α)
  | t, [] => some t
  | leaf _ _, _ :: _ => none
  | node _ es, k :: ks =>
    match es.lookup k with
    | some c => c.get ks
    | none => none

/-- Whether a leaf sits strictly above a path, so that the path cannot be reached at all. -/
def blocks : LabelledTree κ τ α → List κ → Bool
  | _, [] => false
  | leaf _ _, _ :: _ => true
  | node _ es, k :: ks =>
    match es.lookup k with
    | some c => c.blocks ks
    | none => false

/-- What a path shows: nothing, a table, or a leaf's value. Two trees with the same `peekAt`
everywhere are the same configuration, labels aside. -/
def peekAt (t : LabelledTree κ τ α) (p : List κ) : Option (Option α) :=
  (t.get p).map peek

@[simp] theorem get_nil (t : LabelledTree κ τ α) : t.get [] = some t := by cases t <;> rfl

@[simp] theorem get_leaf_cons (t : τ) (v : α) (k : κ) (ks : List κ) :
    (leaf t v).get (k :: ks) = none := rfl

theorem get_node_cons (t : τ) (es : List (κ × LabelledTree κ τ α)) (k : κ) (ks : List κ) :
    (node t es).get (k :: ks) = (es.lookup k).bind fun c ↦ c.get ks := by
  rw [get]
  cases es.lookup k <;> rfl

@[simp] theorem blocks_nil (t : LabelledTree κ τ α) : t.blocks [] = false := by cases t <;> rfl

@[simp] theorem blocks_leaf_cons (t : τ) (v : α) (k : κ) (ks : List κ) :
    (leaf t v).blocks (k :: ks) = true := rfl

theorem blocks_node_cons (t : τ) (es : List (κ × LabelledTree κ τ α)) (k : κ) (ks : List κ) :
    (node t es).blocks (k :: ks) = ((es.lookup k).map fun c ↦ c.blocks ks).getD false := by
  rw [blocks]
  cases es.lookup k <;> rfl

/-- A path is read one segment list after the other. -/
theorem get_append (t : LabelledTree κ τ α) (p q : List κ) :
    t.get (p ++ q) = (t.get p).bind fun c ↦ c.get q := by
  induction p generalizing t with
  | nil => simp
  | cons k ks ih =>
    cases t with
    | leaf t v => simp
    | node t es =>
      rw [List.cons_append, get_node_cons, get_node_cons]
      cases es.lookup k with
      | none => rfl
      | some c => exact ih c

/-- A blocked path is unreachable. -/
theorem get_eq_none_of_blocks {t : LabelledTree κ τ α} {p : List κ} (h : t.blocks p = true) :
    t.get p = none := by
  induction p generalizing t with
  | nil => simp at h
  | cons k ks ih =>
    cases t with
    | leaf t v => rfl
    | node t es =>
      rw [blocks_node_cons] at h
      rw [get_node_cons]
      cases hk : es.lookup k with
      | none => rfl
      | some c => exact ih (by simpa [hk] using h)

/-- A path is blocked exactly by a leaf strictly above it. -/
theorem blocks_eq_true_iff {t : LabelledTree κ τ α} {p : List κ} :
    t.blocks p = true ↔
      ∃ q r c, p = q ++ r ∧ r ≠ [] ∧ t.get q = some c ∧ c.isTable = false := by
  induction p generalizing t with
  | nil => simp
  | cons k ks ih =>
    cases t with
    | leaf s v =>
      refine iff_of_true rfl ⟨[], k :: ks, leaf s v, rfl, by simp, by simp, rfl⟩
    | node s es =>
      rw [blocks_node_cons]
      constructor
      · intro h
        cases hk : es.lookup k with
        | none => simp [hk] at h
        | some c =>
          obtain ⟨q, r, d, rfl, hr, hd, hleaf⟩ := ih.1 (by simpa [hk] using h)
          exact ⟨k :: q, r, d, rfl, hr, by rw [get_node_cons, hk]; exact hd, hleaf⟩
      · rintro ⟨q, r, d, hp, hr, hd, hleaf⟩
        cases q with
        | nil =>
          rw [get_nil, Option.some_inj] at hd
          subst hd
          simp [isTable] at hleaf
        | cons l q =>
          rw [List.cons_append, List.cons.injEq] at hp
          obtain ⟨rfl, rfl⟩ := hp
          rw [get_node_cons] at hd
          cases hk : es.lookup k with
          | none => simp [hk] at hd
          | some c =>
            have := (ih (t := c)).2 ⟨q, r, d, rfl, hr, by simpa [hk] using hd, hleaf⟩
            simpa using this

/-! ### The deep merge -/

mutual

/-- Lay `b` over `a`. -/
def merge : LabelledTree κ τ α → LabelledTree κ τ α → LabelledTree κ τ α
  | node _ xs, node t ys =>
    node t (mergeEntries xs ys ++ ys.filter fun e ↦ !Entries.hasKey xs e.1)
  | node _ _, leaf t v => leaf t v
  | leaf _ _, b => b

/-- The keys of the older table, each with the incoming value laid over its own. -/
def mergeEntries : List (κ × LabelledTree κ τ α) → List (κ × LabelledTree κ τ α) →
    List (κ × LabelledTree κ τ α)
  | [], _ => []
  | (k, a) :: xs, ys =>
    (k, match ys.lookup k with
      | some b => a.merge b
      | none => a) :: mergeEntries xs ys

end

/-- Join two tables: the keys of the older one first, then the keys only the newer one has. -/
def mergeTables (xs ys : List (κ × LabelledTree κ τ α)) : List (κ × LabelledTree κ τ α) :=
  mergeEntries xs ys ++ ys.filter fun e ↦ !Entries.hasKey xs e.1

/-- Lay `b` over what was there, if anything was. -/
def mergeOver (a : Option (LabelledTree κ τ α)) (b : LabelledTree κ τ α) : LabelledTree κ τ α :=
  match a with
  | some a => a.merge b
  | none => b

@[simp] theorem mergeOver_none (b : LabelledTree κ τ α) : mergeOver none b = b := rfl

@[simp] theorem mergeOver_some (a b : LabelledTree κ τ α) : mergeOver (some a) b = a.merge b := rfl

theorem merge_node_node (s t : τ) (xs ys : List (κ × LabelledTree κ τ α)) :
    (node s xs).merge (node t ys) = node t (mergeTables xs ys) := by
  rw [merge]
  rfl

@[simp] theorem merge_leaf_right (a : LabelledTree κ τ α) (t : τ) (v : α) :
    a.merge (leaf t v) = leaf t v := by
  cases a <;> rw [merge]

@[simp] theorem merge_leaf_left (t : τ) (v : α) (b : LabelledTree κ τ α) :
    (leaf t v).merge b = b := by
  rw [merge]

@[simp] theorem tag_merge (a b : LabelledTree κ τ α) : (a.merge b).tag = b.tag := by
  cases b with
  | leaf t v => simp
  | node t ys =>
    cases a with
    | leaf s v => simp
    | node s xs => rw [merge_node_node, tag_node, tag_node]

@[simp] theorem peek_merge (a b : LabelledTree κ τ α) : (a.merge b).peek = b.peek := by
  cases b with
  | leaf t v => simp
  | node t ys =>
    cases a with
    | leaf s v => simp
    | node s xs => rw [merge_node_node, peek_node, peek_node]

@[simp] theorem tag_mergeOver (a : Option (LabelledTree κ τ α)) (b : LabelledTree κ τ α) :
    (mergeOver a b).tag = b.tag := by
  cases a <;> simp

@[simp] theorem peek_mergeOver (a : Option (LabelledTree κ τ α)) (b : LabelledTree κ τ α) :
    (mergeOver a b).peek = b.peek := by
  cases a <;> simp

@[simp] theorem mergeOver_leaf (a : Option (LabelledTree κ τ α)) (t : τ) (v : α) :
    mergeOver a (leaf t v) = leaf t v := by
  cases a <;> simp

theorem lookup_mergeEntries (xs ys : List (κ × LabelledTree κ τ α)) (k : κ) :
    (mergeEntries xs ys).lookup k =
      (xs.lookup k).map fun a ↦ ((ys.lookup k).map a.merge).getD a := by
  induction xs with
  | nil => rw [mergeEntries]; rfl
  | cons e es ih =>
    obtain ⟨l, a⟩ := e
    rw [mergeEntries, Entries.lookup_cons_eq, Entries.lookup_cons_eq]
    split
    · next h =>
      subst h
      cases ys.lookup k <;> rfl
    · exact ih

/-- The lookups of a join: what the newer table holds laid over what the older one held. -/
theorem lookup_mergeTables (xs ys : List (κ × LabelledTree κ τ α)) (k : κ) :
    (mergeTables xs ys).lookup k =
      ((ys.lookup k).map fun b ↦ mergeOver (xs.lookup k) b).or (xs.lookup k) := by
  rw [mergeTables, List.lookup_append, lookup_mergeEntries, Entries.lookup_filter_not_hasKey,
    Entries.hasKey]
  cases xs.lookup k <;> cases ys.lookup k <;> simp

@[simp] theorem mergeTables_nil_left (ys : List (κ × LabelledTree κ τ α)) :
    mergeTables [] ys = ys := by
  rw [mergeTables, mergeEntries]
  simp [Entries.hasKey]

@[simp] theorem mergeTables_nil_right (xs : List (κ × LabelledTree κ τ α)) :
    mergeTables xs [] = xs := by
  rw [mergeTables, List.filter_nil, List.append_nil]
  induction xs with
  | nil => rw [mergeEntries]
  | cons e es ih =>
    obtain ⟨k, a⟩ := e
    rw [mergeEntries, ih]
    rfl

/-- **A path in a merge.** What the incoming side supplies there lies over what the older side
supplies; where it supplies nothing the older side shows through, unless the incoming side holds a
leaf above the path. -/
theorem get_merge (a b : LabelledTree κ τ α) (p : List κ) :
    (a.merge b).get p =
      match b.get p with
      | some v => some (mergeOver (a.get p) v)
      | none => if b.blocks p then none else a.get p := by
  induction p generalizing a b with
  | nil => simp
  | cons k ks ih =>
    cases b with
    | leaf t v => simp
    | node t ys =>
      cases a with
      | leaf s v =>
        rw [merge_leaf_left, get_leaf_cons]
        cases (node t ys).get (k :: ks) <;> simp
      | node s xs =>
        rw [merge_node_node, get_node_cons, get_node_cons, get_node_cons, blocks_node_cons,
          lookup_mergeTables]
        cases ys.lookup k with
        | none => simp
        | some b =>
          cases xs.lookup k with
          | none =>
            cases hb : b.get ks <;> simp [hb]
          | some a => simpa using ih a b

/-- What a merge shows at a path. -/
theorem peekAt_merge (a b : LabelledTree κ τ α) (p : List κ) :
    (a.merge b).peekAt p =
      (b.peekAt p).or (if b.blocks p then none else a.peekAt p) := by
  rw [peekAt, peekAt, peekAt, get_merge]
  cases b.get p with
  | some v => simp
  | none =>
    simp only [Option.map_none, Option.none_or]
    split <;> rfl

/-- A path neither side blocks is not blocked in the merge. -/
theorem blocks_merge_eq_false {a b : LabelledTree κ τ α} {p : List κ} (ha : a.blocks p = false)
    (hb : b.blocks p = false) : (a.merge b).blocks p = false := by
  rw [Bool.eq_false_iff, Ne, blocks_eq_true_iff]
  rintro ⟨q, r, c, rfl, hr, hc, hleaf⟩
  rw [get_merge] at hc
  rcases hbq : b.get q with - | d
  · rw [hbq] at hc
    have haq : a.get q = some c := by
      change (if b.blocks q = true then none else a.get q) = some c at hc
      split at hc
      · cases hc
      · exact hc
    have := blocks_eq_true_iff.2 ⟨q, r, c, rfl, hr, haq, hleaf⟩
    rw [ha] at this
    exact Bool.false_ne_true this
  · rw [hbq] at hc
    have hd : d.isTable = false := by
      have hpeek : c.peek = d.peek := by
        rw [← Option.some.inj hc]
        exact peek_mergeOver _ d
      rw [isTable, ← hpeek]
      exact hleaf
    have := blocks_eq_true_iff.2 ⟨q, r, d, rfl, hr, hbq, hd⟩
    rw [hb] at this
    exact Bool.false_ne_true this

/-- What shows is not blocked. -/
theorem blocks_eq_false_of_peekAt {a : LabelledTree κ τ α} {p : List κ} {x : Option α}
    (h : a.peekAt p = some x) : a.blocks p = false := by
  rw [Bool.eq_false_iff]
  intro hblocks
  rw [peekAt, get_eq_none_of_blocks hblocks] at h
  cases h

/-! ### Relabelling -/

mutual

/-- Change the label of every node. -/
def mapTag (g : τ → τ) : LabelledTree κ τ α → LabelledTree κ τ α
  | leaf t v => leaf (g t) v
  | node t es => node (g t) (mapTagEntries g es)

/-- Change the label of every node of a table's values. -/
def mapTagEntries (g : τ → τ) : List (κ × LabelledTree κ τ α) → List (κ × LabelledTree κ τ α)
  | [] => []
  | (k, a) :: es => (k, a.mapTag g) :: mapTagEntries g es

end

omit [DecidableEq κ] in
theorem mapTagEntries_eq_mapValues (g : τ → τ) (es : List (κ × LabelledTree κ τ α)) :
    mapTagEntries g es = Entries.mapValues (mapTag g) es := by
  induction es with
  | nil => rw [mapTagEntries]; rfl
  | cons e es ih => rw [mapTagEntries, ih]; rfl

omit [DecidableEq κ] in
@[simp] theorem tag_mapTag (g : τ → τ) (a : LabelledTree κ τ α) : (a.mapTag g).tag = g a.tag := by
  cases a <;> simp [mapTag]

omit [DecidableEq κ] in
@[simp] theorem peek_mapTag (g : τ → τ) (a : LabelledTree κ τ α) : (a.mapTag g).peek = a.peek := by
  cases a <;> simp [mapTag]

/-- Relabelling changes labels and nothing else. -/
theorem get_mapTag (g : τ → τ) (a : LabelledTree κ τ α) (p : List κ) :
    (a.mapTag g).get p = (a.get p).map (mapTag g) := by
  induction p generalizing a with
  | nil => simp
  | cons k ks ih =>
    cases a with
    | leaf s v => simp [mapTag]
    | node s es =>
      rw [mapTag, get_node_cons, get_node_cons, mapTagEntries_eq_mapValues,
        Entries.lookup_mapValues]
      cases es.lookup k with
      | none => rfl
      | some c => exact ih c

theorem blocks_mapTag (g : τ → τ) (a : LabelledTree κ τ α) (p : List κ) :
    (a.mapTag g).blocks p = a.blocks p := by
  induction p generalizing a with
  | nil => simp
  | cons k ks ih =>
    cases a with
    | leaf s v => simp [mapTag]
    | node s es =>
      rw [mapTag, blocks_node_cons, blocks_node_cons, mapTagEntries_eq_mapValues,
        Entries.lookup_mapValues]
      cases es.lookup k with
      | none => rfl
      | some c => exact ih c

@[simp] theorem peekAt_mapTag (g : τ → τ) (a : LabelledTree κ τ α) (p : List κ) :
    (a.mapTag g).peekAt p = a.peekAt p := by
  rw [peekAt, peekAt, get_mapTag, Option.map_map]
  congr 1
  funext c
  exact peek_mapTag g c

end LabelledTree
