import DynamicConfig.Tree.Path

/-!
# Trees that differ in some leaves

Two trees are `SimilarOff` a set of places when they have the same tables, the same labels and the
same leaves, except that at those places the leaves may differ in what `blind` hides. A merge, a
relabelling, a lookup and a fill keep this: none of them looks at what a leaf holds.

The relation is an equation: blinding the places makes the two trees the same. So what is to be shown
of an operation is that it commutes with blinding (`mapAt_merge` and its siblings).
-/

namespace LabelledTree

variable {κ τ α : Type}

/-! ### Changing the leaves place by place -/

mutual

/-- Change every leaf, as its place says. -/
def mapAt (g : List κ → α → α) : LabelledTree κ τ α → LabelledTree κ τ α
  | leaf t v => leaf t (g [] v)
  | node t es => node t (mapEntriesAt g es)

/-- Change every leaf of a table's values. -/
def mapEntriesAt (g : List κ → α → α) :
    List (κ × LabelledTree κ τ α) → List (κ × LabelledTree κ τ α)
  | [] => []
  | (k, a) :: es => (k, a.mapAt fun p ↦ g (k :: p)) :: mapEntriesAt g es

end

@[simp] theorem mapAt_leaf (g : List κ → α → α) (t : τ) (v : α) :
    (leaf t v : LabelledTree κ τ α).mapAt g = leaf t (g [] v) := by
  rw [mapAt]

@[simp] theorem mapAt_node (g : List κ → α → α) (t : τ) (es : List (κ × LabelledTree κ τ α)) :
    (node t es).mapAt g = node t (mapEntriesAt g es) := by
  rw [mapAt]

@[simp] theorem mapEntriesAt_nil (g : List κ → α → α) :
    mapEntriesAt g ([] : List (κ × LabelledTree κ τ α)) = [] := by
  rw [mapEntriesAt]

@[simp] theorem mapEntriesAt_cons (g : List κ → α → α) (k : κ) (a : LabelledTree κ τ α)
    (es : List (κ × LabelledTree κ τ α)) :
    mapEntriesAt g ((k, a) :: es) = (k, a.mapAt fun p ↦ g (k :: p)) :: mapEntriesAt g es := by
  rw [mapEntriesAt]

@[simp] theorem tag_mapAt (g : List κ → α → α) (a : LabelledTree κ τ α) :
    (a.mapAt g).tag = a.tag := by
  cases a <;> simp

@[simp] theorem peek_mapAt (g : List κ → α → α) (a : LabelledTree κ τ α) :
    (a.mapAt g).peek = a.peek.map (g []) := by
  cases a <;> simp

theorem map_fst_mapEntriesAt (g : List κ → α → α) (es : List (κ × LabelledTree κ τ α)) :
    (mapEntriesAt g es).map Prod.fst = es.map Prod.fst := by
  induction es with
  | nil => rw [mapEntriesAt_nil]
  | cons e es ih =>
    obtain ⟨k, a⟩ := e
    rw [mapEntriesAt_cons, List.map_cons, List.map_cons, ih]

mutual

/-- One change after the other. -/
theorem mapAt_mapAt (g h : List κ → α → α) (a : LabelledTree κ τ α) :
    (a.mapAt g).mapAt h = a.mapAt fun p v ↦ h p (g p v) := by
  cases a with
  | leaf t v => rw [mapAt_leaf, mapAt_leaf, mapAt_leaf]
  | node t es => rw [mapAt_node, mapAt_node, mapAt_node, mapEntriesAt_mapEntriesAt]

theorem mapEntriesAt_mapEntriesAt (g h : List κ → α → α) (es : List (κ × LabelledTree κ τ α)) :
    mapEntriesAt h (mapEntriesAt g es) = mapEntriesAt (fun p v ↦ h p (g p v)) es := by
  match es with
  | [] => rw [mapEntriesAt_nil, mapEntriesAt_nil, mapEntriesAt_nil]
  | (k, a) :: es =>
    rw [mapEntriesAt_cons, mapEntriesAt_cons, mapEntriesAt_cons, mapAt_mapAt,
      mapEntriesAt_mapEntriesAt]

end

mutual

/-- Labels do not matter. -/
theorem mapAt_mapTag (g : List κ → α → α) (t : τ → τ) (a : LabelledTree κ τ α) :
    (a.mapTag t).mapAt g = (a.mapAt g).mapTag t := by
  cases a with
  | leaf s v => rw [mapTag, mapAt_leaf, mapAt_leaf, mapTag]
  | node s es => rw [mapTag, mapAt_node, mapAt_node, mapTag, mapEntriesAt_mapTagEntries]

theorem mapEntriesAt_mapTagEntries (g : List κ → α → α) (t : τ → τ)
    (es : List (κ × LabelledTree κ τ α)) :
    mapEntriesAt g (mapTagEntries t es) = mapTagEntries t (mapEntriesAt g es) := by
  match es with
  | [] => rw [mapTagEntries, mapEntriesAt_nil, mapTagEntries]
  | (k, a) :: es =>
    rw [mapTagEntries, mapEntriesAt_cons, mapEntriesAt_cons, mapTagEntries, mapAt_mapTag,
      mapEntriesAt_mapTagEntries]

end

theorem mapEntriesAt_append (g : List κ → α → α) (xs ys : List (κ × LabelledTree κ τ α)) :
    mapEntriesAt g (xs ++ ys) = mapEntriesAt g xs ++ mapEntriesAt g ys := by
  induction xs with
  | nil => rw [mapEntriesAt_nil, List.nil_append, List.nil_append]
  | cons e xs ih =>
    obtain ⟨k, a⟩ := e
    rw [List.cons_append, mapEntriesAt_cons, mapEntriesAt_cons, ih, List.cons_append]

/-- The keys that are kept are the same. -/
theorem mapEntriesAt_filter (g : List κ → α → α) (q : κ → Bool)
    (es : List (κ × LabelledTree κ τ α)) :
    mapEntriesAt g (es.filter fun e ↦ q e.1) = (mapEntriesAt g es).filter fun e ↦ q e.1 := by
  induction es with
  | nil => rw [List.filter_nil, mapEntriesAt_nil, List.filter_nil]
  | cons e es ih =>
    obtain ⟨k, a⟩ := e
    rw [mapEntriesAt_cons, List.filter_cons, List.filter_cons]
    split
    · rw [mapEntriesAt_cons, ih]
    · exact ih

variable [DecidableEq κ]

theorem lookup_mapEntriesAt (g : List κ → α → α) (es : List (κ × LabelledTree κ τ α)) (k : κ) :
    (mapEntriesAt g es).lookup k = (es.lookup k).map fun a ↦ a.mapAt fun p ↦ g (k :: p) := by
  induction es with
  | nil => rw [mapEntriesAt_nil]; rfl
  | cons e es ih =>
    obtain ⟨l, a⟩ := e
    rw [mapEntriesAt_cons, Entries.lookup_cons_eq, Entries.lookup_cons_eq]
    split
    · next h => rw [h]; rfl
    · exact ih

theorem hasKey_mapEntriesAt (g : List κ → α → α) (es : List (κ × LabelledTree κ τ α)) (k : κ) :
    Entries.hasKey (mapEntriesAt g es) k = Entries.hasKey es k := by
  rw [Entries.hasKey, Entries.hasKey, lookup_mapEntriesAt, Option.isSome_map]

/-- A lookup reads the place further down. -/
theorem get_mapAt (g : List κ → α → α) (a : LabelledTree κ τ α) (p : List κ) :
    (a.mapAt g).get p = (a.get p).map fun c ↦ c.mapAt fun q ↦ g (p ++ q) := by
  induction p generalizing a g with
  | nil => simp
  | cons k ks ih =>
    cases a with
    | leaf t v => simp
    | node t es =>
      rw [mapAt_node, get_node_cons, get_node_cons, lookup_mapEntriesAt]
      rcases es.lookup k with - | c
      · rfl
      · exact ih (fun p ↦ g (k :: p)) c

mutual

/-- **A merge does not look at what the leaves hold.** -/
theorem mapAt_merge (g : List κ → α → α) (a b : LabelledTree κ τ α) :
    (a.merge b).mapAt g = (a.mapAt g).merge (b.mapAt g) := by
  match a, b with
  | a, leaf t v => rw [merge_leaf_right, mapAt_leaf, merge_leaf_right]
  | leaf s v, node t ys => rw [merge_leaf_left, mapAt_leaf, merge_leaf_left]
  | node s xs, node t ys =>
    rw [merge_node_node, mapAt_node, mapAt_node, mapAt_node, merge_node_node, mergeTables,
      mergeTables, mapEntriesAt_append, mapEntriesAt_mergeEntries,
      mapEntriesAt_filter g fun k ↦ !Entries.hasKey xs k]
    congr 2
    refine List.filter_congr fun e _ ↦ ?_
    rw [hasKey_mapEntriesAt]

theorem mapEntriesAt_mergeEntries (g : List κ → α → α) (xs ys : List (κ × LabelledTree κ τ α)) :
    mapEntriesAt g (mergeEntries xs ys) =
      mergeEntries (mapEntriesAt g xs) (mapEntriesAt g ys) := by
  match xs with
  | [] => rw [mergeEntries, mapEntriesAt_nil, mergeEntries]
  | (k, a) :: xs =>
    rw [mergeEntries, mapEntriesAt_cons, mapEntriesAt_cons, mergeEntries, lookup_mapEntriesAt,
      mapEntriesAt_mergeEntries g xs ys]
    congr 2
    rcases ys.lookup k with - | b
    · rfl
    · exact mapAt_merge (fun p ↦ g (k :: p)) a b

end

/-- A fill puts its value's places below the destination. -/
theorem mapEntriesAt_chain (g : List κ → α → α) (d : τ) (p : List κ) (v : LabelledTree κ τ α) :
    mapEntriesAt g (chain d p v) = chain d p (v.mapAt fun q ↦ g (p ++ q)) := by
  induction p generalizing g with
  | nil => rw [chain, chain, insertPath, insertPath, mapEntriesAt_nil]
  | cons k ks ih =>
    rcases ks with - | ⟨l, ks⟩
    · rw [chain_singleton, chain_singleton, mapEntriesAt_cons, mapEntriesAt_nil]
      rfl
    · rw [chain_cons_cons, chain_cons_cons, mapEntriesAt_cons, mapEntriesAt_nil, mapAt_node, ih]
      rfl

/-! ### Similar trees -/

section SimilarOff

open Classical in
/-- Hide what the leaves at some places hold. -/
noncomputable def hide (blind : α → α) (D : List κ → Prop) (p : List κ) (v : α) : α :=
  if D p then blind v else v

/-- The same tables, labels and leaves, but for what is hidden at some places. -/
def SimilarOff (blind : α → α) (D : List κ → Prop) (a b : LabelledTree κ τ α) : Prop :=
  a.mapAt (hide blind D) = b.mapAt (hide blind D)

variable {blind : α → α} {D E : List κ → Prop} {a a' b b' : LabelledTree κ τ α}

omit [DecidableEq κ] in
theorem SimilarOff.refl (a : LabelledTree κ τ α) : SimilarOff blind D a a := rfl

omit [DecidableEq κ] in
/-- More places may differ. -/
theorem SimilarOff.mono (hblind : ∀ v, blind (blind v) = blind v) (h : SimilarOff blind D a b)
    (hsub : ∀ p, D p → E p) : SimilarOff blind E a b := by
  have htwice : (fun p v ↦ hide blind E p (hide blind D p v)) = hide blind E (κ := κ) := by
    funext p v
    by_cases hE : E p
    · by_cases hD : D p
      · rw [hide, hide, hide, if_pos hE, if_pos hD, if_pos hE, hblind]
      · rw [hide, hide, hide, if_neg hD]
    · rw [hide, hide, hide, if_neg fun hD ↦ hE (hsub p hD)]
  have hboth := congrArg (mapAt (hide blind E)) h
  rwa [mapAt_mapAt, mapAt_mapAt, htwice] at hboth

omit [DecidableEq κ] in
theorem SimilarOff.tag_eq (h : SimilarOff blind D a b) : a.tag = b.tag := by
  have htag := congrArg tag h
  rwa [tag_mapAt, tag_mapAt] at htag

omit [DecidableEq κ] in
/-- Of two tables with one label only the entries count. -/
theorem similarOff_node_iff {t : τ} {xs ys : List (κ × LabelledTree κ τ α)} :
    SimilarOff blind D (node t xs) (node t ys) ↔
      mapEntriesAt (hide blind D) xs = mapEntriesAt (hide blind D) ys := by
  rw [SimilarOff, mapAt_node, mapAt_node]
  constructor
  · intro h
    injection h
  · intro h
    rw [h]

omit [DecidableEq κ] in
theorem SimilarOff.mapTagEntries {s : τ} {xs ys : List (κ × LabelledTree κ τ α)}
    (h : SimilarOff blind D (node s xs) (node s ys)) (t : τ → τ) :
    SimilarOff blind D (node s (mapTagEntries t xs)) (node s (mapTagEntries t ys)) := by
  rw [similarOff_node_iff] at h ⊢
  rw [mapEntriesAt_mapTagEntries, mapEntriesAt_mapTagEntries, h]

omit [DecidableEq κ] in
theorem SimilarOff.mapTag (h : SimilarOff blind D a b) (t : τ → τ) :
    SimilarOff blind D (a.mapTag t) (b.mapTag t) := by
  rw [SimilarOff, mapAt_mapTag, mapAt_mapTag, h]

omit [DecidableEq κ] in
/-- At a place where nothing is hidden the leaves are the same. -/
theorem SimilarOff.peek_eq (h : SimilarOff blind D a b) (hroot : ¬ D []) : a.peek = b.peek := by
  have hpeek := congrArg peek h
  have hid : hide blind D [] = id := by
    funext v
    exact if_neg hroot
  rwa [peek_mapAt, peek_mapAt, hid, Option.map_id_fun, id, id] at hpeek

omit [DecidableEq κ] in
/-- A table is like a table with the same keys. -/
theorem SimilarOff.keys_eq {s t : τ} {xs ys : List (κ × LabelledTree κ τ α)}
    (h : SimilarOff blind D (node s xs) (node t ys)) : xs.map Prod.fst = ys.map Prod.fst := by
  rw [SimilarOff, mapAt_node, mapAt_node] at h
  injection h with _ hentries
  rw [← map_fst_mapEntriesAt (hide blind D) xs, hentries, map_fst_mapEntriesAt]

theorem SimilarOff.merge (h : SimilarOff blind D a a') (h' : SimilarOff blind D b b') :
    SimilarOff blind D (a.merge b) (a'.merge b') := by
  rw [SimilarOff, mapAt_merge, mapAt_merge, h, h']

/-- What is found at a path is similar, off the places further down. -/
theorem SimilarOff.get (h : SimilarOff blind D a b) (p : List κ) :
    (a.get p = none ∧ b.get p = none) ∨
      ∃ c d, a.get p = some c ∧ b.get p = some d ∧ SimilarOff blind (fun q ↦ D (p ++ q)) c d := by
  have hget := congrArg (fun t ↦ LabelledTree.get t p) h
  simp only [get_mapAt] at hget
  rcases ha : a.get p with - | c
  · rcases hb : b.get p with - | d
    · exact Or.inl ⟨rfl, rfl⟩
    · rw [ha, hb] at hget
      cases hget
  · rcases hb : b.get p with - | d
    · rw [ha, hb] at hget
      cases hget
    · rw [ha, hb] at hget
      exact Or.inr ⟨c, d, rfl, rfl, Option.some.inj hget⟩

/-- A fill of similar values. -/
theorem SimilarOff.chain {d t : τ} {p : List κ} (h : SimilarOff blind E a b)
    (hplaces : ∀ q, E q → D (p ++ q)) (hblind : ∀ v, blind (blind v) = blind v) :
    SimilarOff blind D (node t (chain d p a)) (node t (chain d p b)) := by
  have hbelow : SimilarOff blind (fun q ↦ D (p ++ q)) a b := h.mono hblind hplaces
  rw [SimilarOff, mapAt_node, mapAt_node, mapEntriesAt_chain, mapEntriesAt_chain]
  exact congrArg (fun v ↦ node t (LabelledTree.chain d p v)) hbelow

end SimilarOff

end LabelledTree
