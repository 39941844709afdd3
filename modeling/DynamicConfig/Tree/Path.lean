import DynamicConfig.Tree.Basic

/-!
# Writing and removing a path

The two path updates on a table, and the two-tree reading of each: `insertPath` writes a value at a
path and makes the tables on the way to it, replacing a leaf that sits where a table is needed;
`erasePath` drops whatever is at a path and leaves everything that is not at or below it.

A path written into the empty table is a *chain*, `chain p v`: nothing but the tables leading to
`v`. Laying a chain over a tree is how one value is filled in, and `get_merge_chain` says what it
touches: the paths at and below `p`, and the leaves above `p`, which become tables. Paths that do
not compare with `p` are untouched.
-/

namespace LabelledTree

variable {κ τ α : Type} [DecidableEq κ]

/-! ### Writing -/

/-- Write `v` at a path of a table, making the tables on the way with the label `d`. -/
def insertPath (d : τ) (es : List (κ × LabelledTree κ τ α)) :
    List κ → LabelledTree κ τ α → List (κ × LabelledTree κ τ α)
  | [], _ => es
  | [k], v => Entries.insert k v es
  | k :: l :: ks, v =>
    match es.lookup k with
    | some (node t sub) => Entries.insert k (node t (insertPath d sub (l :: ks) v)) es
    | _ => Entries.insert k (node d (insertPath d [] (l :: ks) v)) es

/-- What is written at a path is read there. -/
theorem get_insertPath_append (d t : τ) (es : List (κ × LabelledTree κ τ α)) {p : List κ}
    (hp : p ≠ []) (v : LabelledTree κ τ α) (r : List κ) :
    (node t (insertPath d es p v)).get (p ++ r) = v.get r := by
  induction p generalizing t es with
  | nil => exact absurd rfl hp
  | cons k ks ih =>
    rcases ks with - | ⟨l, ks⟩
    · rw [insertPath, List.singleton_append, get_node_cons, Entries.lookup_insert_self]
      rfl
    · rw [insertPath, List.cons_append, get_node_cons]
      split
      · next s sub _ =>
        rw [Entries.lookup_insert_self]
        exact ih s sub (List.cons_ne_nil l ks)
      · rw [Entries.lookup_insert_self]
        exact ih d [] (List.cons_ne_nil l ks)

/-- Nothing else is touched, where the tables on the way were there before. -/
theorem peekAt_insertPath {d t : τ} {es : List (κ × LabelledTree κ τ α)} {p : List κ}
    (htables : ∀ q r, p = q ++ r → r ≠ [] → (node t es).peekAt q = some none)
    {v : LabelledTree κ τ α} {q : List κ} (hpq : ¬ p <+: q) :
    (node t (insertPath d es p v)).peekAt q = (node t es).peekAt q := by
  induction p generalizing t es q with
  | nil => exact absurd List.nil_prefix hpq
  | cons k ks ih =>
    rcases q with - | ⟨m, ms⟩
    · simp [peekAt]
    rcases ks with - | ⟨l, ks⟩
    · have hmk : m ≠ k := fun heq ↦ hpq (heq ▸ List.cons_prefix_cons.2 ⟨rfl, List.nil_prefix⟩)
      rw [peekAt, peekAt, get_node_cons, get_node_cons, insertPath,
        Entries.lookup_insert_of_ne hmk]
    · -- The first table on the way.
      have hfirst := htables [k] (l :: ks) rfl (List.cons_ne_nil l ks)
      obtain ⟨c, hc, hpeek⟩ := Option.map_eq_some_iff.1 hfirst
      rw [get_node_cons] at hc
      obtain ⟨child, hchild, hc⟩ := Option.bind_eq_some_iff.1 hc
      obtain rfl : child = c := Option.some.inj ((get_nil child).symm.trans hc)
      rcases child with ⟨s, w⟩ | ⟨s, sub⟩
      · cases hpeek
      rw [peekAt, peekAt, get_node_cons, get_node_cons, insertPath, hchild]
      by_cases hmk : m = k
      · subst hmk
        rw [Entries.lookup_insert_self, hchild]
        refine ih (fun q r heq hr ↦ ?_) fun h ↦ hpq (List.cons_prefix_cons.2 ⟨rfl, h⟩)
        have htable := htables (m :: q) r (congrArg (m :: ·) heq) hr
        rw [peekAt, get_node_cons, hchild] at htable
        exact htable
      · rw [Entries.lookup_insert_of_ne hmk]

/-- The table holding `v` at a path and nothing else. -/
def chain (d : τ) (p : List κ) (v : LabelledTree κ τ α) : List (κ × LabelledTree κ τ α) :=
  insertPath d [] p v

@[simp] theorem insertPath_ne_nil (d : τ) (es : List (κ × LabelledTree κ τ α)) {p : List κ}
    (hp : p ≠ []) (v : LabelledTree κ τ α) : insertPath d es p v ≠ [] := by
  match p, hp with
  | [k], _ => rw [insertPath]; exact Entries.insert_ne_nil _ _ _
  | k :: l :: ks, _ =>
    rw [insertPath]
    split <;> exact Entries.insert_ne_nil _ _ _

theorem chain_singleton (d : τ) (k : κ) (v : LabelledTree κ τ α) :
    chain d [k] v = [(k, v)] := by
  rw [chain, insertPath, Entries.insert]

theorem chain_cons_cons (d : τ) (k l : κ) (ks : List κ) (v : LabelledTree κ τ α) :
    chain d (k :: l :: ks) v = [(k, node d (chain d (l :: ks) v))] := by
  simp [chain, insertPath, Entries.insert]

/-- A chain reads as its value at its own path. -/
theorem get_chain_append (d t : τ) {p : List κ} (hp : p ≠ []) (v : LabelledTree κ τ α)
    (r : List κ) : (node t (chain d p v)).get (p ++ r) = v.get r := by
  induction p generalizing t with
  | nil => exact absurd rfl hp
  | cons k ks ih =>
    cases ks with
    | nil =>
      rw [chain_singleton, List.singleton_append, get_node_cons, List.lookup_cons_self]
      rfl
    | cons l ks =>
      rw [chain_cons_cons, List.cons_append, get_node_cons, List.lookup_cons_self]
      exact ih d (by simp)

/-- Strictly above its value a chain holds tables. -/
theorem get_chain_of_prefix (d t : τ) {p q r : List κ} (v : LabelledTree κ τ α)
    (hp : p = q ++ r) (hr : r ≠ []) :
    ∃ s es, (node t (chain d p v)).get q = some (node s es) := by
  induction q generalizing t p with
  | nil => exact ⟨t, _, get_nil _⟩
  | cons k ks ih =>
    subst hp
    obtain ⟨l, ls, hl⟩ : ∃ l ls, ks ++ r = l :: ls := by
      cases h : ks ++ r with
      | nil => exact absurd (List.append_eq_nil_iff.1 h).2 hr
      | cons l ls => exact ⟨l, ls, rfl⟩
    rw [List.cons_append, hl, chain_cons_cons, get_node_cons, List.lookup_cons_self]
    exact ih d hl.symm

/-- Off its own path a chain holds nothing, and blocks nothing. -/
theorem get_chain_of_not_prefix (d t : τ) {p q : List κ} (hp : p ≠ [])
    (v : LabelledTree κ τ α) (hpq : ¬ p <+: q) (hqp : ¬ q <+: p) :
    (node t (chain d p v)).get q = none ∧ (node t (chain d p v)).blocks q = false := by
  induction q generalizing t p with
  | nil => exact absurd List.nil_prefix hqp
  | cons k ks ih =>
    obtain ⟨l, ls, rfl⟩ := List.exists_cons_of_ne_nil hp
    rw [get_node_cons, blocks_node_cons]
    by_cases hkl : k = l
    · subst hkl
      rw [List.cons_prefix_cons] at hpq hqp
      have hls : ls ≠ [] := by
        rintro rfl
        exact hpq ⟨rfl, List.nil_prefix⟩
      obtain ⟨m, ms, rfl⟩ := List.exists_cons_of_ne_nil hls
      rw [chain_cons_cons, List.lookup_cons_self]
      exact ih d (by simp) (fun h ↦ hpq ⟨rfl, h⟩) (fun h ↦ hqp ⟨rfl, h⟩)
    · have hnone : (chain d (l :: ls) v).lookup k = none := by
        cases ls with
        | nil => rw [chain_singleton, Entries.lookup_cons_eq, if_neg hkl]; rfl
        | cons m ms => rw [chain_cons_cons, Entries.lookup_cons_eq, if_neg hkl]; rfl
      simp [hnone]

/-- A chain blocks a path exactly where its value does. -/
theorem blocks_chain_append (d t : τ) {p : List κ} (hp : p ≠ []) (v : LabelledTree κ τ α)
    (r : List κ) : (node t (chain d p v)).blocks (p ++ r) = v.blocks r := by
  induction p generalizing t with
  | nil => exact absurd rfl hp
  | cons k ks ih =>
    cases ks with
    | nil =>
      rw [chain_singleton, List.singleton_append, blocks_node_cons, List.lookup_cons_self]
      rfl
    | cons l ks =>
      rw [chain_cons_cons, List.cons_append, blocks_node_cons, List.lookup_cons_self]
      exact ih d (by simp)

/-- **Filling a path, at or below it**: the chain's value lies over what the tree held. -/
theorem get_merge_chain_append (d t : τ) (a : LabelledTree κ τ α) {p : List κ} (hp : p ≠ [])
    (v : LabelledTree κ τ α) (r : List κ) :
    (a.merge (node t (chain d p v))).get (p ++ r) =
      match v.get r with
      | some w => some (mergeOver (a.get (p ++ r)) w)
      | none => if v.blocks r then none else a.get (p ++ r) := by
  have hmerge := get_merge a (node t (chain d p v)) (p ++ r)
  rw [get_chain_append d t hp, blocks_chain_append d t hp] at hmerge
  refine hmerge.trans ?_
  rcases v.get r with - | w
  · rfl
  · rfl

/-- **Filling a path, off it**: nothing changes. -/
theorem get_merge_chain_of_not_prefix (d t : τ) (a : LabelledTree κ τ α) {p q : List κ}
    (hp : p ≠ []) (v : LabelledTree κ τ α) (hpq : ¬ p <+: q) (hqp : ¬ q <+: p) :
    (a.merge (node t (chain d p v))).get q = a.get q := by
  obtain ⟨hget, hblocks⟩ := get_chain_of_not_prefix d t hp v hpq hqp
  simp [get_merge, hget, hblocks]

/-- **Filling a path, above it**: there is a table there now, whatever was there before. -/
theorem peekAt_merge_chain_of_prefix (d t : τ) (a : LabelledTree κ τ α) {p q r : List κ}
    (v : LabelledTree κ τ α) (hp : p = q ++ r) (hr : r ≠ []) :
    (a.merge (node t (chain d p v))).peekAt q = some none := by
  obtain ⟨s, es, h⟩ := get_chain_of_prefix d t v hp hr
  simp [peekAt, get_merge, h]

/-- Relabelling a chain relabels its tables and its value. -/
theorem mapTagEntries_chain (g : τ → τ) (d : τ) (p : List κ) (v : LabelledTree κ τ α) :
    mapTagEntries g (chain d p v) = chain (g d) p (v.mapTag g) := by
  induction p with
  | nil => rw [chain, chain, insertPath, insertPath, mapTagEntries]
  | cons k ks ih =>
    cases ks with
    | nil => rw [chain_singleton, chain_singleton, mapTagEntries, mapTagEntries]
    | cons l ks =>
      rw [chain_cons_cons, chain_cons_cons, mapTagEntries, mapTagEntries, mapTag, ih]

/-! ### Removing -/

/-- Drop whatever is at a path of a table. A path that leads nowhere drops nothing. -/
def erasePath (es : List (κ × LabelledTree κ τ α)) : List κ → List (κ × LabelledTree κ τ α)
  | [] => es
  | [k] => Entries.erase k es
  | k :: l :: ks =>
    match es.lookup k with
    | some (node t sub) => Entries.insert k (node t (erasePath sub (l :: ks))) es
    | _ => es

/-- **What is removed.** Nothing is left at or below the path. -/
theorem get_erasePath_append (t : τ) (es : List (κ × LabelledTree κ τ α)) {p : List κ}
    (hp : p ≠ []) (r : List κ) : (node t (erasePath es p)).get (p ++ r) = none := by
  induction p generalizing t es with
  | nil => exact absurd rfl hp
  | cons k ks ih =>
    cases ks with
    | nil =>
      rw [erasePath, List.singleton_append, get_node_cons, Entries.lookup_erase_self]
      rfl
    | cons l ks =>
      rw [erasePath, List.cons_append, get_node_cons]
      split
      · next s sub _ =>
        rw [Entries.lookup_insert_self]
        exact ih s sub (by simp)
      · next hno =>
        cases hk : es.lookup k with
        | none => rfl
        | some c =>
          cases c with
          | leaf s v => rfl
          | node s sub => exact absurd hk (hno s sub)

/-- **What is kept.** Every path not at or below the removed one shows what it showed. -/
theorem peekAt_erasePath (t : τ) (es : List (κ × LabelledTree κ τ α)) {p q : List κ}
    (hpq : ¬ p <+: q) : (node t (erasePath es p)).peekAt q = (node t es).peekAt q := by
  induction p generalizing t es q with
  | nil => exact absurd List.nil_prefix hpq
  | cons k ks ih =>
    cases q with
    | nil => simp [peekAt]
    | cons m ms =>
      rw [peekAt, peekAt, get_node_cons, get_node_cons]
      by_cases hmk : m = k
      · subst hmk
        have hks : ¬ ks <+: ms := fun h ↦ hpq (List.cons_prefix_cons.2 ⟨rfl, h⟩)
        cases ks with
        | nil => exact absurd List.nil_prefix hks
        | cons l ks =>
          rw [erasePath]
          split
          · next s sub hlook =>
            rw [Entries.lookup_insert_self, hlook]
            exact ih s sub hks
          · rfl
      · cases ks with
        | nil => rw [erasePath, Entries.lookup_erase_of_ne hmk]
        | cons l ks =>
          rw [erasePath]
          split
          · rw [Entries.lookup_insert_of_ne hmk]
          · rfl

/-- Drop several paths, one after the other. -/
def erasePaths (es : List (κ × LabelledTree κ τ α)) (ps : List (List κ)) :
    List (κ × LabelledTree κ τ α) :=
  ps.foldl erasePath es

theorem peekAt_erasePaths (t : τ) (es : List (κ × LabelledTree κ τ α)) {ps : List (List κ)}
    {q : List κ} (h : ∀ p ∈ ps, ¬ p <+: q) :
    (node t (erasePaths es ps)).peekAt q = (node t es).peekAt q := by
  induction ps generalizing es with
  | nil => rfl
  | cons p ps ih =>
    have hps : ∀ p' ∈ ps, ¬ p' <+: q := fun p' hp' ↦ h p' (List.mem_cons_of_mem p hp')
    rw [erasePaths, List.foldl_cons]
    exact (ih (erasePath es p) hps).trans (peekAt_erasePath t es (h p List.mem_cons_self))

/-- A path that shows nothing goes on showing nothing. -/
theorem peekAt_erasePath_eq_none (t : τ) (es : List (κ × LabelledTree κ τ α)) (p : List κ)
    {q : List κ} (h : (node t es).peekAt q = none) (hp : p ≠ []) :
    (node t (erasePath es p)).peekAt q = none := by
  by_cases hpq : p <+: q
  · obtain ⟨r, rfl⟩ := hpq
    rw [peekAt, get_erasePath_append t es hp, Option.map_none]
  · rw [peekAt_erasePath t es hpq, h]

/-- And goes on so under several removals. -/
theorem peekAt_erasePaths_eq_none_of_none (t : τ) (es : List (κ × LabelledTree κ τ α))
    {ps : List (List κ)} (hne : ∀ p ∈ ps, p ≠ []) {q : List κ}
    (h : (node t es).peekAt q = none) : (node t (erasePaths es ps)).peekAt q = none := by
  induction ps generalizing es with
  | nil => exact h
  | cons p ps ih =>
    rw [erasePaths, List.foldl_cons]
    exact ih (erasePath es p) (fun p' hp' ↦ hne p' (List.mem_cons_of_mem p hp'))
      (peekAt_erasePath_eq_none t es p h (hne p List.mem_cons_self))

/-- **What several removals remove.** Nothing is left at or below any of the paths. -/
theorem peekAt_erasePaths_eq_none (t : τ) (es : List (κ × LabelledTree κ τ α))
    {ps : List (List κ)} (hne : ∀ p ∈ ps, p ≠ []) {p q : List κ} (hp : p ∈ ps) (hpq : p <+: q) :
    (node t (erasePaths es ps)).peekAt q = none := by
  induction ps generalizing es with
  | nil => exact absurd hp List.not_mem_nil
  | cons p' ps ih =>
    have hne' : ∀ p ∈ ps, p ≠ [] := fun p h ↦ hne p (List.mem_cons_of_mem p' h)
    rw [erasePaths, List.foldl_cons]
    rcases List.mem_cons.1 hp with rfl | hmem
    · obtain ⟨r, rfl⟩ := hpq
      have hgone : (node t (erasePath es p)).peekAt (p ++ r) = none := by
        rw [peekAt, get_erasePath_append t es (hne p List.mem_cons_self), Option.map_none]
      exact peekAt_erasePaths_eq_none_of_none t (erasePath es p) hne' hgone
    · exact ih (erasePath es p') hne' hmem

end LabelledTree
