import DynamicConfig.Values.Diff

/-!
# Hooks for some paths

`on_change` puts a filter before a reload hook: it runs where one of the changes between the two models
is at a watched path, or under one. The changes are those `changed_paths` lists, and a table that was
added, removed or exchanged for something else is listed once, at the table.

So nothing runs that nothing has moved for (`moves_of_touches`), but a hook that watches a path inside of
a table is not told that the whole table is gone. It runs exactly when it should except where everything
that moved at the watched paths is under such a table (`runsRight_iff`). A hook that watches names at the
top never misses anything (`runsRight_of_names`).
-/

namespace DynamicConfig.OnChange

open LabelledTree (DiffersFrom TablesAbove changes)

/-! ### The filter -/

/-- `_touches`: whether any changed path is one of the wanted, or sits under one. -/
def touches (wanted : List String) (moved : List Change) : Bool :=
  moved.any fun change ↦
    wanted.contains change.path ||
      wanted.any fun name ↦ decide ((name ++ ".").toList <+: change.path.toList)

/-- Whether the filtered hook runs the one it was given. The first install has no previous model. -/
def runs (wanted : List String) (previous : Option SnapshotTree) (current : SnapshotTree) : Bool :=
  match previous with
  | some previous => touches wanted (previous.diff current)
  | none => true

/-- Whether a position is at one of the watched paths or below it, as paths are written. -/
def Watches (wanted : List String) (p : List String) : Prop :=
  ∃ name ∈ wanted, segments name <+: segments (joined p)

/-- Two models differ at a watched path, or at something below it. -/
def Moves (wanted : List String) (previous current : SnapshotTree) : Prop :=
  ∃ p, Watches wanted p ∧ ¬ previous.values.EqualAt current.values p

/-- The hook runs exactly when they do. -/
def RunsRight (wanted : List String) (previous current : SnapshotTree) : Prop :=
  runs wanted (some previous) current = true ↔ Moves wanted previous current

/-- Something has moved, but wherever it has, it has because one of the two models has no table
above. -/
def Hidden (wanted : List String) (previous current : SnapshotTree) : Prop :=
  Moves wanted previous current ∧
    ∀ p, Watches wanted p → ¬ previous.values.EqualAt current.values p →
      ¬ TablesAbove previous.values.root current.values.root p

/-! ### What is found -/

variable {wanted : List String} {previous current : SnapshotTree}

/-- A text that is a name, or starts with it and a dot, has the name's segments in front. -/
theorem touches_iff {moved : List Change} :
    touches wanted moved = true ↔
      ∃ change ∈ moved, ∃ name ∈ wanted, segments name <+: segments change.path := by
  have hname : ∀ {name path : String},
      segments name <+: segments path ↔ name = path ∨ (name ++ ".").toList <+: path.toList := by
    intro name path
    rw [segments_prefix_iff]
    refine or_congr_right ⟨?_, ?_⟩
    · rintro ⟨rest, rfl⟩
      have htext : (name ++ "." ++ rest).toList = (name ++ ".").toList ++ rest.toList :=
        String.toList_append
      rw [htext]
      exact List.prefix_append _ _
    · rintro ⟨rest, hrest⟩
      refine ⟨String.ofList rest, String.toList_inj.1 ?_⟩
      have htext : (name ++ "." ++ String.ofList rest).toList = (name ++ ".").toList ++ rest := by
        rw [String.toList_append, String.toList_ofList]
      rw [htext, hrest]
  rw [touches, List.any_eq_true]
  refine exists_congr fun change ↦ and_congr_right fun _ ↦ ?_
  rw [Bool.or_eq_true, List.contains_iff_mem, List.any_eq_true]
  constructor
  · rintro (hmem | ⟨name, hmem, hbegins⟩)
    · exact ⟨change.path, hmem, List.prefix_rfl⟩
    · exact ⟨name, hmem, hname.2 (Or.inr (of_decide_eq_true hbegins))⟩
  · rintro ⟨name, hmem, hsegments⟩
    rcases hname.1 hsegments with rfl | hbegins
    · exact Or.inl hmem
    · exact Or.inr ⟨name, hmem, decide_eq_true hbegins⟩

/-- **The hook runs where a difference starts at a watched path or below it.** -/
theorem runs_iff :
    runs wanted (some previous) current = true ↔
      ∃ p, Watches wanted p ∧ DiffersFrom sameLeaf previous.values.root current.values.root p := by
  rw [runs, touches_iff]
  constructor
  · rintro ⟨change, hmem, name, hname, hsegments⟩
    obtain ⟨⟨p, kind⟩, hchange, rfl⟩ := SnapshotTree.exists_of_mem_diff hmem
    exact ⟨p, ⟨name, hname, hsegments⟩, ((LabelledTree.mem_changes previous.distinct).1 hchange).1⟩
  · rintro ⟨p, ⟨name, hname, hsegments⟩, hdiffers⟩
    have hchange := (LabelledTree.mem_changes previous.distinct).2 ⟨hdiffers, rfl⟩
    have hmem := (perm_diff previous.values current.values).mem_iff.2 (List.mem_map_of_mem hchange)
    exact ⟨_, hmem, name, hname, hsegments⟩

/-- Nothing runs without a move. -/
theorem moves_of_touches (h : runs wanted (some previous) current = true) :
    Moves wanted previous current := by
  obtain ⟨p, hwatches, -, hdiffers⟩ := runs_iff.1 h
  exact ⟨p, hwatches, hdiffers⟩

/-- **The hook runs exactly when it should**, unless all that moved is hidden under a table that one of
the models does not have. -/
theorem runsRight_iff (wanted : List String) (previous current : SnapshotTree) :
    RunsRight wanted previous current ↔ ¬ Hidden wanted previous current := by
  constructor
  · rintro hright ⟨hmoves, hhidden⟩
    obtain ⟨p, hwatches, htables, hdiffers⟩ := runs_iff.1 (hright.2 hmoves)
    exact hhidden p hwatches hdiffers htables
  · intro hshown
    refine ⟨moves_of_touches, fun hmoves ↦ runs_iff.2 ?_⟩
    by_contra hnone
    refine hshown ⟨hmoves, fun p hwatches hdiffers htables ↦ hnone ?_⟩
    exact ⟨p, hwatches, htables, hdiffers⟩

/-- One setting of a pool, and then no pool. -/
def pooled : SnapshotTree where
  values := [("pool", .node none [("max_size", Node.scalar (.int 8))])]
  distinct := by
    have hinner : (LabelledTree.node none [("max_size", Node.scalar (.int 8))] : Node).Distinct := by
      refine LabelledTree.distinct_node (List.pairwise_singleton _ _) fun k child hchild ↦ ?_
      obtain ⟨-, rfl⟩ := Prod.mk.inj (List.mem_singleton.1 (Entries.mem_of_lookup hchild))
      exact LabelledTree.distinct_leaf _ _
    refine LabelledTree.distinct_node (List.pairwise_singleton _ _) fun k child hchild ↦ ?_
    obtain ⟨-, rfl⟩ := Prod.mk.inj (List.mem_singleton.1 (Entries.mem_of_lookup hchild))
    exact hinner

def unpooled : SnapshotTree where
  values := []
  distinct := LabelledTree.distinct_node List.nodup_nil fun _ _ h ↦ (by cases h)

/-- The hook for the size of the pool is not told that the pool is gone. -/
theorem not_runsRight_unpooled : ¬ RunsRight ["pool.max_size"] pooled unpooled := by
  intro hright
  have hname : segments "pool.max_size" = ["pool", "max_size"] := by
    refine (segments_append_dot "pool" "max_size").trans ?_
    have hpool : segments "pool" = ["pool"] := segments_eq_singleton (by decide)
    have hsize : segments "max_size" = ["max_size"] := segments_eq_singleton (by decide)
    rw [hpool, hsize, List.singleton_append]
  have hjoined : segments (joined ["pool", "max_size"]) = ["pool", "max_size"] :=
    segments_joined (by decide) (by decide)
  have hmoves : Moves ["pool.max_size"] pooled unpooled := by
    refine ⟨["pool", "max_size"], ⟨_, List.mem_cons_self, ?_⟩, id⟩
    rw [hname, hjoined]
  obtain ⟨p, ⟨name, hmem, hbegins⟩, hdiffers⟩ := runs_iff.1 (hright.2 hmoves)
  have hchange := (LabelledTree.mem_changes pooled.distinct).2 ⟨hdiffers, rfl⟩
  -- The one change that is listed is at the table.
  obtain ⟨rfl, -⟩ : p = ["pool"] ∧ _ := Prod.mk.inj (List.mem_singleton.1 hchange)
  obtain rfl := List.mem_singleton.1 hmem
  have hpool : segments (joined ["pool"]) = ["pool"] := segments_joined (by decide) (by decide)
  rw [hname, hpool] at hbegins
  exact absurd hbegins (by decide)

/-! ### Models without dots in their keys -/

/-- Where no key has a dot, to be watched is to be at a watched path or below. -/
theorem watches_iff {p : List String} (hne : p ≠ []) (hdots : ∀ k ∈ p, '.' ∉ k.toList) :
    Watches wanted p ↔ ∃ name ∈ wanted, segments name <+: p := by
  rw [Watches, segments_joined hne hdots]

theorem segments_of_differsFrom (ha : previous.Undotted) (hb : current.Undotted) {p : List String}
    (h : DiffersFrom sameLeaf previous.values.root current.values.root p) :
    segments (joined p) = p := by
  have hchange := (LabelledTree.mem_changes previous.distinct).2 ⟨h, rfl⟩
  have hsegments := SnapshotTree.segments_reported ha hb hchange
  rw [reported, List.nil_append] at hsegments
  exact hsegments

/-- **A table that is gone, or is one no more, tells no hook that watches only what was in it.** -/
theorem not_runs_of_below (ha : previous.Undotted) (hb : current.Undotted) {q : List String}
    (hq : DiffersFrom sameLeaf previous.values.root current.values.root q)
    (hbelow : ∀ name ∈ wanted, ∃ r, r ≠ [] ∧ segments name = q ++ r) :
    runs wanted (some previous) current = false := by
  rw [← Bool.not_eq_true, runs_iff]
  rintro ⟨p, ⟨name, hname, hbegins⟩, hdiffers⟩
  rw [segments_of_differsFrom ha hb hdiffers] at hbegins
  obtain ⟨r, hr, hsegments⟩ := hbelow name hname
  obtain ⟨s, rfl⟩ := hbegins
  rw [hsegments, List.append_assoc] at hdiffers
  exact hr (List.append_eq_nil_iff.1 (hq.eq_nil_of_append hdiffers)).1

/-- A hook that watches names at the top runs exactly when it should. -/
theorem runsRight_of_names (ha : previous.Undotted) (hb : current.Undotted)
    (hnames : ∀ name ∈ wanted, '.' ∉ name.toList) : RunsRight wanted previous current := by
  refine ⟨moves_of_touches, fun ⟨p, ⟨name, hname, hbegins⟩, hdiffers⟩ ↦ runs_iff.2 ?_⟩
  have hne : p ≠ [] := by
    rintro rfl
    exact hdiffers trivial
  have hdots : ∀ k ∈ p, '.' ∉ k.toList := by
    rcases hshown : previous.values.root.peekAt p with - | x
    · refine hb p fun hnone ↦ hdiffers ?_
      rw [Dict.EqualAt, hshown, hnone]
      trivial
    · exact ha p fun hnone ↦ Option.some_ne_none x (hshown.symm.trans hnone)
  rw [segments_joined hne hdots, segments_eq_singleton (hnames name hname)] at hbegins
  -- A difference starts at or above the one that was found, and it is not at the root.
  obtain ⟨q, hq, hstarts⟩ : ∃ q, q <+: p ∧
      DiffersFrom sameLeaf previous.values.root current.values.root q := by
    by_contra hnone
    refine hdiffers (LabelledTree.alike_of_not_differsFrom fun q hq hstarts ↦ hnone ⟨q, hq, hstarts⟩)
  refine ⟨q, ⟨name, hname, ?_⟩, hstarts⟩
  rw [segments_of_differsFrom ha hb hstarts, segments_eq_singleton (hnames name hname)]
  obtain ⟨k, ks, rfl⟩ : ∃ k ks, q = k :: ks :=
    List.exists_cons_of_ne_nil (by rintro rfl; exact hstarts.2 trivial)
  rcases p with - | ⟨l, ls⟩
  · exact absurd rfl hne
  · rw [List.cons_prefix_cons] at hq hbegins ⊢
    exact ⟨hbegins.1.trans hq.1.symm, List.nil_prefix⟩

end DynamicConfig.OnChange
