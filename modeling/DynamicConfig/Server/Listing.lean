import DynamicConfig.Cache.Drift
import DynamicConfig.Server.Document
import DynamicConfig.Server.Endpoints
import DynamicConfig.Stores.Prefix

/-!
# Three listings of leaves

The dotted paths of a configuration are listed in three places: of a snapshot, over figment's tree; of
a value, over what the snapshot converts to; and of a served document, over the JSON it is read as. Two
of the walks keep the keys on a stack and join them at a leaf, the third keeps the joined text and cuts
it back.

`collect_json` and `leavesAt_fromFigment` are that each of the others lists what the snapshot does. What
a listed path leads to is `exists_walk_iff_leafAt`, where `Value::get` splits the path into the keys it
was joined from.
-/

namespace DynamicConfig

open Documents (getAt walk)

/-! ### The listing of a value -/

mutual

/-- The dotted paths of the leaves under a value that sits at a path: `leaves`. -/
def leavesAt (path : List String) : Value → List String
  | .table (e :: es) => leavesAtIn path (e :: es)
  | .table [] | .array _ | .scalar _ => [joined path]

/-- The leaves of the entries of a table. -/
def leavesAtIn (path : List String) : List (String × Value) → List String
  | [] => []
  | (key, nested) :: es => leavesAt (path ++ [key]) nested ++ leavesAtIn path es

end

/-- `Value::leaf_paths`. -/
def Value.leafPaths : Value → List String
  | .table entries => leavesAtIn [] entries
  | .array _ | .scalar _ => []

/-- What a listing names: no table, or a table with nothing in it. -/
def Value.isLeaf : Value → Bool
  | .table (_ :: _) => false
  | .table [] | .array _ | .scalar _ => true

/-- A resolved section: its tables are maps in the order of their keys. -/
structure ResolvedTree where
  values : Dict
  ordered : values.root.Ordered

namespace ResolvedTree

/-- The section as a snapshot. -/
def snapshot (t : ResolvedTree) : SnapshotTree := ⟨t.values, t.ordered.distinct⟩

/-- No key is empty, and none has a dot in it. -/
def Named (t : ResolvedTree) : Prop :=
  ∀ p, t.values.root.peekAt p ≠ none → ∀ k ∈ p, k ≠ "" ∧ '.' ∉ k.toList

theorem Named.undotted {t : ResolvedTree} (h : t.Named) : t.snapshot.Undotted :=
  fun p hp k hk ↦ (h p hp k hk).2

end ResolvedTree

/-! ### Joining keys -/

theorem joined_singleton (key : String) : joined [key] = key := by
  rw [joined, List.map_singleton, List.intercalate_singleton, String.ofList_toList]

/-- One key more is one dot more. -/
theorem joined_append_singleton {path : List String} (h : path ≠ []) (key : String) :
    joined (path ++ [key]) = joined path ++ "." ++ key := by
  have hchars (xs : List (List Char)) (y : List Char) (hxs : xs ≠ []) :
      ['.'].intercalate (xs ++ [y]) = ['.'].intercalate xs ++ '.' :: y := by
    induction xs with
    | nil => exact absurd rfl hxs
    | cons x xs ih =>
      rcases xs with - | ⟨z, xs⟩
      · rw [List.singleton_append, List.intercalate_cons_cons, List.intercalate_singleton,
          List.intercalate_singleton, List.append_assoc]
        rfl
      · rw [List.cons_append, List.cons_append, List.intercalate_cons_cons,
          List.intercalate_cons_cons, ← List.cons_append, ih (List.cons_ne_nil z xs)]
        simp only [List.append_assoc]
  refine String.toList_injective ?_
  rw [joined, joined, List.map_append, List.map_singleton, hchars _ _ (by simpa using h),
    String.toList_ofList, String.toList_append, String.toList_append, String.toList_ofList,
    List.append_assoc]
  rfl

/-! ### The walks agree -/

mutual

/-- A value lists what the tree it was converted from lists. -/
theorem leavesAt_fromFigment (path : List String) (node : Node) :
    leavesAt path node.fromFigment = leavesOf path node := by
  match node with
  | .leaf _ (.scalar s) => rfl
  | .leaf _ (.array items) => rfl
  | .node _ [] => rfl
  | .node _ (e :: es) =>
    rw [leavesOf, ← leavesAtIn_fromFigment path (e :: es)]
    rfl

theorem leavesAtIn_fromFigment (path : List String) (values : Dict) :
    leavesAtIn path values.fromFigment = leavesIn path values := by
  match values with
  | [] => rfl
  | (key, value) :: values =>
    rw [Dict.fromFigment, leavesAtIn, leavesIn, leavesAt_fromFigment,
      leavesAtIn_fromFigment path values]

end

section Served

open Server (json jsonEntries readDocument valuesOf collect collectIn entered_of_lt)

variable {refused : Int → FigmentError}

mutual

/-- A document lists what the tree it was read from lists, below any key. -/
theorem collect_json {node : Node} {w : Value} (hordered : node.Ordered)
    (h : json refused (Server.Node.value node) = .ok w) {path : List String} (hpath : path ≠ []) :
    collect (joined path) w = leavesOf path node := by
  match node with
  | .leaf _ (.scalar s) =>
    obtain ⟨s', -, rfl⟩ := Server.exists_of_map_eq_ok h
    rfl
  | .leaf _ (.array items) =>
    obtain ⟨items', -, rfl⟩ := Server.exists_of_map_eq_ok h
    rfl
  | .node _ [] =>
    obtain rfl := Except.ok.inj h
    rfl
  | .node _ (e :: es) =>
    obtain ⟨ws, hws, rfl⟩ := Server.exists_of_map_eq_ok h
    have hchild : ∀ e' ∈ e :: es, e'.2.Ordered := fun e' he' ↦
      hordered.child (Entries.lookup_of_mem hordered.nodup he')
    obtain ⟨hkeys, hlist⟩ := collectIn_json hordered.keys hchild hws
    obtain ⟨w, ws, rfl⟩ : ∃ w ws', ws = w :: ws' := by
      rcases ws with - | ⟨w, ws⟩
      · exact absurd hkeys.symm (List.cons_ne_nil _ _)
      · exact ⟨w, ws, rfl⟩
    exact hlist path hpath

/-- The keys are read in the order they come in, so the entries stay as they were. -/
theorem collectIn_json {values : Dict} {ws : List (String × Value)}
    (hkeys : (values.map Prod.fst).Pairwise (· < ·)) (hordered : ∀ e ∈ values, e.2.Ordered)
    (h : jsonEntries refused (valuesOf values) = .ok ws) :
    ws.map Prod.fst = values.map Prod.fst ∧
      ∀ path, path ≠ [] → collectIn (joined path) ws = leavesIn path values := by
  match values with
  | [] =>
    obtain rfl := Except.ok.inj h
    exact ⟨rfl, fun _ _ ↦ rfl⟩
  | (key, value) :: values =>
    obtain ⟨w, hw, h⟩ := exists_of_bind_eq_ok h
    obtain ⟨ws', hws, h⟩ := exists_of_bind_eq_ok h
    rw [List.map_cons, List.pairwise_cons] at hkeys
    obtain ⟨hvalue, hrest⟩ := List.forall_mem_cons.1 hordered
    obtain ⟨hsame, hlist⟩ := collectIn_json hkeys.2 hrest hws
    obtain rfl : (key, w) :: ws' = ws := by
      rw [← Except.ok.inj h, entered_of_lt (hsame ▸ hkeys.1)]
    refine ⟨by rw [List.map_cons, List.map_cons, hsame], fun path hpath ↦ ?_⟩
    rw [collectIn, leavesIn, hlist path hpath, ← joined_append_singleton hpath,
      collect_json hvalue hw (List.append_ne_nil_of_left_ne_nil hpath [key])]

end

/-- At the root there is no key to join to. -/
theorem flatMap_collect_json {values : Dict} {ws : List (String × Value)}
    (hkeys : (values.map Prod.fst).Pairwise (· < ·)) (hordered : ∀ e ∈ values, e.2.Ordered)
    (h : jsonEntries refused (valuesOf values) = .ok ws) :
    (ws.flatMap fun e ↦ collect e.1 e.2) = leavesIn [] values := by
  induction values generalizing ws with
  | nil =>
    obtain rfl := Except.ok.inj h
    rfl
  | cons e values ih =>
    obtain ⟨key, value⟩ := e
    obtain ⟨w, hw, h⟩ := exists_of_bind_eq_ok h
    obtain ⟨ws', hws, h⟩ := exists_of_bind_eq_ok h
    rw [List.map_cons, List.pairwise_cons] at hkeys
    obtain ⟨hvalue, hrest⟩ := List.forall_mem_cons.1 hordered
    have hsame := (collectIn_json hkeys.2 hrest hws).1
    obtain rfl : (key, w) :: ws' = ws := by
      rw [← Except.ok.inj h, entered_of_lt (hsame ▸ hkeys.1)]
    have hone := collect_json hvalue hw (List.cons_ne_nil key [])
    rw [joined_singleton] at hone
    rw [List.flatMap_cons, ih hkeys.2 hrest hws, leavesIn]
    exact congrArg (· ++ leavesIn [] values) hone

/-- **A served document lists what the snapshot lists.** -/
theorem leafPaths_readDocument (t : ResolvedTree) {document : Server.Document}
    (h : readDocument refused t.values = .ok document) :
    Server.leafPaths document = leafPaths t.values := by
  obtain ⟨ws, hws, rfl⟩ := Server.exists_of_map_eq_ok h
  exact flatMap_collect_json t.ordered.keys
    (fun e he ↦ t.ordered.child (Entries.lookup_of_mem t.ordered.nodup he)) hws

end Served

/-! ### What a listed path leads to -/

theorem lookup_fromFigment (values : Dict) (key : String) :
    values.fromFigment.lookup key = (values.lookup key).map Node.fromFigment := by
  rw [Dict.fromFigment_eq_mapValues, Entries.lookup_mapValues]

/-- The steps down a value come to a leaf just where the tree has one. -/
theorem exists_walk_iff_leafAt {node : Node} {p : List String} :
    (∃ v, walk node.fromFigment p = some v ∧ v.isLeaf = true) ↔ LabelledTree.LeafAt node p := by
  induction p generalizing node with
  | nil =>
    rcases node with ⟨tag, s | items⟩ | ⟨tag, - | ⟨e, es⟩⟩
    · exact iff_of_true ⟨_, rfl, rfl⟩ ((LabelledTree.leafAt_leaf _ _).2 rfl)
    · exact iff_of_true ⟨_, rfl, rfl⟩ ((LabelledTree.leafAt_leaf _ _).2 rfl)
    · exact iff_of_true ⟨_, rfl, rfl⟩ ((LabelledTree.leafAt_node_nil _).2 rfl)
    · refine iff_of_false ?_ LabelledTree.not_leafAt_nil
      rintro ⟨v, hv, hleaf⟩
      obtain rfl : Node.fromFigment (.node tag (e :: es)) = v := Option.some.inj hv
      exact Bool.false_ne_true hleaf
  | cons k ks ih =>
    rcases node with ⟨tag, s | items⟩ | ⟨tag, entries⟩
    · refine iff_of_false ?_ fun h ↦ List.cons_ne_nil k ks ((LabelledTree.leafAt_leaf _ _).1 h)
      rintro ⟨v, hv, -⟩
      exact Option.some_ne_none v hv.symm
    · refine iff_of_false ?_ fun h ↦ List.cons_ne_nil k ks ((LabelledTree.leafAt_leaf _ _).1 h)
      rintro ⟨v, hv, -⟩
      exact Option.some_ne_none v hv.symm
    · rw [LabelledTree.leafAt_node_cons, Node.fromFigment, walk, lookup_fromFigment]
      rcases hchild : entries.lookup k with - | child
      · refine iff_of_false ?_ ?_
        · rintro ⟨v, hv, -⟩
          exact Option.some_ne_none v hv.symm
        · rintro ⟨c, hc, -⟩
          exact Option.some_ne_none c hc.symm
      · show (∃ v, walk (Node.fromFigment child) ks = some v ∧ v.isLeaf = true) ↔ _
        rw [ih]
        refine ⟨fun h ↦ ⟨child, rfl, h⟩, ?_⟩
        rintro ⟨c, hc, h⟩
        exact Option.some.inj hc ▸ h

namespace ResolvedTree

variable {t : ResolvedTree} {path : String}

/-- A path that is not empty is listed where it leads to a leaf. -/
theorem mem_leafPaths_of_getAt (hpath : path ≠ "") {v : Value}
    (hget : getAt t.values.toValue path = some v) (hleaf : v.isLeaf = true) :
    path ∈ leafPaths t.values := by
  rw [getAt, if_neg hpath] at hget
  refine (SnapshotTree.mem_leafPaths (a := t.snapshot)).2
    ⟨segments path, segments_ne_nil path, joined_segments path, ?_⟩
  exact exists_walk_iff_leafAt.1 ⟨v, hget, hleaf⟩

/-- Without dots and empty keys a listed path leads back to the leaf it was joined for. -/
theorem exists_getAt_of_mem (hnamed : t.Named) (hmem : path ∈ leafPaths t.values) :
    ∃ v, getAt t.values.toValue path = some v ∧ v.isLeaf = true := by
  obtain ⟨p, hne, rfl, hleaf⟩ := (SnapshotTree.mem_leafPaths (a := t.snapshot)).1 hmem
  have hkeys := hnamed p hleaf.1
  have hsegments : segments (joined p) = p := segments_joined hne fun k hk ↦ (hkeys k hk).2
  have hjoined : joined p ≠ "" := by
    intro hempty
    rw [hempty] at hsegments
    have hfirst : "" ∈ p := hsegments ▸ List.mem_singleton_self ""
    exact (hkeys "" hfirst).1 rfl
  rw [getAt, if_neg hjoined, hsegments]
  exact exists_walk_iff_leafAt.2 hleaf

end ResolvedTree

/-- **The three listings of a resolved section are one list**, and without dots and empty keys it names
every value below the root that is no table or an empty one, each once. -/
theorem leafPaths_agree (refused : Int → FigmentError) (t : ResolvedTree) :
    (∀ document, Server.readDocument refused t.values = .ok document →
        Server.leafPaths document = leafPaths t.values) ∧
      t.values.toValue.leafPaths = leafPaths t.values ∧
      (t.Named →
        (leafPaths t.values).Nodup ∧
          (∀ path ∈ leafPaths t.values,
            ∃ v, getAt t.values.toValue path = some v ∧ v.isLeaf = true) ∧
          ∀ path v, path ≠ "" → getAt t.values.toValue path = some v → v.isLeaf = true →
            path ∈ leafPaths t.values) := by
  refine ⟨fun document hread ↦ leafPaths_readDocument t hread, leavesAtIn_fromFigment [] t.values,
    fun hnamed ↦ ⟨hnamed.undotted.nodup_leafPaths, fun path hmem ↦ ?_, fun path v hpath hget ↦ ?_⟩⟩
  · exact ResolvedTree.exists_getAt_of_mem hnamed hmem
  · exact ResolvedTree.mem_leafPaths_of_getAt hpath hget

/-! ### The root of an empty section -/

/-- A section with nothing in it. -/
def emptySection : ResolvedTree where
  values := []
  ordered := LabelledTree.ordered_node List.Pairwise.nil fun _ h ↦ absurd h List.not_mem_nil

theorem named_emptySection : emptySection.Named := by
  intro p hp k hk
  rcases p with - | ⟨l, p⟩
  · exact absurd hk List.not_mem_nil
  · exact absurd rfl hp

/-- The empty path leads to the section itself, which is an empty table and is not listed. -/
theorem not_leafPaths_agree_emptySection :
    ¬ ∀ t : ResolvedTree, t.Named →
      ∀ path v, getAt t.values.toValue path = some v → v.isLeaf = true → path ∈ leafPaths t.values :=
  fun h ↦ absurd (h emptySection named_emptySection "" (.table []) rfl rfl) List.not_mem_nil

/-- A section with a host, and a pool that nothing is set of. -/
def sampleSection : ResolvedTree where
  values := [("host", Node.text "db"), ("pool", .node none [])]
  ordered := by
    refine LabelledTree.ordered_node (by decide) fun e he ↦ ?_
    rcases List.mem_cons.1 he with rfl | he
    · exact LabelledTree.ordered_leaf _ _
    · obtain rfl := List.mem_singleton.1 he
      exact LabelledTree.ordered_node List.Pairwise.nil fun _ h ↦ absurd h List.not_mem_nil

theorem named_sampleSection : sampleSection.Named := by
  intro p hp k hk
  rcases p with - | ⟨l, p⟩
  · exact absurd hk List.not_mem_nil
  · by_cases hhost : l = "host"
    · subst hhost
      rcases p with - | ⟨m, p⟩
      · rw [List.mem_singleton.1 hk]
        decide
      · exact absurd rfl hp
    · by_cases hpool : l = "pool"
      · subst hpool
        rcases p with - | ⟨m, p⟩
        · rw [List.mem_singleton.1 hk]
          decide
        · exact absurd rfl hp
      · -- Nothing else is set.
        have hnone : sampleSection.values.lookup l = none := by
          show List.lookup l [("host", Node.text "db"), ("pool", .node none [])] = none
          rw [List.lookup_cons, List.lookup_cons, beq_false_of_ne hhost, beq_false_of_ne hpool]
          rfl
        rw [Dict.root, LabelledTree.peekAt_node_cons, hnone] at hp
        exact absurd rfl hp

/-- An integer serde_json has no room for. -/
def outOfRange (_whole : Int) : FigmentError := { kind := .message "JSON number out of range" }

theorem leafPaths_agree_sampleSection :
    Server.leafPaths (.table [("host", .scalar (.string "db")), ("pool", .table [])]) =
        leafPaths sampleSection.values ∧
      sampleSection.Named ∧ (leafPaths sampleSection.values).Nodup ∧
        (∀ path ∈ leafPaths sampleSection.values,
          ∃ v, getAt sampleSection.values.toValue path = some v ∧ v.isLeaf = true) ∧
        ∀ path v, path ≠ "" → getAt sampleSection.values.toValue path = some v → v.isLeaf = true →
          path ∈ leafPaths sampleSection.values :=
  ⟨(leafPaths_agree outOfRange sampleSection).1 _ rfl, named_sampleSection,
    (leafPaths_agree outOfRange sampleSection).2.2 named_sampleSection⟩

end DynamicConfig
