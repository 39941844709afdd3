import DynamicConfig.Loader.Build
import DynamicConfig.Stores.Documents
import DynamicConfig.Tree.Ordered

/-!
# Documents as values

`Value::parse` reads a text as a document and drops what figment knew of it, `Value::render` goes
back. In between the trees are the crate's own, and `Value::merge` lays one over another.

A value is read as the figment tree it is rendered from (`toFigment`), so that what two trees show
can be compared wherever they came from. Read that way, `Value::merge` is figment's merge
(`peekAt_toFigment_merge`), as long as no table has a key twice.
-/

namespace DynamicConfig

/-! ### Out of figment's tree -/

/-- The bits of `n as f64`, for an `n` of 128 bits: the upper 53 of them, rounded to even. -/
def wideFloat (n : Nat) : UInt64 :=
  let kept := n / 2 ^ 75
  let rest := n % 2 ^ 75
  let rounded := if 2 ^ 74 < rest ∨ rest = 2 ^ 74 ∧ kept % 2 = 1 then kept + 1 else kept
  UInt64.ofNat (1150 * 2 ^ 52 + (rounded - 2 ^ 52))

/-- A scalar, as `from_figment` takes it over. A character becomes a string, and an integer past
`i128::MAX` a float. -/
def Scalar.fromFigment : Scalar → Scalar
  | .char character => .string (String.singleton character)
  | .int whole => if 2 ^ 127 ≤ whole then .float (wideFloat whole.toNat) else .int whole
  | s => s

mutual

/-- A value inside an array, as `from_figment` takes it over. -/
def Value.fromFigment : Value → Value
  | .scalar s => .scalar s.fromFigment
  | .array items => .array (Value.fromFigmentItems items)
  | .table entries => .table (Value.fromFigmentTable entries)

def Value.fromFigmentItems : List Value → List Value
  | [] => []
  | item :: items => item.fromFigment :: Value.fromFigmentItems items

def Value.fromFigmentTable : List (String × Value) → List (String × Value)
  | [] => []
  | (key, value) :: entries => (key, value.fromFigment) :: Value.fromFigmentTable entries

end

/-- What is no table, as `from_figment` takes it over. -/
def Leaf.fromFigment : Leaf → Leaf
  | .scalar s => .scalar s.fromFigment
  | .array items => .array (Value.fromFigmentItems items)

/-- What is no table, as a value. -/
def Leaf.value : Leaf → Value
  | .scalar s => .scalar s
  | .array items => .array items

mutual

/-- `from_figment`: the walk from figment's tree, labels dropped. -/
def Node.fromFigment : Node → Value
  | .leaf _ leaf => leaf.fromFigment.value
  | .node _ entries => .table (Dict.fromFigment entries)

/-- The entries of a table. -/
def Dict.fromFigment : Dict → List (String × Value)
  | [] => []
  | (key, value) :: entries => (key, Node.fromFigment value) :: Dict.fromFigment entries

end

/-- `Snapshot::to_value`. -/
def Dict.toValue (values : Dict) : Value := .table values.fromFigment

mutual

/-- `to_figment`: the walk back. Nothing has supplied what it makes. -/
def Value.toFigment : Value → Node
  | .scalar s => .leaf none (.scalar s)
  | .array items => .leaf none (.array items)
  | .table entries => .node none (Value.toFigmentTable entries)

/-- The entries of a table. -/
def Value.toFigmentTable : List (String × Value) → Dict
  | [] => []
  | (key, value) :: entries => (key, value.toFigment) :: Value.toFigmentTable entries

end

/-! ### Texts -/

/-- `parse_document`: the whole of a text, which figment files under its default profile. -/
def parseDocument (host : Host) (text : String) (format : Format) : Except Error Dict :=
  match (host.textProvider format text).data with
  | .ok data => .ok ((data.lookup Profile.default).getD [])
  | .error e => .error (translate host.display e)

/-- `Value::parse`. -/
def Value.parse (host : Host) (text : String) (format : Format) : Except Error Value :=
  (parseDocument host text format).map Dict.toValue

/-- `write::render`, with the serializers of the formats. -/
def renderDocument (serializer : Format → Dict → Except Error String) (format : Format)
    (document : Dict) : Except Error String :=
  match format with
  | .json => (serializer .json document).map (· ++ "\n")
  | format => serializer format document

/-- `Value::render`: only a table can be a document. -/
def Value.render (serializer : Format → Dict → Except Error String) (value : Value)
    (format : Format) : Except Error String :=
  match value with
  | .table entries => renderDocument serializer format (Value.toFigmentTable entries)
  | _ => .error
    { kind := .type
      message := "only a table can be a document; this tree is a scalar or a list" }

/-! ### What a value shows -/

theorem Dict.fromFigment_eq_mapValues (entries : Dict) :
    entries.fromFigment = Entries.mapValues Node.fromFigment entries := by
  induction entries with
  | nil => rw [Dict.fromFigment]; rfl
  | cons e entries ih => rw [Dict.fromFigment, ih]; rfl

theorem Value.toFigmentTable_eq_mapValues (entries : List (String × Value)) :
    Value.toFigmentTable entries = Entries.mapValues Value.toFigment entries := by
  induction entries with
  | nil => rw [Value.toFigmentTable]; rfl
  | cons e entries ih => rw [Value.toFigmentTable, ih]; rfl

theorem lookup_toFigmentTable (entries : List (String × Value)) (k : String) :
    (Value.toFigmentTable entries).lookup k = (entries.lookup k).map Value.toFigment := by
  rw [Value.toFigmentTable_eq_mapValues, Entries.lookup_mapValues]

theorem toFigment_value (leaf : Leaf) : leaf.value.toFigment = .leaf none leaf := by
  rcases leaf with s | items
  · rw [Leaf.value, Value.toFigment]
  · rw [Leaf.value, Value.toFigment]

/-- A tree as the value it is taken over as. -/
def Node.taken (node : Node) : Node := (Node.fromFigment node).toFigment

theorem taken_leaf (tag : Option Metadata) (leaf : Leaf) :
    Node.taken (.leaf tag leaf) = .leaf none leaf.fromFigment := by
  rw [Node.taken, Node.fromFigment, toFigment_value]

theorem taken_node (tag : Option Metadata) (entries : Dict) :
    Node.taken (.node tag entries) = .node none (Entries.mapValues Node.taken entries) := by
  rw [Node.taken, Node.fromFigment, Value.toFigment, Value.toFigmentTable_eq_mapValues,
    Dict.fromFigment_eq_mapValues, Entries.mapValues, Entries.mapValues, List.map_map]
  rfl

theorem toFigment_toValue (values : Dict) : values.toValue.toFigment = Node.taken values.root := by
  rw [Node.taken, Dict.root, Node.fromFigment, Dict.toValue]

theorem peek_taken (node : Node) : (Node.taken node).peek = node.peek.map Leaf.fromFigment := by
  rcases node with ⟨tag, leaf⟩ | ⟨tag, entries⟩
  · rw [taken_leaf]
    rfl
  · rw [taken_node]
    rfl

/-- What is taken over is found where it was. -/
theorem get_taken (node : Node) (p : List String) :
    (Node.taken node).get p = (node.get p).map Node.taken := by
  induction p generalizing node with
  | nil => rw [LabelledTree.get_nil, LabelledTree.get_nil, Option.map_some]
  | cons k ks ih =>
    rcases node with ⟨tag, leaf⟩ | ⟨tag, entries⟩
    · rw [taken_leaf]
      rfl
    · rw [taken_node, LabelledTree.get_node_cons, LabelledTree.get_node_cons,
        Entries.lookup_mapValues]
      rcases entries.lookup k with - | child
      · rfl
      · exact ih child

/-- **There and back** a tree shows what it showed, its leaves taken over. -/
theorem peekAt_taken (node : Node) (p : List String) :
    (Node.taken node).peekAt p = (node.peekAt p).map fun shown ↦ shown.map Leaf.fromFigment := by
  rw [LabelledTree.peekAt, LabelledTree.peekAt, get_taken, Option.map_map, Option.map_map]
  congr 1
  funext c
  exact peek_taken c

/-- And the same paths are blocked. -/
theorem blocks_taken (node : Node) (p : List String) :
    (Node.taken node).blocks p = node.blocks p := by
  induction p generalizing node with
  | nil => rw [LabelledTree.blocks_nil, LabelledTree.blocks_nil]
  | cons k ks ih =>
    rcases node with ⟨tag, leaf⟩ | ⟨tag, entries⟩
    · rw [taken_leaf]
      rfl
    · rw [taken_node, LabelledTree.blocks_node_cons, LabelledTree.blocks_node_cons,
        Entries.lookup_mapValues]
      rcases entries.lookup k with - | child
      · rfl
      · exact congrArg (fun b ↦ (some b).getD false) (ih child)

theorem ordered_taken {node : Node} (h : node.Ordered) : (Node.taken node).Ordered := by
  intro p tag entries hget
  rw [get_taken] at hget
  obtain ⟨c, hc, htaken⟩ := Option.map_eq_some_iff.1 hget
  rcases c with ⟨tag', leaf⟩ | ⟨tag', sub⟩
  · rw [taken_leaf] at htaken
    cases htaken
  · rw [taken_node] at htaken
    obtain ⟨-, rfl⟩ := LabelledTree.node.inj htaken
    rw [Entries.mapValues, List.map_map]
    exact h p tag' sub hc

/-! ### The merge -/

/-- The lookups of a table laid over another: each key's value laid over what the key had. -/
theorem lookup_mergeAll {overlay : List (String × Value)} (hnodup : (overlay.map Prod.fst).Nodup)
    (base : List (String × Value)) (k : String) :
    (Value.mergeAll base overlay).lookup k =
      ((overlay.lookup k).map fun value ↦
        ((base.lookup k).map fun existing ↦ existing.merge value).getD value).or
          (base.lookup k) := by
  induction overlay generalizing base with
  | nil => rw [Value.mergeAll]; rfl
  | cons e overlay ih =>
    obtain ⟨l, value⟩ := e
    rw [List.map_cons, List.nodup_cons] at hnodup
    rw [Value.mergeAll, ih hnodup.2, Entries.lookup_insert, Entries.lookup_cons_eq]
    by_cases hk : k = l
    · subst hk
      have hnone : overlay.lookup k = none := Entries.lookup_eq_none_iff_not_mem.2 hnodup.1
      rw [hnone, if_pos rfl, if_pos rfl]
      rcases base.lookup k with - | existing
      · rfl
      · rfl
    · rw [if_neg hk, if_neg hk]

theorem Value.merge_scalar (base : Value) (s : Scalar) : base.merge (.scalar s) = .scalar s := by
  rcases base with t | items | entries <;> rw [Value.merge.eq_def]

theorem Value.merge_array (base : Value) (items : List Value) :
    base.merge (.array items) = .array items := by
  rcases base with t | others | entries <;> rw [Value.merge.eq_def]

theorem Value.scalar_merge (s : Scalar) (overlay : Value) :
    (Value.scalar s).merge overlay = overlay := by
  rw [Value.merge.eq_def]

theorem Value.array_merge (items : List Value) (overlay : Value) :
    (Value.array items).merge overlay = overlay := by
  rw [Value.merge.eq_def]

theorem nodup_of_distinct {entries : List (String × Value)}
    (h : (Value.table entries).toFigment.Distinct) : (entries.map Prod.fst).Nodup := by
  rw [Value.toFigment] at h
  have hkeys := h.nodup
  rw [Value.toFigmentTable_eq_mapValues, Entries.mapValues, List.map_map] at hkeys
  exact hkeys

/-- **`Value::merge` is figment's merge**, read as figment trees. -/
theorem peekAt_toFigment_merge {overlay : Value} (hdistinct : overlay.toFigment.Distinct)
    (base : Value) (p : List String) :
    (base.merge overlay).toFigment.peekAt p =
      (base.toFigment.merge overlay.toFigment).peekAt p := by
  induction p generalizing base overlay with
  | nil =>
    rw [LabelledTree.peekAt, LabelledTree.peekAt, LabelledTree.get_nil, LabelledTree.get_nil,
      Option.map_some, Option.map_some, LabelledTree.peek_merge]
    rcases overlay with s | items | overlay
    · rw [Value.merge_scalar]
    · rw [Value.merge_array]
    · rcases base with s | items | base
      · rw [Value.scalar_merge]
      · rw [Value.array_merge]
      · rw [Value.merge, Value.toFigment, Value.toFigment]
        rfl
  | cons k ks ih =>
    rcases overlay with s | items | overlay
    · rw [Value.merge_scalar, Value.toFigment, LabelledTree.merge_leaf_right]
    · rw [Value.merge_array, Value.toFigment, LabelledTree.merge_leaf_right]
    · rcases base with s | items | base
      · rw [Value.scalar_merge, Value.toFigment, LabelledTree.merge_leaf_left]
      · rw [Value.array_merge, Value.toFigment, LabelledTree.merge_leaf_left]
      · have hnodup := nodup_of_distinct hdistinct
        rw [Value.toFigment] at hdistinct
        rw [Value.merge, Value.toFigment, Value.toFigment, Value.toFigment,
          LabelledTree.merge_node_node, LabelledTree.peekAt, LabelledTree.peekAt,
          LabelledTree.get_node_cons, LabelledTree.get_node_cons,
          LabelledTree.lookup_mergeTables, lookup_toFigmentTable, lookup_toFigmentTable,
          lookup_toFigmentTable, lookup_mergeAll hnodup]
        rcases hover : overlay.lookup k with - | value
        · rcases base.lookup k with - | existing
          · rfl
          · rfl
        · rcases base.lookup k with - | existing
          · rfl
          · refine ih ?_ existing
            refine hdistinct.child (k := k) ?_
            rw [lookup_toFigmentTable, hover]
            rfl

theorem nodup_mergeAll {base overlay : List (String × Value)}
    (hbase : (base.map Prod.fst).Nodup) : ((Value.mergeAll base overlay).map Prod.fst).Nodup := by
  induction overlay generalizing base with
  | nil => rw [Value.mergeAll]; exact hbase
  | cons e overlay ih =>
    rw [Value.mergeAll]
    exact ih (Entries.nodup_insert hbase _ _)

/-- A merge has no key twice where its sides have none. -/
theorem distinct_toFigment_merge {base overlay : Value} (hbase : base.toFigment.Distinct)
    (hoverlay : overlay.toFigment.Distinct) : (base.merge overlay).toFigment.Distinct := by
  intro p
  induction p generalizing base overlay with
  | nil =>
    intro tag entries hget
    rcases overlay with s | items | overlay
    · rw [Value.merge_scalar] at hget
      exact hoverlay [] tag entries hget
    · rw [Value.merge_array] at hget
      exact hoverlay [] tag entries hget
    · rcases base with s | items | base
      · rw [Value.scalar_merge] at hget
        exact hoverlay [] tag entries hget
      · rw [Value.array_merge] at hget
        exact hoverlay [] tag entries hget
      · rw [Value.merge, Value.toFigment, LabelledTree.get_nil] at hget
        obtain ⟨-, rfl⟩ := LabelledTree.node.inj (Option.some.inj hget)
        rw [Value.toFigmentTable_eq_mapValues, Entries.mapValues, List.map_map]
        exact nodup_mergeAll (nodup_of_distinct hbase)
  | cons k ks ih =>
    intro tag entries hget
    rcases overlay with s | items | overlay
    · rw [Value.merge_scalar] at hget
      exact hoverlay (k :: ks) tag entries hget
    · rw [Value.merge_array] at hget
      exact hoverlay (k :: ks) tag entries hget
    · rcases base with s | items | base
      · rw [Value.scalar_merge] at hget
        exact hoverlay (k :: ks) tag entries hget
      · rw [Value.array_merge] at hget
        exact hoverlay (k :: ks) tag entries hget
      · have hnodup := nodup_of_distinct hoverlay
        rw [Value.toFigment] at hbase hoverlay
        have hold : ∀ v, base.lookup k = some v → v.toFigment.Distinct := fun v hv ↦
          hbase.child (k := k) (by rw [lookup_toFigmentTable, hv]; rfl)
        have hnew : ∀ v, overlay.lookup k = some v → v.toFigment.Distinct := fun v hv ↦
          hoverlay.child (k := k) (by rw [lookup_toFigmentTable, hv]; rfl)
        rw [Value.merge, Value.toFigment, LabelledTree.get_node_cons, lookup_toFigmentTable,
          lookup_mergeAll hnodup] at hget
        rcases hover : overlay.lookup k with - | value
        · rcases hunder : base.lookup k with - | existing
          · rw [hover, hunder] at hget
            cases hget
          · rw [hover, hunder] at hget
            exact hold existing hunder ks tag entries hget
        · rcases hunder : base.lookup k with - | existing
          · rw [hover, hunder] at hget
            exact hnew value hover ks tag entries hget
          · rw [hover, hunder] at hget
            exact ih (hold existing hunder) (hnew value hover) tag entries hget

end DynamicConfig
