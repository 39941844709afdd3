import DynamicConfig.Cache.Read
import DynamicConfig.Tree.Difference
import DynamicConfig.Values.Overlap

/-!
# What differs between two snapshots

`Snapshot::diff` walks two resolved configurations together and lists what was added, removed or
modified, by dotted path and in path order. Values are compared as the crate's own, so that neither
the supplier nor the width of a number counts; of two floats the zeros are equal, and a NaN is equal
to nothing.

The walk is the one of `LabelledTree.changes`. Without dots in the keys a text is a path, and the
list says everything: `SnapshotTree.faithful_diff`.
-/

namespace DynamicConfig

open LabelledTree (ChangeKind changes changesIn)

/-! ### Equal values -/

/-- Whether bits are those of a NaN: an exponent of ones, and a mantissa that is not zero. -/
def isNaN (bits : UInt64) : Bool :=
  decide (0x7FF0000000000000 < bits &&& 0x7FFFFFFFFFFFFFFF)

/-- Whether bits are those of a zero, of either sign. -/
def isZero (bits : UInt64) : Bool :=
  decide (bits &&& 0x7FFFFFFFFFFFFFFF = 0)

/-- `f64::eq`. -/
def floatEq (a b : UInt64) : Bool :=
  !isNaN a && !isNaN b && (decide (a = b) || (isZero a && isZero b))

/-- `Value::eq` of two scalars. -/
def Scalar.eq : Scalar → Scalar → Bool
  | .float a, .float b => floatEq a b
  | a, b => decide (a = b)

mutual

/-- `Value::eq`, which the source derives. -/
def Value.eq : Value → Value → Bool
  | .scalar a, .scalar b => a.eq b
  | .array as, .array bs => Value.eqItems as bs
  | .table as, .table bs => Value.eqEntries as bs
  | _, _ => false

/-- Two arrays. -/
def Value.eqItems : List Value → List Value → Bool
  | [], [] => true
  | a :: as, b :: bs => a.eq b && Value.eqItems as bs
  | _, _ => false

/-- Two tables, entry by entry. -/
def Value.eqEntries : List (String × Value) → List (String × Value) → Bool
  | [], [] => true
  | (k, a) :: as, (l, b) :: bs => decide (k = l) && a.eq b && Value.eqEntries as bs
  | _, _ => false

end

mutual

/-- Whether a value has a NaN in it. -/
def Value.hasNaN : Value → Bool
  | .scalar (.float bits) => isNaN bits
  | .scalar _ => false
  | .array items => Value.hasNaNItem items
  | .table entries => Value.hasNaNEntry entries

/-- Whether one of the values of an array has. -/
def Value.hasNaNItem : List Value → Bool
  | [] => false
  | item :: items => item.hasNaN || Value.hasNaNItem items

/-- Whether one of the values of a table has. -/
def Value.hasNaNEntry : List (String × Value) → Bool
  | [] => false
  | (_, value) :: entries => value.hasNaN || Value.hasNaNEntry entries

end

theorem Scalar.eq_comm (a b : Scalar) : a.eq b = b.eq a := by
  have hdecide : decide (a = b) = decide (b = a) := decide_eq_decide.2 ⟨Eq.symm, Eq.symm⟩
  rcases a with _ | _ | _ | _ | a | - <;> rcases b with _ | _ | _ | _ | b | - <;>
    first
    | exact hdecide
    | skip
  show floatEq a b = floatEq b a
  rw [floatEq, floatEq, Bool.and_comm (!isNaN a), Bool.and_comm (isZero a)]
  have hbits : decide (a = b) = decide (b = a) := decide_eq_decide.2 ⟨Eq.symm, Eq.symm⟩
  rw [hbits]

mutual

theorem Value.eq_comm (a b : Value) : a.eq b = b.eq a := by
  match a, b with
  | .scalar a, .scalar b => exact Scalar.eq_comm a b
  | .array as, .array bs => rw [Value.eq, Value.eq, Value.eqItems_comm as bs]
  | .table as, .table bs => rw [Value.eq, Value.eq, Value.eqEntries_comm as bs]
  | .scalar _, .array _ => rfl
  | .scalar _, .table _ => rfl
  | .array _, .scalar _ => rfl
  | .array _, .table _ => rfl
  | .table _, .scalar _ => rfl
  | .table _, .array _ => rfl

theorem Value.eqItems_comm (as bs : List Value) : Value.eqItems as bs = Value.eqItems bs as := by
  match as, bs with
  | [], [] => rfl
  | [], _ :: _ => rfl
  | _ :: _, [] => rfl
  | a :: as, b :: bs =>
    rw [Value.eqItems, Value.eqItems, Value.eq_comm a b, Value.eqItems_comm as bs]

theorem Value.eqEntries_comm (as bs : List (String × Value)) :
    Value.eqEntries as bs = Value.eqEntries bs as := by
  match as, bs with
  | [], [] => rfl
  | [], _ :: _ => rfl
  | _ :: _, [] => rfl
  | (k, a) :: as, (l, b) :: bs =>
    have hkeys : decide (k = l) = decide (l = k) := decide_eq_decide.2 ⟨Eq.symm, Eq.symm⟩
    rw [Value.eqEntries, Value.eqEntries, hkeys, Value.eq_comm a b, Value.eqEntries_comm as bs]

end

mutual

/-- A value without a NaN is equal to itself. -/
theorem Value.eq_self (v : Value) (h : v.hasNaN = false) : v.eq v = true := by
  match v with
  | .scalar s =>
    rcases s with _ | _ | _ | _ | bits | -
    case float =>
      have hbits : isNaN bits = false := h
      show floatEq bits bits = true
      rw [floatEq, hbits, decide_eq_true rfl]
      rfl
    all_goals simp [Value.eq, Scalar.eq]
  | .array items =>
    rw [Value.hasNaN] at h
    rw [Value.eq, Value.eqItems_self items h]
  | .table entries =>
    rw [Value.hasNaN] at h
    rw [Value.eq, Value.eqEntries_self entries h]

theorem Value.eqItems_self (items : List Value) (h : Value.hasNaNItem items = false) :
    Value.eqItems items items = true := by
  match items with
  | [] => rfl
  | item :: items =>
    rw [Value.hasNaNItem, Bool.or_eq_false_iff] at h
    rw [Value.eqItems, Value.eq_self item h.1, Value.eqItems_self items h.2]
    rfl

theorem Value.eqEntries_self (entries : List (String × Value))
    (h : Value.hasNaNEntry entries = false) : Value.eqEntries entries entries = true := by
  match entries with
  | [] => rfl
  | (key, value) :: entries =>
    rw [Value.hasNaNEntry, Bool.or_eq_false_iff] at h
    rw [Value.eqEntries, Value.eq_self value h.1, Value.eqEntries_self entries h.2,
      decide_eq_true rfl]
    rfl

end

/-! ### The walk -/

/-- One difference between two snapshots. -/
structure Change where
  path : String
  kind : ChangeKind
  deriving DecidableEq, Repr

/-- `values_equal`: compared as the crate's own values. -/
def valuesEqual (before after : Node) : Bool :=
  (Node.fromFigment before).eq (Node.fromFigment after)

/-- The keys of a table that were not there before. -/
def addedKeys (path : List String) (previous current : Dict) : List Change :=
  (current.filter fun e ↦ !Entries.hasKey previous e.1).map fun e ↦ ⟨joined (path ++ [e.1]), .added⟩

mutual

/-- `compare_values`: two tables key by key, anything else as a whole. -/
def compareValues (path : List String) : Node → Node → List Change
  | .node _ before, .node _ after =>
    compareKeys path before after ++ addedKeys path before after
  | before, after => if valuesEqual before after then [] else [⟨joined path, .modified⟩]

/-- The keys that were there before, each with what became of it. -/
def compareKeys (path : List String) : Dict → Dict → List Change
  | [], _ => []
  | (key, before) :: previous, current =>
    (match current.lookup key with
      | some after => compareValues (path ++ [key]) before after
      | none => [⟨joined (path ++ [key]), .removed⟩]) ++ compareKeys path previous current

end

/-- `compare`: two tables in step. -/
def Dict.compare (path : List String) (previous current : Dict) : List Change :=
  compareKeys path previous current ++ addedKeys path previous current

/-- `Snapshot::diff`. -/
def Dict.diff (previous current : Dict) : List Change :=
  (Dict.compare [] previous current).mergeSort fun left right ↦ decide (left.path ≤ right.path)

/-- Whether two leaves compare equal. -/
def sameLeaf (v w : Leaf) : Bool :=
  v.fromFigment.value.eq w.fromFigment.value

theorem sameLeaf_comm (v w : Leaf) : sameLeaf v w = sameLeaf w v :=
  Value.eq_comm _ _

/-- A change at a path, as it is reported. -/
def reported (path : List String) (c : List String × ChangeKind) : Change :=
  ⟨joined (path ++ c.1), c.2⟩

theorem addedKeys_eq (path : List String) (previous current : Dict) :
    addedKeys path previous current =
      ((current.filter fun e ↦ !Entries.hasKey previous e.1).map
        fun e ↦ ([e.1], ChangeKind.added)).map (reported path) := by
  rw [addedKeys, List.map_map]
  rfl

mutual

/-- **The walk lists the changes.** -/
theorem compareValues_eq (path : List String) (a b : Node) :
    compareValues path a b = (changes sameLeaf a b).map (reported path) := by
  match a, b with
  | .leaf s v, .leaf t w =>
    rw [compareValues.eq_def, changes]
    show (if sameLeaf v w then [] else [_]) = _
    split
    · rfl
    · rw [List.map_singleton, reported, List.append_nil]
  | .leaf s v, .node t ys =>
    have hdiffer : valuesEqual (.leaf s v) (.node t ys) = false := by
      rcases v with v | items <;> rfl
    rw [compareValues.eq_def, changes, List.map_singleton, reported, List.append_nil]
    show (if valuesEqual _ _ = true then _ else _) = _
    rw [hdiffer, if_neg Bool.false_ne_true]
  | .node s xs, .leaf t w =>
    have hdiffer : valuesEqual (.node s xs) (.leaf t w) = false := by
      rcases w with w | items <;> rfl
    rw [compareValues.eq_def, changes, List.map_singleton, reported, List.append_nil]
    show (if valuesEqual _ _ = true then _ else _) = _
    rw [hdiffer, if_neg Bool.false_ne_true]
  | .node s xs, .node t ys =>
    rw [compareValues, changes, List.map_append, compareKeys_eq, addedKeys_eq]

theorem compareKeys_eq (path : List String) (previous current : Dict) :
    compareKeys path previous current =
      (changesIn sameLeaf previous current).map (reported path) := by
  match previous with
  | [] => rw [compareKeys, changesIn]; rfl
  | (key, before) :: previous =>
    rw [compareKeys, changesIn, List.map_append, compareKeys_eq path previous current]
    rcases current.lookup key with - | after
    · rfl
    · have hbelow := compareValues_eq (path ++ [key]) before after
      show compareValues (path ++ [key]) before after ++ _ = List.map _ (List.map _ _) ++ _
      rw [hbelow, List.map_map]
      congr 2
      funext c
      rw [reported, Function.comp, reported, List.append_assoc, List.singleton_append]

end

/-- The list, before it is sorted. -/
theorem compare_eq (a b : Dict) :
    Dict.compare [] a b = (changes sameLeaf a.root b.root).map (reported []) := by
  have hroot := compareValues_eq [] a.root b.root
  rw [Dict.root, Dict.root, compareValues] at hroot
  exact hroot

theorem perm_diff (a b : Dict) :
    (a.diff b).Perm ((changes sameLeaf a.root b.root).map (reported [])) := by
  rw [← compare_eq]
  exact List.mergeSort_perm _ _

/-- In path order. -/
theorem pairwise_diff (a b : Dict) : (a.diff b).Pairwise fun left right ↦ left.path ≤ right.path := by
  have hsorted : (a.diff b).Pairwise fun left right ↦ decide (left.path ≤ right.path) = true :=
    List.pairwise_mergeSort
      (fun _ _ _ h h' ↦ decide_eq_true ((of_decide_eq_true h).trans (of_decide_eq_true h')))
      (fun left right ↦ by simpa using le_total left.path right.path) _
  exact hsorted.imp of_decide_eq_true

/-! ### Taking a diff over -/

/-- Take a listed change over from the newer snapshot: what was added or modified is set to the value
there, what was removed is removed. -/
def Change.takeOver (current values : Dict) (c : Change) : Dict :=
  match c.kind with
  | .removed => removePath values c.path
  | _ =>
    match current.valueAt c.path with
    | some value => insertPath values c.path value
    | none => values

/-- The same change from the other side. -/
def Change.reversed (c : Change) : Change := { c with kind := c.kind.reversed }

/-- Two configurations that compare equal at a path: nothing in either, or tables, or leaves that
compare equal. -/
def Dict.EqualAt (a b : Dict) (p : List String) : Prop :=
  LabelledTree.Alike sameLeaf (a.root.peekAt p) (b.root.peekAt p)

/-- Two configurations that are equal as trees. -/
def Dict.Equal (a b : Dict) : Prop := ∀ p, a.EqualAt b p

/-- A resolved configuration, whose tables have no key twice. -/
structure SnapshotTree where
  values : Dict
  distinct : values.root.Distinct

namespace SnapshotTree

variable {a b : SnapshotTree}

/-- No key has a dot in it. -/
def Undotted (a : SnapshotTree) : Prop :=
  ∀ p, a.values.root.peekAt p ≠ none → ∀ k ∈ p, '.' ∉ k.toList

/-- There is no NaN in what the snapshot hands out. -/
def NoNaN (a : SnapshotTree) : Prop := a.values.toValue.hasNaN = false

/-- `Snapshot::diff`. -/
def diff (a b : SnapshotTree) : List Change := a.values.diff b.values

/-- What a diff says, and everything it says. -/
structure FaithfulDiff (a b : SnapshotTree) : Prop where
  /-- Nothing is listed exactly when the two are equal. -/
  unchanged : a.diff b = [] ↔ a.values.Equal b.values
  /-- From the other side it is the same list, with added and removed exchanged. -/
  reversed : b.diff a = (a.diff b).map Change.reversed
  /-- What is listed differs: it is only in the new one, only in the old one, or is not equal. -/
  differs : ∀ c ∈ a.diff b, ¬ a.values.EqualAt b.values (segments c.path) ∧
    c.kind = LabelledTree.kindOf (a.values.root.peekAt (segments c.path))
      (b.values.root.peekAt (segments c.path))
  /-- The changes make the new one of the old one. -/
  applied : ((a.diff b).foldl (Change.takeOver b.values) a.values).Equal b.values

theorem hasNaN_of_lookup {entries : Dict} (h : Value.hasNaNEntry (Dict.fromFigment entries) = false)
    {k : String} {child : Node} (hchild : entries.lookup k = some child) :
    (Node.fromFigment child).hasNaN = false := by
  induction entries with
  | nil => cases hchild
  | cons e entries ih =>
    obtain ⟨l, value⟩ := e
    rw [Dict.fromFigment, Value.hasNaNEntry, Bool.or_eq_false_iff] at h
    rw [Entries.lookup_cons_eq] at hchild
    split at hchild
    · obtain rfl : value = child := Option.some.inj hchild
      exact h.1
    · exact ih h.2 hchild

/-- What has no NaN in it has none in a leaf. -/
theorem hasNaN_of_peekAt {node : Node} (h : (Node.fromFigment node).hasNaN = false) {p : List String}
    {leaf : Leaf} (hp : node.peekAt p = some (some leaf)) : leaf.fromFigment.value.hasNaN = false := by
  induction p generalizing node with
  | nil =>
    rcases node with ⟨tag, v⟩ | ⟨tag, entries⟩
    · rw [LabelledTree.peekAt_nil] at hp
      obtain rfl : v = leaf := Option.some.inj (Option.some.inj hp)
      exact h
    · cases hp
  | cons k ks ih =>
    rcases node with ⟨tag, v⟩ | ⟨tag, entries⟩
    · cases hp
    · rw [LabelledTree.peekAt_node_cons] at hp
      obtain ⟨child, hchild, hleaf⟩ := Option.bind_eq_some_iff.1 hp
      rw [Node.fromFigment, Value.hasNaN] at h
      exact ih (hasNaN_of_lookup h hchild) hleaf

/-- A leaf of a snapshot without a NaN compares equal to itself. -/
theorem NoNaN.sameLeaf_self (h : a.NoNaN) {p : List String} {leaf : Leaf}
    (hp : a.values.root.peekAt p = some (some leaf)) : sameLeaf leaf leaf = true := by
  refine Value.eq_self _ (hasNaN_of_peekAt ?_ hp)
  rw [Dict.root, Node.fromFigment]
  exact h

/-- A path that is listed is not the root, and one of the two snapshots has it. -/
theorem segments_reported (ha : a.Undotted) (hb : b.Undotted) {c : List String × ChangeKind}
    (hc : c ∈ changes sameLeaf a.values.root b.values.root) :
    segments (reported [] c).path = c.1 := by
  obtain ⟨hdiffers, -⟩ := (LabelledTree.mem_changes a.distinct (p := c.1)).1 hc
  have hne : c.1 ≠ [] := (LabelledTree.fits_of_mem_changes a.distinct hc).ne_nil
  refine segments_joined hne ?_
  rcases hshown : a.values.root.peekAt c.1 with - | x
  · refine hb c.1 fun hnone ↦ hdiffers.2 ?_
    rw [hshown, hnone]
    trivial
  · exact ha c.1 fun hnone ↦ Option.some_ne_none x (hshown.symm.trans hnone)

/-- The listed changes are the changes of the trees. -/
theorem exists_of_mem_diff {c : Change} (hc : c ∈ a.diff b) :
    ∃ c' ∈ changes sameLeaf a.values.root b.values.root, reported [] c' = c :=
  List.mem_map.1 ((perm_diff a.values b.values).mem_iff.1 hc)

theorem diff_eq_nil_iff : a.diff b = [] ↔ a.values.Equal b.values := by
  have hperm := perm_diff a.values b.values
  have hnil : a.diff b = [] ↔ changes sameLeaf a.values.root b.values.root = [] := by
    constructor
    · intro h
      have hmapped : (changes sameLeaf a.values.root b.values.root).map (reported []) = [] :=
        List.nil_perm.1 (h ▸ hperm)
      exact List.map_eq_nil_iff.1 hmapped
    · intro h
      rw [h, List.map_nil] at hperm
      exact List.perm_nil.1 hperm
  rw [hnil]
  exact LabelledTree.changes_eq_nil_iff a.distinct

theorem differs_of_mem_diff (ha : a.Undotted) (hb : b.Undotted) {c : Change} (hc : c ∈ a.diff b) :
    ¬ a.values.EqualAt b.values (segments c.path) ∧
      c.kind = LabelledTree.kindOf (a.values.root.peekAt (segments c.path))
        (b.values.root.peekAt (segments c.path)) := by
  obtain ⟨c', hc', rfl⟩ := exists_of_mem_diff hc
  rw [segments_reported ha hb hc']
  obtain ⟨hdiffers, hkind⟩ := (LabelledTree.mem_changes a.distinct (p := c'.1)).1 hc'
  exact ⟨hdiffers.2, hkind⟩

/-- A listed change is determined by its path. -/
theorem eq_of_path_eq (ha : a.Undotted) (hb : b.Undotted) {c c' : Change} (hc : c ∈ a.diff b)
    (hc' : c' ∈ a.diff b) (hpath : c.path = c'.path) : c = c' := by
  have hkind := (differs_of_mem_diff ha hb hc).2
  rw [hpath, ← (differs_of_mem_diff ha hb hc').2] at hkind
  rcases c with ⟨path, kind⟩
  rcases c' with ⟨path', kind'⟩
  obtain rfl : path = path' := hpath
  obtain rfl : kind = kind' := hkind
  rfl

theorem perm_diff_swap (a b : SnapshotTree) : (b.diff a).Perm ((a.diff b).map Change.reversed) := by
  have hswap := (LabelledTree.perm_changes_swap sameLeaf_comm a.distinct b.distinct).map (reported [])
  rw [List.map_map] at hswap
  refine (perm_diff b.values a.values).trans (hswap.trans ?_)
  have hback := ((perm_diff a.values b.values).map Change.reversed).symm
  rw [List.map_map] at hback
  exact hback

theorem diff_swap (ha : a.Undotted) (hb : b.Undotted) :
    b.diff a = (a.diff b).map Change.reversed := by
  have hperm := perm_diff_swap a b
  have hsorted := pairwise_diff b.values a.values
  refine List.Perm.eq_of_pairwise ?_ hsorted ?_ hperm
  · intro c c' hc hc' hle hge
    exact eq_of_path_eq hb ha hc (hperm.mem_iff.2 hc') (le_antisymm hle hge)
  · rw [List.pairwise_map]
    exact pairwise_diff a.values b.values

/-- Taking a change over by its text is taking it over at its path. -/
theorem takeOver_eq (current values : Dict) (c : Change) :
    c.takeOver current values =
      LabelledTree.takeOver none current values (segments c.path, c.kind) := by
  rcases c with ⟨path, - | - | -⟩
  · rw [Change.takeOver, LabelledTree.takeOver, Dict.valueAt, Dict.root]
    rcases (LabelledTree.node none current).get (segments path) with - | value <;> rfl
  · rfl
  · rw [Change.takeOver, LabelledTree.takeOver, Dict.valueAt, Dict.root]
    rcases (LabelledTree.node none current).get (segments path) with - | value <;> rfl

theorem equal_applied (ha : a.Undotted) (hb : b.Undotted) (hnan : b.NoNaN) :
    ((a.diff b).foldl (Change.takeOver b.values) a.values).Equal b.values := by
  have hfold : (a.diff b).foldl (Change.takeOver b.values) a.values =
      ((a.diff b).map fun c ↦ (segments c.path, c.kind)).foldl
        (LabelledTree.takeOver none b.values) a.values := by
    rw [List.foldl_map]
    congr 1
    funext values c
    exact takeOver_eq b.values values c
  have hperm : ((a.diff b).map fun c ↦ (segments c.path, c.kind)).Perm
      (changes sameLeaf a.values.root b.values.root) := by
    refine ((perm_diff a.values b.values).map _).trans ?_
    rw [List.map_map]
    have hsame : (changes sameLeaf a.values.root b.values.root).map
        ((fun c : Change ↦ (segments c.path, c.kind)) ∘ reported []) =
          changes sameLeaf a.values.root b.values.root := by
      refine (List.map_congr_left fun c hc ↦ ?_).trans (List.map_id _)
      rw [Function.comp, segments_reported ha hb hc]
      rfl
    rw [hsame]
  rw [hfold]
  exact LabelledTree.alike_applied a.distinct b.distinct (fun p v ↦ hnan.sameLeaf_self) hperm

/-- **A diff is faithful**, where no key has a dot in it and the new snapshot no NaN. -/
theorem faithful_diff (a b : SnapshotTree) (ha : a.Undotted) (hb : b.Undotted)
    (hnan : b.NoNaN) : FaithfulDiff a b where
  unchanged := diff_eq_nil_iff
  reversed := diff_swap ha hb
  differs _ hc := differs_of_mem_diff ha hb hc
  applied := equal_applied ha hb hnan

/-- The snapshot with one value in it, below a key. -/
def settingAt (key : String) (rest : List String) (s : Scalar) : SnapshotTree where
  values := Value.toFigmentTable [(key, DynamicConfig.settingAt rest s)]
  distinct := by
    have hdistinct := distinct_settingAt (key :: rest) s
    rw [DynamicConfig.settingAt, Value.toFigment] at hdistinct
    exact hdistinct

theorem peekAt_settingAt (key : String) (rest : List String) (s : Scalar) (p : List String) :
    (settingAt key rest s).values.root.peekAt p = (ValueTree.settingAt (key :: rest) s).shows p := by
  have hvalue : (DynamicConfig.settingAt (key :: rest) s).toFigment =
      (settingAt key rest s).values.root := by
    rw [DynamicConfig.settingAt.eq_def, Value.toFigment]
    rfl
  rw [ValueTree.shows, ValueTree.settingAt, hvalue]

theorem undotted_settingAt {key : String} {rest : List String} {s : Scalar}
    (h : ∀ k ∈ key :: rest, '.' ∉ k.toList) : (settingAt key rest s).Undotted := by
  intro p hp k hk
  rw [peekAt_settingAt] at hp
  exact h k ((ValueTree.has_settingAt_iff.1 hp).subset hk)

/-- The diff of a host and a port. -/
theorem faithful_diff_settings :
    FaithfulDiff (settingAt "db" ["host"] (.string "a")) (settingAt "db" ["port"] (.int 1)) :=
  faithful_diff _ _ (undotted_settingAt (by decide)) (undotted_settingAt (by decide)) rfl

end SnapshotTree

end DynamicConfig
