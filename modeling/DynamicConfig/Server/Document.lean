import DynamicConfig.Loader.Recover
import DynamicConfig.Server.State

/-!
# The served document

A section is served as JSON, so what a server installs is serde_json's reading of the resolved table:
labels are gone, keys are in order, a character is a string, a float that is no number is `null`, and
an integer that is neither a `u64` nor an `i64` is refused. `IsJson` is what that leaves
(`isJson_of_json`), and reading it once more changes nothing (`json_of_isJson`).

A client goes the other way: figment reads a JSON text as a tree without labels, and the tree gives
back the JSON it was read from (`value_node`).
-/

namespace DynamicConfig.Server

/-! ### JSON trees -/

/-- An entry before the rest of a map in key order, where the rest may hold the key already. -/
def entered (key : String) (value : Value) : List (String × Value) → List (String × Value)
  | [] => [(key, value)]
  | (k, v) :: es =>
    if key < k then (key, value) :: (k, v) :: es
    else if key = k then (k, v) :: es
    else (k, v) :: entered key value es

/-- Whether an integer is a `u64` or an `i64`. -/
def fits (whole : Int) : Bool := decide (-2 ^ 63 ≤ whole ∧ whole < 2 ^ 64)

/-- Whether the bits of a float are a number: its exponent is not all ones. -/
def isFinite (bits : UInt64) : Bool := (bits >>> 52) &&& 2047 != 2047

/-- A scalar, as serde_json reads it of a deserializer. -/
def jsonScalar (refused : Int → FigmentError) : Scalar → Except FigmentError Scalar
  | .char c => .ok (.string (String.singleton c))
  | .int whole => if fits whole then .ok (.int whole) else .error (refused whole)
  | .float bits => .ok (if isFinite bits then .float bits else .empty)
  | .string text => .ok (.string text)
  | .bool b => .ok (.bool b)
  | .empty => .ok .empty

mutual

/-- A tree, as serde_json reads it. -/
def json (refused : Int → FigmentError) : Value → Except FigmentError Value
  | .scalar s => (jsonScalar refused s).map .scalar
  | .array items => (jsonItems refused items).map .array
  | .table entries => (jsonEntries refused entries).map .table

def jsonItems (refused : Int → FigmentError) : List Value → Except FigmentError (List Value)
  | [] => .ok []
  | item :: items => do
    let item ← json refused item
    let items ← jsonItems refused items
    .ok (item :: items)

/-- The entries of a table, into a map in key order. -/
def jsonEntries (refused : Int → FigmentError) :
    List (String × Value) → Except FigmentError (List (String × Value))
  | [] => .ok []
  | (key, value) :: entries => do
    let value ← json refused value
    let entries ← jsonEntries refused entries
    .ok (entered key value entries)

end

/-- A scalar JSON has. -/
def IsJsonScalar : Scalar → Prop
  | .char _ => False
  | .int whole => fits whole = true
  | .float bits => isFinite bits = true
  | .string _ | .bool _ | .empty => True

mutual

/-- A finite JSON tree, its keys in order. -/
def IsJson : Value → Prop
  | .scalar s => IsJsonScalar s
  | .array items => AreJson items
  | .table entries => (entries.map Prod.fst).Pairwise (· < ·) ∧ HoldJson entries

def AreJson : List Value → Prop
  | [] => True
  | item :: items => IsJson item ∧ AreJson items

def HoldJson : List (String × Value) → Prop
  | [] => True
  | (_, value) :: entries => IsJson value ∧ HoldJson entries

end

/-- A computation that was mapped to a result came to one. -/
theorem exists_of_map_eq_ok {ε α β : Type} {x : Except ε α} {f : α → β} {b : β}
    (h : x.map f = .ok b) : ∃ a, x = .ok a ∧ f a = b := by
  rcases x with e | a
  · cases h
  · exact ⟨a, rfl, Except.ok.inj h⟩

section Json

variable {refused : Int → FigmentError}

/-- A key is entered where it belongs. -/
theorem mem_entered {key k : String} {value : Value} {entries : List (String × Value)}
    (h : k ∈ (entered key value entries).map Prod.fst) : k = key ∨ k ∈ entries.map Prod.fst := by
  induction entries with
  | nil => exact Or.inl (List.mem_singleton.1 h)
  | cons e entries ih =>
    obtain ⟨l, v⟩ := e
    rw [entered] at h
    split at h
    · exact List.mem_cons.1 h
    · split at h
      · exact Or.inr h
      · rcases List.mem_cons.1 h with rfl | h
        · exact Or.inr List.mem_cons_self
        · exact (ih h).imp_right fun hmem ↦ List.mem_cons_of_mem l hmem

/-- The map stays in key order. -/
theorem sorted_entered {key : String} {value : Value} {entries : List (String × Value)}
    (h : (entries.map Prod.fst).Pairwise (· < ·)) :
    ((entered key value entries).map Prod.fst).Pairwise (· < ·) := by
  induction entries with
  | nil => exact List.pairwise_singleton _ _
  | cons e entries ih =>
    obtain ⟨l, v⟩ := e
    rw [List.map_cons, List.pairwise_cons] at h
    rw [entered]
    split
    · next hlt =>
      refine List.pairwise_cons.2 ⟨fun k hk ↦ ?_, List.pairwise_cons.2 h⟩
      rcases List.mem_cons.1 hk with rfl | hk
      · exact hlt
      · exact lt_trans hlt (h.1 k hk)
    · next hge =>
      split
      · exact List.pairwise_cons.2 h
      · next hne =>
        refine List.pairwise_cons.2 ⟨fun k hk ↦ ?_, ih h.2⟩
        rcases mem_entered hk with rfl | hk
        · exact lt_of_le_of_ne (not_lt.1 hge) fun heq ↦ hne heq.symm
        · exact h.1 k hk

theorem holdJson_entered {key : String} {value : Value} {entries : List (String × Value)}
    (hvalue : IsJson value) (h : HoldJson entries) : HoldJson (entered key value entries) := by
  induction entries with
  | nil => exact ⟨hvalue, h⟩
  | cons e entries ih =>
    obtain ⟨l, v⟩ := e
    rw [HoldJson] at h
    rw [entered]
    split
    · exact ⟨hvalue, h⟩
    · split
      · exact h
      · exact ⟨h.1, ih h.2⟩

/-- An entry whose key comes before all others stays in front. -/
theorem entered_of_lt {key : String} {value : Value} {entries : List (String × Value)}
    (h : ∀ k ∈ entries.map Prod.fst, key < k) :
    entered key value entries = (key, value) :: entries := by
  rcases entries with - | ⟨⟨k, v⟩, entries⟩
  · rfl
  · rw [entered, if_pos (h k List.mem_cons_self)]

theorem isJsonScalar_of_jsonScalar {s t : Scalar} (h : jsonScalar refused s = .ok t) :
    IsJsonScalar t := by
  rw [jsonScalar.eq_def] at h
  split at h
  · exact Except.ok.inj h ▸ trivial
  · next whole =>
    split at h
    · next hfits => exact Except.ok.inj h ▸ hfits
    · cases h
  · next bits =>
    obtain rfl := Except.ok.inj h
    split
    · next hfinite => exact hfinite
    · trivial
  · exact Except.ok.inj h ▸ trivial
  · exact Except.ok.inj h ▸ trivial
  · exact Except.ok.inj h ▸ trivial

theorem jsonScalar_of_isJsonScalar {s : Scalar} (h : IsJsonScalar s) : jsonScalar refused s = .ok s := by
  rcases s with text | c | b | whole | bits | -
  · rfl
  · exact h.elim
  · rfl
  · have hfits : fits whole = true := h
    rw [jsonScalar, if_pos hfits]
  · have hfinite : isFinite bits = true := h
    rw [jsonScalar, if_pos hfinite]
  · rfl

mutual

/-- **What serde_json reads is a finite tree with its keys in order.** -/
theorem isJson_of_json : ∀ {v w : Value}, json refused v = .ok w → IsJson w
  | .scalar s, w, h => by
    obtain ⟨t, ht, rfl⟩ := exists_of_map_eq_ok h
    exact isJsonScalar_of_jsonScalar ht
  | .array items, w, h => by
    obtain ⟨xs, hxs, rfl⟩ := exists_of_map_eq_ok h
    exact areJson_of_jsonItems hxs
  | .table entries, w, h => by
    obtain ⟨es, hes, rfl⟩ := exists_of_map_eq_ok h
    exact sorted_of_jsonEntries hes

theorem areJson_of_jsonItems : ∀ {items xs : List Value}, jsonItems refused items = .ok xs → AreJson xs
  | [], xs, h => Except.ok.inj h ▸ trivial
  | item :: items, xs, h => by
    obtain ⟨x, hx, h⟩ := exists_of_bind_eq_ok h
    obtain ⟨ys, hys, h⟩ := exists_of_bind_eq_ok h
    exact Except.ok.inj h ▸ ⟨isJson_of_json hx, areJson_of_jsonItems hys⟩

theorem sorted_of_jsonEntries : ∀ {entries es : List (String × Value)},
    jsonEntries refused entries = .ok es → (es.map Prod.fst).Pairwise (· < ·) ∧ HoldJson es
  | [], es, h => Except.ok.inj h ▸ ⟨List.Pairwise.nil, trivial⟩
  | (key, value) :: entries, es, h => by
    obtain ⟨v, hv, h⟩ := exists_of_bind_eq_ok h
    obtain ⟨fs, hfs, h⟩ := exists_of_bind_eq_ok h
    obtain ⟨hsorted, hhold⟩ := sorted_of_jsonEntries hfs
    exact Except.ok.inj h ▸ ⟨sorted_entered hsorted, holdJson_entered (isJson_of_json hv) hhold⟩

end

mutual

/-- **Reading a JSON tree once more changes nothing.** -/
theorem json_of_isJson : ∀ {v : Value}, IsJson v → json refused v = .ok v
  | .scalar s, h => by rw [json, jsonScalar_of_isJsonScalar h]; rfl
  | .array items, h => by rw [json, jsonItems_of_areJson h]; rfl
  | .table entries, h => by rw [json, jsonEntries_of_sorted h.1 h.2]; rfl

theorem jsonItems_of_areJson : ∀ {items : List Value}, AreJson items →
    jsonItems refused items = .ok items
  | [], _ => rfl
  | item :: items, h => by
    rw [jsonItems, json_of_isJson h.1, jsonItems_of_areJson h.2]
    rfl

theorem jsonEntries_of_sorted : ∀ {entries : List (String × Value)},
    (entries.map Prod.fst).Pairwise (· < ·) → HoldJson entries →
      jsonEntries refused entries = .ok entries
  | [], _, _ => rfl
  | (key, value) :: entries, hsorted, h => by
    rw [List.map_cons, List.pairwise_cons] at hsorted
    rw [jsonEntries, json_of_isJson h.1, jsonEntries_of_sorted hsorted.2 h.2]
    exact congrArg Except.ok (entered_of_lt hsorted.1)

end

end Json

/-! ### Between the two trees -/

mutual

/-- A resolved value without its labels. -/
def Node.value : Node → Value
  | .leaf _ (.scalar s) => .scalar s
  | .leaf _ (.array items) => .array items
  | .node _ entries => .table (valuesOf entries)

def valuesOf : Dict → List (String × Value)
  | [] => []
  | (key, value) :: entries => (key, Node.value value) :: valuesOf entries

end

mutual

/-- A JSON tree, as figment reads it. -/
def node : Value → Node
  | .scalar s => .leaf none (.scalar s)
  | .array items => .leaf none (.array items)
  | .table entries => .node none (nodesOf entries)

def nodesOf : List (String × Value) → Dict
  | [] => []
  | (key, value) :: entries => (key, node value) :: nodesOf entries

end

/-- What a section installs of its resolved table. -/
def readDocument (refused : Int → FigmentError) (values : Dict) : Except FigmentError Document :=
  json refused (.table (valuesOf values))

mutual

/-- **The tree figment reads gives the JSON back.** -/
theorem value_node : ∀ v : Value, Node.value (node v) = v
  | .scalar _ => rfl
  | .array _ => rfl
  | .table entries => congrArg Value.table (valuesOf_nodesOf entries)

theorem valuesOf_nodesOf : ∀ entries : List (String × Value), valuesOf (nodesOf entries) = entries
  | [] => rfl
  | (key, v) :: entries => by rw [nodesOf, valuesOf, value_node v, valuesOf_nodesOf entries]

end

mutual

/-- Labels are not served. -/
theorem value_mapTag (label : Option Metadata → Option Metadata) : ∀ n : Node,
    Node.value (LabelledTree.mapTag label n) = Node.value n
  | .leaf _ (.scalar _) => rfl
  | .leaf _ (.array _) => rfl
  | .node _ entries => congrArg Value.table (valuesOf_mapTagEntries label entries)

theorem valuesOf_mapTagEntries (label : Option Metadata → Option Metadata) : ∀ entries : Dict,
    valuesOf (LabelledTree.mapTagEntries label entries) = valuesOf entries
  | [] => rfl
  | (key, n) :: entries => by
    rw [LabelledTree.mapTagEntries, valuesOf, valuesOf, value_mapTag label n,
      valuesOf_mapTagEntries label entries]

end

theorem erase_cons (key : String) {ν : Type} (k : String) (v : ν) (entries : List (String × ν)) :
    Entries.erase key ((k, v) :: entries) =
      if k = key then Entries.erase key entries else (k, v) :: Entries.erase key entries := by
  rw [Entries.erase, List.filter_cons]
  by_cases hsame : k = key
  · rw [if_pos hsame, decide_eq_true hsame, Bool.not_true, if_neg Bool.false_ne_true]
    rfl
  · rw [if_neg hsame, decide_eq_false hsame, Bool.not_false, if_pos rfl]
    rfl

/-- A key that is dropped is dropped of either tree. -/
theorem erase_nodesOf (key : String) (entries : List (String × Value)) :
    Entries.erase key (nodesOf entries) = nodesOf (Entries.erase key entries) := by
  induction entries with
  | nil => rfl
  | cons e entries ih =>
    obtain ⟨k, v⟩ := e
    rw [nodesOf, erase_cons, erase_cons, ih]
    split
    · rfl
    · rw [nodesOf]

/-- A document is a table. -/
theorem exists_of_readDocument {refused : Int → FigmentError} {values : Dict} {document : Document}
    (h : readDocument refused values = .ok document) :
    ∃ entries, document = .table entries ∧ IsJson (.table entries) := by
  have hjson := isJson_of_json h
  obtain ⟨entries, -, rfl⟩ := exists_of_map_eq_ok h
  exact ⟨entries, rfl, hjson⟩

end DynamicConfig.Server
