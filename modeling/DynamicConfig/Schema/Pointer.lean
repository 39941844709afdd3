import DynamicConfig.Config.Value

/-!
# References into a JSON document

A local reference of a JSON Schema, `"$ref": "#/a/b"`, is a pointer from the root of the document it
is in: a list of tokens, each the key of an object or the index of an array. Objects keep their keys
in order, as `serde_json::Map` does.
-/

namespace DynamicConfig.Schema

/-! ### Objects -/

/-- `Map::insert`. -/
def inserted (key : String) (value : Value) : List (String × Value) → List (String × Value)
  | [] => [(key, value)]
  | (k, v) :: es =>
    if key < k then (key, value) :: (k, v) :: es
    else if key = k then (key, value) :: es
    else (k, v) :: inserted key value es

/-- What a map holds after an insert. -/
theorem lookup_inserted (key l : String) (value : Value) (es : List (String × Value)) :
    (inserted key value es).lookup l = if l = key then some value else es.lookup l := by
  induction es with
  | nil => exact Entries.lookup_cons_eq l key value []
  | cons e es ih =>
    obtain ⟨k, v⟩ := e
    rw [inserted]
    split
    · exact Entries.lookup_cons_eq l key value _
    · split
      · next heq =>
        subst heq
        rw [Entries.lookup_cons_eq, Entries.lookup_cons_eq]
        by_cases hl : l = key
        · rw [if_pos hl, if_pos hl]
        · rw [if_neg hl, if_neg hl, if_neg hl]
      · next hne =>
        rw [Entries.lookup_cons_eq, Entries.lookup_cons_eq, ih]
        by_cases hl : l = k
        · rw [if_pos hl, if_pos hl, if_neg (hl ▸ Ne.symm hne)]
        · rw [if_neg hl, if_neg hl]

/-! ### Pointers -/

/-- The index a token is: digits, with no zero in front of others. -/
def index (token : String) : Option Nat :=
  match token.toList with
  | [] => none
  | c :: cs =>
    if (c :: cs).all Char.isDigit ∧ (c = '0' → cs = []) then
      some ((c :: cs).foldl (fun n d ↦ n * 10 + (d.toNat - '0'.toNat)) 0)
    else none

/-- The value a pointer leads to. -/
def pointer : Value → List String → Option Value
  | v, [] => some v
  | .table entries, token :: tokens => (entries.lookup token).bind fun v ↦ pointer v tokens
  | .array items, token :: tokens =>
    (index token).bind fun i ↦ (items[i]?).bind fun v ↦ pointer v tokens
  | .scalar _, _ :: _ => none

@[simp] theorem pointer_nil (v : Value) : pointer v [] = some v := by
  rw [pointer.eq_def]

theorem pointer_table (entries : List (String × Value)) (token : String) (tokens : List String) :
    pointer (.table entries) (token :: tokens) =
      (entries.lookup token).bind fun v ↦ pointer v tokens := by
  rw [pointer.eq_def]

theorem pointer_array (items : List Value) (token : String) (tokens : List String) :
    pointer (.array items) (token :: tokens) =
      (index token).bind fun i ↦ (items[i]?).bind fun v ↦ pointer v tokens := by
  rw [pointer.eq_def]

@[simp] theorem pointer_scalar (s : Scalar) (token : String) (tokens : List String) :
    pointer (.scalar s) (token :: tokens) = none := by
  rw [pointer.eq_def]

/-- What a token stands for: `~1` is a slash, and `~0` a tilde. -/
def unescape : List Char → List Char
  | '~' :: '1' :: cs => '/' :: unescape cs
  | '~' :: '0' :: cs => '~' :: unescape cs
  | c :: cs => c :: unescape cs
  | [] => []

/-- The pointer of a local reference, `#/...`. -/
def localPointer (reference : String) : Option (List String) :=
  match reference.toList with
  | '#' :: '/' :: cs => some ((cs.splitOn '/').map fun token ↦ String.ofList (unescape token))
  | _ => none

/-- The pointer an entry of an object is. -/
def entryPointer (key : String) : Value → Option (List String)
  | .scalar (.string reference) => if key = "$ref" then localPointer reference else none
  | .scalar _ | .array _ | .table _ => none

mutual

/-- The pointers of the local references of a document, at any depth. -/
def localRefs : Value → List (List String)
  | .scalar _ => []
  | .array items => localRefsItems items
  | .table entries => localRefsEntries entries

def localRefsItems : List Value → List (List String)
  | [] => []
  | item :: items => localRefs item ++ localRefsItems items

def localRefsEntries : List (String × Value) → List (List String)
  | [] => []
  | (key, value) :: entries =>
    (entryPointer key value).toList ++ localRefs value ++ localRefsEntries entries

end

/-! ### Sizes -/

theorem sizeOf_lookup {entries : List (String × Value)} {key : String} {v : Value}
    (h : entries.lookup key = some v) : sizeOf v < sizeOf entries := by
  induction entries with
  | nil => exact absurd h.symm (Option.some_ne_none v)
  | cons e entries ih =>
    obtain ⟨k, w⟩ := e
    rw [Entries.lookup_cons_eq] at h
    simp only [List.cons.sizeOf_spec, Prod.mk.sizeOf_spec]
    split at h
    · obtain rfl := Option.some.inj h
      omega
    · have hlt := ih h
      omega

/-- A pointer leads into what it starts from. -/
theorem sizeOf_pointer {p : List String} {v d : Value} (h : pointer v p = some d) :
    sizeOf d ≤ sizeOf v := by
  induction p generalizing v with
  | nil =>
    rw [pointer_nil] at h
    obtain rfl := Option.some.inj h
    exact Nat.le_refl _
  | cons token tokens ih =>
    rcases v with s | items | entries
    · rw [pointer_scalar] at h
      exact absurd h.symm (Option.some_ne_none d)
    · rw [pointer_array] at h
      obtain ⟨i, -, h⟩ := Option.bind_eq_some_iff.1 h
      obtain ⟨v, hv, h⟩ := Option.bind_eq_some_iff.1 h
      have hmem := List.sizeOf_lt_of_mem (List.mem_of_getElem? hv)
      have hle := ih h
      simp only [Value.array.sizeOf_spec]
      omega
    · rw [pointer_table] at h
      obtain ⟨v, hv, h⟩ := Option.bind_eq_some_iff.1 h
      have hlt := sizeOf_lookup hv
      have hle := ih h
      simp only [Value.table.sizeOf_spec]
      omega

end DynamicConfig.Schema
