import DynamicConfig.Config.Value
import Mathlib.Data.Int.Notation
import Mathlib.Data.Nat.Notation

/-!
# Firestore's value encoding

Firestore answers with a tagged encoding, where every value names its own type: an integer is a text
behind the tag of an integer, a list and a map stand one level deeper and are left out where they are
empty. `toJson` turns it back into the tree a configuration file would have had. A number that JSON has
no spelling for is a text as well, behind the tag of a double, and there it is taken as it is.

`Stored` is what a document can hold, `encode` how the service writes it and `plain` the tree it is to
be. `one_encode_iff` is by induction over what is stored.
-/

namespace DynamicConfig.Firestore

/-- `Value::Null`. -/
def null : Value := .scalar .empty

/-- A text. -/
def string (text : String) : Value := .scalar (.string text)

/-! ### Decoding -/

/-- A text of digits. -/
def parseDigits (digits : List Char) : Option ℕ :=
  if digits ≠ [] ∧ digits.all Char.isDigit = true then some (Nat.ofDigitChars 10 digits 0) else none

/-- A text of digits with a sign before it, or none. -/
def parseSigned : List Char → Option ℤ
  | '-' :: digits => (parseDigits digits).map fun n : ℕ ↦ -(n : ℤ)
  | '+' :: digits => (parseDigits digits).map fun n : ℕ ↦ (n : ℤ)
  | digits => (parseDigits digits).map fun n : ℕ ↦ (n : ℤ)

/-- `parse::<i64>()`. -/
def parseI64 (text : String) : Option ℤ :=
  (parseSigned text.toList).filter fun n ↦ decide (Int64.minValue.toInt ≤ n ∧ n ≤ Int64.maxValue.toInt)

/-- What stands behind the tag of an integer: a text that is an integer becomes that. -/
def integer : Value → Value
  | .scalar (.string text) =>
    match parseI64 text with
    | some n => .scalar (.int n)
    | none => .scalar (.string text)
  | inner => inner

mutual

/-- One tagged value. -/
def one : Value → Value
  | .table tagged => oneTagged tagged
  | .array _ | .scalar _ => null

/-- The first tag says what stands behind it. -/
def oneTagged : List (String × Value) → Value
  | [] => null
  | (tag, inner) :: _ =>
    if tag = "nullValue" then null
    else if tag = "booleanValue" then inner
    else if tag = "doubleValue" then inner
    else if tag = "stringValue" then inner
    else if tag = "integerValue" then integer inner
    else if tag = "arrayValue" then .array (valuesOf inner)
    else if tag = "mapValue" then .table (fieldsOf inner)
    -- A timestamp, a byte string, a reference, a geo point.
    else inner

/-- The list under `values`, decoded, or an empty one. -/
def valuesOf : Value → List Value
  | .table entries => valuesIn entries
  | .array _ | .scalar _ => []

def valuesIn : List (String × Value) → List Value
  | [] => []
  | (key, value) :: entries => if key = "values" then items value else valuesIn entries

def items : Value → List Value
  | .array values => oneItems values
  | .table _ | .scalar _ => []

def oneItems : List Value → List Value
  | [] => []
  | value :: values => one value :: oneItems values

/-- The map under `fields`, decoded, or an empty one. -/
def fieldsOf : Value → List (String × Value)
  | .table entries => fieldsIn entries
  | .array _ | .scalar _ => []

def fieldsIn : List (String × Value) → List (String × Value)
  | [] => []
  | (key, value) :: entries => if key = "fields" then entriesOf value else fieldsIn entries

/-- The entries of `to_json`: what is no map has none. -/
def entriesOf : Value → List (String × Value)
  | .table fields => oneEntries fields
  | .array _ | .scalar _ => []

def oneEntries : List (String × Value) → List (String × Value)
  | [] => []
  | (name, value) :: fields => (name, one value) :: oneEntries fields

end

/-- Turns a Firestore `fields` map into plain JSON: `to_json`. -/
def toJson (fields : Value) : Value := .table (entriesOf fields)

/-! ### What the service writes -/

/-- What a field of a document holds. -/
inductive Stored where
  | null
  | boolean (b : Bool)
  | integer (n : Int64)
  | double (bits : UInt64)
  | string (text : String)
  | array (items : List Stored)
  | map (entries : List (String × Stored))

/-- The bits of a double say that it is no finite number: its exponent is all ones. -/
def special (bits : UInt64) : Bool := (bits >>> 52) &&& 2047 == 2047

/-- What such a double is called. -/
def specialName (bits : UInt64) : String :=
  if bits &&& 0xfffffffffffff ≠ 0 then "NaN" else if bits >>> 63 = 0 then "Infinity" else "-Infinity"

/-- An integer in digits. -/
def decimal (n : ℤ) : String :=
  String.ofList (if n < 0 then '-' :: Nat.toDigits 10 n.natAbs else Nat.toDigits 10 n.natAbs)

/-- A value behind its tag. -/
def tagged (tag : String) (inner : Value) : Value := .table [(tag, inner)]

mutual

/-- How the service writes a field. What an array or a map has none of is left out. -/
def encode : Stored → Value
  | .null => tagged "nullValue" null
  | .boolean b => tagged "booleanValue" (.scalar (.bool b))
  | .integer n => tagged "integerValue" (string (decimal n.toInt))
  | .double bits =>
    tagged "doubleValue" (if special bits then string (specialName bits) else .scalar (.float bits))
  | .string text => tagged "stringValue" (string text)
  | .array [] => tagged "arrayValue" (.table [])
  | .array (item :: items) =>
    tagged "arrayValue" (.table [("values", .array (encode item :: encodeItems items))])
  | .map [] => tagged "mapValue" (.table [])
  | .map ((name, field) :: fields) =>
    tagged "mapValue" (.table [("fields", .table ((name, encode field) :: encodeFields fields))])

def encodeItems : List Stored → List Value
  | [] => []
  | item :: items => encode item :: encodeItems items

/-- The entries of a `fields` map. -/
def encodeFields : List (String × Stored) → List (String × Value)
  | [] => []
  | (name, field) :: fields => (name, encode field) :: encodeFields fields

end

mutual

/-- The tree a configuration file would have had. -/
def plain : Stored → Value
  | .null => null
  | .boolean b => .scalar (.bool b)
  | .integer n => .scalar (.int n.toInt)
  | .double bits => .scalar (.float bits)
  | .string text => string text
  | .array items => .array (plainItems items)
  | .map entries => .table (plainFields entries)

def plainItems : List Stored → List Value
  | [] => []
  | item :: items => plain item :: plainItems items

def plainFields : List (String × Stored) → List (String × Value)
  | [] => []
  | (name, field) :: fields => (name, plain field) :: plainFields fields

end

mutual

/-- No double in it is a NaN or an infinity. -/
def finite : Stored → Bool
  | .double bits => !special bits
  | .array items => finiteItems items
  | .map entries => finiteFields entries
  | .null | .boolean _ | .integer _ | .string _ => true

def finiteItems : List Stored → Bool
  | [] => true
  | item :: items => finite item && finiteItems items

def finiteFields : List (String × Stored) → Bool
  | [] => true
  | (_, field) :: fields => finite field && finiteFields fields

end

/-! ### Integers come back -/

theorem parseDigits_toDigits (n : ℕ) : parseDigits (Nat.toDigits 10 n) = some n := by
  have hdigits : ∀ c ∈ Nat.toDigits 10 n, c.isDigit = true := fun c hc ↦
    Nat.isDigit_of_mem_toDigits (by decide) (by decide) hc
  rw [parseDigits, if_pos ⟨Nat.toDigits_ne_nil, List.all_eq_true.2 hdigits⟩,
    Nat.ofDigitChars_ten_toDigits]

/-- No digit is taken for a sign. -/
theorem parseSigned_toDigits (n : ℕ) : parseSigned (Nat.toDigits 10 n) = some (n : ℤ) := by
  have hdigits : ∀ c ∈ Nat.toDigits 10 n, c.isDigit = true := fun c hc ↦
    Nat.isDigit_of_mem_toDigits (by decide) (by decide) hc
  have hsign (c : Char) (hc : c.isDigit = false) {rest : List Char} : Nat.toDigits 10 n ≠ c :: rest :=
    fun heq ↦ Bool.false_ne_true (hc.symm.trans (hdigits c (heq ▸ List.mem_cons_self)))
  rw [parseSigned.eq_def]
  split
  · next rest heq => exact absurd heq (hsign '-' (by decide))
  · next rest heq => exact absurd heq (hsign '+' (by decide))
  · rw [parseDigits_toDigits, Option.map_some]

/-- **The digits of a 64-bit integer are read as that integer**, the two ends of the range too. -/
theorem parseI64_decimal (n : Int64) : parseI64 (decimal n.toInt) = some n.toInt := by
  have hsigned : parseSigned (decimal n.toInt).toList = some n.toInt := by
    rw [decimal, String.toList_ofList]
    split_ifs with hneg
    · show (parseDigits (Nat.toDigits 10 n.toInt.natAbs)).map (fun n : ℕ ↦ -(n : ℤ)) = _
      rw [parseDigits_toDigits, Option.map_some]
      exact congrArg some (by omega)
    · rw [parseSigned_toDigits]
      exact congrArg some (by omega)
  have hrange : Int64.minValue.toInt ≤ n.toInt ∧ n.toInt ≤ Int64.maxValue.toInt :=
    ⟨n.le_toInt, Int.lt_add_one_iff.1 n.toInt_lt⟩
  rw [parseI64, hsigned, Option.filter_some, if_pos (decide_eq_true hrange)]

theorem one_integer (n : Int64) : one (encode (.integer n)) = .scalar (.int n.toInt) := by
  show integer (string (decimal n.toInt)) = _
  rw [string, integer, parseI64_decimal]

/-! ### What comes back -/

/-- A double comes back where it is a number JSON has. -/
theorem one_double_iff (bits : UInt64) :
    one (encode (.double bits)) = .scalar (.float bits) ↔ special bits = false := by
  show (if special bits = true then string (specialName bits) else .scalar (.float bits)) = _ ↔ _
  split_ifs with hspecial
  · refine iff_of_false (fun h ↦ ?_) fun h ↦ Bool.false_ne_true (h.symm.trans hspecial)
    exact Scalar.noConfusion (Value.scalar.inj h)
  · exact iff_of_true rfl (eq_false_of_ne_true hspecial)

mutual

/-- **A field comes back as it is just where no double in it is a NaN or an infinity.** -/
theorem one_encode_iff (t : Stored) : one (encode t) = plain t ↔ finite t = true := by
  match t with
  | .null => exact iff_of_true rfl rfl
  | .boolean b => exact iff_of_true rfl rfl
  | .integer n => exact iff_of_true (one_integer n) rfl
  | .double bits =>
    rw [plain, one_double_iff, finite, Bool.not_eq_true']
  | .string text => exact iff_of_true rfl rfl
  | .array [] => exact iff_of_true rfl rfl
  | .array (item :: items) =>
    show Value.array (one (encode item) :: oneItems (encodeItems items)) =
      .array (plain item :: plainItems items) ↔ (finite item && finiteItems items) = true
    rw [Value.array.injEq, List.cons.injEq, one_encode_iff item, oneItems_encodeItems_iff items,
      Bool.and_eq_true]
  | .map [] => exact iff_of_true rfl rfl
  | .map ((name, field) :: fields) =>
    show Value.table ((name, one (encode field)) :: oneEntries (encodeFields fields)) =
      .table ((name, plain field) :: plainFields fields) ↔ (finite field && finiteFields fields) = true
    rw [Value.table.injEq, List.cons.injEq, Prod.mk.injEq, one_encode_iff field,
      oneEntries_encodeFields_iff fields, Bool.and_eq_true, eq_self, true_and]

theorem oneItems_encodeItems_iff (items : List Stored) :
    oneItems (encodeItems items) = plainItems items ↔ finiteItems items = true := by
  match items with
  | [] => exact iff_of_true rfl rfl
  | item :: items =>
    rw [encodeItems, oneItems, plainItems, finiteItems, List.cons.injEq, one_encode_iff item,
      oneItems_encodeItems_iff items, Bool.and_eq_true]

theorem oneEntries_encodeFields_iff (fields : List (String × Stored)) :
    oneEntries (encodeFields fields) = plainFields fields ↔ finiteFields fields = true := by
  match fields with
  | [] => exact iff_of_true rfl rfl
  | (name, field) :: fields =>
    rw [encodeFields, oneEntries, plainFields, finiteFields, List.cons.injEq, Prod.mk.injEq,
      one_encode_iff field, oneEntries_encodeFields_iff fields, Bool.and_eq_true, eq_self, true_and]

end

/-- **A document is decoded to what was stored just where none of its doubles is a NaN or an
infinity.** -/
theorem toJson_encodeFields_iff (fields : List (String × Stored)) :
    toJson (.table (encodeFields fields)) = .table (plainFields fields) ↔
      finiteFields fields = true := by
  show Value.table (oneEntries (encodeFields fields)) = _ ↔ _
  rw [Value.table.injEq]
  exact oneEntries_encodeFields_iff fields

/-- A ratio that is a NaN comes back as a text. -/
theorem not_toJson_encodeFields_ratio :
    toJson (.table (encodeFields [("ratio", .double 0x7ff8000000000000)])) =
        .table [("ratio", string "NaN")] ∧
      ¬ ∀ fields : List (String × Stored),
        toJson (.table (encodeFields fields)) = .table (plainFields fields) := by
  refine ⟨rfl, fun h ↦ ?_⟩
  have hentry := (List.cons.inj (Value.table.inj (h [("ratio", .double 0x7ff8000000000000)]))).1
  exact Scalar.noConfusion (Value.scalar.inj (Prod.mk.inj hentry).2)

end DynamicConfig.Firestore
