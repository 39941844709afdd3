import DynamicConfig.Tree.Sorted
import DynamicConfig.Values.Document

/-!
# The two roads into a value

A value comes out of figment's tree in two ways: by `from_figment`, which walks the tree, and through
serde, where figment's deserializer calls `AnyValue` with what it finds and the visitor makes a value of
it. There are two ways out as well: `to_figment` back into the tree, and `Serialize`. They were written
one by one, over fourteen widths of numbers.

Here the numbers have their widths, other than in `Node.fromFigment`, which forgets them
(`forget_fromFigment` says that nothing else is lost by that). What figment's deserializer calls is not in
the source. `SelfDescribing` is what is relied on: that a number is handed over as that number, of
whatever width, and everything else as what it is.

A whole number that is handed over becomes the same value whatever its width (`Call.visit_of_whole`), and
so does one that is walked over (`Num.fromFigment_of_whole`). That is all the two roads have to agree on;
the rest is an induction over the tree (`roads_agree`).
-/

namespace DynamicConfig.Roads

/-! ### Numbers -/

/-- The bits of `f64::from(n)`: the same number, with the bias of the exponent changed, and a number below
the smallest normal one shifted until its leading bit is hidden. -/
def widenFloat (bits : UInt32) : UInt64 :=
  let n := bits.toNat
  let sign := n / 2 ^ 31 * 2 ^ 63
  let exponent := n / 2 ^ 23 % 2 ^ 8
  let fraction := n % 2 ^ 23
  let top := Nat.log2 fraction
  if exponent = 255 then
    -- infinity, or no number, which comes out quiet
    let quiet := if fraction = 0 then 0 else 2 ^ 51
    UInt64.ofNat (sign + 2047 * 2 ^ 52 + (fraction * 2 ^ 29 ||| quiet))
  else if exponent = 0 then
    if fraction = 0 then UInt64.ofNat sign
    else UInt64.ofNat (sign + (top + 874) * 2 ^ 52 + (fraction - 2 ^ top) * 2 ^ (52 - top))
  else UInt64.ofNat (sign + (exponent + 896) * 2 ^ 52 + fraction * 2 ^ 29)

example : widenFloat 0x3fc00000 = 0x3ff8000000000000 := by decide

/-- `figment::value::Num`. Those of 128 bits are read with a sign or without. -/
inductive Num where
  | u8 (n : UInt8)
  | u16 (n : UInt16)
  | u32 (n : UInt32)
  | u64 (n : UInt64)
  | u128 (n : BitVec 128)
  | usize (n : USize)
  | i8 (n : Int8)
  | i16 (n : Int16)
  | i32 (n : Int32)
  | i64 (n : Int64)
  | i128 (n : BitVec 128)
  | isize (n : ISize)
  | f32 (bits : UInt32)
  | f64 (bits : UInt64)

/-- The whole number a number is. -/
def Num.whole : Num → Option ℤ
  | u8 n => some n.toNat
  | u16 n => some n.toNat
  | u32 n => some n.toNat
  | u64 n => some n.toNat
  | u128 n => some n.toNat
  | usize n => some n.toNat
  | i8 n => some n.toInt
  | i16 n => some n.toInt
  | i32 n => some n.toInt
  | i64 n => some n.toInt
  | i128 n => some n.toInt
  | isize n => some n.toInt
  | f32 _ | f64 _ => none

/-- The bits of a float. -/
def Num.float : Num → Option UInt64
  | f32 bits => some (widenFloat bits)
  | f64 bits => some bits
  | _ => none

/-- `i128::from` and `as i128`, from a type whose numbers all fit. -/
def widened (k : ℤ) : BitVec 128 := BitVec.ofInt 128 k

/-- `i64::try_from`. -/
def tryInt64 (n : BitVec 128) : Option Int64 :=
  if -2 ^ 63 ≤ n.toInt ∧ n.toInt < 2 ^ 63 then some (Int64.ofInt n.toInt) else none

/-- `u64::try_from`. -/
def tryUInt64 (n : BitVec 128) : Option UInt64 :=
  if 0 ≤ n.toInt ∧ n.toInt < 2 ^ 64 then some (UInt64.ofNat n.toInt.toNat) else none

/-- `i128::try_from`, of a number without a sign. -/
def tryInt128 (n : BitVec 128) : Option (BitVec 128) :=
  if n.toNat < 2 ^ 127 then some n else none

/-! ### Trees -/

/-- `figment::value::Empty`. -/
inductive Empty where
  | none
  | unit

/-- `figment::value::Value`. A table is a map, its entries in the order of their keys. -/
inductive Figment (Tag : Type) where
  | string (tag : Tag) (text : String)
  | char (tag : Tag) (character : Char)
  | bool (tag : Tag) (boolean : Bool)
  | num (tag : Tag) (number : Num)
  | empty (tag : Tag) (empty : Empty)
  | dict (tag : Tag) (entries : List (String × Figment Tag))
  | array (tag : Tag) (items : List (Figment Tag))

/-- The crate's `Value`. -/
inductive Value where
  | null
  | bool (boolean : Bool)
  | integer (number : BitVec 128)
  | float (bits : UInt64)
  | string (text : String)
  | array (items : List Value)
  | table (entries : List (String × Value))

/-- What a deserializer calls of its visitor, with all that the visitor will ask it for. -/
inductive Call where
  | bool (boolean : Bool)
  | i8 (n : Int8)
  | i16 (n : Int16)
  | i32 (n : Int32)
  | i64 (n : Int64)
  | i128 (n : BitVec 128)
  | u8 (n : UInt8)
  | u16 (n : UInt16)
  | u32 (n : UInt32)
  | u64 (n : UInt64)
  | u128 (n : BitVec 128)
  | f32 (bits : UInt32)
  | f64 (bits : UInt64)
  | char (character : Char)
  | str (text : String)
  | string (text : String)
  | unit
  | none
  | some (inner : Call)
  | newtypeStruct (inner : Call)
  | seq (items : List Call)
  | map (entries : List (String × Call))

/-- Collecting pairs into a map, one insertion after the other. -/
def collect {α : Type} (entries : List (String × α)) : List (String × α) :=
  entries.foldl (fun table e ↦ Entries.put e.1 e.2 table) []

/-! ### In by the walk -/

/-- The arm of `from_figment` for numbers. -/
def Num.fromFigment : Num → Value
  | u8 n => .integer (widened n.toNat)
  | u16 n => .integer (widened n.toNat)
  | u32 n => .integer (widened n.toNat)
  | u64 n => .integer (widened n.toNat)
  | usize n => .integer (widened n.toNat)
  | u128 n =>
    match tryInt128 n with
    | some n => .integer n
    | none => .float (wideFloat n.toNat)
  | i8 n => .integer (widened n.toInt)
  | i16 n => .integer (widened n.toInt)
  | i32 n => .integer (widened n.toInt)
  | i64 n => .integer (widened n.toInt)
  | isize n => .integer (widened n.toInt)
  | i128 n => .integer n
  | f32 bits => .float (widenFloat bits)
  | f64 bits => .float bits

mutual

/-- `from_figment`. -/
def fromFigment {Tag : Type} : Figment Tag → Value
  | .string _ text => .string text
  | .char _ character => .string (String.singleton character)
  | .bool _ boolean => .bool boolean
  | .num _ number => number.fromFigment
  | .empty _ _ => .null
  | .dict _ entries => .table (collect (fromFigmentEntries entries))
  | .array _ items => .array (fromFigmentItems items)

def fromFigmentEntries {Tag : Type} : List (String × Figment Tag) → List (String × Value)
  | [] => []
  | (key, value) :: entries => (key, fromFigment value) :: fromFigmentEntries entries

def fromFigmentItems {Tag : Type} : List (Figment Tag) → List Value
  | [] => []
  | item :: items => fromFigment item :: fromFigmentItems items

end

/-! ### In through serde -/

namespace AnyValue

def visitI64 (n : Int64) : Value := .integer (widened n.toInt)

def visitU64 (n : UInt64) : Value := .integer (widened n.toNat)

def visitU128 (n : BitVec 128) : Value :=
  match tryInt128 n with
  | some n => .integer n
  | none => .float (wideFloat n.toNat)

def visitF64 (bits : UInt64) : Value := .float bits

end AnyValue

mutual

/-- The visitor `AnyValue`. A number of a width it does not name goes to the one serde widens it to. -/
def Call.visit : Call → Value
  | .bool boolean => .bool boolean
  | .i8 n => AnyValue.visitI64 (Int64.ofInt n.toInt)
  | .i16 n => AnyValue.visitI64 (Int64.ofInt n.toInt)
  | .i32 n => AnyValue.visitI64 (Int64.ofInt n.toInt)
  | .i64 n => AnyValue.visitI64 n
  | .i128 n => .integer n
  | .u8 n => AnyValue.visitU64 (UInt64.ofNat n.toNat)
  | .u16 n => AnyValue.visitU64 (UInt64.ofNat n.toNat)
  | .u32 n => AnyValue.visitU64 (UInt64.ofNat n.toNat)
  | .u64 n => AnyValue.visitU64 n
  | .u128 n => AnyValue.visitU128 n
  | .f32 bits => AnyValue.visitF64 (widenFloat bits)
  | .f64 bits => AnyValue.visitF64 bits
  | .char character => .string (String.singleton character)
  | .str text => .string text
  | .string text => .string text
  | .unit => .null
  | .none => .null
  | .some inner => inner.visit
  | .newtypeStruct inner => inner.visit
  | .seq items => .array (Call.visitItems items)
  | .map entries => .table (collect (Call.visitEntries entries))

def Call.visitItems : List Call → List Value
  | [] => []
  | item :: items => item.visit :: Call.visitItems items

def Call.visitEntries : List (String × Call) → List (String × Value)
  | [] => []
  | (key, value) :: entries => (key, value.visit) :: Call.visitEntries entries

end

/-- `Value::deserialize`, of a figment tree whose deserializer makes the call. -/
def deserialize {Tag : Type} (deserializeAny : Figment Tag → Call) (value : Figment Tag) : Value :=
  (deserializeAny value).visit

/-- The whole number a call hands over. -/
def wholeHanded : Call → Option ℤ
  | .i8 n => some n.toInt
  | .i16 n => some n.toInt
  | .i32 n => some n.toInt
  | .i64 n => some n.toInt
  | .i128 n => some n.toInt
  | .u8 n => some n.toNat
  | .u16 n => some n.toNat
  | .u32 n => some n.toNat
  | .u64 n => some n.toNat
  | .u128 n => some n.toNat
  | _ => none

/-- The float a call hands over. -/
def floatHanded : Call → Option UInt64
  | .f32 bits => some (widenFloat bits)
  | .f64 bits => some bits
  | _ => none

/-- What figment's deserializer calls: for everything the visitor's function for it, with what is there. A
number may come in another width. -/
structure SelfDescribing {Tag : Type} (deserializeAny : Figment Tag → Call) : Prop where
  string : ∀ tag text, deserializeAny (.string tag text) = .str text
  char : ∀ tag character, deserializeAny (.char tag character) = .char character
  bool : ∀ tag boolean, deserializeAny (.bool tag boolean) = .bool boolean
  whole : ∀ tag number k, number.whole = some k →
    wholeHanded (deserializeAny (.num tag number)) = some k
  float : ∀ tag number bits, number.float = some bits →
    floatHanded (deserializeAny (.num tag number)) = some bits
  none : ∀ tag, deserializeAny (.empty tag .none) = .none
  unit : ∀ tag, deserializeAny (.empty tag .unit) = .unit
  dict : ∀ tag entries,
    deserializeAny (.dict tag entries) = .map (entries.map fun e ↦ (e.1, deserializeAny e.2))
  array : ∀ tag items, deserializeAny (.array tag items) = .seq (items.map deserializeAny)

/-! ### The roads out -/

/-- The arm of `to_figment` for integers: signed first, then without a sign, then as wide as it is. -/
def narrowed (number : BitVec 128) : Num :=
  match tryInt64 number with
  | some signed => .i64 signed
  | none =>
    match tryUInt64 number with
    | some unsigned => .u64 unsigned
    | none => .i128 number

mutual

/-- `to_figment`. Every tag is the default one. -/
def toFigment {Tag : Type} [Inhabited Tag] : Value → Figment Tag
  | .null => .empty default .none
  | .bool boolean => .bool default boolean
  | .integer number => .num default (narrowed number)
  | .float bits => .num default (.f64 bits)
  | .string text => .string default text
  | .array items => .array default (toFigmentItems items)
  | .table entries => .dict default (collect (toFigmentEntries entries))

def toFigmentItems {Tag : Type} [Inhabited Tag] : List Value → List (Figment Tag)
  | [] => []
  | item :: items => toFigment item :: toFigmentItems items

def toFigmentEntries {Tag : Type} [Inhabited Tag] :
    List (String × Value) → List (String × Figment Tag)
  | [] => []
  | (key, value) :: entries => (key, toFigment value) :: toFigmentEntries entries

end

mutual

/-- `Serialize`, as what a deserializer over it calls: each call of the serializer is one of the
visitor. -/
def serialize : Value → Call
  | .null => .unit
  | .bool boolean => .bool boolean
  | .integer number =>
    match tryInt64 number, tryUInt64 number with
    | some signed, _ => .i64 signed
    | none, some unsigned => .u64 unsigned
    | none, none => .i128 number
  | .float bits => .f64 bits
  | .string text => .str text
  | .array items => .seq (serializeItems items)
  | .table entries => .map (serializeEntries entries)

def serializeItems : List Value → List Call
  | [] => []
  | item :: items => serialize item :: serializeItems items

def serializeEntries : List (String × Value) → List (String × Call)
  | [] => []
  | (key, value) :: entries => (key, serialize value) :: serializeEntries entries

end

mutual

/-- Every table is a map: no key comes twice, and the entries are in the order of their keys. -/
def Value.Ordered : Value → Prop
  | .null | .bool _ | .integer _ | .float _ | .string _ => True
  | .array items => Value.OrderedItems items
  | .table entries => (entries.map Prod.fst).Pairwise (· < ·) ∧ Value.OrderedEntries entries

def Value.OrderedItems : List Value → Prop
  | [] => True
  | item :: items => item.Ordered ∧ Value.OrderedItems items

def Value.OrderedEntries : List (String × Value) → Prop
  | [] => True
  | (_, value) :: entries => value.Ordered ∧ Value.OrderedEntries entries

end

/-! ### Whole numbers -/

/-- A whole number as a value: an integer, or a float from `2 ^ 127` on. -/
def ofWhole (k : ℤ) : Value :=
  if k < 2 ^ 127 then .integer (widened k) else .float (wideFloat k.toNat)

theorem ofWhole_of_lt {k : ℤ} (h : k < 2 ^ 127) : ofWhole k = .integer (widened k) := if_pos h

theorem widened_toInt (n : BitVec 128) : widened n.toInt = n := BitVec.ofInt_toInt

theorem ofWhole_toInt (n : BitVec 128) : ofWhole n.toInt = .integer n := by
  have hlt : n.toInt < 2 ^ 127 := BitVec.toInt_lt
  rw [ofWhole_of_lt hlt, widened_toInt]

theorem visitI64_ofInt {k : ℤ} (low : -2 ^ 63 ≤ k) (high : k < 2 ^ 63) :
    AnyValue.visitI64 (Int64.ofInt k) = ofWhole k := by
  rw [AnyValue.visitI64, Int64.toInt_ofInt_of_le low high, ofWhole_of_lt (by omega)]

theorem visitU64_ofNat {k : ℕ} (high : k < 2 ^ 64) :
    AnyValue.visitU64 (UInt64.ofNat k) = ofWhole k := by
  rw [AnyValue.visitU64, UInt64.toNat_ofNat_of_lt' high, ofWhole_of_lt (by omega)]

theorem visitU128_eq (n : BitVec 128) : AnyValue.visitU128 n = ofWhole n.toNat := by
  rw [AnyValue.visitU128, tryInt128, ofWhole]
  by_cases hlt : n.toNat < 2 ^ 127
  · have hint : (n.toNat : ℤ) < 2 ^ 127 := by omega
    have hwide : widened n.toNat = n := by
      rw [widened, BitVec.ofInt_natCast, BitVec.ofNat_toNat, BitVec.setWidth_eq]
    rw [if_pos hlt, if_pos hint, hwide]
  · have hint : ¬ (n.toNat : ℤ) < 2 ^ 127 := by omega
    rw [if_neg hlt, if_neg hint, Int.toNat_natCast]

/-- **The width of a number does not matter to the walk.** -/
theorem Num.fromFigment_of_whole {number : Num} {k : ℤ} (h : number.whole = some k) :
    number.fromFigment = ofWhole k := by
  cases number with
  | u8 n | u16 n | u32 n | u64 n | usize n =>
    obtain rfl := Option.some_inj.1 h
    have := n.toNat_lt
    exact (ofWhole_of_lt (by omega)).symm
  | u128 n =>
    obtain rfl := Option.some_inj.1 h
    exact visitU128_eq n
  | i8 n | i16 n | i32 n | i64 n | isize n =>
    obtain rfl := Option.some_inj.1 h
    have := n.toInt_lt
    exact (ofWhole_of_lt (by omega)).symm
  | i128 n =>
    obtain rfl := Option.some_inj.1 h
    exact (ofWhole_toInt n).symm
  | f32 _ | f64 _ => exact absurd h.symm (Option.some_ne_none k)

theorem Num.fromFigment_of_float {number : Num} {bits : UInt64} (h : number.float = some bits) :
    number.fromFigment = .float bits := by
  cases number with
  | f32 _ | f64 _ =>
    obtain rfl := Option.some_inj.1 h
    rfl
  | _ => exact absurd h.symm (Option.some_ne_none bits)

/-- A number is a whole one or a float. -/
theorem Num.whole_or_float (number : Num) :
    (∃ k, number.whole = some k) ∨ ∃ bits, number.float = some bits := by
  cases number with
  | f32 _ | f64 _ => exact .inr ⟨_, rfl⟩
  | _ => exact .inl ⟨_, rfl⟩

/-- **Nor does it matter to the visitor.** -/
theorem visit_of_wholeHanded {call : Call} {k : ℤ} (h : wholeHanded call = some k) :
    call.visit = ofWhole k := by
  cases call with
  | i8 n | i16 n | i32 n =>
    obtain rfl := Option.some_inj.1 h
    have := n.le_toInt
    have := n.toInt_lt
    rw [Call.visit, visitI64_ofInt (by omega) (by omega)]
  | i64 n =>
    obtain rfl := Option.some_inj.1 h
    have := n.toInt_lt
    rw [Call.visit, AnyValue.visitI64, ofWhole_of_lt (by omega)]
  | i128 n =>
    obtain rfl := Option.some_inj.1 h
    rw [Call.visit, ofWhole_toInt]
  | u8 n | u16 n | u32 n =>
    obtain rfl := Option.some_inj.1 h
    have := n.toNat_lt
    rw [Call.visit, visitU64_ofNat (by omega)]
  | u64 n =>
    obtain rfl := Option.some_inj.1 h
    have := n.toNat_lt
    rw [Call.visit, AnyValue.visitU64, ofWhole_of_lt (by omega)]
  | u128 n =>
    obtain rfl := Option.some_inj.1 h
    rw [Call.visit, visitU128_eq]
  | _ => exact absurd h.symm (Option.some_ne_none k)

theorem visit_of_floatHanded {call : Call} {bits : UInt64} (h : floatHanded call = some bits) :
    call.visit = .float bits := by
  cases call with
  | f32 _ | f64 _ =>
    obtain rfl := Option.some_inj.1 h
    rw [Call.visit, AnyValue.visitF64]
  | _ => exact absurd h.symm (Option.some_ne_none bits)

/-- Narrowing leaves the number as it is. -/
theorem whole_narrowed (number : BitVec 128) : (narrowed number).whole = some number.toInt := by
  rw [narrowed, tryInt64]
  by_cases hsigned : -2 ^ 63 ≤ number.toInt ∧ number.toInt < 2 ^ 63
  · rw [if_pos hsigned]
    exact congrArg some (Int64.toInt_ofInt_of_le hsigned.1 hsigned.2)
  · rw [if_neg hsigned, tryUInt64]
    by_cases hunsigned : 0 ≤ number.toInt ∧ number.toInt < 2 ^ 64
    · rw [if_pos hunsigned]
      have hnat : number.toInt.toNat < UInt64.size := by
        have hsize : UInt64.size = 2 ^ 64 := rfl
        omega
      show some (((UInt64.ofNat number.toInt.toNat).toNat : ℕ) : ℤ) = _
      rw [UInt64.toNat_ofNat_of_lt' hnat, Int.toNat_of_nonneg hunsigned.1]
    · rw [if_neg hunsigned]
      rfl

/-! ### Tables -/

/-- Collecting the pairs of a map, in the order of its keys, changes nothing. -/
theorem collect_eq_self {α : Type} {entries : List (String × α)}
    (h : (entries.map Prod.fst).Pairwise (· < ·)) : collect entries = entries := by
  refine Entries.eq_of_lookup_eq (Entries.pairwise_foldl_put List.Pairwise.nil entries) h fun k ↦ ?_
  rw [collect, Entries.lookup_foldl_put, Entries.lookup_reverse (Entries.nodup_of_pairwise h)]
  exact Option.or_none ..

theorem map_fst_toFigmentEntries {Tag : Type} [Inhabited Tag] (entries : List (String × Value)) :
    (toFigmentEntries entries : List (String × Figment Tag)).map Prod.fst = entries.map Prod.fst := by
  induction entries with
  | nil => rw [toFigmentEntries, List.map_nil, List.map_nil]
  | cons e entries ih =>
    obtain ⟨key, value⟩ := e
    rw [toFigmentEntries, List.map_cons, List.map_cons, ih]

/-! ### The two roads in -/

section In

variable {Tag : Type} {deserializeAny : Figment Tag → Call}

mutual

/-- **What is handed over becomes what is walked over.** By induction on the tree. -/
theorem deserialize_eq (h : SelfDescribing deserializeAny) (value : Figment Tag) :
    deserialize deserializeAny value = fromFigment value := by
  cases value with
  | string tag text => rw [deserialize, h.string, Call.visit, fromFigment]
  | char tag character => rw [deserialize, h.char, Call.visit, fromFigment]
  | bool tag boolean => rw [deserialize, h.bool, Call.visit, fromFigment]
  | num tag number =>
    rw [deserialize, fromFigment]
    rcases number.whole_or_float with ⟨k, hk⟩ | ⟨bits, hbits⟩
    · rw [visit_of_wholeHanded (h.whole tag number k hk), Num.fromFigment_of_whole hk]
    · rw [visit_of_floatHanded (h.float tag number bits hbits), Num.fromFigment_of_float hbits]
  | empty tag empty =>
    rw [deserialize, fromFigment]
    cases empty with
    | none => rw [h.none, Call.visit]
    | unit => rw [h.unit, Call.visit]
  | dict tag entries =>
    rw [deserialize, h.dict, Call.visit, fromFigment, visitEntries_eq h entries]
  | array tag items =>
    rw [deserialize, h.array, Call.visit, fromFigment, visitItems_eq h items]

theorem visitEntries_eq (h : SelfDescribing deserializeAny) (entries : List (String × Figment Tag)) :
    Call.visitEntries (entries.map fun e ↦ (e.1, deserializeAny e.2)) = fromFigmentEntries entries := by
  match entries with
  | [] => rw [List.map_nil, Call.visitEntries, fromFigmentEntries]
  | (key, value) :: entries =>
    have hvalue := deserialize_eq h value
    rw [deserialize] at hvalue
    rw [List.map_cons, Call.visitEntries, fromFigmentEntries, hvalue, visitEntries_eq h entries]

theorem visitItems_eq (h : SelfDescribing deserializeAny) (items : List (Figment Tag)) :
    Call.visitItems (items.map deserializeAny) = fromFigmentItems items := by
  match items with
  | [] => rw [List.map_nil, Call.visitItems, fromFigmentItems]
  | item :: items =>
    have hitem := deserialize_eq h item
    rw [deserialize] at hitem
    rw [List.map_cons, Call.visitItems, fromFigmentItems, hitem, visitItems_eq h items]

end

end In

/-! ### Out and in again -/

section Out

variable {Tag : Type} [Inhabited Tag]

mutual

/-- **A value comes back from figment's tree.** -/
theorem fromFigment_toFigment (v : Value) (h : v.Ordered) :
    fromFigment (toFigment v : Figment Tag) = v := by
  cases v with
  | null => rw [toFigment, fromFigment]
  | bool boolean => rw [toFigment, fromFigment]
  | integer number =>
    rw [toFigment, fromFigment, Num.fromFigment_of_whole (whole_narrowed number), ofWhole_toInt]
  | float bits => rw [toFigment, fromFigment, Num.fromFigment]
  | string text => rw [toFigment, fromFigment]
  | array items =>
    rw [Value.Ordered] at h
    rw [toFigment, fromFigment, fromFigmentItems_toFigmentItems items h]
  | table entries =>
    rw [Value.Ordered] at h
    have hkeys : ((toFigmentEntries entries : List (String × Figment Tag)).map Prod.fst).Pairwise
        (· < ·) := by
      rw [map_fst_toFigmentEntries]
      exact h.1
    rw [toFigment, fromFigment, collect_eq_self hkeys,
      fromFigmentEntries_toFigmentEntries entries h.2, collect_eq_self h.1]

theorem fromFigmentItems_toFigmentItems (items : List Value) (h : Value.OrderedItems items) :
    fromFigmentItems (toFigmentItems items : List (Figment Tag)) = items := by
  match items, h with
  | [], _ => rw [toFigmentItems, fromFigmentItems]
  | item :: items, h =>
    rw [Value.OrderedItems] at h
    rw [toFigmentItems, fromFigmentItems, fromFigment_toFigment item h.1,
      fromFigmentItems_toFigmentItems items h.2]

theorem fromFigmentEntries_toFigmentEntries (entries : List (String × Value))
    (h : Value.OrderedEntries entries) :
    fromFigmentEntries (toFigmentEntries entries : List (String × Figment Tag)) = entries := by
  match entries, h with
  | [], _ => rw [toFigmentEntries, fromFigmentEntries]
  | (key, value) :: entries, h =>
    rw [Value.OrderedEntries] at h
    rw [toFigmentEntries, fromFigmentEntries, fromFigment_toFigment value h.1,
      fromFigmentEntries_toFigmentEntries entries h.2]

end

end Out

/-- What `Serialize` hands over for an integer is that integer. -/
theorem wholeHanded_serialize (number : BitVec 128) :
    wholeHanded (serialize (.integer number)) = some number.toInt := by
  have hnarrowed := whole_narrowed number
  rw [narrowed] at hnarrowed
  rw [serialize]
  rcases hsigned : tryInt64 number with - | signed
  · rw [hsigned] at hnarrowed
    rcases hunsigned : tryUInt64 number with - | unsigned
    · rfl
    · rw [hunsigned] at hnarrowed
      exact hnarrowed
  · rw [hsigned] at hnarrowed
    exact hnarrowed

mutual

/-- **A value comes back from what it serializes to.** -/
theorem visit_serialize (v : Value) (h : v.Ordered) : (serialize v).visit = v := by
  cases v with
  | null => rw [serialize, Call.visit]
  | bool boolean => rw [serialize, Call.visit]
  | integer number => rw [visit_of_wholeHanded (wholeHanded_serialize number), ofWhole_toInt]
  | float bits => rw [serialize, Call.visit, AnyValue.visitF64]
  | string text => rw [serialize, Call.visit]
  | array items =>
    rw [Value.Ordered] at h
    rw [serialize, Call.visit, visitItems_serializeItems items h]
  | table entries =>
    rw [Value.Ordered] at h
    rw [serialize, Call.visit, visitEntries_serializeEntries entries h.2, collect_eq_self h.1]

theorem visitItems_serializeItems (items : List Value) (h : Value.OrderedItems items) :
    Call.visitItems (serializeItems items) = items := by
  match items, h with
  | [], _ => rw [serializeItems, Call.visitItems]
  | item :: items, h =>
    rw [Value.OrderedItems] at h
    rw [serializeItems, Call.visitItems, visit_serialize item h.1,
      visitItems_serializeItems items h.2]

theorem visitEntries_serializeEntries (entries : List (String × Value))
    (h : Value.OrderedEntries entries) : Call.visitEntries (serializeEntries entries) = entries := by
  match entries, h with
  | [], _ => rw [serializeEntries, Call.visitEntries]
  | (key, value) :: entries, h =>
    rw [Value.OrderedEntries] at h
    rw [serializeEntries, Call.visitEntries, visit_serialize value h.1,
      visitEntries_serializeEntries entries h.2]

end

/-- **The two roads into a value agree, and the roads out are their inverses**: whatever figment's
deserializer calls for the numbers of a tree, as long as it says what is there. -/
theorem roads_agree {Tag : Type} [Inhabited Tag] {deserializeAny : Figment Tag → Call}
    (h : SelfDescribing deserializeAny) :
    (∀ value, deserialize deserializeAny value = fromFigment value) ∧
      (∀ v : Value, v.Ordered → fromFigment (toFigment v : Figment Tag) = v) ∧
      ∀ v : Value, v.Ordered → (serialize v).visit = v :=
  ⟨deserialize_eq h, fromFigment_toFigment, visit_serialize⟩

/-! ### A deserializer -/

/-- The call for a number, of its own width, and of 64 bits for the two whose width is the machine's. -/
def Num.call : Num → Call
  | u8 n => .u8 n
  | u16 n => .u16 n
  | u32 n => .u32 n
  | u64 n => .u64 n
  | u128 n => .u128 n
  | usize n => .u64 (UInt64.ofNat n.toNat)
  | i8 n => .i8 n
  | i16 n => .i16 n
  | i32 n => .i32 n
  | i64 n => .i64 n
  | i128 n => .i128 n
  | isize n => .i64 (Int64.ofInt n.toInt)
  | f32 bits => .f32 bits
  | f64 bits => .f64 bits

mutual

/-- A deserializer that is self-describing. -/
def deserializeAny {Tag : Type} : Figment Tag → Call
  | .string _ text => .str text
  | .char _ character => .char character
  | .bool _ boolean => .bool boolean
  | .num _ number => number.call
  | .empty _ .none => .none
  | .empty _ .unit => .unit
  | .dict _ entries => .map (deserializeEntries entries)
  | .array _ items => .seq (deserializeItems items)

def deserializeEntries {Tag : Type} : List (String × Figment Tag) → List (String × Call)
  | [] => []
  | (key, value) :: entries => (key, deserializeAny value) :: deserializeEntries entries

def deserializeItems {Tag : Type} : List (Figment Tag) → List Call
  | [] => []
  | item :: items => deserializeAny item :: deserializeItems items

end

theorem wholeHanded_call {number : Num} {k : ℤ} (h : number.whole = some k) :
    wholeHanded number.call = some k := by
  cases number with
  | usize n =>
    rw [← h]
    show some (((UInt64.ofNat n.toNat).toNat : ℕ) : ℤ) = some (n.toNat : ℤ)
    rw [UInt64.toNat_ofNat_of_lt' n.toNat_lt]
  | isize n =>
    rw [← h]
    exact congrArg some (Int64.toInt_ofInt_of_le n.le_toInt n.toInt_lt)
  | _ => exact h

theorem selfDescribing_deserializeAny {Tag : Type} :
    SelfDescribing (deserializeAny : Figment Tag → Call) where
  string tag text := by rw [deserializeAny]
  char tag character := by rw [deserializeAny]
  bool tag boolean := by rw [deserializeAny]
  whole tag number k h := by
    rw [deserializeAny]
    exact wholeHanded_call h
  float tag number bits h := by
    rw [deserializeAny]
    cases number with
    | f32 _ | f64 _ => exact h
    | _ => exact absurd h.symm (Option.some_ne_none bits)
  none tag := by rw [deserializeAny]
  unit tag := by rw [deserializeAny]
  dict tag entries := by
    rw [deserializeAny]
    congr 1
    induction entries with
    | nil => rw [deserializeEntries, List.map_nil]
    | cons e entries ih =>
      obtain ⟨key, value⟩ := e
      rw [deserializeEntries, List.map_cons, ih]
  array tag items := by
    rw [deserializeAny]
    congr 1
    induction items with
    | nil => rw [deserializeItems, List.map_nil]
    | cons item items ih => rw [deserializeItems, List.map_cons, ih]

/-- A table with numbers at the edges: the least of 128 bits, and the first that is a float. -/
def edges : Figment Unit :=
  .dict () [("high", .num () (.u128 (BitVec.ofNat 128 (2 ^ 127)))),
    ("low", .array () [.num () (.i128 (BitVec.ofInt 128 (-2 ^ 127))), .char () 'a', .empty () .unit])]

theorem roads_agree_edges :
    deserialize deserializeAny edges = fromFigment edges ∧
      fromFigment (toFigment (.table [("port", .integer 5432)]) : Figment Unit) =
        .table [("port", .integer 5432)] := by
  have hordered : Value.Ordered (.table [("port", .integer 5432)]) := by
    rw [Value.Ordered, Value.OrderedEntries, Value.OrderedEntries, Value.Ordered]
    exact ⟨List.pairwise_singleton _ _, trivial, trivial⟩
  have hdescribing : SelfDescribing (deserializeAny : Figment Unit → Call) :=
    selfDescribing_deserializeAny
  have hagree := roads_agree hdescribing
  exact ⟨hagree.1 edges, hagree.2.1 _ hordered⟩

/-! ### Without the widths -/

section Forget

variable {Tag : Type}

/-- A number, when its width is forgotten. -/
def Num.scalar (number : Num) : Scalar :=
  match number.whole with
  | some k => .int k
  | none => .float (number.float.getD 0)

mutual

/-- The crate's value, when the widths are forgotten. -/
def Value.forget : Value → DynamicConfig.Value
  | .null => .scalar .empty
  | .bool boolean => .scalar (.bool boolean)
  | .integer number => .scalar (.int number.toInt)
  | .float bits => .scalar (.float bits)
  | .string text => .scalar (.string text)
  | .array items => .array (Value.forgetItems items)
  | .table entries => .table (Value.forgetEntries entries)

def Value.forgetItems : List Value → List DynamicConfig.Value
  | [] => []
  | item :: items => item.forget :: Value.forgetItems items

def Value.forgetEntries : List (String × Value) → List (String × DynamicConfig.Value)
  | [] => []
  | (key, value) :: entries => (key, value.forget) :: Value.forgetEntries entries

end

mutual

/-- An item of an array of figment's tree, whose tags nothing looks at. -/
def Figment.item : Figment Tag → DynamicConfig.Value
  | .string _ text => .scalar (.string text)
  | .char _ character => .scalar (.char character)
  | .bool _ boolean => .scalar (.bool boolean)
  | .num _ number => .scalar number.scalar
  | .empty _ _ => .scalar .empty
  | .dict _ entries => .table (Figment.entriesOf entries)
  | .array _ items => .array (Figment.itemsOf items)

def Figment.itemsOf : List (Figment Tag) → List DynamicConfig.Value
  | [] => []
  | item :: items => item.item :: Figment.itemsOf items

def Figment.entriesOf : List (String × Figment Tag) → List (String × DynamicConfig.Value)
  | [] => []
  | (key, value) :: entries => (key, value.item) :: Figment.entriesOf entries

end

mutual

/-- figment's tree, when the widths are forgotten. -/
def Figment.forget (label : Tag → Option Metadata) : Figment Tag → Node
  | .string tag text => .leaf (label tag) (.scalar (.string text))
  | .char tag character => .leaf (label tag) (.scalar (.char character))
  | .bool tag boolean => .leaf (label tag) (.scalar (.bool boolean))
  | .num tag number => .leaf (label tag) (.scalar number.scalar)
  | .empty tag _ => .leaf (label tag) (.scalar .empty)
  | .dict tag entries => .node (label tag) (Figment.forgetEntries label entries)
  | .array tag items => .leaf (label tag) (.array (Figment.itemsOf items))

def Figment.forgetEntries (label : Tag → Option Metadata) : List (String × Figment Tag) → Dict
  | [] => []
  | (key, value) :: entries => (key, value.forget label) :: Figment.forgetEntries label entries

end

mutual

/-- Every table of figment's tree is a map. -/
def Figment.Ordered : Figment Tag → Prop
  | .string _ _ | .char _ _ | .bool _ _ | .num _ _ | .empty _ _ => True
  | .dict _ entries => (entries.map Prod.fst).Pairwise (· < ·) ∧ Figment.OrderedEntries entries
  | .array _ items => Figment.OrderedItems items

def Figment.OrderedItems : List (Figment Tag) → Prop
  | [] => True
  | item :: items => item.Ordered ∧ Figment.OrderedItems items

def Figment.OrderedEntries : List (String × Figment Tag) → Prop
  | [] => True
  | (_, value) :: entries => value.Ordered ∧ Figment.OrderedEntries entries

end

/-- No number is below the least of 128 bits. -/
theorem Num.le_whole {number : Num} {k : ℤ} (h : number.whole = some k) : -2 ^ 127 ≤ k := by
  cases number with
  | u8 n | u16 n | u32 n | u64 n | u128 n | usize n =>
    obtain rfl := Option.some_inj.1 h
    omega
  | i8 n | i16 n | i32 n | i64 n | isize n =>
    obtain rfl := Option.some_inj.1 h
    have := n.le_toInt
    omega
  | i128 n =>
    obtain rfl := Option.some_inj.1 h
    exact BitVec.le_toInt n
  | f32 _ | f64 _ => exact absurd h.symm (Option.some_ne_none k)

theorem forget_ofWhole {k : ℤ} (low : -2 ^ 127 ≤ k) :
    (ofWhole k).forget = .scalar (Scalar.int k).fromFigment := by
  rw [ofWhole, Scalar.fromFigment]
  by_cases hlt : k < 2 ^ 127
  · have hwide : (widened k).toInt = k := BitVec.toInt_ofInt_eq_self (by decide) low hlt
    rw [if_pos hlt, if_neg (not_le.2 hlt), Value.forget, hwide]
  · rw [if_neg hlt, if_pos (not_lt.1 hlt), Value.forget]

theorem forget_fromFigment_num (number : Num) :
    number.fromFigment.forget = .scalar number.scalar.fromFigment := by
  rcases number.whole_or_float with ⟨k, hk⟩ | ⟨bits, hbits⟩
  · have hscalar : number.scalar = .int k := by rw [Num.scalar, hk]
    rw [Num.fromFigment_of_whole hk, forget_ofWhole (Num.le_whole hk), hscalar]
  · have hscalar : number.scalar = .float bits := by
      cases number with
      | f32 _ | f64 _ => exact congrArg Scalar.float (Option.some_inj.1 hbits)
      | _ => exact absurd hbits.symm (Option.some_ne_none bits)
    rw [Num.fromFigment_of_float hbits, Value.forget, hscalar]
    rfl

theorem map_fst_fromFigmentEntries (entries : List (String × Figment Tag)) :
    (fromFigmentEntries entries).map Prod.fst = entries.map Prod.fst := by
  induction entries with
  | nil => rw [fromFigmentEntries, List.map_nil, List.map_nil]
  | cons e entries ih =>
    obtain ⟨key, value⟩ := e
    rw [fromFigmentEntries, List.map_cons, List.map_cons, ih]

mutual

theorem forget_item (value : Figment Tag) (h : value.Ordered) :
    (fromFigment value).forget = value.item.fromFigment := by
  cases value with
  | string tag text =>
    rw [fromFigment, Value.forget, Figment.item, DynamicConfig.Value.fromFigment]
    rfl
  | char tag character =>
    rw [fromFigment, Value.forget, Figment.item, DynamicConfig.Value.fromFigment]
    rfl
  | bool tag boolean =>
    rw [fromFigment, Value.forget, Figment.item, DynamicConfig.Value.fromFigment]
    rfl
  | num tag number =>
    rw [fromFigment, forget_fromFigment_num, Figment.item, DynamicConfig.Value.fromFigment]
  | empty tag empty =>
    rw [fromFigment, Value.forget, Figment.item, DynamicConfig.Value.fromFigment]
    rfl
  | dict tag entries =>
    rw [Figment.Ordered] at h
    have hkeys := h.1
    rw [← map_fst_fromFigmentEntries] at hkeys
    rw [fromFigment, Value.forget, collect_eq_self hkeys, forget_entriesOf entries h.2, Figment.item,
      DynamicConfig.Value.fromFigment]
  | array tag items =>
    rw [Figment.Ordered] at h
    rw [fromFigment, Value.forget, forget_itemsOf items h, Figment.item,
      DynamicConfig.Value.fromFigment]

theorem forget_itemsOf (items : List (Figment Tag)) (h : Figment.OrderedItems items) :
    Value.forgetItems (fromFigmentItems items) =
      DynamicConfig.Value.fromFigmentItems (Figment.itemsOf items) := by
  match items, h with
  | [], _ =>
    rw [fromFigmentItems, Value.forgetItems, Figment.itemsOf, DynamicConfig.Value.fromFigmentItems]
  | item :: items, h =>
    rw [Figment.OrderedItems] at h
    rw [fromFigmentItems, Value.forgetItems, forget_item item h.1, forget_itemsOf items h.2,
      Figment.itemsOf, DynamicConfig.Value.fromFigmentItems]

theorem forget_entriesOf (entries : List (String × Figment Tag)) (h : Figment.OrderedEntries entries) :
    Value.forgetEntries (fromFigmentEntries entries) =
      DynamicConfig.Value.fromFigmentTable (Figment.entriesOf entries) := by
  match entries, h with
  | [], _ =>
    rw [fromFigmentEntries, Value.forgetEntries, Figment.entriesOf,
      DynamicConfig.Value.fromFigmentTable]
  | (key, value) :: entries, h =>
    rw [Figment.OrderedEntries] at h
    rw [fromFigmentEntries, Value.forgetEntries, forget_item value h.1, forget_entriesOf entries h.2,
      Figment.entriesOf, DynamicConfig.Value.fromFigmentTable]

end

mutual

/-- **The walk that forgets the widths is this one**, of a tree whose tables are maps. -/
theorem forget_fromFigment (label : Tag → Option Metadata) (value : Figment Tag) (h : value.Ordered) :
    (fromFigment value).forget = Node.fromFigment (value.forget label) := by
  cases value with
  | dict tag entries =>
    rw [Figment.Ordered] at h
    have hkeys := h.1
    rw [← map_fst_fromFigmentEntries] at hkeys
    rw [fromFigment, Value.forget, collect_eq_self hkeys, forget_entries label entries h.2,
      Figment.forget, Node.fromFigment]
  | string _ _ | char _ _ | bool _ _ | num _ _ | empty _ _ | array _ _ =>
    -- no table, so that it is an item on its own
    rw [forget_item _ h, Figment.forget, Node.fromFigment, Figment.item,
      DynamicConfig.Value.fromFigment]
    rfl

theorem forget_entries (label : Tag → Option Metadata) (entries : List (String × Figment Tag))
    (h : Figment.OrderedEntries entries) :
    Value.forgetEntries (fromFigmentEntries entries) =
      Dict.fromFigment (Figment.forgetEntries label entries) := by
  match entries, h with
  | [], _ =>
    rw [fromFigmentEntries, Value.forgetEntries, Figment.forgetEntries, Dict.fromFigment]
  | (key, value) :: entries, h =>
    rw [Figment.OrderedEntries] at h
    rw [fromFigmentEntries, Value.forgetEntries, forget_fromFigment label value h.1,
      forget_entries label entries h.2, Figment.forgetEntries, Dict.fromFigment]

end

end Forget

end DynamicConfig.Roads
