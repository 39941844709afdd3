import DynamicConfig.Text.Delimited
import DynamicConfig.Text.Utf8
import DynamicConfig.Values.Roads

/-!
# What a fingerprint is taken of

A value feeds a hasher the number of its variant and then what it holds. Of the standard library it is
used that a number is written in as many bytes as it is wide, a list and a map begin with their length,
and a text ends with `0xff`, which no text contains.

`apart_stream` is that these bytes are told from the bytes of every other value, even with more behind
them: an induction over the value, with one rule of `Delimited` for each variant.
-/

namespace DynamicConfig.Roads

open Delimited (Apart bytes length_bytes eq_of_bytes_eq)

/-- What the bytes of a number depend on: how many bytes a pointer has, and the order of the bytes. -/
structure Machine where
  pointer : ℕ
  pointer_pos : 0 < pointer
  littleEndian : Bool

namespace Machine

variable (M : Machine)

/-- A number in its bytes, in the order of the machine. -/
def number (width n : ℕ) : List UInt8 :=
  if M.littleEndian then bytes width n else (bytes width n).reverse

/-- `write_usize`, and `write_isize` of a number that is not negative. -/
def word (n : ℕ) : List UInt8 := M.number M.pointer n

/-- The lengths and variants a word has room for. -/
def room : ℕ := 256 ^ M.pointer

theorem lt_room {n : ℕ} (h : n < 256) : n < M.room :=
  h.trans_le (Nat.le_self_pow (Nat.ne_of_gt M.pointer_pos) 256)

theorem apart_number {width n m : ℕ} (hn : n < 256 ^ width) (hm : m < 256 ^ width) :
    Apart (M.number width) n m := by
  have hlength (k : ℕ) : (M.number width k).length = width := by
    rw [number]
    split_ifs
    · exact length_bytes width k
    · rw [List.length_reverse, length_bytes]
  refine Apart.of_length (by rw [hlength, hlength]) fun h ↦ eq_of_bytes_eq hn hm ?_
  rw [number, number] at h
  split_ifs at h
  · exact h
  · exact List.reverse_inj.1 h

theorem apart_word {n m : ℕ} (hn : n < M.room) (hm : m < M.room) : Apart M.word n m :=
  M.apart_number hn hm

end Machine

/-- `str::hash`. -/
def textStream (text : String) : List UInt8 := Utf8.encode text.toList ++ [0xff]

/-- `mem::discriminant`: the place of the variant in the type. -/
def Value.discriminant : Value → ℕ
  | .null => 0
  | .bool _ => 1
  | .integer _ => 2
  | .float _ => 3
  | .string _ => 4
  | .array _ => 5
  | .table _ => 6

section Stream

variable (M : Machine)

mutual

/-- What `hash` feeds the hasher behind the discriminant. -/
def Value.payload : Value → List UInt8
  | .null => []
  | .bool boolean => [if boolean then 1 else 0]
  | .integer number => M.number 16 number.toNat
  | .float bits => M.number 8 bits.toNat
  | .string text => textStream text
  | .array items => M.word items.length ++ payloadItems items
  | .table entries => M.word entries.length ++ payloadEntries entries

/-- The items of a list, each with its discriminant. -/
def payloadItems : List Value → List UInt8
  | [] => []
  | item :: items => (M.word item.discriminant ++ item.payload) ++ payloadItems items

/-- The entries of a map: the key, then the value. -/
def payloadEntries : List (String × Value) → List UInt8
  | [] => []
  | (key, value) :: entries =>
    (textStream key ++ (M.word value.discriminant ++ value.payload)) ++ payloadEntries entries

end

/-- The bytes `hash` feeds the hasher. -/
def Value.stream (v : Value) : List UInt8 := M.word v.discriminant ++ v.payload M

theorem payloadItems_eq (items : List Value) : payloadItems M items = items.flatMap (Value.stream M) := by
  induction items with
  | nil => rfl
  | cons item items ih => rw [payloadItems, ih, List.flatMap_cons, Value.stream]

theorem payloadEntries_eq (entries : List (String × Value)) :
    payloadEntries M entries =
      entries.flatMap fun entry ↦ textStream entry.1 ++ entry.2.stream M := by
  induction entries with
  | nil => rfl
  | cons entry entries ih => rw [payloadEntries, ih, List.flatMap_cons, Value.stream]

mutual

/-- No list and no map is longer than a word can say. -/
def Value.Fits : Value → Prop
  | .null | .bool _ | .integer _ | .float _ | .string _ => True
  | .array items => items.length < M.room ∧ FitsItems items
  | .table entries => entries.length < M.room ∧ FitsEntries entries

def FitsItems : List Value → Prop
  | [] => True
  | item :: items => item.Fits ∧ FitsItems items

def FitsEntries : List (String × Value) → Prop
  | [] => True
  | (_, value) :: entries => value.Fits ∧ FitsEntries entries

end

end Stream

/-- A value as the program holds it: its tables are maps, and its lengths are numbers of the machine. -/
structure HeldValue (M : Machine) where
  value : Value
  ordered : value.Ordered
  fits : value.Fits M

/-! ### Told apart -/

variable {M : Machine}

theorem FitsItems.fits {items : List Value} (h : FitsItems M items) {item : Value}
    (hmem : item ∈ items) : item.Fits M := by
  induction items with
  | nil => exact absurd hmem List.not_mem_nil
  | cons first items ih =>
    rw [FitsItems] at h
    rcases List.mem_cons.1 hmem with rfl | hmem
    · exact h.1
    · exact ih h.2 hmem

theorem FitsEntries.fits {entries : List (String × Value)} (h : FitsEntries M entries)
    {entry : String × Value} (hmem : entry ∈ entries) : entry.2.Fits M := by
  induction entries with
  | nil => exact absurd hmem List.not_mem_nil
  | cons first entries ih =>
    rw [FitsEntries] at h
    rcases List.mem_cons.1 hmem with rfl | hmem
    · exact h.1
    · exact ih h.2 hmem

/-- A text ends where its mark is. -/
theorem apart_textStream (text text' : String) : Apart textStream text text' := by
  have hmark (text : String) : (0xff : UInt8) ∉ Utf8.encode text.toList := fun h ↦
    absurd (Utf8.lt_of_mem_encode h) (by decide)
  exact Apart.of_mark (hmark text) (hmark text') fun h ↦
    String.toList_injective (Utf8.encode_injective h)

/-- Two values of one variant. -/
inductive Alike : Value → Value → Prop
  | null : Alike .null .null
  | bool (a b : Bool) : Alike (.bool a) (.bool b)
  | integer (a b : BitVec 128) : Alike (.integer a) (.integer b)
  | float (a b : UInt64) : Alike (.float a) (.float b)
  | string (a b : String) : Alike (.string a) (.string b)
  | array (a b : List Value) : Alike (.array a) (.array b)
  | table (a b : List (String × Value)) : Alike (.table a) (.table b)

theorem alike_of_discriminant_eq {v w : Value} (h : v.discriminant = w.discriminant) : Alike v w := by
  cases v <;> cases w <;> first | constructor | exact absurd h (Nat.ne_of_beq_eq_false rfl)

theorem discriminant_lt (v : Value) : v.discriminant < M.room := by
  have hle : v.discriminant ≤ 6 := by cases v <;> exact Nat.le_of_ble_eq_true rfl
  exact M.lt_room (by omega)

/-- What is left to tell apart once the discriminants are read. -/
theorem apart_stream_of_payload {v w : Value}
    (h : Alike v w → ∀ r r', v.payload M ++ r = w.payload M ++ r' → v = w ∧ r = r') :
    Apart (Value.stream M) v w := by
  intro r r' heq
  rw [Value.stream, Value.stream, List.append_assoc, List.append_assoc] at heq
  obtain ⟨hdiscriminant, heq⟩ := M.apart_word (discriminant_lt v) (discriminant_lt w) _ _ heq
  exact h (alike_of_discriminant_eq hdiscriminant) r r' heq

/-- One byte, or as many as the number is wide: the payloads that hold no other value. -/
theorem apart_bool (a b : Bool) : Apart (fun x : Bool ↦ [if x then (1 : UInt8) else 0]) a b := by
  refine Apart.of_length rfl fun h ↦ ?_
  revert h
  cases a <;> cases b <;> decide

theorem apart_integer (a b : BitVec 128) : Apart (fun x : BitVec 128 ↦ M.number 16 x.toNat) a b := by
  intro r r' h
  obtain ⟨heq, hrest⟩ := M.apart_number a.isLt b.isLt r r' h
  exact ⟨BitVec.eq_of_toNat_eq heq, hrest⟩

theorem apart_float (a b : UInt64) : Apart (fun x : UInt64 ↦ M.number 8 x.toNat) a b := by
  intro r r' h
  obtain ⟨heq, hrest⟩ := M.apart_number a.toNat_lt b.toNat_lt r r' h
  exact ⟨UInt64.toNat_inj.1 heq, hrest⟩

mutual

/-- **A value is told from every other value by the bytes it feeds the hasher.** -/
theorem apart_stream (v : Value) (hv : v.Fits M) (w : Value) (hw : w.Fits M) :
    Apart (Value.stream M) v w := by
  refine apart_stream_of_payload fun halike r r' heq ↦ ?_
  match v, w, halike with
  | .null, .null, .null => exact ⟨rfl, heq⟩
  | .bool a, .bool b, .bool _ _ =>
    rw [Value.payload, Value.payload] at heq
    obtain ⟨rfl, hrest⟩ := apart_bool a b r r' heq
    exact ⟨rfl, hrest⟩
  | .integer a, .integer b, .integer _ _ =>
    rw [Value.payload, Value.payload] at heq
    obtain ⟨rfl, hrest⟩ := apart_integer a b r r' heq
    exact ⟨rfl, hrest⟩
  | .float a, .float b, .float _ _ =>
    rw [Value.payload, Value.payload] at heq
    obtain ⟨rfl, hrest⟩ := apart_float a b r r' heq
    exact ⟨rfl, hrest⟩
  | .string a, .string b, .string _ _ =>
    rw [Value.payload, Value.payload] at heq
    obtain ⟨rfl, hrest⟩ := apart_textStream a b r r' heq
    exact ⟨rfl, hrest⟩
  | .array as, .array bs, .array _ _ =>
    rw [Value.Fits] at hv hw
    rw [Value.payload, Value.payload, payloadItems_eq, payloadItems_eq] at heq
    have hitems : ∀ a ∈ as, ∀ b ∈ bs, Apart (Value.stream M) a b := fun a ha b hb ↦
      apart_items as hv.2 a ha b (hw.2.fits hb)
    obtain ⟨rfl, hrest⟩ := Apart.counted (M.apart_word hv.1 hw.1) hitems r r' heq
    exact ⟨rfl, hrest⟩
  | .table as, .table bs, .table _ _ =>
    rw [Value.Fits] at hv hw
    rw [Value.payload, Value.payload, payloadEntries_eq, payloadEntries_eq] at heq
    have hentries : ∀ a ∈ as, ∀ b ∈ bs,
        Apart (fun entry ↦ textStream entry.1 ++ entry.2.stream M) a b := fun a ha b hb ↦
      Apart.pair (apart_textStream a.1 b.1) (apart_entries as hv.2 a ha b.2 (hw.2.fits hb))
    obtain ⟨rfl, hrest⟩ := Apart.counted (M.apart_word hv.1 hw.1) hentries r r' heq
    exact ⟨rfl, hrest⟩

theorem apart_items (items : List Value) (h : FitsItems M items) (item : Value) (hmem : item ∈ items)
    (w : Value) (hw : w.Fits M) : Apart (Value.stream M) item w := by
  match items, h with
  | first :: items, h =>
    rw [FitsItems] at h
    rcases List.mem_cons.1 hmem with heq | hmem
    · rw [heq]
      exact apart_stream first h.1 w hw
    · exact apart_items items h.2 item hmem w hw

theorem apart_entries (entries : List (String × Value)) (h : FitsEntries M entries)
    (entry : String × Value) (hmem : entry ∈ entries) (w : Value) (hw : w.Fits M) :
    Apart (Value.stream M) entry.2 w := by
  match entries, h with
  | (key, value) :: entries, h =>
    rw [FitsEntries] at h
    rcases List.mem_cons.1 hmem with heq | hmem
    · rw [heq]
      exact apart_stream value h.1 w hw
    · exact apart_entries entries h.2 entry hmem w hw

end

/-- **The bytes a fingerprint is taken of are those of one value.** Two values feed the same bytes just
where they are the same, floats by their bits, and no value's bytes are the beginning of another's. -/
theorem stream_eq_iff (v w : HeldValue M) :
    (v.value.stream M = w.value.stream M ↔ v.value = w.value) ∧
      (v.value.stream M <+: w.value.stream M → v.value.stream M = w.value.stream M) := by
  have hapart := apart_stream v.value v.fits w.value w.fits
  constructor
  · exact ⟨hapart.eq_of_encode_eq, fun h ↦ by rw [h]⟩
  · intro hbegin
    rw [hapart.eq_of_prefix hbegin]

end DynamicConfig.Roads
