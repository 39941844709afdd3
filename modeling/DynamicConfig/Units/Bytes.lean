import DynamicConfig.Units.Duration
import Mathlib

/-!
# Sizes in text

A size is one count and one unit, with white space allowed around either. A unit is read whatever its
case, and has more than one spelling: the powers of 1024 are `K` and `KiB` and so on, those of 1000 are
`KB` and so on, and a count alone is one of bytes.

`Sized` is the grammar, and the reader accepts exactly what it derives and fits 64 bits
(`parse_eq_ok_iff`). What is refused is refused in one of a few fixed sentences, since a value that is no
size may be a password in the wrong place (`mem_refusals`).
-/

namespace DynamicConfig.Units

open Text (isWhitespace trim trimEnd Blank)

/-! ### The reader -/

namespace Bytes

/-- The bytes a unit stands for, of a unit in lower case. -/
def multiplier (unit : List Char) : Option ℕ :=
  if unit = [] ∨ unit = "b".toList then some 1
  else if unit = "k".toList ∨ unit = "kib".toList then some (2 ^ 10)
  else if unit = "m".toList ∨ unit = "mib".toList then some (2 ^ 20)
  else if unit = "g".toList ∨ unit = "gib".toList then some (2 ^ 30)
  else if unit = "t".toList ∨ unit = "tib".toList then some (2 ^ 40)
  else if unit = "kb".toList then some (10 ^ 3)
  else if unit = "mb".toList then some (10 ^ 6)
  else if unit = "gb".toList then some (10 ^ 9)
  else if unit = "tb".toList then some (10 ^ 12)
  else none

/-- `bytes::parse`. -/
def parse (text : List Char) : Except String U64 := do
  let (value, unit) ← splitUnit text
  match multiplier ((trim unit).map Char.toLower) with
  | none => .error "unknown size unit; expected one of B, KiB, MiB, GiB, TiB, KB, MB, GB, TB"
  | some multiplier =>
    if h : value.1 * multiplier < 2 ^ 64 then .ok ⟨_, h⟩
    else .error "the size overflows a 64-bit byte count"

/-- `BytesVisitor::expecting`. -/
def expecting : String := "a size such as \"64MiB\", or a number of bytes"

theorem toNat_lt {value : ℤ} (fits : -2 ^ 63 ≤ value ∧ value < 2 ^ 63) : value.toNat < 2 ^ 64 := by
  omega

/-- `bytes::deserialize`. -/
def deserialize : Input → Except String U64
  | .str text => parse text
  | .u64 value => .ok value
  | .i64 value fits =>
    if 0 ≤ value then .ok ⟨value.toNat, toNat_lt fits⟩
    else .error ("invalid value: integer \x60" ++ toString value ++ "\x60, expected " ++ expecting)
  | .other unexpected => .error ("invalid type: " ++ unexpected ++ ", expected " ++ expecting)

example : parse "64 MiB".toList = .ok ⟨67108864, by decide⟩ := by decide

/-! ### The grammar -/

/-- The units of a size. -/
inductive SizeUnit
  | b
  | kib
  | mib
  | gib
  | tib
  | kb
  | mb
  | gb
  | tb
  deriving DecidableEq

namespace SizeUnit

/-- How a unit may be written, in lower case. -/
def spellings : SizeUnit → List (List Char)
  | b => [[], "b".toList]
  | kib => ["k".toList, "kib".toList]
  | mib => ["m".toList, "mib".toList]
  | gib => ["g".toList, "gib".toList]
  | tib => ["t".toList, "tib".toList]
  | kb => ["kb".toList]
  | mb => ["mb".toList]
  | gb => ["gb".toList]
  | tb => ["tb".toList]

def bytes : SizeUnit → ℕ
  | b => 1
  | kib => 1024
  | mib => 1024 ^ 2
  | gib => 1024 ^ 3
  | tib => 1024 ^ 4
  | kb => 1000
  | mb => 1000 ^ 2
  | gb => 1000 ^ 3
  | tb => 1000 ^ 4

end SizeUnit

/-- A text is a count in decimal digits and a unit, whatever its case, between white space. -/
inductive Sized : List Char → ℕ → Prop
  | intro {before digits gap unit after : List Char} {u : SizeUnit} : Blank before → digits ≠ [] →
    (∀ c ∈ digits, c.isDigit = true) → Blank gap → unit.map Char.toLower ∈ u.spellings → Blank after →
    Sized (before ++ (digits ++ (gap ++ (unit ++ after)))) (Nat.ofDigitChars 10 digits 0 * u.bytes)

/-! ### The units -/

/-- **A multiplier is what a unit stands for.** -/
theorem multiplier_eq_some_iff {unit : List Char} {k : ℕ} :
    multiplier unit = some k ↔ ∃ u : SizeUnit, unit ∈ u.spellings ∧ k = u.bytes := by
  constructor
  · intro h
    rw [multiplier] at h
    split at h
    · next hunit => exact ⟨.b, by simpa [SizeUnit.spellings] using hunit, (Option.some.inj h).symm⟩
    split at h
    · next hunit => exact ⟨.kib, by simpa [SizeUnit.spellings] using hunit, (Option.some.inj h).symm⟩
    split at h
    · next hunit => exact ⟨.mib, by simpa [SizeUnit.spellings] using hunit, (Option.some.inj h).symm⟩
    split at h
    · next hunit => exact ⟨.gib, by simpa [SizeUnit.spellings] using hunit, (Option.some.inj h).symm⟩
    split at h
    · next hunit => exact ⟨.tib, by simpa [SizeUnit.spellings] using hunit, (Option.some.inj h).symm⟩
    split at h
    · next hunit => exact ⟨.kb, by simpa [SizeUnit.spellings] using hunit, (Option.some.inj h).symm⟩
    split at h
    · next hunit => exact ⟨.mb, by simpa [SizeUnit.spellings] using hunit, (Option.some.inj h).symm⟩
    split at h
    · next hunit => exact ⟨.gb, by simpa [SizeUnit.spellings] using hunit, (Option.some.inj h).symm⟩
    split at h
    · next hunit => exact ⟨.tb, by simpa [SizeUnit.spellings] using hunit, (Option.some.inj h).symm⟩
    · cases h
  · rintro ⟨u, hunit, rfl⟩
    have hall : u.spellings.map multiplier = u.spellings.map fun _ ↦ some u.bytes := by
      cases u <;> rfl
    exact List.map_inj_left.1 hall unit hunit

theorem SizeUnit.bytes_pos (u : SizeUnit) : 0 < u.bytes := by
  cases u <;> decide

/-- A letter in lower case was a letter. -/
theorem isAlpha_of_toLower {c : Char} (h : c.toLower.isAlpha = true) : c.isAlpha = true := by
  rw [Char.toLower] at h
  split at h
  · next hupper =>
    have hletter : c.isUpper = true := decide_eq_true hupper
    rw [Char.isAlpha, hletter, Bool.true_or]
  · exact h

/-- A unit is made of letters. -/
theorem isAlpha_of_mem_unit {u : SizeUnit} {unit : List Char}
    (h : unit.map Char.toLower ∈ u.spellings) : ∀ c ∈ unit, c.isAlpha = true := by
  intro c hc
  have hall : (u.spellings.all fun spelling ↦ spelling.all Char.isAlpha) = true := by
    cases u <;> rfl
  have hspelling := List.all_eq_true.1 (List.all_eq_true.1 hall _ h)
  exact isAlpha_of_toLower (hspelling _ (List.mem_map_of_mem hc))

/-! ### What is written is read -/

/-- Letters are not trimmed. -/
theorem trim_letters {unit : List Char} (h : ∀ c ∈ unit, c.isAlpha = true) {gap after : List Char}
    (hgap : Blank gap) (hafter : Blank after) : trim (gap ++ (unit ++ after)) = unit := by
  rw [Text.trim_blank_append hgap]
  cases unit with
  | nil => exact Text.trim_eq_nil_iff.2 hafter
  | cons l ls =>
    have hlast : ∀ c ∈ (l :: ls).getLast?, isWhitespace c = false := fun c hc ↦
      Text.not_isWhitespace_of_isAlpha (h c (List.mem_of_getLast? hc))
    rw [List.cons_append, Text.trim_cons (Text.not_isWhitespace_of_isAlpha (h l List.mem_cons_self)),
      ← List.cons_append, Text.trimEnd_append hlast, Text.trimEnd_of_blank hafter, List.append_nil]

/-- A count and letters, between blanks, are taken apart. -/
theorem splitUnit_sized {before digits gap unit after : List Char} (hbefore : Blank before)
    (hne : digits ≠ []) (hdigits : ∀ c ∈ digits, c.isDigit = true) (hgap : Blank gap)
    (hunit : ∀ c ∈ unit, c.isAlpha = true) (hafter : Blank after) :
    splitUnit (before ++ (digits ++ (gap ++ (unit ++ after)))) =
      (count digits).elim (.error "the number is too large for a 64-bit count") fun value ↦
        .ok (value, unit) := by
  obtain ⟨d, ds, hcons⟩ := List.exists_cons_of_ne_nil hne
  have hd : d.isDigit = true := hdigits d (by rw [hcons]; exact List.mem_cons_self)
  have htrim : trim (before ++ (digits ++ (gap ++ (unit ++ after)))) =
      digits ++ trimEnd (gap ++ (unit ++ after)) := by
    have hlast : ∀ c ∈ digits.getLast?, isWhitespace c = false := fun c hc ↦
      Text.not_isWhitespace_of_isDigit (hdigits c (List.mem_of_getLast? hc))
    rw [Text.trim_blank_append hbefore, ← Text.trimEnd_append hlast, hcons, List.cons_append,
      Text.trim_cons (Text.not_isWhitespace_of_isDigit hd)]
  have hbehind : ∀ c ∈ trimEnd (gap ++ (unit ++ after)), c.isDigit = false := by
    intro c hc
    obtain ⟨b, -, hall⟩ := Text.exists_trimEnd (gap ++ (unit ++ after))
    have hmem : c ∈ gap ++ (unit ++ after) := by
      rw [hall]
      exact List.mem_append_left b hc
    rcases List.mem_append.1 hmem with hmem | hmem
    · exact not_isDigit_of_isWhitespace (hgap c hmem)
    · rcases List.mem_append.1 hmem with hmem | hmem
      · exact not_isDigit_of_isAlpha (hunit c hmem)
      · exact not_isDigit_of_isWhitespace (hafter c hmem)
  have hstops : ∀ c ∈ (trimEnd (gap ++ (unit ++ after))).head?, c.isDigit = false := fun c hc ↦
    hbehind c (List.mem_of_head? hc)
  obtain ⟨htake, hdrop⟩ := takeWhile_digits hdigits hstops
  have hends : trim (trimEnd (gap ++ (unit ++ after))) = unit := by
    cases unit with
    | nil =>
      rw [List.nil_append, Text.trimEnd_of_blank (hgap.append hafter)]
      rfl
    | cons l ls =>
      have hlast : ∀ c ∈ (gap ++ (l :: ls)).getLast?, isWhitespace c = false := by
        rw [List.getLast?_append_of_ne_nil gap (List.cons_ne_nil l ls)]
        exact fun c hc ↦ Text.not_isWhitespace_of_isAlpha (hunit c (List.mem_of_getLast? hc))
      have hinner := trim_letters hunit hgap Text.blank_nil
      rw [List.append_nil] at hinner
      rw [← List.append_assoc, Text.trimEnd_append hlast, Text.trimEnd_of_blank hafter,
        List.append_nil, hinner]
  simp only [splitUnit, htrim, htake, hdrop, hends, if_neg hne]
  cases count digits with
  | none => rfl
  | some value => rfl

/-- **The grammar of a size.** Exactly the texts of one count and one unit are accepted, as far as they
fit a `u64`, and it is the product that is returned. -/
theorem parse_eq_ok_iff {text : List Char} {n : U64} : parse text = .ok n ↔ Sized text n.1 := by
  constructor
  · intro h
    obtain ⟨⟨value, tail⟩, hsplit, hrest⟩ := exists_of_bind_eq_ok h
    obtain ⟨before, digits, gap, after, hbefore, hne, hdigits, hgap, hafter, hvalue, rfl⟩ :=
      exists_of_splitUnit hsplit
    obtain ⟨w, w', hw, hw', htail⟩ := Text.exists_trim tail
    dsimp only at hrest
    split at hrest
    · cases hrest
    · next k hk =>
      obtain ⟨u, hunit, rfl⟩ := multiplier_eq_some_iff.1 hk
      split at hrest
      · obtain rfl := Except.ok.inj hrest
        have hsized := Sized.intro hbefore hne hdigits (hgap.append hw) hunit (hw'.append hafter)
        have htext : before ++ (digits ++ ((gap ++ w) ++ (trim tail ++ (w' ++ after)))) =
            before ++ (digits ++ (gap ++ (tail ++ after))) := by
          conv_rhs => rw [htail]
          simp only [List.append_assoc]
        rw [htext, hvalue] at hsized
        exact hsized
      · cases hrest
  · intro h
    obtain ⟨n, hn⟩ := n
    cases h with
    | @intro before digits gap unit after u hbefore hne hdigits hgap hunit hafter =>
      have hletters := isAlpha_of_mem_unit hunit
      have hcount : Nat.ofDigitChars 10 digits 0 < 2 ^ 64 :=
        Nat.lt_of_le_of_lt (Nat.le_mul_of_pos_right _ u.bytes_pos) hn
      have hvalue : count digits = some ⟨_, hcount⟩ := dif_pos hcount
      have htrim : trim unit = unit := by
        have hinner := trim_letters hletters Text.blank_nil Text.blank_nil
        rwa [List.append_nil, List.nil_append] at hinner
      have hmultiplier : multiplier (unit.map Char.toLower) = some u.bytes :=
        multiplier_eq_some_iff.2 ⟨u, hunit, rfl⟩
      rw [parse, splitUnit_sized hbefore hne hdigits hgap hletters hafter, hvalue]
      simp only [Option.elim_some, bind, Except.bind, htrim, hmultiplier]
      exact dif_pos hn

/-- What an input says, if it says anything. -/
def Means : Input → U64 → Prop
  | .str text, n => Sized text n.1
  | .u64 value, n => n = value
  | .i64 value _, n => (n.1 : ℤ) = value
  | .other _, _ => False

/-- **What is accepted is what says something**, and it is what it says that is returned. -/
theorem deserialize_eq_ok_iff_means (input : Input) (n : U64) : deserialize input = .ok n ↔ Means input n := by
  cases input with
  | str text => exact parse_eq_ok_iff
  | u64 value => exact ⟨fun h ↦ (Except.ok.inj h).symm, fun h ↦ congrArg Except.ok h.symm⟩
  | i64 value fits =>
    rw [deserialize, Means]
    split
    · next hpos =>
      refine ⟨fun h ↦ ?_, fun h ↦ congrArg Except.ok (Subtype.ext ?_)⟩
      · rw [← Except.ok.inj h]
        exact Int.toNat_of_nonneg hpos
      · show value.toNat = n.1
        omega
    · next hneg =>
      refine ⟨fun h ↦ (by cases h), fun h ↦ ?_⟩
      omega
  | other unexpected => exact ⟨fun h ↦ (by cases h), False.elim⟩

end Bytes

/-! ### What a refusal says -/

/-- The sentences a text is refused in, where it is no count and unit. -/
def countRefusals : List String :=
  ["expected a number first, as in \x6030s\x60", "the number is too large for a 64-bit count"]

/-- The sentences a size is refused in. -/
def sizeRefusals : List String :=
  countRefusals ++ ["unknown size unit; expected one of B, KiB, MiB, GiB, TiB, KB, MB, GB, TB",
    "the size overflows a 64-bit byte count"]

/-- The sentences a duration is refused in. -/
def durationRefusals : List String :=
  countRefusals ++ ["an empty string is not a duration", "a component overflows a 64-bit second count",
    "a component has no unit; expected one of ms, s, m, h, d",
    "unknown duration unit; expected one of ms, s, m, h, d",
    "the total is longer than a \x60Duration\x60 can hold"]

theorem mem_countRefusals {text : List Char} {error : String} (h : splitUnit text = .error error) :
    error ∈ countRefusals := by
  rw [splitUnit] at h
  split at h
  · cases h
    exact List.mem_cons_self
  · split at h
    · cases h
      exact List.mem_cons_of_mem _ List.mem_cons_self
    · cases h

theorem mem_durationRefusals_of_component {value : U64} {unit : List Char} {error : String}
    (h : component value unit = .error error) : error ∈ durationRefusals := by
  have hchecked : ∀ k, (checked value k).map Duration.fromSecs = .error error →
      error ∈ durationRefusals := by
    intro k hk
    rw [checked] at hk
    split at hk
    · cases hk
    · cases hk
      simp [durationRefusals]
  rw [component] at h
  split at h
  · cases h
  split at h
  · cases h
  split at h
  · exact hchecked _ h
  split at h
  · exact hchecked _ h
  split at h
  · exact hchecked _ h
  split at h
  · cases h
    simp [durationRefusals]
  · cases h
    simp [durationRefusals]

/-- The scanner refuses in a sentence of its own: it comes to the end of the text before it is out of
fuel. -/
theorem mem_durationRefusals_of_components {fuel : ℕ} {before : Duration} {rest : List Char}
    {error : String} (hfuel : rest.length < fuel) (h : components fuel before rest = .error error) :
    error ∈ durationRefusals := by
  induction fuel generalizing before rest with
  | zero => omega
  | succ fuel ih =>
    rw [components] at h
    split at h
    · cases h
    · cases hsplit : splitUnit rest with
      | error found =>
        rw [hsplit] at h
        cases h
        exact List.mem_append_left _ (mem_countRefusals hsplit)
      | ok pair =>
        obtain ⟨value, tail⟩ := pair
        simp only [hsplit, bind, Except.bind] at h
        split at h
        · next found hcomponent =>
          cases h
          exact mem_durationRefusals_of_component hcomponent
        · split at h
          · refine ih ?_ h
            -- The count took a digit at least.
            obtain ⟨blank, digits, gap, after, -, hne, -, -, -, -, rfl⟩ := exists_of_splitUnit hsplit
            have hpos := List.length_pos_iff.2 hne
            have hle := List.length_dropWhile_le (fun c : Char ↦ !c.isDigit) tail
            simp only [List.length_append] at hfuel
            omega
          · cases h
            simp [durationRefusals]

/-- **A refusal says nothing of the text.** Whatever is no size, and whatever is no duration, is refused
in one of a few sentences. -/
theorem mem_refusals (text : List Char) (error : String) :
    (Bytes.parse text = .error error → error ∈ sizeRefusals) ∧
      (parse text = .error error → error ∈ durationRefusals) := by
  constructor
  · intro h
    rw [Bytes.parse] at h
    cases hsplit : splitUnit text with
    | error found =>
      rw [hsplit] at h
      cases h
      exact List.mem_append_left _ (mem_countRefusals hsplit)
    | ok pair =>
      simp only [hsplit, bind, Except.bind] at h
      split at h
      · cases h
        simp [sizeRefusals]
      · split at h
        · cases h
        · cases h
          simp [sizeRefusals]
  · intro h
    rw [parse] at h
    split at h
    · cases h
      simp [durationRefusals]
    · exact mem_durationRefusals_of_components (Nat.lt_succ_self _) h

end DynamicConfig.Units
