import DynamicConfig.Config.Trim
import DynamicConfig.Config.Value
import Mathlib.Algebra.BigOperators.Ring.List
import Mathlib.Algebra.Ring.Nat

/-!
# Durations in text

A duration is written as components, each a count and a unit, with white space allowed anywhere between
them. A scanner reads one component after the other and adds them up; a count or a sum that does not fit
is an error.

`Written` is the grammar, and the scanner accepts exactly what it derives, with the exact sum
(`parse_eq_ok_iff`). A duration is written back as its count of milliseconds, and that count has to fit
the scanner's 64 bits again, which a duration of more than half a billion years does not.
-/

namespace DynamicConfig.Units

open Text (isWhitespace trim trimEnd trimStart Blank)

/-- A `u64`. -/
abbrev U64 := { n : ℕ // n < 2 ^ 64 }

/-! ### Durations -/

/-- `std::time::Duration`: whole nanoseconds, of which the seconds fit a `u64`. -/
structure Duration where
  asNanos : ℕ
  fits : asNanos < 2 ^ 64 * 10 ^ 9
  deriving DecidableEq

namespace Duration

theorem ext_nanos {a b : Duration} (h : a.asNanos = b.asNanos) : a = b := by
  rcases a with ⟨n, hn⟩
  rcases b with ⟨m, hm⟩
  obtain rfl : n = m := h
  rfl

def zero : Duration := ⟨0, by decide⟩

def fromSecs (value : U64) : Duration :=
  ⟨value.1 * 10 ^ 9, by have := value.2; omega⟩

def fromMillis (value : U64) : Duration :=
  ⟨value.1 * 10 ^ 6, by have := value.2; omega⟩

def checkedAdd (a b : Duration) : Option Duration :=
  if h : a.asNanos + b.asNanos < 2 ^ 64 * 10 ^ 9 then some ⟨a.asNanos + b.asNanos, h⟩ else none

def saturatingMul (d : Duration) (n : ℕ) : Duration :=
  ⟨min (d.asNanos * n) (2 ^ 64 * 10 ^ 9 - 1), by omega⟩

def asMillis (d : Duration) : ℕ := d.asNanos / 10 ^ 6

end Duration

/-! ### The scanner -/

/-- `text[..digits].parse::<u64>()`, of digits. -/
def count (digits : List Char) : Option U64 :=
  if h : Nat.ofDigitChars 10 digits 0 < 2 ^ 64 then some ⟨_, h⟩ else none

/-- Splits `12kb` into `12` and `kb`. -/
def splitUnit (text : List Char) : Except String (U64 × List Char) :=
  let text := trim text
  let digits := text.takeWhile Char.isDigit
  if digits = [] then .error "expected a number first, as in \x6030s\x60"
  else
    match count digits with
    | none => .error "the number is too large for a 64-bit count"
    | some value => .ok (value, trim (text.dropWhile Char.isDigit))

/-- One component's seconds. -/
def checked (value : U64) (secondsPerUnit : ℕ) : Except String U64 :=
  if h : value.1 * secondsPerUnit < 2 ^ 64 then .ok ⟨_, h⟩
  else .error "a component overflows a 64-bit second count"

def component (value : U64) (unit : List Char) : Except String Duration :=
  if unit = "ms".toList then .ok (.fromMillis value)
  else if unit = "s".toList then .ok (.fromSecs value)
  else if unit = "m".toList then (checked value 60).map .fromSecs
  else if unit = "h".toList then (checked value (60 * 60)).map .fromSecs
  else if unit = "d".toList then (checked value (24 * 60 * 60)).map .fromSecs
  else if unit = [] then .error "a component has no unit; expected one of ms, s, m, h, d"
  else .error "unknown duration unit; expected one of ms, s, m, h, d"

/-- The components, added to what there is. The fuel is for the characters, of which each component takes
some; for the whole of a text it does not run out. -/
def components : ℕ → Duration → List Char → Except String Duration
  | 0, _, _ => .error ""
  | fuel + 1, total, rest =>
    if rest = [] then .ok total
    else do
      let (value, tail) ← splitUnit rest
      let unit := tail.takeWhile fun c ↦ !c.isDigit
      let tail := tail.dropWhile fun c ↦ !c.isDigit
      let added ← component value (trim unit)
      match total.checkedAdd added with
      | some total => components fuel total tail
      | none => .error "the total is longer than a \x60Duration\x60 can hold"

/-- `duration::parse`. -/
def parse (text : List Char) : Except String Duration :=
  let text := trim text
  if text = [] then .error "an empty string is not a duration"
  else components (text.length + 1) .zero text

example : parse "1h 30 m".toList = .ok ⟨5400 * 10 ^ 9, by decide⟩ := by decide

/-- What a deserializer finds. -/
inductive Input
  | str (text : List Char)
  | u64 (value : U64)
  | i64 (value : ℤ) (fits : -2 ^ 63 ≤ value ∧ value < 2 ^ 63)
  /-- Anything else, as serde describes it. -/
  | other (unexpected : String)

/-- `DurationVisitor::expecting`. -/
def expecting : String := "a duration such as \"30s\" or \"1h30m\", or a number of seconds"

/-- `duration::deserialize`. -/
def deserialize : Input → Except String Duration
  | .str text => parse text
  | .u64 value => .ok (.fromSecs value)
  | .i64 value fits =>
    if h : 0 ≤ value then .ok (.fromSecs ⟨value.toNat, by omega⟩)
    else .error ("invalid value: integer \x60" ++ toString value ++ "\x60, expected " ++ expecting)
  | .other unexpected => .error ("invalid type: " ++ unexpected ++ ", expected " ++ expecting)

/-- `duration::serialize`. -/
def serialize (d : Duration) : List Char := Nat.toDigits 10 d.asMillis ++ "ms".toList

/-! ### The grammar -/

/-- The units a component can have. -/
inductive TimeUnit
  | ms
  | s
  | m
  | h
  | d
  deriving DecidableEq

namespace TimeUnit

def text : TimeUnit → List Char
  | ms => "ms".toList
  | s => "s".toList
  | m => "m".toList
  | h => "h".toList
  | d => "d".toList

def nanos : TimeUnit → ℕ
  | ms => 10 ^ 6
  | s => 10 ^ 9
  | m => 60 * 10 ^ 9
  | h => 60 * 60 * 10 ^ 9
  | d => 24 * 60 * 60 * 10 ^ 9

end TimeUnit

/-- A count in decimal digits, and a unit. -/
structure Component where
  digits : List Char
  unit : TimeUnit
  digits_ne_nil : digits ≠ []
  digits_isDigit : ∀ c ∈ digits, c.isDigit = true

namespace Component

def count (c : Component) : ℕ := Nat.ofDigitChars 10 c.digits 0

def nanos (c : Component) : ℕ := c.count * c.unit.nanos

end Component

/-- A text is some components, with white space before, between and behind them, and between a count
and its unit. -/
inductive Written : List Char → List Component → Prop
  | nil {after : List Char} : Blank after → Written after []
  | cons {before gap rest : List Char} {c : Component} {cs : List Component} :
    Blank before → Blank gap → Written rest cs →
    Written (before ++ (c.digits ++ (gap ++ (c.unit.text ++ rest)))) (c :: cs)

/-- The length of some components. -/
def total (cs : List Component) : ℕ := (cs.map Component.nanos).sum

/-! ### One component -/

theorem TimeUnit.isAlpha_text (u : TimeUnit) : ∀ c ∈ u.text, c.isAlpha = true :=
  List.all_eq_true.1 (by rcases u <;> rfl)

theorem TimeUnit.text_ne_nil (u : TimeUnit) : u.text ≠ [] := by
  rcases u <;> exact List.cons_ne_nil _ _

theorem not_isDigit_of_isAlpha {c : Char} (h : c.isAlpha = true) : c.isDigit = false := by
  have hrange := Text.toNat_of_isAlpha h
  simp only [Char.isDigit, Bool.and_eq_false_iff, decide_eq_false_iff_not,
    UInt32.le_iff_toNat_le, ge_iff_le]
  show ¬ 48 ≤ c.toNat ∨ ¬ c.toNat ≤ 57
  omega

theorem not_isDigit_of_isWhitespace {c : Char} (h : isWhitespace c = true) : c.isDigit = false := by
  rw [Bool.eq_false_iff]
  intro hdigit
  rw [Text.not_isWhitespace_of_isDigit hdigit] at h
  exact Bool.false_ne_true h

/-- A unit ends in no blank, and neither does what ends in it. -/
theorem TimeUnit.getLast?_text (u : TimeUnit) (x : List Char) :
    ∀ c ∈ (x ++ u.text).getLast?, isWhitespace c = false := by
  rw [List.getLast?_append_of_ne_nil x u.text_ne_nil]
  intro c hc
  exact Text.not_isWhitespace_of_isAlpha (u.isAlpha_text c (List.mem_of_getLast? hc))

theorem checked_eq_ok_iff {value : U64} {k : ℕ} {d : Duration} :
    (checked value k).map Duration.fromSecs = .ok d ↔ d.asNanos = value.1 * (k * 10 ^ 9) := by
  rw [checked, ← Nat.mul_assoc]
  split
  · refine ⟨fun h ↦ ?_, fun h ↦ congrArg Except.ok (Duration.ext_nanos h.symm)⟩
    rw [← Except.ok.inj h]
    rfl
  · rename_i hlarge
    refine ⟨fun h ↦ absurd h (by simp [Except.map]), fun h ↦ ?_⟩
    have hfits := d.fits
    omega

/-- **A component is a count of a unit**, and as long as so many of the unit. -/
theorem component_eq_ok_iff {value : U64} {unit : List Char} {d : Duration} :
    component value unit = .ok d ↔ ∃ u : TimeUnit, unit = u.text ∧ d.asNanos = value.1 * u.nanos := by
  constructor
  · intro h
    rw [component] at h
    split at h
    · refine ⟨.ms, by assumption, ?_⟩
      rw [← Except.ok.inj h]
      rfl
    · split at h
      · refine ⟨.s, by assumption, ?_⟩
        rw [← Except.ok.inj h]
        rfl
      · split at h
        · exact ⟨.m, by assumption, checked_eq_ok_iff.1 h⟩
        · split at h
          · exact ⟨.h, by assumption, checked_eq_ok_iff.1 h⟩
          · split at h
            · exact ⟨.d, by assumption, checked_eq_ok_iff.1 h⟩
            · split at h <;> cases h
  · rintro ⟨u, rfl, hd⟩
    rcases u with - | - | - | - | -
    · exact congrArg Except.ok (Duration.ext_nanos hd.symm)
    · exact congrArg Except.ok (Duration.ext_nanos hd.symm)
    · exact checked_eq_ok_iff.2 hd
    · exact checked_eq_ok_iff.2 hd
    · exact checked_eq_ok_iff.2 hd

/-! ### What is written is read -/

theorem trimEnd_trimEnd (s : List Char) : trimEnd (trimEnd s) = trimEnd s := by
  obtain ⟨b, hb, hs⟩ := Text.exists_trimEnd s
  have h := Text.trimEnd_append_blank hb (trimEnd s)
  rw [← hs] at h
  exact h.symm

theorem Component.trimEnd_body (c : Component) (before gap rest : List Char) :
    trimEnd (before ++ (c.digits ++ (gap ++ (c.unit.text ++ rest)))) =
      before ++ (c.digits ++ (gap ++ (c.unit.text ++ trimEnd rest))) := by
  have h := Text.trimEnd_append (c.unit.getLast?_text (before ++ (c.digits ++ gap))) rest
  simpa only [List.append_assoc] using h

/-- A component begins with a digit. -/
theorem Component.exists_cons (c : Component) (rest : List Char) :
    ∃ d ds, c.digits ++ rest = d :: ds ∧ d.isDigit = true := by
  obtain ⟨d, ds, hds⟩ := List.exists_cons_of_ne_nil c.digits_ne_nil
  refine ⟨d, ds ++ rest, by rw [hds]; rfl, c.digits_isDigit d ?_⟩
  rw [hds]
  exact List.mem_cons_self

theorem Component.trim_body (c : Component) {before : List Char} (hbefore : Blank before)
    (gap rest : List Char) :
    trim (before ++ (c.digits ++ (gap ++ (c.unit.text ++ rest)))) =
      c.digits ++ (gap ++ (c.unit.text ++ trimEnd rest)) := by
  obtain ⟨d, ds, hcons, hd⟩ := c.exists_cons (gap ++ (c.unit.text ++ rest))
  rw [Text.trim_blank_append hbefore, hcons, Text.trim_cons (Text.not_isWhitespace_of_isDigit hd),
    ← hcons]
  exact c.trimEnd_body [] gap rest

/-- Behind a count there is no further digit. -/
theorem takeWhile_digits {digits rest : List Char} (hdigits : ∀ c ∈ digits, c.isDigit = true)
    (hrest : ∀ c ∈ rest.head?, c.isDigit = false) :
    (digits ++ rest).takeWhile Char.isDigit = digits ∧
      (digits ++ rest).dropWhile Char.isDigit = rest := by
  rw [List.takeWhile_append_of_pos hdigits, List.dropWhile_append_of_pos hdigits]
  rcases rest with - | ⟨c, cs⟩
  · exact ⟨List.append_nil digits, rfl⟩
  · have hc : ¬ c.isDigit = true := Bool.eq_false_iff.1 (hrest c rfl)
    rw [List.takeWhile_cons_of_neg hc, List.dropWhile_cons_of_neg hc, List.append_nil]
    exact ⟨rfl, rfl⟩

theorem Component.splitUnit_body (c : Component) {gap rest : List Char} (hgap : Blank gap)
    (hrest : trimEnd rest = rest) :
    splitUnit (c.digits ++ (gap ++ (c.unit.text ++ rest))) =
      (Units.count c.digits).elim (.error "the number is too large for a 64-bit count") fun value ↦
        .ok (value, c.unit.text ++ rest) := by
  obtain ⟨l, ls, hl⟩ := List.exists_cons_of_ne_nil c.unit.text_ne_nil
  have halpha : l.isAlpha = true := c.unit.isAlpha_text l (by rw [hl]; exact List.mem_cons_self)
  have htrim : trim (c.digits ++ (gap ++ (c.unit.text ++ rest))) =
      c.digits ++ (gap ++ (c.unit.text ++ rest)) := by
    have h := c.trim_body Text.blank_nil gap rest
    rwa [List.nil_append, hrest] at h
  have hhead : ∀ a ∈ (gap ++ (c.unit.text ++ rest)).head?, a.isDigit = false := by
    rcases gap with - | ⟨g, gs⟩
    · rw [hl]
      rintro a ⟨⟩
      exact not_isDigit_of_isAlpha halpha
    · rintro a ⟨⟩
      exact not_isDigit_of_isWhitespace (hgap g List.mem_cons_self)
  have htail : trim (gap ++ (c.unit.text ++ rest)) = c.unit.text ++ rest := by
    have hend := Text.trimEnd_append (c.unit.getLast?_text []) rest
    rw [List.nil_append, hrest, hl] at hend
    rw [Text.trim_blank_append hgap, hl, List.cons_append,
      Text.trim_cons (Text.not_isWhitespace_of_isAlpha halpha)]
    exact hend
  obtain ⟨htake, hdrop⟩ := takeWhile_digits c.digits_isDigit hhead
  simp only [splitUnit, htrim, htake, hdrop, htail, if_neg c.digits_ne_nil]
  rcases Units.count c.digits with - | value
  · rfl
  · rfl

/-- What stands before the first count of a text, or behind the last unit, is blank. -/
theorem Written.exists_blank {rest : List Char} {cs : List Component} (h : Written rest cs) :
    ∃ w, Blank w ∧ trimEnd rest = w ++ trim rest ∧ ∀ c ∈ (trim rest).head?, c.isDigit = true := by
  rcases h with hafter | @⟨before, gap, rest, c, cs, hbefore, hgap, hrest⟩
  · rw [Text.trimEnd_of_blank hafter, Text.trim_eq_nil_iff.2 hafter]
    exact ⟨[], Text.blank_nil, rfl, fun c hc ↦ absurd hc (Option.not_mem_none c)⟩
  · refine ⟨before, hbefore, ?_, ?_⟩
    · rw [c.trimEnd_body, c.trim_body hbefore]
    · rw [c.trim_body hbefore]
      obtain ⟨d, ds, hcons, hd⟩ := c.exists_cons (gap ++ (c.unit.text ++ trimEnd rest))
      rw [hcons]
      rintro a ⟨⟩
      exact hd

/-- A unit, and the blanks up to the next count. -/
theorem takeWhile_unit {u : TimeUnit} {w rest : List Char} (hw : Blank w)
    (hrest : ∀ c ∈ rest.head?, c.isDigit = true) :
    (u.text ++ (w ++ rest)).takeWhile (fun c ↦ !c.isDigit) = u.text ++ w ∧
      (u.text ++ (w ++ rest)).dropWhile (fun c ↦ !c.isDigit) = rest := by
  have hbefore : ∀ c ∈ u.text ++ w, (!c.isDigit) = true := by
    intro c hc
    rcases List.mem_append.1 hc with hc | hc
    · rw [not_isDigit_of_isAlpha (u.isAlpha_text c hc)]
      rfl
    · rw [not_isDigit_of_isWhitespace (hw c hc)]
      rfl
  rw [← List.append_assoc, List.takeWhile_append_of_pos hbefore, List.dropWhile_append_of_pos hbefore]
  rcases rest with - | ⟨c, cs⟩
  · exact ⟨List.append_nil _, rfl⟩
  · have hc : ¬ (!c.isDigit) = true := by
      rw [hrest c rfl]
      exact Bool.false_ne_true
    rw [List.takeWhile_cons_of_neg (p := fun a : Char ↦ !a.isDigit) hc,
      List.dropWhile_cons_of_neg (p := fun a : Char ↦ !a.isDigit) hc, List.append_nil]
    exact ⟨rfl, rfl⟩

theorem trim_unit (u : TimeUnit) {w : List Char} (hw : Blank w) : trim (u.text ++ w) = u.text := by
  obtain ⟨l, ls, hl⟩ := List.exists_cons_of_ne_nil u.text_ne_nil
  have halpha : l.isAlpha = true := u.isAlpha_text l (by rw [hl]; exact List.mem_cons_self)
  have hend := Text.trimEnd_append (u.getLast?_text []) w
  rw [List.nil_append, Text.trimEnd_of_blank hw, List.append_nil, hl, List.cons_append] at hend
  rw [hl, List.cons_append, Text.trim_cons (Text.not_isWhitespace_of_isAlpha halpha), hend]

/-- **What is written is read**, and added up. -/
theorem components_of_written {rest : List Char} {cs : List Component} (h : Written rest cs)
    (hcounts : ∀ c ∈ cs, c.count < 2 ^ 64) {before d : Duration}
    (hd : before.asNanos + total cs = d.asNanos) {fuel : ℕ} (hfuel : (trim rest).length < fuel) :
    components fuel before (trim rest) = .ok d := by
  induction h generalizing before fuel with
  | nil hafter =>
    obtain ⟨fuel, rfl⟩ : ∃ n, fuel = n + 1 := ⟨fuel - 1, by omega⟩
    rw [Text.trim_eq_nil_iff.2 hafter, components, if_pos rfl]
    exact congrArg Except.ok (Duration.ext_nanos hd)
  | @cons blank gap rest c cs hblank hgap hrest ih =>
    obtain ⟨fuel, rfl⟩ : ∃ n, fuel = n + 1 := ⟨fuel - 1, by omega⟩
    obtain ⟨w, hw, hend, hdigit⟩ := hrest.exists_blank
    have hcount := hcounts c List.mem_cons_self
    have htotal : before.asNanos + (c.nanos + total cs) = d.asNanos := hd
    have hfits := d.fits
    rw [c.trim_body hblank] at hfuel ⊢
    have hne : c.digits ++ (gap ++ (c.unit.text ++ trimEnd rest)) ≠ [] :=
      List.append_ne_nil_of_left_ne_nil c.digits_ne_nil _
    have hvalue : Units.count c.digits = some ⟨c.count, hcount⟩ := dif_pos hcount
    have hsplit := c.splitUnit_body hgap (trimEnd_trimEnd rest)
    rw [hvalue, hend] at hsplit
    obtain ⟨htake, hdrop⟩ := takeWhile_unit (u := c.unit) hw hdigit
    have hadded : c.nanos < 2 ^ 64 * 10 ^ 9 := by omega
    have hsum : before.asNanos + c.nanos < 2 ^ 64 * 10 ^ 9 := by omega
    have hcomponent : component ⟨c.count, hcount⟩ (trim (c.unit.text ++ w)) = .ok ⟨c.nanos, hadded⟩ :=
      component_eq_ok_iff.2 ⟨c.unit, trim_unit c.unit hw, rfl⟩
    have hadd : before.checkedAdd ⟨c.nanos, hadded⟩ = some ⟨before.asNanos + c.nanos, hsum⟩ :=
      dif_pos hsum
    have hrun : components (fuel + 1) before (c.digits ++ (gap ++ (c.unit.text ++ trimEnd rest))) =
        components fuel ⟨before.asNanos + c.nanos, hsum⟩ (trim rest) := by
      rw [components, if_neg hne, hend, hsplit]
      simp only [Option.elim_some, bind, Except.bind, htake, hdrop, hcomponent, hadd]
    rw [hrun]
    refine ih (fun e he ↦ hcounts e (List.mem_cons_of_mem c he)) ?_ ?_
    · show before.asNanos + c.nanos + total cs = d.asNanos
      omega
    · have hpos := List.length_pos_iff.2 c.digits_ne_nil
      rw [hend] at hfuel
      simp only [List.length_append] at hfuel
      omega

/-! ### What is read is written -/

theorem Written.blank {s : List Char} (h : Written s []) : Blank s := by
  rcases h with ⟨hblank⟩
  exact hblank

theorem Written.blank_append {b rest : List Char} {cs : List Component} (hb : Blank b)
    (h : Written rest cs) : Written (b ++ rest) cs := by
  rcases h with hafter | @⟨before, gap, rest, c, cs, hbefore, hgap, hrest⟩
  · exact .nil (hb.append hafter)
  · rw [← List.append_assoc]
    exact .cons (hb.append hbefore) hgap hrest

theorem Written.append_blank {b rest : List Char} {cs : List Component} (hb : Blank b)
    (h : Written rest cs) : Written (rest ++ b) cs := by
  induction h with
  | nil hafter => exact .nil (hafter.append hb)
  | cons hbefore hgap hrest ih =>
    simp only [List.append_assoc]
    exact .cons hbefore hgap ih

/-- A count, the blanks behind it, and what is left, between blanks. -/
theorem exists_of_splitUnit {text tail : List Char} {value : U64}
    (h : splitUnit text = .ok (value, tail)) :
    ∃ before digits gap after, Blank before ∧ digits ≠ [] ∧ (∀ c ∈ digits, c.isDigit = true) ∧
      Blank gap ∧ Blank after ∧ Nat.ofDigitChars 10 digits 0 = value.1 ∧
      text = before ++ (digits ++ (gap ++ (tail ++ after))) := by
  obtain ⟨before, after, hbefore, hafter, htext⟩ := Text.exists_trim text
  rw [splitUnit] at h
  split at h
  · cases h
  · rename_i hne
    rcases hcount : count ((trim text).takeWhile Char.isDigit) with - | n
    · rw [hcount] at h
      cases h
    · rw [hcount] at h
      obtain ⟨rfl, rfl⟩ := Prod.mk.inj (Except.ok.inj h)
      obtain ⟨gap, rest, hgap, hrest, htail⟩ := Text.exists_trim ((trim text).dropWhile Char.isDigit)
      refine ⟨before, _, gap, rest ++ after, hbefore, hne, fun c hc ↦ List.mem_takeWhile_imp hc, hgap,
        hrest.append hafter, ?_, ?_⟩
      · rw [count] at hcount
        split at hcount
        · exact congrArg Subtype.val (Option.some.inj hcount)
        · cases hcount
      · have hsplit : (trim text).takeWhile Char.isDigit ++ (trim text).dropWhile Char.isDigit =
            trim text := List.takeWhile_append_dropWhile
        rw [htail] at hsplit
        have hinner : ∀ a b c : List Char, before ++ (a ++ (b ++ (c ++ (rest ++ after)))) =
            before ++ ((a ++ (b ++ (c ++ rest))) ++ after) := by
          intro a b c
          simp only [List.append_assoc]
        rw [hinner, hsplit]
        exact htext

/-- **What is read is written**, and the sum is exact. -/
theorem written_of_components {fuel : ℕ} {before d : Duration} {rest : List Char}
    (h : components fuel before rest = .ok d) :
    ∃ cs, Written rest cs ∧ (∀ c ∈ cs, c.count < 2 ^ 64) ∧ before.asNanos + total cs = d.asNanos := by
  induction fuel generalizing before rest with
  | zero => cases h
  | succ fuel ih =>
    rw [components] at h
    split at h
    · subst rest
      rw [← Except.ok.inj h]
      exact ⟨[], .nil Text.blank_nil, fun c hc ↦ absurd hc List.not_mem_nil, rfl⟩
    · obtain ⟨⟨value, tail⟩, hsplit, hrest⟩ := exists_of_bind_eq_ok h
      obtain ⟨added, hcomponent, hnext⟩ := exists_of_bind_eq_ok hrest
      obtain ⟨u, hunit, hadded⟩ := component_eq_ok_iff.1 hcomponent
      rw [Duration.checkedAdd] at hnext
      split at hnext
      · rename_i sum hsum
        split at hsum
        · obtain rfl := Option.some.inj hsum
          obtain ⟨cs, hwritten, hcounts, htotal⟩ := ih hnext
          obtain ⟨blank, digits, gap, after, hblank, hne, hdigits, hgap, hafter, hvalue, rfl⟩ :=
            exists_of_splitUnit hsplit
          obtain ⟨w, w', hw, hw', hunitText⟩ := Text.exists_trim (tail.takeWhile fun c ↦ !c.isDigit)
          let c : Component := ⟨digits, u, hne, hdigits⟩
          have htail : tail = w ++ (u.text ++ (w' ++ tail.dropWhile fun c ↦ !c.isDigit)) := by
            have hboth : tail.takeWhile (fun c ↦ !c.isDigit) ++ tail.dropWhile (fun c ↦ !c.isDigit) =
                tail := List.takeWhile_append_dropWhile
            rw [hunitText, hunit] at hboth
            simp only [List.append_assoc] at hboth
            exact hboth.symm
          have hbehind : Written ((w' ++ tail.dropWhile fun c ↦ !c.isDigit) ++ after) cs :=
            (hwritten.blank_append hw').append_blank hafter
          refine ⟨c :: cs, ?_, ?_, ?_⟩
          · have hall := Written.cons (c := c) hblank (hgap.append hw) hbehind
            have htext : blank ++ (digits ++ (gap ++ (tail ++ after))) = blank ++ (c.digits ++
                ((gap ++ w) ++ (c.unit.text ++ ((w' ++ tail.dropWhile fun c ↦ !c.isDigit) ++ after)))) := by
              conv_lhs => rw [htail]
              simp only [List.append_assoc]
              rfl
            rw [htext]
            exact hall
          · intro e he
            rcases List.mem_cons.1 he with rfl | he
            · show Nat.ofDigitChars 10 digits 0 < 2 ^ 64
              rw [hvalue]
              exact value.2
            · exact hcounts e he
          · have hc : c.nanos = added.asNanos := by
              show Nat.ofDigitChars 10 digits 0 * u.nanos = _
              rw [hvalue, hadded]
            have hsum' : before.asNanos + added.asNanos + total cs = d.asNanos := htotal
            show before.asNanos + (c.nanos + total cs) = d.asNanos
            omega
        · cases hsum
      · cases hnext

/-- **The grammar of a duration.** Exactly the texts of one component or more are accepted, whose counts
fit a `u64`, and whose sum is a duration; and it is the sum that is returned. -/
theorem parse_eq_ok_iff {text : List Char} {d : Duration} :
    parse text = .ok d ↔ ∃ cs, cs ≠ [] ∧ Written text cs ∧ (∀ c ∈ cs, c.count < 2 ^ 64) ∧
      total cs = d.asNanos := by
  rw [parse]
  constructor
  · intro h
    split at h
    · cases h
    · rename_i hne
      obtain ⟨before, after, hbefore, hafter, htext⟩ := Text.exists_trim text
      obtain ⟨cs, hwritten, hcounts, htotal⟩ := written_of_components h
      refine ⟨cs, ?_, ?_, hcounts, (Nat.zero_add (total cs)).symm.trans htotal⟩
      · rintro rfl
        have htrim : Blank text := by
          rw [htext]
          exact hbefore.append (hwritten.blank.append hafter)
        exact hne (Text.trim_eq_nil_iff.2 htrim)
      · rw [htext]
        exact (hwritten.append_blank hafter).blank_append hbefore
  · rintro ⟨cs, hne, hwritten, hcounts, htotal⟩
    have hnotBlank : trim text ≠ [] := by
      rcases hwritten with hblank | @⟨before, gap, rest, c, cs, hbefore, hgap, hrest⟩
      · exact absurd rfl hne
      · rw [c.trim_body hbefore]
        exact List.append_ne_nil_of_left_ne_nil c.digits_ne_nil _
    rw [if_neg hnotBlank]
    exact components_of_written hwritten hcounts ((Nat.zero_add _).trans htotal)
      (Nat.lt_succ_self _)

/-! ### The way back -/

/-- **A duration is read back** when it is a whole number of milliseconds that fits a `u64`, and only
then. -/
theorem parse_serialize_iff (d : Duration) :
    parse (serialize d) = .ok d ↔ 10 ^ 6 ∣ d.asNanos ∧ d.asMillis < 2 ^ 64 := by
  let c : Component := ⟨Nat.toDigits 10 d.asMillis, .ms, Nat.toDigits_ne_nil, fun _ hc ↦
    Nat.isDigit_of_mem_toDigits (by decide) (by decide) hc⟩
  have hcount : c.count = d.asMillis := Nat.ofDigitChars_ten_toDigits
  have htext : serialize d = [] ++ (c.digits ++ ([] ++ (c.unit.text ++ []))) := by
    rw [List.append_nil]
    rfl
  have hwritten : Written (serialize d) [c] := by
    rw [htext]
    exact .cons Text.blank_nil Text.blank_nil (.nil Text.blank_nil)
  have htotal : total [c] = d.asMillis * 10 ^ 6 := by
    rw [total, List.map_singleton, List.sum_singleton, Component.nanos, hcount, TimeUnit.nanos]
  constructor
  · intro h
    have hfits : d.asMillis < 2 ^ 64 := by
      by_contra hlarge
      have hnone : Units.count c.digits = none := by
        rw [Units.count, dif_neg]
        show ¬ c.count < 2 ^ 64
        rwa [hcount]
      have htrim : trim (serialize d) = c.digits ++ ([] ++ (c.unit.text ++ [])) := by
        rw [htext]
        exact c.trim_body Text.blank_nil [] []
      have hsplit := c.splitUnit_body Text.blank_nil (rfl : trimEnd [] = [])
      rw [hnone] at hsplit
      have hne : c.digits ++ ([] ++ (c.unit.text ++ [])) ≠ [] :=
        List.append_ne_nil_of_left_ne_nil c.digits_ne_nil _
      rw [parse, htrim, if_neg hne, components, if_neg hne, hsplit] at h
      cases h
    refine ⟨?_, hfits⟩
    have hread : parse (serialize d) = .ok ⟨d.asMillis * 10 ^ 6, by omega⟩ := by
      refine parse_eq_ok_iff.2 ⟨[c], List.cons_ne_nil _ _, hwritten, ?_, htotal⟩
      intro e he
      obtain rfl := List.mem_singleton.1 he
      rw [hcount]
      exact hfits
    rw [hread] at h
    exact ⟨d.asMillis, by rw [Nat.mul_comm]; exact (congrArg Duration.asNanos (Except.ok.inj h)).symm⟩
  · rintro ⟨hdvd, hfits⟩
    refine parse_eq_ok_iff.2 ⟨[c], List.cons_ne_nil _ _, hwritten, ?_, ?_⟩
    · intro e he
      obtain rfl := List.mem_singleton.1 he
      rw [hcount]
      exact hfits
    · rw [htotal, Duration.asMillis, Nat.div_mul_cancel hdvd]

/-- What an input says, if it says anything: the sum of its components, or a number of seconds. -/
def Means : Input → Duration → Prop
  | .str text, d => ∃ cs, cs ≠ [] ∧ Written text cs ∧ (∀ c ∈ cs, c.count < 2 ^ 64) ∧ total cs = d.asNanos
  | .u64 value, d => d.asNanos = value.1 * 10 ^ 9
  | .i64 value _, d => (d.asNanos : ℤ) = value * 10 ^ 9
  | .other _, _ => False

/-- What an input says is less than `2 ^ 64` milliseconds. -/
def Input.Small : Input → Prop
  | .str text => ∀ cs, cs ≠ [] → Written text cs → (∀ c ∈ cs, c.count < 2 ^ 64) →
    total cs < 2 ^ 64 * 10 ^ 9 → total cs < 2 ^ 64 * 10 ^ 6
  | .u64 value => value.1 * 1000 < 2 ^ 64
  | .i64 value _ => value * 1000 < 2 ^ 64
  | .other _ => True

/-- **What is accepted is what says something**, and it is what it says that is returned. -/
theorem deserialize_eq_ok_iff (input : Input) (d : Duration) :
    deserialize input = .ok d ↔ Means input d := by
  rcases input with text | value | ⟨value, fits⟩ | unexpected
  · exact parse_eq_ok_iff
  · refine ⟨fun h ↦ ?_, fun h ↦ congrArg Except.ok (Duration.ext_nanos h.symm)⟩
    rw [← Except.ok.inj h]
    rfl
  · rw [deserialize, Means]
    split
    · rename_i hpos
      refine ⟨fun h ↦ ?_, fun h ↦ congrArg Except.ok (Duration.ext_nanos ?_)⟩
      · rw [← Except.ok.inj h]
        show ((value.toNat * 10 ^ 9 : ℕ) : ℤ) = value * 10 ^ 9
        omega
      · show value.toNat * 10 ^ 9 = d.asNanos
        omega
    · refine ⟨fun h ↦ absurd h (by simp), fun h ↦ ?_⟩
      omega
  · exact ⟨fun h ↦ absurd h (by simp [deserialize]), False.elim⟩

/-- What an input says is a whole number of milliseconds. -/
theorem Means.dvd {input : Input} {d : Duration} (h : Means input d) : 10 ^ 6 ∣ d.asNanos := by
  rcases input with text | value | ⟨value, fits⟩ | unexpected
  · obtain ⟨cs, -, -, -, htotal⟩ := h
    rw [← htotal, total]
    refine List.dvd_sum fun n hn ↦ ?_
    obtain ⟨c, -, rfl⟩ := List.mem_map.1 hn
    refine Dvd.dvd.mul_left ?_ c.count
    rcases c.unit with - | - | - | - | -
    · exact Nat.dvd_refl _
    · exact ⟨1000, rfl⟩
    · exact ⟨60 * 1000, rfl⟩
    · exact ⟨60 * 60 * 1000, rfl⟩
    · exact ⟨24 * 60 * 60 * 1000, rfl⟩
  · rw [Means] at h
    omega
  · rw [Means] at h
    omega
  · exact h.elim

theorem small_iff (input : Input) : input.Small ↔ ∀ d, Means input d → d.asMillis < 2 ^ 64 := by
  rcases input with text | value | ⟨value, fits⟩ | unexpected
  · constructor
    · rintro h d ⟨cs, hne, hwritten, hcounts, htotal⟩
      have hsmall := h cs hne hwritten hcounts (htotal ▸ d.fits)
      rw [Duration.asMillis]
      omega
    · intro h cs hne hwritten hcounts hfits
      have hmeans : Means (.str text) ⟨total cs, hfits⟩ := ⟨cs, hne, hwritten, hcounts, rfl⟩
      have hdvd : 10 ^ 6 ∣ total cs := hmeans.dvd
      have hsmall : total cs / 10 ^ 6 < 2 ^ 64 := h _ hmeans
      omega
  · constructor
    · intro h d hd
      rw [Input.Small] at h
      rw [Means] at hd
      rw [Duration.asMillis]
      omega
    · intro h
      have hsmall : value.1 * 10 ^ 9 / 10 ^ 6 < 2 ^ 64 := h (.fromSecs value) rfl
      rw [Input.Small]
      omega
  · constructor
    · intro h d hd
      rw [Input.Small] at h
      rw [Means] at hd
      rw [Duration.asMillis]
      omega
    · intro h
      rw [Input.Small]
      by_cases hpos : 0 ≤ value
      · have hfits : value.toNat * 10 ^ 9 < 2 ^ 64 * 10 ^ 9 := by omega
        have hmeans : Means (.i64 value fits) ⟨value.toNat * 10 ^ 9, hfits⟩ := by
          show ((value.toNat * 10 ^ 9 : ℕ) : ℤ) = value * 10 ^ 9
          omega
        have hsmall : value.toNat * 10 ^ 9 / 10 ^ 6 < 2 ^ 64 := h _ hmeans
        omega
      · omega
  · exact ⟨fun _ d hd ↦ hd.elim, fun _ ↦ trivial⟩

/-- The adapter follows its grammar at an input, and what it returns is written back to be read as the
same. -/
def GivesBack (input : Input) : Prop :=
  (∀ d, deserialize input = .ok d ↔ Means input d) ∧
    ∀ d, deserialize input = .ok d → deserialize (.str (serialize d)) = .ok d

/-- **When a duration round-trips**: exactly when what the input says is less than `2 ^ 64`
milliseconds. -/
theorem givesBack_iff (input : Input) : GivesBack input ↔ input.Small := by
  rw [GivesBack, and_iff_right (deserialize_eq_ok_iff input), small_iff]
  constructor
  · intro h d hd
    exact ((parse_serialize_iff d).1 (h d ((deserialize_eq_ok_iff input d).2 hd))).2
  · intro h d hd
    have hmeans := (deserialize_eq_ok_iff input d).1 hd
    exact (parse_serialize_iff d).2 ⟨hmeans.dvd, h d hmeans⟩

/-- **The largest number of seconds does not.** -/
theorem not_givesBack_max : ¬ GivesBack (.u64 ⟨2 ^ 64 - 1, by decide⟩) := by
  intro h
  have hback := (parse_serialize_iff _).1 (h.2 _ rfl)
  exact absurd hback.2 (by decide)

end DynamicConfig.Units
