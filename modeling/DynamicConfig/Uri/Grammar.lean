import Mathlib.Computability.Language

/-!
# The grammar of a URL

The part of the generic syntax of RFC 3986 that has an authority, as languages over characters: each rule
of the grammar is one definition, put together with `+`, `*` and `∗`. A `Reading` of a text is a way to
derive it.

What a reader of URLs relies on is where a component ends. A component ends at the first character that
it cannot hold, so all that is said of the languages is which of the delimiters their words avoid
(`Avoids`), rule by rule.
-/

namespace Uri

open scoped Computability

/-! ### Languages -/

/-- One character of a kind. -/
def one (p : Char → Bool) : Language Char := {w | ∃ c, w = [c] ∧ p c = true}

/-- Some characters of a kind, as many as two bounds allow. -/
def between (least most : ℕ) (p : Char → Bool) : Language Char :=
  {w | least ≤ w.length ∧ w.length ≤ most ∧ ∀ c ∈ w, p c = true}

/-- A text as it is. -/
def lit (s : String) : Language Char := {w | w = s.toList}

/-- A word, or none. -/
def opt (l : Language Char) : Language Char := 1 + l

/-- No word of a language has one of some characters in it. -/
def Avoids (ds : List Char) (l : Language Char) : Prop := ∀ w ∈ l, ∀ c ∈ w, c ∉ ds

section Avoids

variable {ds : List Char} {l m : Language Char}

/-- A kind of characters without any of some. -/
theorem not_of_all {p : Char → Bool} (h : (ds.all fun d ↦ !p d) = true) {c : Char} (hc : p c = true) :
    c ∉ ds := by
  intro hmem
  have hnot := List.all_eq_true.1 h c hmem
  rw [hc] at hnot
  exact Bool.false_ne_true hnot

theorem avoids_one {p : Char → Bool} (h : (ds.all fun d ↦ !p d) = true) : Avoids ds (one p) := by
  rintro w ⟨c, rfl, hc⟩ d hd
  obtain rfl := List.mem_singleton.1 hd
  exact not_of_all h hc

theorem avoids_between {least most : ℕ} {p : Char → Bool} (h : (ds.all fun d ↦ !p d) = true) :
    Avoids ds (between least most p) := by
  rintro w ⟨-, -, hall⟩ c hc
  exact not_of_all h (hall c hc)

theorem avoids_lit {s : String} (h : (ds.all fun d ↦ !s.toList.contains d) = true) :
    Avoids ds (lit s) := by
  intro w hw c hc
  obtain rfl : w = s.toList := hw
  exact not_of_all (p := fun d ↦ s.toList.contains d) h (List.contains_iff_mem.2 hc)

theorem Avoids.mono {es : List Char} (h : Avoids es l) (hds : (ds.all fun d ↦ es.contains d) = true) :
    Avoids ds l := fun w hw c hc hd ↦
  h w hw c hc (List.contains_iff_mem.1 (List.all_eq_true.1 hds c hd))

theorem avoids_nil : Avoids ds 1 := by
  intro w hw c hc
  rw [(Language.mem_one w).1 hw] at hc
  exact absurd hc List.not_mem_nil

theorem Avoids.add (hl : Avoids ds l) (hm : Avoids ds m) : Avoids ds (l + m) := by
  intro w hw
  rcases (Language.mem_add l m w).1 hw with hw | hw
  · exact hl w hw
  · exact hm w hw

theorem Avoids.mul (hl : Avoids ds l) (hm : Avoids ds m) : Avoids ds (l * m) := by
  intro w hw c hc
  obtain ⟨x, hx, y, hy, rfl⟩ := Language.mem_mul.1 hw
  rcases List.mem_append.1 hc with hc | hc
  · exact hl x hx c hc
  · exact hm y hy c hc

theorem Avoids.kstar (hl : Avoids ds l) : Avoids ds l∗ := by
  intro w hw c hc
  obtain ⟨ws, rfl, hws⟩ := Language.mem_kstar.1 hw
  obtain ⟨x, hx, hcx⟩ := List.mem_flatten.1 hc
  exact hl x (hws x hx) c hcx

theorem Avoids.pow (hl : Avoids ds l) (n : ℕ) : Avoids ds (l ^ n) := by
  induction n with
  | zero =>
    rw [pow_zero]
    exact avoids_nil
  | succ n ih =>
    rw [pow_succ]
    exact ih.mul hl

theorem Avoids.opt (hl : Avoids ds l) : Avoids ds (opt l) := avoids_nil.add hl

theorem Avoids.not_mem (hl : Avoids ds l) {w : List Char} (hw : w ∈ l) {d : Char} (hd : d ∈ ds) :
    d ∉ w := fun h ↦ hl w hw d h hd

end Avoids

/-! ### Characters -/

def isHexDigit (c : Char) : Bool := "0123456789abcdefABCDEF".toList.contains c

def isUnreserved (c : Char) : Bool := c.isAlphanum || "-._~".toList.contains c

/-- The delimiters that a component may use for itself. -/
def isSubDelim (c : Char) : Bool :=
  "!$&()*+,;=".toList.contains c || decide (c = Char.ofNat 39)

/-- The delimiters between components. -/
def genDelims : List Char := ":/?#[]@".toList

def isSchemeChar (c : Char) : Bool := c.isAlphanum || "+-.".toList.contains c

/-! ### Components -/

def pctEncoded : Language Char := lit "%" * one isHexDigit * one isHexDigit

/-- What every component can hold. -/
def plain : Language Char := one isUnreserved + pctEncoded + one isSubDelim

def pchar : Language Char := plain + lit ":" + lit "@"

def scheme : Language Char := one Char.isAlpha * (one isSchemeChar)∗

def userinfo : Language Char := (plain + lit ":")∗

def regName : Language Char := plain∗

def port : Language Char := (one Char.isDigit)∗

/-- A path behind an authority: it is empty, or starts with a slash. -/
def pathAbempty : Language Char := (lit "/" * pchar∗)∗

/-- A query, or a fragment. -/
def query : Language Char := (pchar + lit "/" + lit "?")∗

/-! ### Addresses -/

/-- A number below 256. -/
def decOctet : Language Char :=
  {w | w ∈ between 1 3 Char.isDigit ∧ Nat.ofDigitChars 10 w 0 < 256 ∧ (w.length = 1 ∨ w.head? ≠ some '0')}

def ipv4Address : Language Char :=
  decOctet * lit "." * decOctet * lit "." * decOctet * lit "." * decOctet

def h16 : Language Char := between 1 4 isHexDigit

/-- A group with the colon behind it. -/
def group : Language Char := h16 * lit ":"

/-- The last two groups. -/
def ls32 : Language Char := group * h16 + ipv4Address

/-- At most some groups, and one more. -/
def leading : ℕ → Language Char
  | 0 => h16
  | n + 1 => h16 + group * leading n

def ipv6Address : Language Char :=
  group ^ 6 * ls32 +
    lit "::" * group ^ 5 * ls32 +
    opt (leading 0) * lit "::" * group ^ 4 * ls32 +
    opt (leading 1) * lit "::" * group ^ 3 * ls32 +
    opt (leading 2) * lit "::" * group ^ 2 * ls32 +
    opt (leading 3) * lit "::" * group ^ 1 * ls32 +
    opt (leading 4) * lit "::" * ls32 +
    opt (leading 5) * lit "::" * h16 +
    opt (leading 6) * lit "::"

def ipvFuture : Language Char :=
  (lit "v" + lit "V") * (one isHexDigit * (one isHexDigit)∗) * lit "." *
    ((one isUnreserved + one isSubDelim + lit ":") * (one isUnreserved + one isSubDelim + lit ":")∗)

/-! ### What the components avoid -/

/-- The delimiters between components, but for the colon. -/
def outerDelims : List Char := "/?#[]@".toList

theorem avoids_plain : Avoids genDelims plain :=
  ((avoids_one (by decide)).add
    (((avoids_lit (by decide)).mul (avoids_one (by decide))).mul (avoids_one (by decide)))).add
    (avoids_one (by decide))

theorem avoids_scheme : Avoids genDelims scheme :=
  (avoids_one (by decide)).mul (avoids_one (by decide)).kstar

theorem avoids_regName : Avoids genDelims regName := avoids_plain.kstar

theorem avoids_userinfo : Avoids outerDelims userinfo :=
  ((avoids_plain.mono (by decide)).add (avoids_lit (by decide))).kstar

theorem avoids_pathAbempty : Avoids ['?', '#'] pathAbempty :=
  ((avoids_lit (by decide)).mul
    (((avoids_plain.mono (by decide)).add (avoids_lit (by decide))).add
      (avoids_lit (by decide))).kstar).kstar

theorem avoids_decOctet : Avoids outerDelims decOctet := fun w hw ↦
  avoids_between (by decide) w hw.1

theorem avoids_ipv4Address : Avoids outerDelims ipv4Address := by
  have hdot : Avoids outerDelims (lit ".") := avoids_lit (by decide)
  have hoctet := avoids_decOctet
  exact (((((hoctet.mul hdot).mul hoctet).mul hdot).mul hoctet).mul hdot).mul hoctet

theorem avoids_h16 : Avoids outerDelims h16 := avoids_between (by decide)

theorem avoids_group : Avoids outerDelims group := avoids_h16.mul (avoids_lit (by decide))

theorem avoids_ls32 : Avoids outerDelims ls32 := (avoids_group.mul avoids_h16).add avoids_ipv4Address

theorem avoids_leading (n : ℕ) : Avoids outerDelims (leading n) := by
  induction n with
  | zero => exact avoids_h16
  | succ n ih => exact avoids_h16.add (avoids_group.mul ih)

theorem avoids_ipv6Address : Avoids outerDelims ipv6Address := by
  have hcolons : Avoids outerDelims (lit "::") := avoids_lit (by decide)
  -- some groups in front of two colons, and some behind
  have hboth : ∀ n k, Avoids outerDelims (opt (leading n) * lit "::" * group ^ k * ls32) := fun n k ↦
    (((avoids_leading n).opt.mul hcolons).mul (avoids_group.pow k)).mul avoids_ls32
  have hfront : ∀ n, Avoids outerDelims (opt (leading n) * lit "::") := fun n ↦
    (avoids_leading n).opt.mul hcolons
  exact ((((((((avoids_group.pow 6).mul avoids_ls32).add
    ((hcolons.mul (avoids_group.pow 5)).mul avoids_ls32)).add (hboth 0 4)).add (hboth 1 3)).add
    (hboth 2 2)).add (hboth 3 1)).add ((hfront 4).mul avoids_ls32)).add
    ((hfront 5).mul avoids_h16) |>.add (hfront 6)

theorem avoids_ipvFuture : Avoids outerDelims ipvFuture := by
  have hhex : Avoids outerDelims (one isHexDigit) := avoids_one (by decide)
  have hrest : Avoids outerDelims (one isUnreserved + one isSubDelim + lit ":") :=
    ((avoids_one (by decide)).add (avoids_one (by decide))).add (avoids_lit (by decide))
  exact ((((avoids_lit (by decide)).add (avoids_lit (by decide))).mul (hhex.mul hhex.kstar)).mul
    (avoids_lit (by decide))).mul (hrest.mul hrest.kstar)

/-- A path behind an authority starts with a slash, if with anything. -/
theorem head?_of_mem_pathAbempty {w : List Char} (h : w ∈ pathAbempty) : w = [] ∨ w.head? = some '/' := by
  obtain ⟨ws, rfl, hws⟩ := Language.mem_kstar.1 h
  rcases ws with - | ⟨x, ws⟩
  · exact .inl rfl
  · obtain ⟨a, ha, b, -, hx⟩ := Language.mem_mul.1 (hws x List.mem_cons_self)
    obtain rfl : a = "/".toList := ha
    subst hx
    exact .inr rfl

/-! ### Readings -/

/-- The host of an authority. An address of version four is a name, as far as the grammar goes. -/
inductive Host where
  /-- An address in brackets. -/
  | literal (address : List Char) (h : address ∈ ipv6Address + ipvFuture)
  | name (text : List Char) (h : text ∈ regName)

/-- The host, without the brackets. -/
def Host.inner : Host → List Char
  | literal address _ => address
  | name text _ => text

/-- The host as it is written. -/
def Host.text : Host → List Char
  | literal address _ => '[' :: (address ++ [']'])
  | name text _ => text

theorem Host.avoids (host : Host) {d : Char} (hd : d ∈ outerDelims) : d ∉ host.inner := by
  cases host with
  | literal address h => exact (avoids_ipv6Address.add avoids_ipvFuture).not_mem h hd
  | name text h =>
    exact (avoids_regName.mono (by decide)).not_mem h hd

/-- An optional component with the delimiter in front of it. -/
def led (d : Char) : Option (List Char) → List Char
  | none => []
  | some x => d :: x

/-- The user information, with the delimiter behind it. -/
def closed (d : Char) : Option (List Char) → List Char
  | none => []
  | some x => x ++ [d]

/-- A way to read a text as a URL with an authority. -/
structure Reading (url : List Char) where
  scheme : List Char
  userinfo : Option (List Char)
  host : Host
  port : Option (List Char)
  path : List Char
  query : Option (List Char)
  fragment : Option (List Char)
  scheme_mem : scheme ∈ Uri.scheme
  userinfo_mem : ∀ x ∈ userinfo, x ∈ Uri.userinfo
  port_mem : ∀ x ∈ port, x ∈ Uri.port
  path_mem : path ∈ pathAbempty
  query_mem : ∀ x ∈ query, x ∈ Uri.query
  fragment_mem : ∀ x ∈ fragment, x ∈ Uri.query
  text : url = scheme ++ "://".toList ++ (closed '@' userinfo ++ host.text ++ led ':' port ++
    (path ++ (led '?' query ++ led '#' fragment)))

end Uri
