import DynamicConfig.Config.Trim
import DynamicConfig.Server.State

/-!
# The change stream

One event per install, and an event is a number: the generation of the section, which is also the
event's id. What a connection has to say is decided by comparing it with the last number it sent, or,
at the opening, with the number the client claims in its `Last-Event-ID`.

A client that claims the number of the last event it was sent is read as claiming that number
(`lastEventId_idHeader`).
-/

namespace DynamicConfig.Server

/-- One connection's stream of generations, of the section its application and profile name. -/
structure Generations where
  application : String
  profile : String
  /-- What the handle on the section's changes has seen. -/
  changes : Nat
  /-- What the client's `Last-Event-ID` claimed, if anything. -/
  resume : Option Nat
  /-- The last generation this connection emitted. -/
  sent : Option Nat
  deriving DecidableEq, Repr

/-- One server-sent event. -/
structure Event where
  id : String
  event : String
  data : Value

namespace Generations

/-- Whether `generation` is news to this connection. -/
def isNews (stream : Generations) (generation : Nat) : Bool :=
  if generation = 0 then false
  else
    match stream.sent with
    | some sent => decide (sent < generation)
    | none =>
      match stream.resume with
      | some resumed => decide (generation ≠ resumed)
      | none => true

def event (stream : Generations) (generation : Nat) : Event where
  id := toString generation
  event := "generation"
  data := .table
    [("application", .scalar (.string stream.application)),
      ("generation", .scalar (.int generation)),
      ("profile", .scalar (.string stream.profile))]

/-- News is sent, and remembered. -/
def emit (stream : Generations) (generation : Nat) : Option (Generations × Event) :=
  if stream.isNews generation then
    some ({ stream with sent := some generation }, stream.event generation)
  else none

/-- At the opening, everything is news to a client that is not where the section is. -/
theorem isNews_of_opening {stream : Generations} (hsent : stream.sent = none) {generation : Nat} :
    stream.isNews generation = true ↔ generation ≠ 0 ∧ stream.resume ≠ some generation := by
  rw [isNews, hsent]
  split
  · next hzero => exact ⟨fun h ↦ absurd h Bool.false_ne_true, fun h ↦ absurd hzero h.1⟩
  · next hpos =>
    rcases stream.resume with - | resumed
    · exact ⟨fun _ ↦ ⟨hpos, (Option.some_ne_none _).symm⟩, fun _ ↦ rfl⟩
    · show decide (generation ≠ resumed) = true ↔ _
      rw [decide_eq_true_eq]
      exact ⟨fun h ↦ ⟨hpos, fun heq ↦ h (Option.some.inj heq).symm⟩, fun h heq ↦ h.2 (heq ▸ rfl)⟩

/-- After that, only what is higher than the last number sent. -/
theorem isNews_of_sent {stream : Generations} {sent generation : Nat}
    (hsent : stream.sent = some sent) :
    stream.isNews generation = true ↔ sent < generation := by
  rw [isNews, hsent]
  split
  · next hzero => exact ⟨fun h ↦ absurd h Bool.false_ne_true, fun h ↦ absurd (hzero ▸ h) (Nat.not_lt_zero _)⟩
  · exact decide_eq_true_iff

end Generations

/-! ### `Last-Event-ID` -/

/-- A number without the plus sign it may have. -/
def unsigned : List Char → List Char
  | '+' :: digits => digits
  | digits => digits

/-- `parse::<u64>()`. -/
def parseU64 (text : List Char) : Option Nat :=
  let digits := unsigned text
  if digits ≠ [] ∧ digits.all Char.isDigit = true ∧ Nat.ofDigitChars 10 digits 0 < 2 ^ 64 then
    some (Nat.ofDigitChars 10 digits 0)
  else none

/-- The generation a client says it already has. What is not a number is ignored. -/
def lastEventId (headers : HeaderMap) : Option Nat :=
  ((headers.get "last-event-id").bind toStr).bind fun text ↦ parseU64 (Text.trim text.toList)

/-- The headers of a client that claims the id of an event. -/
def idHeader (generation : Nat) : HeaderMap :=
  ⟨[("last-event-id", (toString generation).toList.map fun c ↦ UInt8.ofNat c.toNat)]⟩

theorem unsigned_of_digits {text : List Char} (h : ∀ c ∈ text, c.isDigit = true) :
    unsigned text = text := by
  rw [unsigned.eq_def]
  split
  · next rest => exact absurd (h '+' List.mem_cons_self) (by decide)
  · rfl

theorem parseU64_toDigits {n : Nat} (h : n < 2 ^ 64) : parseU64 (Nat.toDigits 10 n) = some n := by
  have hdigits : ∀ c ∈ Nat.toDigits 10 n, c.isDigit = true := fun c hc ↦
    Nat.isDigit_of_mem_toDigits (by decide) (by decide) hc
  rw [parseU64, unsigned_of_digits hdigits, Nat.ofDigitChars_ten_toDigits, if_pos]
  exact ⟨Nat.toDigits_ne_nil, List.all_eq_true.2 hdigits, h⟩

/-- The digits of a number are the visible characters from `0` to `9`. -/
theorem digit_bounds {n : Nat} {c : Char} (hc : c ∈ Nat.toDigits 10 n) : 48 ≤ c.toNat ∧ c.toNat ≤ 57 := by
  have hdigit := Nat.isDigit_of_mem_toDigits (by decide) (by decide) hc
  rw [Char.isDigit, Bool.and_eq_true, decide_eq_true_eq, decide_eq_true_eq] at hdigit
  exact hdigit

/-- A header value of visible characters is read as they are. -/
theorem toStr_ofNat {cs : List Char} (h : ∀ c ∈ cs, 32 ≤ c.toNat ∧ c.toNat < 127) :
    toStr (cs.map fun c ↦ UInt8.ofNat c.toNat) = some (String.ofList cs) := by
  have hbyte : ∀ c ∈ cs, (UInt8.ofNat c.toNat).toNat = c.toNat := fun c hc ↦
    Nat.mod_eq_of_lt (Nat.lt_trans (h c hc).2 (by decide))
  have hvisible : (cs.map fun c ↦ UInt8.ofNat c.toNat).all
      (fun b ↦ b == 9 || decide (32 ≤ b ∧ b < 127)) = true := by
    rw [List.all_map, List.all_eq_true]
    intro c hc
    refine Bool.or_eq_true_iff.2 (Or.inr (decide_eq_true ⟨UInt8.le_iff_toNat_le.2 ?_,
      UInt8.lt_iff_toNat_lt.2 ?_⟩))
    · rw [hbyte c hc]
      exact (h c hc).1
    · rw [hbyte c hc]
      exact (h c hc).2
  rw [toStr, if_pos hvisible, List.map_map]
  refine congrArg (fun cs ↦ some (String.ofList cs)) ?_
  refine (List.map_congr_left fun c hc ↦ ?_).trans (List.map_id _)
  show Char.ofNat (UInt8.ofNat c.toNat).toNat = c
  rw [hbyte c hc, Char.ofNat_toNat]

/-- There is nothing to trim from digits. -/
theorem trim_toDigits (n : Nat) : Text.trim (Nat.toDigits 10 n) = Nat.toDigits 10 n := by
  have hvisible : ∀ c ∈ Nat.toDigits 10 n, Text.isWhitespace c = false := fun c hc ↦
    Text.not_isWhitespace_of_isDigit (Nat.isDigit_of_mem_toDigits (by decide) (by decide) hc)
  obtain ⟨d, ds, hds⟩ := List.exists_cons_of_ne_nil (Nat.toDigits_ne_nil (n := n) (b := 10))
  have hend : Text.trimEnd (Nat.toDigits 10 n ++ []) = Nat.toDigits 10 n ++ Text.trimEnd [] :=
    Text.trimEnd_append (fun c hc ↦ hvisible c (List.mem_of_getLast? hc)) []
  rw [Text.trimEnd_of_blank Text.blank_nil, List.append_nil] at hend
  have hstart : Text.trimStart (Nat.toDigits 10 n) = Nat.toDigits 10 n := by
    rw [hds]
    exact Text.trimStart_cons (hvisible d (hds ▸ List.mem_cons_self)) ds
  rw [Text.trim, hstart, hend]

/-- **The id of an event is read back as its generation.** -/
theorem lastEventId_idHeader {generation : Nat} (h : generation < 2 ^ 64) :
    lastEventId (idHeader generation) = some generation := by
  have hget : (idHeader generation).get "last-event-id" =
      some ((Nat.toDigits 10 generation).map fun c ↦ UInt8.ofNat c.toNat) := by
    have hlist : (toString generation).toList = Nat.toDigits 10 generation := Nat.toList_repr
    rw [idHeader, hlist]
    rfl
  have hstr := toStr_ofNat fun c hc ↦ by
    obtain ⟨hlow, hhigh⟩ := digit_bounds (n := generation) hc
    exact ⟨by omega, by omega⟩
  rw [lastEventId, hget, Option.bind_some, hstr, Option.bind_some, String.toList_ofList,
    trim_toDigits, parseU64_toDigits h]

end DynamicConfig.Server
