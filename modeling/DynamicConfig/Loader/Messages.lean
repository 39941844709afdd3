import DynamicConfig.Config.Trim
import DynamicConfig.Loader.Origin

/-!
# What an error message repeats

An error carries the scalar that was found, and the crate's rendering of it is supposed to leave the
scalar out. `Kind.redacted` is an error kind with its scalar blanked; two failures are *the same
kind of failure* when their redacted kinds agree, and a rendering repeats nothing when it cannot tell
two such failures apart.

The two kinds the crate renders itself pass (`message_eq_of_not_quotesValue`). The kinds it hands to
figment's `Display` are told apart exactly where `Display` quotes a scalar
(`message_ne_of_quotesValue`): an unknown variant is the text of an enum field, and the two
out-of-range kinds are numbers.

The excerpt of a document that a parser echoes back is a matter of lines: a quoted line starts with
a gutter, and `withoutQuotedSource` drops it whatever follows the bar.
-/

namespace DynamicConfig

/-! ### The scalar an error carries -/

/-- Whether what was found is a scalar the error holds. -/
def Actual.carriesValue : Actual → Bool
  | .bool _ | .unsigned _ | .signed _ | .float _ | .char _ | .str _ | .bytes _ => true
  | _ => false

/-- What was found, with the scalar blanked. -/
def Actual.redacted : Actual → Actual
  | .bool _ => .bool false
  | .unsigned _ => .unsigned 0
  | .signed _ => .signed 0
  | .float _ => .float 0
  | .char _ => .char ' '
  | .str _ => .str ""
  | .bytes _ => .bytes []
  | actual => actual

/-- The kind of a failure, with the scalar it carries blanked. Texts a type fixes stay, and so do the
names of keys and the lengths of lists. -/
def Kind.redacted : Kind → Kind
  | .invalidType actual expected => .invalidType actual.redacted expected
  | .invalidValue actual expected => .invalidValue actual.redacted expected
  | .unknownVariant _ expected => .unknownVariant "" expected
  | .isizeOutOfRange _ => .isizeOutOfRange 0
  | .usizeOutOfRange _ => .usizeOutOfRange 0
  | .unsupported actual => .unsupported actual.redacted
  | kind => kind

/-- The kinds whose rendering falls through to figment's `Display` with a scalar on board. -/
def Kind.quotesValue : Kind → Bool
  | .unknownVariant _ _ | .isizeOutOfRange _ | .usizeOutOfRange _ => true
  | .unsupported actual => actual.carriesValue
  | _ => false

theorem kindOf_eq_of_redacted {a b : Actual} (h : a.redacted = b.redacted) :
    kindOf a = kindOf b := by
  cases a <;> cases b <;> simp_all [Actual.redacted, kindOf]

theorem Actual.eq_of_redacted {a b : Actual} (ha : a.carriesValue = false)
    (h : a.redacted = b.redacted) : a = b := by
  cases a <;> cases b <;> simp_all [Actual.redacted, Actual.carriesValue]

theorem Actual.carriesValue_eq_of_redacted {a b : Actual} (h : a.redacted = b.redacted) :
    a.carriesValue = b.carriesValue := by
  cases a <;> cases b <;> first | rfl | cases h

/-- **What a redaction hides.** Kinds with one redaction are one kind, or two mismatches of one
type, or two of the kinds that quote. -/
theorem Kind.eq_or_of_redacted {k k' : Kind} (h : k.redacted = k'.redacted) :
    k = k' ∨
      (∃ a b e, k = .invalidType a e ∧ k' = .invalidType b e ∧ a.redacted = b.redacted) ∨
        (∃ a b e, k = .invalidValue a e ∧ k' = .invalidValue b e ∧ a.redacted = b.redacted) ∨
          (k.quotesValue = true ∧ k'.quotesValue = true) := by
  cases k with
  | invalidType a e =>
    cases k' with
    | invalidType b e' =>
      obtain ⟨hab, rfl⟩ := Kind.invalidType.inj h
      exact Or.inr (Or.inl ⟨a, b, e, rfl, rfl, hab⟩)
    | _ => cases h
  | invalidValue a e =>
    cases k' with
    | invalidValue b e' =>
      obtain ⟨hab, rfl⟩ := Kind.invalidValue.inj h
      exact Or.inr (Or.inr (Or.inl ⟨a, b, e, rfl, rfl, hab⟩))
    | _ => cases h
  | unsupported a =>
    cases k' with
    | unsupported b =>
      have hab := Kind.unsupported.inj h
      cases ha : a.carriesValue with
      | false => exact Or.inl (congrArg Kind.unsupported (Actual.eq_of_redacted ha hab))
      | true =>
        have hb : b.carriesValue = true := (Actual.carriesValue_eq_of_redacted hab).symm.trans ha
        exact Or.inr (Or.inr (Or.inr ⟨ha, hb⟩))
    | _ => cases h
  | unknownVariant =>
    cases k' with
    | unknownVariant => exact Or.inr (Or.inr (Or.inr ⟨rfl, rfl⟩))
    | _ => cases h
  | isizeOutOfRange =>
    cases k' with
    | isizeOutOfRange => exact Or.inr (Or.inr (Or.inr ⟨rfl, rfl⟩))
    | _ => cases h
  | usizeOutOfRange =>
    cases k' with
    | usizeOutOfRange => exact Or.inr (Or.inr (Or.inr ⟨rfl, rfl⟩))
    | _ => cases h
  | _ =>
    cases k' <;> cases h
    exact Or.inl rfl

theorem quotesValue_eq_of_redacted {k k' : Kind} (h : k'.redacted = k.redacted) :
    k'.quotesValue = k.quotesValue := by
  rcases Kind.eq_or_of_redacted h with rfl | ⟨_, _, _, rfl, rfl, -⟩ | ⟨_, _, _, rfl, rfl, -⟩ | ⟨h', h⟩
  · rfl
  · rfl
  · rfl
  · rw [h', h]

/-- Two failures at one place that differ at most in the scalar they carry. -/
structure SameFailure (a b : FigmentError) : Prop where
  kind : a.kind.redacted = b.kind.redacted
  path : a.path = b.path
  metadata : a.metadata = b.metadata

/-- Two errors a reader cannot tell apart by kind, path or message. -/
structure SameReport (a b : Error) : Prop where
  kind : a.kind = b.kind
  path : a.path = b.path
  message : a.message = b.message

/-- The category and the path never depend on the scalar. -/
theorem SameFailure.kindOfError_eq {a b : FigmentError} (h : SameFailure a b) :
    kindOfError a = kindOfError b := by
  obtain ⟨kind, path, metadata⟩ := a
  obtain ⟨kind', path', metadata'⟩ := b
  obtain ⟨hkind, rfl, rfl⟩ := h
  cases kind <;> cases kind' <;> first | rfl | cases hkind

theorem SameFailure.errorPath_eq {a b : FigmentError} (h : SameFailure a b) :
    errorPath a = errorPath b := by
  obtain ⟨kind, path, metadata⟩ := a
  obtain ⟨kind', path', metadata'⟩ := b
  obtain ⟨hkind, rfl, rfl⟩ := h
  cases kind <;> cases kind' <;> first | rfl | (cases hkind; done) | (cases hkind; rfl)

/-- **Where the message falls through without a scalar, it repeats none.** -/
theorem SameFailure.message_eq {a b : FigmentError} (h : SameFailure a b)
    (hquotes : a.kind.quotesValue = false) (display : FigmentError → String) :
    message display a = message display b := by
  obtain ⟨kind, path, metadata⟩ := a
  obtain ⟨kind', path', metadata'⟩ := b
  obtain ⟨hkind, rfl, rfl⟩ := h
  rcases Kind.eq_or_of_redacted hkind with rfl | ⟨x, y, e, rfl, rfl, hxy⟩ | ⟨x, y, e, rfl, rfl, hxy⟩ |
    hquotes'
  · rfl
  · show _ ++ kindOf x ++ _ ++ e = _ ++ kindOf y ++ _ ++ e
    rw [kindOf_eq_of_redacted hxy]
  · show _ ++ kindOf x ++ _ ++ e = _ ++ kindOf y ++ _ ++ e
    rw [kindOf_eq_of_redacted hxy]
  · rw [hquotes'.1] at hquotes
    exact absurd hquotes.symm Bool.false_ne_true

/-! ### What a rendering keeps -/

/-- A piece of one line that no trimming can shorten: it starts with a letter and ends in no white
space. -/
structure Plain (piece : List Char) : Prop where
  letter : ∃ c cs, piece = c :: cs ∧ c.isAlpha = true
  oneLine : '\n' ∉ piece
  word : ∀ c ∈ piece.getLast?, Text.isWhitespace c = false

/-- A line that opens with a letter is no part of an excerpt. -/
theorem isGutter_of_isAlpha {c : Char} (h : c.isAlpha = true) (cs : List Char) :
    isGutter (c :: cs) = false := by
  have hspace := Text.not_isWhitespace_of_isAlpha h
  have hdigit : c.isDigit = false := by
    have hrange := Text.toNat_of_isAlpha h
    simp only [Char.isDigit, Bool.and_eq_false_iff, decide_eq_false_iff_not,
      UInt32.le_iff_toNat_le, ge_iff_le]
    show ¬ 48 ≤ c.toNat ∨ ¬ c.toNat ≤ 57
    omega
  have hbar : c ≠ '|' := by
    rintro rfl
    exact absurd h (by decide)
  simp [isGutter, Text.trimStart, hspace, hdigit, hbar]

/-- Trimming the end keeps what ends in no white space. -/
theorem prefix_trimEnd {piece rest : List Char}
    (h : ∀ c ∈ piece.getLast?, Text.isWhitespace c = false) :
    piece <+: Text.trimEnd (piece ++ rest) := by
  rw [Text.trimEnd_append h]
  exact List.prefix_append _ _

/-- The first line of a text that starts with a piece of a line starts with the piece. -/
theorem lines_append {piece : List Char} (h : Plain piece) (rest : List Char) :
    ∃ end_ more, Text.lines (piece ++ rest) = (piece ++ end_) :: more := by
  obtain ⟨first, others, hsplit⟩ :=
    List.exists_cons_of_ne_nil (List.splitOn_ne_nil '\n' rest)
  have hparts : (piece ++ rest).splitOn '\n' = (piece ++ first) :: others := by
    have hone := h.oneLine
    clear h
    induction piece with
    | nil => exact hsplit
    | cons c cs ih =>
      obtain ⟨hc, hcs⟩ := not_or.1 (fun hmem ↦ hone (List.mem_cons.2 hmem))
      have hne : (c == '\n') = false := by simpa using fun h ↦ hc h.symm
      rw [List.cons_append, List.splitOn_cons_eq_if_modifyHead, hne, ih hcs]
      rfl
  have hchomp : ∃ end_, Text.chomp (piece ++ first) = piece ++ end_ := by
    rw [Text.chomp]
    split
    · next hlast =>
      rcases List.eq_nil_or_concat first with rfl | ⟨init, c, rfl⟩
      · rw [List.append_nil] at hlast
        exact absurd (h.word _ hlast) (by decide)
      · exact ⟨init, by rw [List.concat_eq_append, ← List.append_assoc, List.dropLast_concat]⟩
    · exact ⟨first, rfl⟩
  obtain ⟨c, cs, rfl, -⟩ := h.letter
  rw [Text.lines, hparts]
  rcases others with - | ⟨o, os⟩
  · exact ⟨first, [], by simp⟩
  · obtain ⟨end_, hend⟩ := hchomp
    exact ⟨end_, _, by rw [List.dropLast_cons_cons, List.map_cons, hend]; rfl⟩

/-- **What a message keeps.** A text that starts with a piece of a line and a letter keeps it. -/
theorem prefix_withoutQuotedSource {piece : List Char} (h : Plain piece) {text : String}
    (htext : piece <+: text.toList) : piece <+: (withoutQuotedSource text).toList := by
  obtain ⟨rest, hrest⟩ := htext
  obtain ⟨end_, more, hlines⟩ := lines_append h rest
  obtain ⟨c, cs, hpiece, hletter⟩ := h.letter
  have hkept : isGutter (piece ++ end_) = false := by
    rw [hpiece, List.cons_append]
    exact isGutter_of_isAlpha hletter _
  rw [withoutQuotedSource, ← hrest, hlines, List.filter_cons_of_pos (by simp [hkept]),
    String.toList_ofList]
  obtain ⟨tail, htail⟩ : ∃ tail, ['\n'].intercalate ((piece ++ end_) ::
      more.filter fun line ↦ !isGutter line) = piece ++ tail := by
    cases more.filter fun line ↦ !isGutter line with
    | nil => exact ⟨end_, by simp [List.intercalate]⟩
    | cons l ls => exact ⟨_, by rw [List.intercalate_cons_cons, List.append_assoc,
        List.append_assoc]⟩
  rw [htail]
  exact prefix_trimEnd h.word

/-! ### The backend's `Display` -/

/-- What is assumed of figment's `Display`, where `shown` is the scalar a kind carries as `Display`
writes it: the kinds that carry one quote it after a lead that does not depend on it, and every type
of scalar has two values shown as different words (`true` and `false`, `0` and `1`, `a` and `b`). -/
structure QuotesPayload (display : FigmentError → String) (shown : Kind → List Char) : Prop where
  leads : ∀ (k : Kind) (path : List String) (metadata : Option Metadata), k.quotesValue = true →
    ∃ lead, (∃ c cs, lead = c :: cs ∧ c.isAlpha = true) ∧ '\n' ∉ lead ∧
      ∀ k', k'.redacted = k.redacted →
        lead ++ shown k' <+: (display { kind := k', path, metadata }).toList
  distinct : ∀ k : Kind, k.quotesValue = true →
    ∃ k₁ k₂ : Kind, k₁.redacted = k.redacted ∧ k₂.redacted = k.redacted ∧
      ¬ shown k₁ <+: shown k₂ ∧ ¬ shown k₂ <+: shown k₁ ∧
      ∀ c ∈ shown k₁ ++ shown k₂, Text.isWhitespace c = false

/-- A lead and a word after it are a piece of a line. -/
theorem plain_append {lead word : List Char} (hletter : ∃ c cs, lead = c :: cs ∧ c.isAlpha = true)
    (hline : '\n' ∉ lead) (hne : word ≠ []) (hword : ∀ c ∈ word, Text.isWhitespace c = false) :
    Plain (lead ++ word) where
  letter := by
    obtain ⟨c, cs, rfl, hc⟩ := hletter
    exact ⟨c, cs ++ word, rfl, hc⟩
  oneLine := by
    rw [List.mem_append, not_or]
    exact ⟨hline, fun hmem ↦ absurd (hword _ hmem) (by decide)⟩
  word := by
    intro c hc
    rw [Option.mem_def, List.getLast?_append_of_ne_nil _ hne] at hc
    exact hword c (List.mem_of_getLast? hc)

/-- **Where `Display` quotes a scalar, the message repeats it.** -/
theorem message_ne_of_quotesValue {display : FigmentError → String} {shown : Kind → List Char}
    (h : QuotesPayload display shown) {k : Kind} (hk : k.quotesValue = true)
    (path : List String) (metadata : Option Metadata) :
    ∃ k₁ k₂ : Kind, k₁.redacted = k.redacted ∧ k₂.redacted = k.redacted ∧
      message display { kind := k₁, path, metadata } ≠
        message display { kind := k₂, path, metadata } := by
  obtain ⟨lead, hletter, hline, hshown⟩ := h.leads k path metadata hk
  obtain ⟨k₁, k₂, hk₁, hk₂, h₁₂, h₂₁, hword⟩ := h.distinct k hk
  refine ⟨k₁, k₂, hk₁, hk₂, fun hsame ↦ ?_⟩
  have hfalls : ∀ k' : Kind, k'.redacted = k.redacted →
      message display { kind := k', path, metadata } =
        withoutQuotedSource (display { kind := k', path, metadata }) := by
    intro k' hk'
    have hk'' : k'.quotesValue = true := (quotesValue_eq_of_redacted hk').trans hk
    cases k' with
    | invalidType => cases hk''
    | invalidValue => cases hk''
    | _ => rfl
  have hkept : ∀ k' : Kind, k'.redacted = k.redacted → shown k' ≠ [] →
      (∀ c ∈ shown k', Text.isWhitespace c = false) →
      lead ++ shown k' <+: (message display { kind := k', path, metadata }).toList := by
    intro k' hk' hne hword'
    rw [hfalls k' hk']
    exact prefix_withoutQuotedSource (plain_append hletter hline hne hword') (hshown k' hk')
  have hne₁ : shown k₁ ≠ [] := fun hnil ↦ h₁₂ (hnil ▸ List.nil_prefix)
  have hne₂ : shown k₂ ≠ [] := fun hnil ↦ h₂₁ (hnil ▸ List.nil_prefix)
  have hprefix₁ := hkept k₁ hk₁ hne₁ fun c hc ↦ hword c (List.mem_append_left _ hc)
  have hprefix₂ := hkept k₂ hk₂ hne₂ fun c hc ↦ hword c (List.mem_append_right _ hc)
  rw [hsame] at hprefix₁
  rcases List.prefix_or_prefix_of_prefix hprefix₁ hprefix₂ with hp | hp
  · exact h₁₂ ((List.prefix_append_right_inj lead).1 hp)
  · exact h₂₁ ((List.prefix_append_right_inj lead).1 hp)

/-! ### Quoted document lines -/

/-- A line of a rendered excerpt: a gutter of blanks, a line number and blanks, the bar, and any
text at all after it. -/
structure QuotedLine where
  before : List Char
  number : List Char
  after : List Char
  text : List Char
  before_blank : ∀ c ∈ before, Text.isWhitespace c = true
  number_digits : ∀ c ∈ number, c.isDigit = true
  after_blank : ∀ c ∈ after, Text.isWhitespace c = true
  oneLine : '\n' ∉ before ++ number ++ after ++ '|' :: text

/-- The line as it is rendered. -/
def QuotedLine.line (q : QuotedLine) : List Char :=
  q.before ++ q.number ++ q.after ++ '|' :: q.text

/-- A gutter is recognised whatever follows its bar. -/
theorem isGutter_of_gutter {before number after : List Char}
    (hbefore : ∀ c ∈ before, Text.isWhitespace c = true) (hnumber : ∀ c ∈ number, c.isDigit = true)
    (hafter : ∀ c ∈ after, Text.isWhitespace c = true) (text : List Char) :
    isGutter (before ++ number ++ after ++ '|' :: text) = true := by
  have htrim : Text.trimStart (after ++ '|' :: text) = '|' :: text := by
    rw [Text.trimStart, List.dropWhile_append_of_pos hafter, List.dropWhile_cons_of_neg (by decide)]
  have hstart : Text.trimStart (before ++ (number ++ (after ++ '|' :: text))) =
      Text.trimStart (number ++ (after ++ '|' :: text)) :=
    List.dropWhile_append_of_pos hbefore
  have hdigits : Text.trimStart
      ((Text.trimStart (number ++ (after ++ '|' :: text))).dropWhile Char.isDigit) =
        '|' :: text := by
    rcases number with - | ⟨d, ds⟩
    · rw [List.nil_append, htrim, List.dropWhile_cons_of_neg (by decide), Text.trimStart,
        List.dropWhile_cons_of_neg (by decide)]
    · have hd := Text.not_isWhitespace_of_isDigit (hnumber d List.mem_cons_self)
      have hstop : (after ++ '|' :: text).dropWhile Char.isDigit = after ++ '|' :: text := by
        rcases after with - | ⟨c, cs⟩
        · rfl
        · have hc : c.isDigit = false := by
            by_contra hdigit
            rw [Bool.not_eq_false] at hdigit
            have hspace := hafter c List.mem_cons_self
            rw [Text.not_isWhitespace_of_isDigit hdigit] at hspace
            exact Bool.false_ne_true hspace
          rw [List.cons_append, List.dropWhile_cons_of_neg (by simp [hc])]
      have hnumber' : Text.trimStart (d :: ds ++ (after ++ '|' :: text)) =
          d :: ds ++ (after ++ '|' :: text) := by
        rw [Text.trimStart, List.cons_append, List.dropWhile_cons_of_neg (by simp [hd])]
      rw [hnumber', List.dropWhile_append_of_pos hnumber, hstop, htrim]
  rw [isGutter, List.append_assoc, List.append_assoc, hstart, hdigits]
  rfl

theorem QuotedLine.isGutter_chomp (q : QuotedLine) : isGutter (Text.chomp q.line) = true := by
  rw [Text.chomp]
  split
  · next hlast =>
    rcases List.eq_nil_or_concat q.text with htext | ⟨init, c, htext⟩
    · rw [QuotedLine.line, htext, List.getLast?_append_of_ne_nil _ (by simp)] at hlast
      exact absurd hlast (by decide)
    · have hdrop : q.line.dropLast = q.before ++ q.number ++ q.after ++ '|' :: init := by
        rw [QuotedLine.line, htext, List.concat_eq_append, ← List.cons_append, ← List.append_assoc,
          List.dropLast_concat]
      rw [hdrop]
      exact isGutter_of_gutter q.before_blank q.number_digits q.after_blank init
  · exact isGutter_of_gutter q.before_blank q.number_digits q.after_blank q.text

/-- A text made of lines. -/
def rendering (ls : List (List Char)) : String :=
  String.ofList (['\n'].intercalate ls)

/-- The lines of a text made of lines. -/
theorem lines_rendering {ls : List (List Char)} (hne : ls ≠ []) (h : ∀ l ∈ ls, '\n' ∉ l) :
    Text.lines (rendering ls).toList =
      ls.dropLast.map Text.chomp ++
        if ls.getLast?.getD [] = [] then [] else [ls.getLast?.getD []] := by
  rw [Text.lines, rendering, String.toList_ofList, List.splitOn_intercalate '\n' h hne]

/-- **No text of a quoted line survives**: whatever lines are quoted between the head of a rendering
and the reason below it, what is left is what is left when none is. -/
theorem withoutQuotedSource_rendering {head tail : List (List Char)} (quoted : List QuotedLine)
    (hhead : ∀ l ∈ head, '\n' ∉ l) (htail : ∀ l ∈ tail, '\n' ∉ l) (hne : tail ≠ []) :
    withoutQuotedSource (rendering (head ++ quoted.map QuotedLine.line ++ tail)) =
      withoutQuotedSource (rendering (head ++ tail)) := by
  have hquoted : ∀ l ∈ quoted.map QuotedLine.line, '\n' ∉ l := by
    rintro l hl
    obtain ⟨q, -, rfl⟩ := List.mem_map.1 hl
    exact q.oneLine
  have hall : ∀ l ∈ head ++ quoted.map QuotedLine.line ++ tail, '\n' ∉ l := by
    intro l hl
    rcases List.mem_append.1 hl with hl | hl
    · rcases List.mem_append.1 hl with hl | hl
      · exact hhead l hl
      · exact hquoted l hl
    · exact htail l hl
  have hkept : ∀ l ∈ head ++ tail, '\n' ∉ l := by
    intro l hl
    rcases List.mem_append.1 hl with hl | hl
    · exact hhead l hl
    · exact htail l hl
  have hgone : ((quoted.map QuotedLine.line).map Text.chomp).filter
      (fun line ↦ !isGutter line) = [] := by
    rw [List.filter_eq_nil_iff]
    intro l hl
    rw [List.map_map] at hl
    obtain ⟨q, -, rfl⟩ := List.mem_map.1 hl
    simp [q.isGutter_chomp]
  rw [withoutQuotedSource, withoutQuotedSource, lines_rendering (by simp [hne]) hall,
    lines_rendering (by simp [hne]) hkept, List.dropLast_append_of_ne_nil hne,
    List.dropLast_append_of_ne_nil hne, List.getLast?_append_of_ne_nil _ hne,
    List.getLast?_append_of_ne_nil _ hne, List.map_append, List.map_append, List.map_append,
    List.filter_append, List.filter_append, List.filter_append, hgone, List.append_nil,
    List.filter_append, List.filter_append]

/-! ### Load failures -/

/-- A kind of failure never repeats a value: two failures of it at one place, whatever scalars they
carry, translate and convert to reports with the same kind, path and message. -/
def NeverRepeats (display : FigmentError → String) (k : Kind) : Prop :=
  ∀ a b : FigmentError, a.kind.redacted = k.redacted → SameFailure a b →
    SameReport (translate display a) (translate display b) ∧
      ∀ (host : Host) (spec : LoadSpec), host.display = display →
        SameReport (convert host spec a) (convert host spec b)

theorem SameFailure.sameReport {a b : FigmentError} (h : SameFailure a b)
    (hquotes : a.kind.quotesValue = false) (display : FigmentError → String) :
    SameReport (translate display a) (translate display b) := by
  rw [translate_eq, translate_eq]
  exact ⟨h.kindOfError_eq, h.errorPath_eq, h.message_eq hquotes display⟩

theorem SameFailure.sameReport_convert {a b : FigmentError} (h : SameFailure a b)
    (hquotes : a.kind.quotesValue = false) (host : Host) (spec : LoadSpec) :
    SameReport (convert host spec a) (convert host spec b) := by
  obtain ⟨_, ha⟩ := convert_eq host spec a
  obtain ⟨_, hb⟩ := convert_eq host spec b
  rw [ha, hb]
  exact ⟨h.kindOfError_eq, h.errorPath_eq, h.message_eq hquotes host.display⟩

/-- **Which failures never repeat a value**: those whose message does not fall through to a
`Display` that quotes one. The lines of an excerpt never survive, whatever the failure. -/
theorem neverRepeats_iff {display : FigmentError → String} {shown : Kind → List Char}
    (h : QuotesPayload display shown) :
    (∀ k : Kind, NeverRepeats display k ↔ k.quotesValue = false) ∧
      ∀ (head tail : List (List Char)) (quoted : List QuotedLine),
        (∀ l ∈ head, '\n' ∉ l) → (∀ l ∈ tail, '\n' ∉ l) → tail ≠ [] →
          withoutQuotedSource (rendering (head ++ quoted.map QuotedLine.line ++ tail)) =
            withoutQuotedSource (rendering (head ++ tail)) := by
  refine ⟨fun k ↦ ⟨fun hnever ↦ ?_, fun hquotes a b ha hab ↦ ?_⟩,
    fun head tail quoted hhead htail hne ↦ withoutQuotedSource_rendering quoted hhead htail hne⟩
  · by_contra hquotes
    rw [Bool.not_eq_false] at hquotes
    obtain ⟨k₁, k₂, hk₁, hk₂, hmessage⟩ := message_ne_of_quotesValue h hquotes [] none
    have hsame : SameFailure { kind := k₁ } { kind := k₂ } := ⟨hk₁.trans hk₂.symm, rfl, rfl⟩
    have hreport := (hnever _ _ hk₁ hsame).1.message
    rw [translate_eq, translate_eq] at hreport
    exact hmessage hreport
  · have hnone : a.kind.quotesValue = false := (quotesValue_eq_of_redacted ha).trans hquotes
    refine ⟨hab.sameReport hnone display, fun host spec hdisplay ↦ ?_⟩
    exact hab.sameReport_convert hnone host spec

/-! ### A `Display` in figment's words -/

/-- The scalars an error can hold. -/
theorem Actual.carriesValue_cases {motive : Actual → Prop} (bool : ∀ v, motive (.bool v))
    (unsigned : ∀ v, motive (.unsigned v)) (signed : ∀ v, motive (.signed v))
    (float : ∀ v, motive (.float v)) (char : ∀ v, motive (.char v)) (str : ∀ v, motive (.str v))
    (bytes : ∀ v, motive (.bytes v)) {a : Actual} (ha : a.carriesValue = true) : motive a :=
  match a, ha with
  | .bool v, _ => bool v
  | .unsigned v, _ => unsigned v
  | .signed v, _ => signed v
  | .float v, _ => float v
  | .char v, _ => char v
  | .str v, _ => str v
  | .bytes v, _ => bytes v

/-- The kinds that quote one. -/
theorem Kind.quotesValue_cases {motive : Kind → Prop}
    (unknownVariant : ∀ v e, motive (.unknownVariant v e))
    (isizeOutOfRange : ∀ v, motive (.isizeOutOfRange v))
    (usizeOutOfRange : ∀ v, motive (.usizeOutOfRange v))
    (unsupported : ∀ a : Actual, a.carriesValue = true → motive (.unsupported a))
    {k : Kind} (hk : k.quotesValue = true) : motive k :=
  match k, hk with
  | .unknownVariant v e, _ => unknownVariant v e
  | .isizeOutOfRange v, _ => isizeOutOfRange v
  | .usizeOutOfRange v, _ => usizeOutOfRange v
  | .unsupported a, ha => unsupported a ha

/-- What a scalar is shown as. -/
def Actual.text : Actual → List Char
  | .bool value => (toString value).toList
  | .unsigned value => (toString value).toList
  | .signed value => (toString value).toList
  | .float bits => (toString bits.toNat).toList
  | .char value => [value]
  | .str value => value.toList
  | .bytes value => value.flatMap fun byte ↦ (toString byte.toNat).toList
  | _ => []

/-- What a type of value is called before its value. -/
def Actual.lead : Actual → List Char
  | .bool _ => "bool ".toList
  | .unsigned _ => "unsigned int \x60".toList
  | .signed _ => "signed int \x60".toList
  | .float _ => "float \x60".toList
  | .char _ => "char '".toList
  | .str _ => "string \"".toList
  | .bytes _ => "bytes [".toList
  | _ => []

/-- The scalar a kind carries, as it is shown. -/
def Kind.text : Kind → List Char
  | .unknownVariant found _ => found.toList
  | .isizeOutOfRange value => (toString value).toList
  | .usizeOutOfRange value => (toString value).toList
  | .unsupported actual => actual.text
  | _ => []

/-- What a kind says before its scalar. -/
def Kind.lead : Kind → List Char
  | .message text => text.toList
  | .unknownVariant _ _ => "unknown variant: found \x60".toList
  | .isizeOutOfRange _ => "signed integer \x60".toList
  | .usizeOutOfRange _ => "unsigned integer \x60".toList
  | .unsupported actual => "unsupported type \x60".toList ++ actual.lead
  | .missingField field => ("missing field \x60" ++ field ++ "\x60").toList
  | .duplicateField field => ("duplicate field \x60" ++ field ++ "\x60").toList
  | _ => "invalid configuration".toList

theorem Kind.lead_unsupported (a : Actual) :
    (Kind.unsupported a).lead = "unsupported type \x60".toList ++ a.lead := rfl

/-- What a kind says after its scalar. -/
def Kind.trail : Kind → List Char
  | .unknownVariant _ expected =>
    ("\x60, expected \x60" ++ String.intercalate "\x60, \x60" expected ++ "\x60").toList
  | .isizeOutOfRange _ | .usizeOutOfRange _ => "\x60 is out of range".toList
  | .unsupported _ => "\x60".toList
  | _ => []

/-- A rendering in figment's words: what is wrong, with the scalar quoted, and the provider. -/
def rendered (error : FigmentError) : String :=
  String.ofList (error.kind.lead ++ error.kind.text ++ (error.kind.trail ++
    match error.metadata with
    | some metadata => (" in " ++ metadata.name).toList
    | none => []))

theorem Actual.lead_eq_of_redacted {a b : Actual} (hb : b.carriesValue = true) :
    a.redacted = b.redacted → a.lead = b.lead := by
  refine Actual.carriesValue_cases (motive := fun b ↦ a.redacted = b.redacted → a.lead = b.lead)
    ?_ ?_ ?_ ?_ ?_ ?_ ?_ hb
  all_goals
    intro v h
    cases a <;> first | (cases h; done) | rfl

theorem Kind.lead_eq_of_redacted {k k' : Kind} (hk : k.quotesValue = true) :
    k'.redacted = k.redacted → k'.lead = k.lead := by
  refine Kind.quotesValue_cases
    (motive := fun k ↦ k'.redacted = k.redacted → k'.lead = k.lead) ?_ ?_ ?_ ?_ hk
  · intro v e h
    cases k' with
    | unknownVariant => rfl
    | _ => cases h
  · intro v h
    cases k' with
    | isizeOutOfRange => rfl
    | _ => cases h
  · intro v h
    cases k' with
    | usizeOutOfRange => rfl
    | _ => cases h
  · intro a ha h
    cases k' with
    | unsupported b =>
      have hactual := Actual.lead_eq_of_redacted ha (Kind.unsupported.inj h)
      rw [Kind.lead_unsupported, Kind.lead_unsupported, hactual]
    | _ => cases h

theorem Actual.lead_oneLine {a : Actual} (ha : a.carriesValue = true) : '\n' ∉ a.lead := by
  refine Actual.carriesValue_cases (motive := fun a ↦ '\n' ∉ a.lead) ?_ ?_ ?_ ?_ ?_ ?_ ?_ ha
  · exact fun _ ↦ (by decide : '\n' ∉ "bool ".toList)
  · exact fun _ ↦ (by decide : '\n' ∉ "unsigned int \x60".toList)
  · exact fun _ ↦ (by decide : '\n' ∉ "signed int \x60".toList)
  · exact fun _ ↦ (by decide : '\n' ∉ "float \x60".toList)
  · exact fun _ ↦ (by decide : '\n' ∉ "char '".toList)
  · exact fun _ ↦ (by decide : '\n' ∉ "string \"".toList)
  · exact fun _ ↦ (by decide : '\n' ∉ "bytes [".toList)

/-- A lead is a piece of one line that opens with a letter. -/
theorem Kind.lead_plain {k : Kind} (hk : k.quotesValue = true) :
    (∃ c cs, k.lead = c :: cs ∧ c.isAlpha = true) ∧ '\n' ∉ k.lead := by
  have hvariant : "unknown variant: found \x60".toList = 'u' :: "nknown variant: found \x60".toList ∧
      '\n' ∉ "unknown variant: found \x60".toList := by decide
  have hsigned : "signed integer \x60".toList = 's' :: "igned integer \x60".toList ∧
      '\n' ∉ "signed integer \x60".toList := by decide
  have hunsigned : "unsigned integer \x60".toList = 'u' :: "nsigned integer \x60".toList ∧
      '\n' ∉ "unsigned integer \x60".toList := by decide
  have htype : "unsupported type \x60".toList = 'u' :: "nsupported type \x60".toList ∧
      '\n' ∉ "unsupported type \x60".toList := by decide
  refine Kind.quotesValue_cases
    (motive := fun k ↦ (∃ c cs, k.lead = c :: cs ∧ c.isAlpha = true) ∧ '\n' ∉ k.lead)
    (fun v e ↦ ?_) (fun v ↦ ?_) (fun v ↦ ?_) (fun a ha ↦ ?_) hk
  · exact ⟨⟨_, _, hvariant.1, by decide⟩, hvariant.2⟩
  · exact ⟨⟨_, _, hsigned.1, by decide⟩, hsigned.2⟩
  · exact ⟨⟨_, _, hunsigned.1, by decide⟩, hunsigned.2⟩
  · rw [Kind.lead_unsupported, List.mem_append, not_or]
    refine ⟨⟨'u', "nsupported type \x60".toList ++ a.lead, ?_, by decide⟩, htype.2,
      Actual.lead_oneLine ha⟩
    rw [htype.1]
    rfl

/-- A check of every character of a text. -/
theorem isWhitespace_of_all {text : List Char}
    (h : text.all (fun c ↦ !Text.isWhitespace c) = true) :
    ∀ c ∈ text, Text.isWhitespace c = false := by
  intro c hc
  have hkept := List.all_eq_true.1 h c hc
  rw [Bool.not_eq_true'] at hkept
  exact hkept

/-- Two scalars of every type are shown as different words. -/
theorem Actual.exists_distinct {a : Actual} (ha : a.carriesValue = true) :
    ∃ a₁ a₂ : Actual, a₁.redacted = a.redacted ∧ a₂.redacted = a.redacted ∧
      ¬ a₁.text <+: a₂.text ∧ ¬ a₂.text <+: a₁.text ∧
        ∀ c ∈ a₁.text ++ a₂.text, Text.isWhitespace c = false := by
  refine Actual.carriesValue_cases (motive := fun a ↦ ∃ a₁ a₂ : Actual, a₁.redacted = a.redacted ∧
    a₂.redacted = a.redacted ∧ ¬ a₁.text <+: a₂.text ∧ ¬ a₂.text <+: a₁.text ∧
      ∀ c ∈ a₁.text ++ a₂.text, Text.isWhitespace c = false)
    (fun _ ↦ ⟨.bool false, .bool true, rfl, rfl, ?_⟩)
    (fun _ ↦ ⟨.unsigned 0, .unsigned 1, rfl, rfl, ?_⟩)
    (fun _ ↦ ⟨.signed 0, .signed 1, rfl, rfl, ?_⟩)
    (fun _ ↦ ⟨.float 0, .float 1, rfl, rfl, ?_⟩)
    (fun _ ↦ ⟨.char 'a', .char 'b', rfl, rfl, ?_⟩)
    (fun _ ↦ ⟨.str "a", .str "b", rfl, rfl, ?_⟩)
    (fun _ ↦ ⟨.bytes [0], .bytes [1], rfl, rfl, ?_⟩) ha
  all_goals exact ⟨by decide, by decide, isWhitespace_of_all rfl⟩

/-- The rendering quotes its scalars. -/
theorem quotesPayload_rendered : QuotesPayload rendered Kind.text where
  leads := by
    intro k path metadata hk
    obtain ⟨hletter, hline⟩ := Kind.lead_plain hk
    refine ⟨k.lead, hletter, hline, fun k' hk' ↦ ?_⟩
    rw [← Kind.lead_eq_of_redacted hk hk', rendered, String.toList_ofList]
    exact List.prefix_append _ _
  distinct := by
    intro k hk
    refine Kind.quotesValue_cases (motive := fun k ↦ ∃ k₁ k₂ : Kind, k₁.redacted = k.redacted ∧
      k₂.redacted = k.redacted ∧ ¬ k₁.text <+: k₂.text ∧ ¬ k₂.text <+: k₁.text ∧
        ∀ c ∈ k₁.text ++ k₂.text, Text.isWhitespace c = false)
      (fun _ expected ↦ ⟨.unknownVariant "a" expected, .unknownVariant "b" expected, rfl, rfl, ?_⟩)
      (fun _ ↦ ⟨.isizeOutOfRange 0, .isizeOutOfRange 1, rfl, rfl, ?_⟩)
      (fun _ ↦ ⟨.usizeOutOfRange 0, .usizeOutOfRange 1, rfl, rfl, ?_⟩) (fun a ha ↦ ?_) hk
    · exact ⟨by rw [Kind.text, Kind.text]; decide, by rw [Kind.text, Kind.text]; decide,
        isWhitespace_of_all rfl⟩
    · exact ⟨by decide, by decide, isWhitespace_of_all rfl⟩
    · exact ⟨by decide, by decide, isWhitespace_of_all rfl⟩
    · obtain ⟨a₁, a₂, h₁, h₂, hdistinct⟩ := Actual.exists_distinct ha
      exact ⟨.unsupported a₁, .unsupported a₂, congrArg Kind.unsupported h₁,
        congrArg Kind.unsupported h₂, hdistinct⟩

/-- The rendering of an unknown variant: a type whose field `mode` is an enum with the one variant
`fast`. -/
theorem neverRepeats_missingField :
    (∀ k : Kind, NeverRepeats rendered k ↔ k.quotesValue = false) ∧
      NeverRepeats rendered (.missingField "port") :=
  ⟨(neverRepeats_iff quotesPayload_rendered).1,
    ((neverRepeats_iff quotesPayload_rendered).1 _).2 rfl⟩

/-- **A misspelled variant reaches the message.** Two sections that differ only in the text of an
enum field, both unknown to the enum, are told apart by the messages their failures get. -/
theorem not_neverRepeats_unknownVariant :
    ¬ NeverRepeats rendered (.unknownVariant "hunter2" ["fast"]) := by
  intro hnever
  have hquotes : (Kind.unknownVariant "hunter2" ["fast"]).quotesValue = true := rfl
  obtain ⟨k₁, k₂, hk₁, hk₂, hne⟩ :=
    message_ne_of_quotesValue quotesPayload_rendered hquotes ["mode"] none
  have hsame : SameFailure { kind := k₁, path := ["mode"] } { kind := k₂, path := ["mode"] } :=
    ⟨hk₁.trans hk₂.symm, rfl, rfl⟩
  have hreport := (hnever _ _ hk₁ hsame).1.message
  rw [translate_eq, translate_eq] at hreport
  exact hne hreport

end DynamicConfig
