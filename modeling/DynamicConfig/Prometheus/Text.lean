import Mathlib.Data.List.Forall2
import Mathlib.Data.List.TakeWhile
import Mathlib.Data.Option.Basic

/-!
# The Prometheus text format

A reader of the text format of metrics. A text is read line by line: a blank line and a comment say
nothing, and every other line is one sample, `name{label="value",…} value timestamp`, where the labels
and the timestamp may be missing. A label's value stands in quotes, and in it a backslash, a quote and a
line feed are escaped. Blanks between the parts do not matter.

`Reads text samples` says that a text, whatever follows it, is read to some samples and that what
follows is read on its own. It holds of a text put together of lines as soon as it holds of the lines
(`Reads.append`, `reads_comment`, `reads_line`).
-/

namespace Prometheus

/-- One sample. -/
structure Sample where
  name : List Char
  labels : List (List Char × List Char)
  value : List Char
  timestamp : Option (List Char)
  deriving DecidableEq, Repr

/-! ### The reader -/

def isBlank (c : Char) : Bool := c == ' ' || c == '\t'

def skipBlanks (s : List Char) : List Char := s.dropWhile isBlank

/-- The first character of a label's name. -/
def isLabelStart (c : Char) : Bool := c.isAlpha || c == '_'

/-- Any other character of it. -/
def isLabelChar (c : Char) : Bool := c.isAlphanum || c == '_'

/-- The first character of a metric's name. -/
def isMetricStart (c : Char) : Bool := c.isAlpha || c == '_' || c == ':'

/-- Any other character of it. -/
def isMetricChar (c : Char) : Bool := c.isAlphanum || c == '_' || c == ':'

/-- A name: its first character, and those that may follow. -/
def readName (start next : Char → Bool) : List Char → Option (List Char × List Char)
  | [] => none
  | c :: cs => if start c then some (c :: cs.takeWhile next, cs.dropWhile next) else none

/-- One character, behind blanks. -/
def expect (c : Char) (s : List Char) : Option (List Char) :=
  match skipBlanks s with
  | [] => none
  | d :: ds => if d = c then some ds else none

/-- A label's value, behind its opening quote or behind a backslash in it: the value, and what follows
the closing quote. -/
def unescape : Bool → List Char → Option (List Char × List Char)
  | _, [] => none
  | false, c :: cs =>
    if c = '"' then some ([], cs)
    else if c = '\\' then unescape true cs
    else (unescape false cs).map fun e ↦ (c :: e.1, e.2)
  | true, c :: cs =>
    if c = '\\' ∨ c = '"' then (unescape false cs).map fun e ↦ (c :: e.1, e.2)
    else if c = 'n' then (unescape false cs).map fun e ↦ ('\n' :: e.1, e.2)
    else none

/-- `name="value"`. -/
def readLabel (s : List Char) : Option ((List Char × List Char) × List Char) := do
  let (name, s) ← readName isLabelStart isLabelChar (skipBlanks s)
  let s ← expect '=' s
  let s ← expect '"' s
  let (value, s) ← unescape false s
  some ((name, value), s)

/-- The labels behind the opening brace, up to the closing one. A comma may stand behind the last
label. The fuel is for the labels. -/
def readLabels : ℕ → List Char → Option (List (List Char × List Char) × List Char)
  | 0, _ => none
  | fuel + 1, s =>
    match expect '}' s with
    | some rest => some ([], rest)
    | none => do
      let (label, s) ← readLabel s
      match expect ',' s with
      | some s => do
        let (labels, s) ← readLabels fuel s
        some (label :: labels, s)
      | none => do
        let s ← expect '}' s
        some ([label], s)

/-- A word up to the next blank. -/
def readWord (s : List Char) : Option (List Char × List Char) :=
  let word := (skipBlanks s).takeWhile fun c ↦ !isBlank c
  if word = [] then none else some (word, (skipBlanks s).dropWhile fun c ↦ !isBlank c)

/-- The labels behind a metric's name, if there are any. -/
def readBraces (s : List Char) : Option (List (List Char × List Char) × List Char) :=
  match expect '{' s with
  | some rest => readLabels (rest.length + 1) rest
  | none => some ([], s)

/-- The value of a sample, and the timestamp, if there is one. -/
def readValue (s : List Char) : Option (List Char × Option (List Char)) := do
  let (value, s) ← readWord s
  if skipBlanks s = [] then some (value, none)
  else do
    let (timestamp, s) ← readWord s
    if skipBlanks s = [] then some (value, some timestamp) else none

/-- A line that is a sample. -/
def readSample (line : List Char) : Option Sample := do
  let (name, s) ← readName isMetricStart isMetricChar (skipBlanks line)
  let (labels, s) ← readBraces s
  let (value, timestamp) ← readValue s
  some { name, labels, value, timestamp }

example : readSample "up\x7ba=\"x\\\"y\"\x7d 1".toList =
    some ⟨"up".toList, [("a".toList, "x\"y".toList)], "1".toList, none⟩ := by decide

/-- Whether a line is one: it is neither blank nor a comment. -/
def isSampleLine (line : List Char) : Bool :=
  match skipBlanks line with
  | [] => false
  | c :: _ => c != '#'

/-- The samples of a text. -/
def read (text : List Char) : Option (List Sample) :=
  ((text.splitOn '\n').filter isSampleLine).mapM readSample

/-! ### Parts of a line -/

theorem skipBlanks_cons {c : Char} (hc : isBlank c = false) (s : List Char) :
    skipBlanks (c :: s) = c :: s :=
  List.dropWhile_cons_of_neg (by rw [hc]; exact Bool.false_ne_true)

theorem expect_cons_self {c : Char} (hc : isBlank c = false) (s : List Char) :
    expect c (c :: s) = some s := by
  rw [expect, skipBlanks_cons hc]
  exact if_pos rfl

theorem expect_cons_of_ne {c d : Char} (hd : isBlank d = false) (hne : d ≠ c) (s : List Char) :
    expect c (d :: s) = none := by
  rw [expect, skipBlanks_cons hd]
  exact if_neg hne

theorem takeWhile_append_cons {p : Char → Bool} {x : List Char} (hx : ∀ c ∈ x, p c = true) {c : Char}
    (hc : p c = false) (y : List Char) :
    (x ++ c :: y).takeWhile p = x ∧ (x ++ c :: y).dropWhile p = c :: y := by
  have hneg : ¬ p c = true := by
    rw [hc]
    exact Bool.false_ne_true
  rw [List.takeWhile_append_of_pos hx, List.dropWhile_append_of_pos hx,
    List.takeWhile_cons_of_neg hneg, List.dropWhile_cons_of_neg hneg, List.append_nil]
  exact ⟨rfl, rfl⟩

/-- A name ends where a character follows that is none of its. -/
theorem readName_append {start next : Char → Bool} {c : Char} {cs : List Char} (hc : start c = true)
    (hcs : ∀ d ∈ cs, next d = true) {d : Char} (hd : next d = false) (rest : List Char) :
    readName start next (c :: cs ++ d :: rest) = some (c :: cs, d :: rest) := by
  obtain ⟨htake, hdrop⟩ := takeWhile_append_cons hcs hd rest
  rw [List.cons_append, readName, if_pos hc, htake, hdrop]

/-- A name that a label can have. -/
def IsLabelName (name : List Char) : Prop :=
  ∃ c cs, name = c :: cs ∧ isLabelStart c = true ∧ ∀ d ∈ cs, isLabelChar d = true

/-- A name that a metric can have. -/
def IsMetricName (name : List Char) : Prop :=
  ∃ c cs, name = c :: cs ∧ isMetricStart c = true ∧ ∀ d ∈ cs, isMetricChar d = true

theorem isMetricName_of_all {c : Char} {cs : List Char}
    (h : (isMetricStart c && cs.all isMetricChar) = true) : IsMetricName (c :: cs) :=
  ⟨c, cs, rfl, (Bool.and_eq_true_iff.1 h).1, List.all_eq_true.1 (Bool.and_eq_true_iff.1 h).2⟩

theorem isLabelName_of_all {c : Char} {cs : List Char}
    (h : (isLabelStart c && cs.all isLabelChar) = true) : IsLabelName (c :: cs) :=
  ⟨c, cs, rfl, (Bool.and_eq_true_iff.1 h).1, List.all_eq_true.1 (Bool.and_eq_true_iff.1 h).2⟩

theorem IsMetricName.newline_notMem {name : List Char} (h : IsMetricName name) : '\n' ∉ name := by
  obtain ⟨c, cs, rfl, hc, hcs⟩ := h
  intro hmem
  rcases List.mem_cons.1 hmem with rfl | hmem
  · exact absurd hc (by decide)
  · exact absurd (hcs _ hmem) (by decide)

theorem isBlank_of_start {c : Char} (hc : isMetricStart c = true) : isBlank c = false := by
  rw [Bool.eq_false_iff]
  intro hblank
  rw [isBlank, Bool.or_eq_true, beq_iff_eq, beq_iff_eq] at hblank
  rcases hblank with rfl | rfl
  · exact absurd hc (by decide)
  · exact absurd hc (by decide)

theorem isMetricStart_of_isLabelStart {c : Char} (hc : isLabelStart c = true) :
    isMetricStart c = true := by
  rw [isMetricStart]
  rw [isLabelStart] at hc
  rw [hc]
  rfl

theorem IsLabelName.isMetricName {name : List Char} (h : IsLabelName name) : IsMetricName name := by
  obtain ⟨c, cs, rfl, hc, hcs⟩ := h
  refine ⟨c, cs, rfl, isMetricStart_of_isLabelStart hc, fun d hd ↦ ?_⟩
  have hchar := hcs d hd
  rw [isLabelChar] at hchar
  rw [isMetricChar, hchar]
  rfl

/-- A text is read as a value in quotes. -/
def Quotes (text value : List Char) : Prop :=
  ∀ rest, unescape false (text ++ '"' :: rest) = some (value, rest)

theorem unescape_nil (rest : List Char) : unescape false ('"' :: rest) = some ([], rest) := by
  rw [unescape]
  exact if_pos rfl

theorem unescape_plain {c : Char} (hquote : c ≠ '"') (hslash : c ≠ '\\') (s : List Char) :
    unescape false (c :: s) = (unescape false s).map fun e ↦ (c :: e.1, e.2) := by
  rw [unescape, if_neg hquote, if_neg hslash]

theorem unescape_escaped {c : Char} (hc : c = '\\' ∨ c = '"') (s : List Char) :
    unescape false ('\\' :: c :: s) = (unescape false s).map fun e ↦ (c :: e.1, e.2) := by
  rw [unescape, if_neg (by decide), if_pos rfl, unescape, if_pos hc]

theorem unescape_lineFeed (s : List Char) :
    unescape false ('\\' :: 'n' :: s) = (unescape false s).map fun e ↦ ('\n' :: e.1, e.2) := by
  rw [unescape, if_neg (by decide), if_pos rfl, unescape, if_neg (by decide), if_pos rfl]

/-- A text without any of the characters that are escaped stands for itself. -/
theorem quotes_self {text : List Char} (h : ∀ c ∈ text, c ≠ '"' ∧ c ≠ '\\') : Quotes text text := by
  intro rest
  induction text with
  | nil => exact unescape_nil rest
  | cons c cs ih =>
    obtain ⟨hquote, hslash⟩ := h c List.mem_cons_self
    rw [List.cons_append, unescape_plain hquote hslash, ih fun d hd ↦ h d (List.mem_cons_of_mem c hd)]
    rfl

/-- The text of a label, for the text of its value. -/
def labelText (name text : List Char) : List Char := name ++ '=' :: '"' :: (text ++ ['"'])

theorem newline_notMem_labelText {name text : List Char} (hname : IsLabelName name)
    (htext : '\n' ∉ text) : '\n' ∉ labelText name text := by
  have hnotName : '\n' ∉ name := hname.isMetricName.newline_notMem
  rw [labelText]
  simp [hnotName, htext]

/-- A label is read back. -/
theorem readLabel_labelText {name text value : List Char} (hname : IsLabelName name)
    (htext : Quotes text value) (rest : List Char) :
    readLabel (labelText name text ++ rest) = some ((name, value), rest) := by
  obtain ⟨c, cs, rfl, hc, hcs⟩ := hname
  have hlabel : labelText (c :: cs) text ++ rest =
      c :: cs ++ '=' :: '"' :: (text ++ '"' :: rest) := by
    simp [labelText]
  have hstart : skipBlanks (c :: cs ++ '=' :: '"' :: (text ++ '"' :: rest)) =
      c :: cs ++ '=' :: '"' :: (text ++ '"' :: rest) :=
    skipBlanks_cons (isBlank_of_start (isMetricStart_of_isLabelStart hc)) _
  rw [hlabel, readLabel, hstart, readName_append hc hcs (by decide)]
  simp only [Option.bind_eq_bind, Option.bind_some]
  rw [expect_cons_self (by decide), Option.bind_some, expect_cons_self (by decide), Option.bind_some,
    htext rest, Option.bind_some]

/-- The text of several labels: a comma between each. -/
def labelsText (texts : List (List Char)) : List Char := [','].intercalate texts

theorem labelsText_cons (text : List Char) (texts : List (List Char)) :
    labelsText (text :: texts) = text ++ texts.flatMap (',' :: ·) := by
  induction texts generalizing text with
  | nil => rw [labelsText, List.intercalate_singleton, List.flatMap_nil, List.append_nil]
  | cons next texts ih =>
    have hnext := ih next
    rw [labelsText] at hnext ⊢
    rw [List.intercalate_cons_cons, hnext, List.flatMap_cons, List.append_assoc]
    rfl

/-- One label more. -/
theorem labelsText_concat {texts : List (List Char)} (h : texts ≠ []) (text : List Char) :
    labelsText (texts ++ [text]) = labelsText texts ++ ',' :: text := by
  obtain ⟨first, texts, rfl⟩ := List.exists_cons_of_ne_nil h
  rw [List.cons_append, labelsText_cons, labelsText_cons, List.flatMap_append, List.append_assoc]
  simp

theorem newline_notMem_labelsText {texts : List (List Char)} (h : ∀ text ∈ texts, '\n' ∉ text) :
    '\n' ∉ labelsText texts := by
  rcases texts with - | ⟨first, texts⟩
  · rw [labelsText, List.intercalate_nil]
    exact List.not_mem_nil
  · rw [labelsText_cons, List.mem_append, List.mem_flatMap]
    rintro (hfirst | ⟨text, htext, hmem⟩)
    · exact h first List.mem_cons_self hfirst
    · rcases List.mem_cons.1 hmem with hcomma | hmem
      · exact absurd hcomma (by decide)
      · exact h text (List.mem_cons_of_mem first htext) hmem

/-- A text is read as a label, and begins with what a label can begin with. -/
structure IsLabel (text : List Char) (label : List Char × List Char) : Prop where
  head : ∃ c cs, text = c :: cs ∧ isLabelStart c = true
  reads : ∀ rest, readLabel (text ++ rest) = some (label, rest)

theorem isLabel_labelText {name text value : List Char} (hname : IsLabelName name)
    (htext : Quotes text value) : IsLabel (labelText name text) (name, value) where
  head := by
    obtain ⟨c, cs, rfl, hc, -⟩ := hname
    exact ⟨c, cs ++ '=' :: '"' :: (text ++ ['"']), rfl, hc⟩
  reads := readLabel_labelText hname htext

/-- **Labels are read back**, in order. -/
theorem readLabels_labelsText {texts : List (List Char)} {labels : List (List Char × List Char)}
    (h : List.Forall₂ IsLabel texts labels) {fuel : ℕ} (hfuel : texts.length ≤ fuel)
    (rest : List Char) :
    readLabels (fuel + 1) (labelsText texts ++ '}' :: rest) = some (labels, rest) := by
  induction h generalizing fuel with
  | nil =>
    rw [readLabels]
    simp only [labelsText, List.intercalate_nil, List.nil_append]
    rw [expect_cons_self (by decide)]
  | @cons text label texts labels hlabel hlabels ih =>
    obtain ⟨c, cs, htext, hc⟩ := hlabel.head
    -- What comes first is no closing brace.
    have hopen : ∀ s, expect '}' (text ++ s) = none := by
      intro s
      rw [htext, List.cons_append]
      refine expect_cons_of_ne (isBlank_of_start (isMetricStart_of_isLabelStart hc)) ?_ _
      rintro rfl
      exact absurd hc (by decide)
    rw [List.length_cons] at hfuel
    rcases texts with - | ⟨next, texts⟩
    · cases hlabels
      rw [labelsText, List.intercalate_singleton, readLabels, hopen]
      dsimp only
      rw [hlabel.reads]
      simp only [Option.bind_eq_bind, Option.bind_some]
      rw [expect_cons_of_ne (by decide) (by decide)]
      dsimp only
      rw [expect_cons_self (by decide), Option.bind_some]
    · obtain ⟨fuel, rfl⟩ : ∃ n, fuel = n + 1 := ⟨fuel - 1, by omega⟩
      have hsplit : labelsText (text :: next :: texts) ++ '}' :: rest =
          text ++ ',' :: (labelsText (next :: texts) ++ '}' :: rest) := by
        rw [labelsText, List.intercalate_cons_cons, labelsText]
        simp only [List.append_assoc, List.cons_append, List.nil_append]
      rw [hsplit, readLabels, hopen]
      dsimp only
      rw [hlabel.reads]
      simp only [Option.bind_eq_bind, Option.bind_some]
      rw [expect_cons_self (by decide)]
      dsimp only
      rw [ih (by omega), Option.bind_some]

theorem length_le_labelsText {texts : List (List Char)} {labels : List (List Char × List Char)}
    (h : List.Forall₂ IsLabel texts labels) : texts.length ≤ (labelsText texts).length := by
  induction h with
  | nil => exact Nat.zero_le _
  | @cons text label texts labels hlabel hlabels ih =>
    obtain ⟨c, cs, htext, -⟩ := hlabel.head
    rcases texts with - | ⟨next, texts⟩
    · rw [labelsText, List.intercalate_singleton, htext]
      simp
    · rw [labelsText, List.intercalate_cons_cons, htext]
      rw [labelsText] at ih
      simp only [List.length_cons, List.length_append, List.length_nil] at ih ⊢
      omega

/-! ### Lines -/

/-- The labels of a sample, in braces where there are any. -/
def braces (labels : List Char) : List Char :=
  if labels = [] then [] else '{' :: (labels ++ ['}'])

/-- The line of a sample, for the text of its labels. -/
def sampleLine (name labels value : List Char) : List Char :=
  name ++ (braces labels ++ ' ' :: value)

/-- What can stand for a value. -/
structure IsValue (value : List Char) : Prop where
  ne_nil : value ≠ []
  plain : ∀ c ∈ value, isBlank c = false ∧ c ≠ '{' ∧ c ≠ '\n'

theorem IsValue.readWord {value : List Char} (h : IsValue value) :
    readWord (' ' :: value) = some (value, []) := by
  obtain ⟨c, cs, rfl⟩ := List.exists_cons_of_ne_nil h.ne_nil
  have hskip : skipBlanks (' ' :: c :: cs) = c :: cs := by
    rw [skipBlanks, List.dropWhile_cons_of_pos (by decide)]
    exact skipBlanks_cons (h.plain c List.mem_cons_self).1 cs
  have hword : ∀ d ∈ c :: cs, (!isBlank d) = true := by
    intro d hd
    rw [(h.plain d hd).1]
    rfl
  rw [Prometheus.readWord, hskip, List.takeWhile_eq_self_iff.2 hword,
    List.dropWhile_eq_nil_iff.2 hword]
  exact if_neg (List.cons_ne_nil c cs)

theorem IsValue.readValue {value : List Char} (h : IsValue value) :
    readValue (' ' :: value) = some (value, none) := by
  rw [Prometheus.readValue, h.readWord]
  rfl

theorem IsValue.readBraces {value : List Char} (h : IsValue value) :
    readBraces (' ' :: value) = some ([], ' ' :: value) := by
  obtain ⟨c, cs, rfl⟩ := List.exists_cons_of_ne_nil h.ne_nil
  obtain ⟨hblank, hbrace, -⟩ := h.plain c List.mem_cons_self
  have hnone : expect '{' (' ' :: c :: cs) = none := by
    rw [expect, skipBlanks, List.dropWhile_cons_of_pos (by decide)]
    have hskip : (c :: cs).dropWhile isBlank = c :: cs := skipBlanks_cons hblank cs
    rw [hskip]
    exact if_neg hbrace
  rw [Prometheus.readBraces, hnone]

/-- **A sample is read back**: its name, its labels and its value. -/
theorem readSample_sampleLine {name value : List Char} {texts : List (List Char)}
    {labels : List (List Char × List Char)} (hname : IsMetricName name)
    (hlabels : List.Forall₂ IsLabel texts labels) (hvalue : IsValue value) :
    readSample (sampleLine name (labelsText texts) value) = some ⟨name, labels, value, none⟩ := by
  obtain ⟨c, cs, rfl, hc, hcs⟩ := hname
  rw [readSample, sampleLine]
  have hstart : ∀ s, skipBlanks (c :: cs ++ s) = c :: cs ++ s := fun s ↦
    skipBlanks_cons (isBlank_of_start hc) _
  rw [hstart]
  rcases hlabels with - | ⟨hlabel, hlabels⟩
  · have hbraces : braces (labelsText []) = [] := rfl
    rw [hbraces, List.nil_append, readName_append hc hcs (by decide)]
    simp only [Option.bind_eq_bind, Option.bind_some]
    rw [hvalue.readBraces, Option.bind_some, hvalue.readValue, Option.bind_some]
  · rename_i text label texts labels
    have hall : List.Forall₂ IsLabel (text :: texts) (label :: labels) := .cons hlabel hlabels
    have hnonempty : labelsText (text :: texts) ≠ [] := by
      have hlength := length_le_labelsText hall
      intro hnil
      rw [hnil, List.length_cons, List.length_nil] at hlength
      omega
    have hbraces : braces (labelsText (text :: texts)) ++ ' ' :: value =
        '{' :: (labelsText (text :: texts) ++ '}' :: ' ' :: value) := by
      rw [braces, if_neg hnonempty]
      simp
    rw [hbraces, readName_append hc hcs (by decide)]
    simp only [Option.bind_eq_bind, Option.bind_some]
    have hfuel : (text :: texts).length ≤
        (labelsText (text :: texts) ++ '}' :: ' ' :: value).length := by
      rw [List.length_append]
      have := length_le_labelsText hall
      omega
    rw [readBraces, expect_cons_self (by decide)]
    dsimp only
    rw [readLabels_labelsText hall hfuel, Option.bind_some, hvalue.readValue, Option.bind_some]

/-! ### Texts -/

/-- A text is read to some samples, whatever follows it. -/
def Reads (text : List Char) (samples : List Sample) : Prop :=
  ∀ rest, read (text ++ rest) = (read rest).map (samples ++ ·)

theorem Reads.read_eq {text : List Char} {samples : List Sample} (h : Reads text samples) :
    read text = some samples := by
  have hend := h []
  rw [List.append_nil] at hend
  rw [hend]
  exact congrArg some (List.append_nil samples)

theorem reads_nil : Reads [] [] := by
  intro rest
  rw [List.nil_append]
  exact Option.map_id'.symm

theorem Reads.append {x y : List Char} {xs ys : List Sample} (h : Reads x xs) (h' : Reads y ys) :
    Reads (x ++ y) (xs ++ ys) := by
  intro rest
  rw [List.append_assoc, h, h', Option.map_map]
  congr 1
  funext samples
  exact (List.append_assoc xs ys samples).symm

theorem reads_flatMap {ι : Type} {text : ι → List Char} {samples : ι → List Sample} {items : List ι}
    (h : ∀ item ∈ items, Reads (text item) (samples item)) :
    Reads (items.flatMap text) (items.flatMap samples) := by
  induction items with
  | nil => exact reads_nil
  | cons item items ih =>
    rw [List.flatMap_cons, List.flatMap_cons]
    exact (h item List.mem_cons_self).append (ih fun i hi ↦ h i (List.mem_cons_of_mem item hi))

/-- A line and what follows it. -/
theorem read_line {line : List Char} (hline : '\n' ∉ line) (rest : List Char) :
    read (line ++ '\n' :: rest) =
      (([line].filter isSampleLine) ++ (rest.splitOn '\n').filter isSampleLine).mapM readSample := by
  rw [read, List.splitOn_append_cons_self_of_not_mem hline, ← List.singleton_append,
    List.filter_append]

/-- A line that is no sample says nothing. -/
theorem reads_comment {line : List Char} (hline : '\n' ∉ line) (h : isSampleLine line = false) :
    Reads (line ++ ['\n']) [] := by
  intro rest
  rw [List.append_assoc, List.singleton_append, read_line hline,
    List.filter_cons_of_neg (by rw [h]; exact Bool.false_ne_true), List.filter_nil, List.nil_append]
  exact Option.map_id'.symm

/-- A line that is one says the sample. -/
theorem reads_line {line : List Char} (hline : '\n' ∉ line) (h : isSampleLine line = true)
    {sample : Sample} (hsample : readSample line = some sample) : Reads (line ++ ['\n']) [sample] := by
  intro rest
  rw [List.append_assoc, List.singleton_append, read_line hline, List.filter_cons_of_pos h,
    List.filter_nil, List.singleton_append, List.mapM_cons, hsample, read]
  rcases ((rest.splitOn '\n').filter isSampleLine).mapM readSample with - | samples
  · rfl
  · rfl

/-- **A sample's line** is read to the sample. -/
theorem reads_sampleLine {name value : List Char} {texts : List (List Char)}
    {labels : List (List Char × List Char)} (hname : IsMetricName name)
    (hlabels : List.Forall₂ IsLabel texts labels) (hvalue : IsValue value)
    (htexts : '\n' ∉ labelsText texts) :
    Reads (sampleLine name (labelsText texts) value ++ ['\n']) [⟨name, labels, value, none⟩] := by
  have hline : '\n' ∉ sampleLine name (labelsText texts) value := by
    have hnotName : '\n' ∉ name := hname.newline_notMem
    have hnotValue : '\n' ∉ value := fun hmem ↦ (hvalue.plain _ hmem).2.2 rfl
    rw [sampleLine, braces]
    split
    · simp [hnotName, hnotValue]
    · simp [hnotName, htexts, hnotValue]
  have hsample : isSampleLine (sampleLine name (labelsText texts) value) = true := by
    obtain ⟨c, cs, rfl, hc, -⟩ := hname
    rw [isSampleLine, sampleLine, List.cons_append, skipBlanks_cons (isBlank_of_start hc)]
    refine bne_iff_ne.2 ?_
    rintro rfl
    exact absurd hc (by decide)
  exact reads_line hline hsample (readSample_sampleLine hname hlabels hvalue)

end Prometheus
