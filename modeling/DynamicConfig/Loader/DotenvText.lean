import DynamicConfig.Config.DottedPath
import DynamicConfig.Config.Trim
import DynamicConfig.Loader.Bound
import DynamicConfig.Stores.Address

/-!
# The text of a `.env` file

A line is a comment, blank, or an assignment, and is read by itself: `readLine` is what one line says,
and `parseDotenv_cons` that parsing takes the lines one after the other. Line endings do not matter
(`parseDotenv_lines`), since what they leave on a line is trimmed off.

So a file is refused for its first bad line, which is bad alone (`parse_eq_error_iff`), and a file made of
lines parses to what they assign, the last one of a name (`parse_render`). Quoted, every value without a
line feed can be written, and behind `export ` every name, so whatever parses can be written back
(`parse_written`).
-/

namespace DynamicConfig.Dotenv

open Text (Blank trim trimStart trimEnd)

/-- `dotenv::parse`. -/
def parse (text : String) : Except ℕ (List (String × String)) :=
  parseDotenv 0 [] (Text.lines text.toList)

/-! ### One line -/

/-- What a line says: nothing, an assignment, or it cannot be read. -/
inductive Said where
  | nothing
  | assigns (name value : String)
  | bad
  deriving DecidableEq

/-- What is left of a line behind `export `. -/
def withoutExport (line : List Char) : List Char :=
  trimStart (if "export ".toList <+: line then line.drop "export ".toList.length else line)

/-- What a trimmed line assigns. -/
def assignment (line : List Char) : Said :=
  match Text.splitOnce '=' (withoutExport line) with
  | none => .bad
  | some (name, value) =>
    if trim name = [] then .bad
    else .assigns (String.ofList (trim name)) (String.ofList (unquote (trim value)))

/-- What a line says. -/
def readLine (line : List Char) : Said :=
  if trim line = [] ∨ (trim line).head? = some '#' then .nothing else assignment (trim line)

/-- **Lines are read one after the other.** -/
theorem parseDotenv_cons (number : ℕ) (entries : List (String × String)) (line : List Char)
    (rest : List (List Char)) :
    parseDotenv number entries (line :: rest) =
      match readLine line with
      | .nothing => parseDotenv (number + 1) entries rest
      | .assigns name value => parseDotenv (number + 1) (insertOrdered name value entries) rest
      | .bad => .error (number + 1) := by
  rw [parseDotenv, readLine]
  dsimp only
  split
  · rfl
  · rw [assignment]
    show (match Text.splitOnce '=' (withoutExport (trim line)) with
      | none => _
      | some (name, value) => _) = _
    cases Text.splitOnce '=' (withoutExport (trim line)) with
    | none => rfl
    | some parts =>
      dsimp only
      split <;> rfl

/-- What one line more does to the variables. -/
def add (entries : List (String × String)) : Said → List (String × String)
  | .assigns name value => insertOrdered name value entries
  | .nothing | .bad => entries

/-- **Lines that can be read come to what they assign**, in their order. -/
theorem parseDotenv_eq_ok_iff {number : ℕ} {entries parsed : List (String × String)}
    {lines : List (List Char)} :
    parseDotenv number entries lines = .ok parsed ↔
      (∀ line ∈ lines, readLine line ≠ .bad) ∧ parsed = (lines.map readLine).foldl add entries := by
  induction lines generalizing number entries with
  | nil =>
    rw [parseDotenv]
    constructor
    · intro h
      cases h
      exact ⟨fun _ hline ↦ absurd hline List.not_mem_nil, rfl⟩
    · rintro ⟨-, rfl⟩
      rfl
  | cons line rest ih =>
    rw [parseDotenv_cons, List.forall_mem_cons, List.map_cons, List.foldl_cons]
    cases hline : readLine line with
    | nothing => simp [ih, add]
    | assigns name value => simp [ih, add]
    | bad => simp

/-- **The first line that cannot be read is reported**, and none behind it is looked at. -/
theorem parseDotenv_eq_error_iff {number n : ℕ} {entries : List (String × String)}
    {lines : List (List Char)} :
    parseDotenv number entries lines = .error n ↔
      ∃ above culprit below, lines = above ++ culprit :: below ∧ n = number + above.length + 1 ∧
        readLine culprit = .bad ∧ ∀ line ∈ above, readLine line ≠ .bad := by
  induction lines generalizing number entries with
  | nil => simp [parseDotenv]
  | cons line rest ih =>
    -- A line that can be read is above the culprit of the rest.
    have hgood : readLine line ≠ .bad → ((∃ above culprit below,
          line :: rest = above ++ culprit :: below ∧ n = number + above.length + 1 ∧
            readLine culprit = .bad ∧ ∀ l ∈ above, readLine l ≠ .bad) ↔
        ∃ above culprit below, rest = above ++ culprit :: below ∧ n = number + 1 + above.length + 1 ∧
          readLine culprit = .bad ∧ ∀ l ∈ above, readLine l ≠ .bad) := by
      intro hline
      constructor
      · rintro ⟨above, culprit, below, hlines, hn, hbad, habove⟩
        cases above with
        | nil =>
          obtain ⟨rfl, -⟩ := List.cons.inj hlines
          exact absurd hbad hline
        | cons first above =>
          refine ⟨above, culprit, below, (List.cons.inj hlines).2, ?_, hbad,
            fun l hl ↦ habove l (List.mem_cons_of_mem _ hl)⟩
          rw [hn, List.length_cons]
          omega
      · rintro ⟨above, culprit, below, rfl, hn, hbad, habove⟩
        refine ⟨line :: above, culprit, below, rfl, ?_, hbad, List.forall_mem_cons.2 ⟨hline, habove⟩⟩
        rw [hn, List.length_cons]
        omega
    rw [parseDotenv_cons]
    cases hline : readLine line with
    | nothing =>
      rw [hgood (by simp [hline])]
      exact ih
    | assigns name value =>
      rw [hgood (by simp [hline])]
      exact ih
    | bad =>
      constructor
      · intro h
        cases h
        exact ⟨[], line, rest, rfl, rfl, hline, fun _ hl ↦ absurd hl List.not_mem_nil⟩
      · rintro ⟨above, culprit, below, hlines, hn, hbad, habove⟩
        cases above with
        | nil => exact congrArg Except.error hn.symm
        | cons first above =>
          obtain ⟨rfl, -⟩ := List.cons.inj hlines
          exact absurd hline (habove _ List.mem_cons_self)

/-! ### Lines of a text -/

/-- A line by itself, whatever ended it. -/
theorem trim_chomp (line : List Char) : trim (Text.chomp line) = trim line := by
  rw [Text.chomp]
  split
  · next hlast =>
    obtain ⟨init, rfl⟩ : ∃ init, line = init ++ ['\r'] := by
      rcases List.eq_nil_or_concat line with rfl | ⟨init, c, rfl⟩
      · cases hlast
      · rw [List.concat_eq_append, List.getLast?_append, List.getLast?_singleton] at hlast
        obtain rfl := Option.some.inj hlast
        exact ⟨init, List.concat_eq_append⟩
    have hblank : Blank ['\r'] := fun c hc ↦ by
      rw [List.mem_singleton.1 hc]
      decide
    rw [List.dropLast_concat, trim, trim, trimStart, trimStart, List.dropWhile_append]
    split
    · next hall =>
      rw [List.isEmpty_iff.1 hall]
      rfl
    · exact (Text.trimEnd_append_blank hblank _).symm
  · rfl

theorem readLine_chomp (line : List Char) : readLine (Text.chomp line) = readLine line := by
  rw [readLine, trim_chomp]
  rfl

theorem readLine_nil : readLine [] = .nothing := rfl

/-- Lines that say the same parse to the same. -/
theorem parseDotenv_congr {lines lines' : List (List Char)}
    (h : lines.map readLine = lines'.map readLine) (number : ℕ) (entries : List (String × String)) :
    parseDotenv number entries lines = parseDotenv number entries lines' := by
  induction lines generalizing lines' number entries with
  | nil =>
    rw [List.map_nil, eq_comm, List.map_eq_nil_iff] at h
    rw [h]
  | cons line lines ih =>
    cases lines' with
    | nil => cases h
    | cons line' lines' =>
      obtain ⟨hline, hlines⟩ := List.cons.inj h
      rw [parseDotenv_cons, parseDotenv_cons, hline]
      cases readLine line' with
      | nothing => exact ih hlines _ _
      | assigns name value => exact ih hlines _ _
      | bad => rfl

/-- A last line that says nothing is as good as none. -/
theorem parseDotenv_append_nil (number : ℕ) (entries : List (String × String))
    (lines : List (List Char)) :
    parseDotenv number entries (lines ++ [[]]) = parseDotenv number entries lines := by
  induction lines generalizing number entries with
  | nil => rfl
  | cons line lines ih =>
    rw [List.cons_append, parseDotenv_cons, parseDotenv_cons]
    cases readLine line with
    | nothing => exact ih _ _
    | assigns name value => exact ih _ _
    | bad => rfl

/-- **Line endings do not matter**: what parses is the text between the line feeds. -/
theorem parseDotenv_lines (number : ℕ) (entries : List (String × String)) (s : List Char) :
    parseDotenv number entries (Text.lines s) = parseDotenv number entries (s.splitOn '\n') := by
  rw [Text.lines]
  rcases List.eq_nil_or_concat (s.splitOn '\n') with hnil | ⟨init, last, hparts⟩
  · exact absurd hnil (List.splitOn_ne_nil '\n' s)
  · rw [hparts, List.concat_eq_append, List.dropLast_concat, List.getLast?_concat, Option.getD_some]
    have hchomped : (init.map Text.chomp).map readLine = init.map readLine := by
      rw [List.map_map]
      exact List.map_congr_left fun line _ ↦ readLine_chomp line
    split
    · next hlast =>
      rw [hlast, parseDotenv_append_nil, List.append_nil]
      exact parseDotenv_congr hchomped _ _
    · refine parseDotenv_congr ?_ _ _
      rw [List.map_append, List.map_append, hchomped]

/-- A text made of lines parses as they do. -/
theorem parse_intercalate {lines : List (List Char)} (h : ∀ line ∈ lines, '\n' ∉ line) :
    parse (String.ofList (['\n'].intercalate lines)) = parseDotenv 0 [] lines := by
  rw [parse, String.toList_ofList, parseDotenv_lines]
  cases lines with
  | nil => rfl
  | cons line lines => rw [List.splitOn_intercalate '\n' h (List.cons_ne_nil _ _)]

theorem not_mem_of_mem_lines {s line : List Char} (h : line ∈ Text.lines s) : '\n' ∉ line := by
  have hchomp : ∀ l : List Char, '\n' ∉ l → '\n' ∉ Text.chomp l := by
    intro l hl
    rw [Text.chomp]
    split
    · exact fun hmem ↦ hl (List.mem_of_mem_dropLast hmem)
    · exact hl
  rw [Text.lines] at h
  rcases List.mem_append.1 h with h | h
  · obtain ⟨part, hpart, rfl⟩ := List.mem_map.1 h
    exact hchomp part (not_mem_of_mem_splitOn (List.mem_of_mem_dropLast hpart))
  · split at h
    · cases h
    · rw [List.mem_singleton] at h
      cases hlast : (s.splitOn '\n').getLast? with
      | none => exact absurd (List.getLast?_eq_none_iff.1 hlast) (List.splitOn_ne_nil '\n' s)
      | some last =>
        rw [h, hlast, Option.getD_some]
        exact not_mem_of_mem_splitOn (List.mem_of_getLast? hlast)

/-- A line is bad alone where it is bad. -/
theorem parse_line_eq_error_iff {line : List Char} (h : '\n' ∉ line) :
    parse (String.ofList line) = .error 1 ↔ readLine line = .bad := by
  have hone : parse (String.ofList (['\n'].intercalate [line])) = parseDotenv 0 [] [line] :=
    parse_intercalate (by simpa using h)
  rw [List.intercalate_singleton] at hone
  rw [hone, parseDotenv_cons]
  cases readLine line with
  | nothing => simp [parseDotenv]
  | assigns name value => simp [parseDotenv]
  | bad => simp

/-- **A refusal names the line to look at.** A text is refused for a line exactly where that line is
there, is refused alone, and the text above it parses alone. -/
theorem parse_eq_error_iff (text : String) (n : ℕ) :
    parse text = .error n ↔
      ∃ above culprit below, Text.lines text.toList = above ++ culprit :: below ∧
        n = above.length + 1 ∧ parse (String.ofList culprit) = .error 1 ∧
        ∃ entries, parse (String.ofList (['\n'].intercalate above)) = .ok entries := by
  rw [parse, parseDotenv_eq_error_iff]
  refine exists_congr fun above ↦ exists_congr fun culprit ↦ exists_congr fun below ↦ ?_
  refine and_congr_right fun hlines ↦ ?_
  have hmem : ∀ line ∈ above ++ culprit :: below, '\n' ∉ line := fun line hline ↦
    not_mem_of_mem_lines (s := text.toList) (hlines ▸ hline)
  have hculprit : '\n' ∉ culprit := hmem culprit (by simp)
  have habove : ∀ line ∈ above, '\n' ∉ line := fun line hline ↦
    hmem line (List.mem_append_left _ hline)
  rw [Nat.zero_add, parse_line_eq_error_iff hculprit, parse_intercalate habove]
  refine and_congr_right fun _ ↦ and_congr_right fun _ ↦ ?_
  constructor
  · exact fun hgood ↦ ⟨_, parseDotenv_eq_ok_iff.2 ⟨hgood, rfl⟩⟩
  · rintro ⟨entries, hentries⟩
    exact (parseDotenv_eq_ok_iff.1 hentries).1

/-! ### Trimmed text -/

theorem trim_eq_self {c : Char} {cs : List Char} (hc : Text.isWhitespace c = false)
    (hlast : ∀ d ∈ (c :: cs).getLast?, Text.isWhitespace d = false) : trim (c :: cs) = c :: cs := by
  have hend := Text.trimEnd_append hlast []
  rw [List.append_nil, Text.trimEnd_of_blank Text.blank_nil, List.append_nil] at hend
  rw [Text.trim_cons hc, hend]

/-- What is trimmed begins and ends with no white space. -/
theorem ends_of_trim_eq_self {s : List Char} (h : trim s = s) :
    (∀ c ∈ s.head?, Text.isWhitespace c = false) ∧ ∀ c ∈ s.getLast?, Text.isWhitespace c = false := by
  have hend : (trimEnd (trimStart s)).length ≤ (trimStart s).length := by
    rw [trimEnd, List.length_reverse]
    exact Nat.le_trans (List.dropWhile_suffix _).length_le (by rw [List.length_reverse])
  have hstart : trimStart s = s := by
    refine (List.dropWhile_suffix _).eq_of_length_le ?_
    rw [← trimStart]
    calc s.length = (trim s).length := by rw [h]
      _ ≤ (trimStart s).length := hend
  have htrimEnd : s.reverse.dropWhile Text.isWhitespace = s.reverse := by
    have hback := congrArg List.reverse h
    rw [trim, hstart, trimEnd, List.reverse_reverse] at hback
    exact hback
  have hhead : ∀ {l : List Char}, l.dropWhile Text.isWhitespace = l →
      ∀ c ∈ l.head?, Text.isWhitespace c = false := by
    intro l hl c hc
    cases l with
    | nil => cases hc
    | cons d l =>
      obtain rfl := Option.some.inj hc
      by_contra hspace
      rw [Bool.not_eq_false] at hspace
      rw [List.dropWhile_cons_of_pos hspace] at hl
      have hle := (List.dropWhile_suffix (p := Text.isWhitespace) (l := l)).length_le
      rw [hl, List.length_cons] at hle
      omega
  refine ⟨hhead hstart, ?_⟩
  rw [List.getLast?_eq_head?_reverse]
  exact hhead htrimEnd

theorem trim_trim (s : List Char) : trim (trim s) = trim s := by
  show trim (trimEnd (trimStart s)) = trimEnd (trimStart s)
  cases hstart : trimStart s with
  | nil => rfl
  | cons c cs =>
    have hc : Text.isWhitespace c = false := by
      have hhead := List.head?_dropWhile_not Text.isWhitespace s
      rw [← trimStart, hstart] at hhead
      exact hhead
    obtain ⟨rest, hrest⟩ : ∃ rest, trimEnd (c :: cs) = c :: rest :=
      ⟨trimEnd cs, Text.trimEnd_append (x := [c]) (by simpa using hc) cs⟩
    rw [hrest, Text.trim_cons hc, ← hrest, trimEnd, trimEnd, List.reverse_reverse]
    rw [List.dropWhile_idempotent]

/-- Trimming makes nothing up. -/
theorem mem_of_mem_trim {c : Char} {s : List Char} (h : c ∈ trim s) : c ∈ s := by
  obtain ⟨b, e, -, -, hs⟩ := Text.exists_trim s
  rw [hs]
  exact List.mem_append_right _ (List.mem_append_left _ h)

/-! ### Writing lines -/

/-- The quotes of a value. -/
inductive Quote where
  | single | double

def Quote.mark : Quote → Char
  | single => '\''
  | double => '"'

/-- A line as it is written. -/
inductive Line where
  | blank
  | comment (text : List Char)
  | assignment (exported : Bool) (name value : List Char) (quote : Option Quote)

/-- A value between its quotes, if it has any. -/
def quoted (value : List Char) : Option Quote → List Char
  | none => value
  | some quote => quote.mark :: (value ++ [quote.mark])

def Line.render : Line → List Char
  | blank => []
  | comment text => '#' :: text
  | assignment exported name value quote =>
    (if exported then "export ".toList else []) ++ (name ++ '=' :: quoted value quote)

/-- A name a line can have. -/
structure IsName (name : List Char) : Prop where
  nonempty : name ≠ []
  trimmed : trim name = name
  noEquals : '=' ∉ name
  oneLine : '\n' ∉ name

/-- A line that is one, and means what it says: behind `export ` a name is whatever it is, and between
quotes so is a value. -/
def Line.WellFormed : Line → Prop
  | blank => True
  | comment text => '\n' ∉ text
  | assignment exported name value quote =>
    IsName name ∧ '\n' ∉ value ∧
      (exported = false → name.head? ≠ some '#' ∧ ¬ "export ".toList <+: name) ∧
      (quote = none → trim value = value ∧ unquote value = value)

/-- What a line is to say. -/
def Line.said : Line → Said
  | blank | comment _ => .nothing
  | assignment _ name value _ => .assigns (String.ofList name) (String.ofList value)

theorem Quote.not_isWhitespace_mark (quote : Quote) : Text.isWhitespace quote.mark = false := by
  cases quote <;> decide

theorem Quote.unquote_quoted (quote : Quote) (value : List Char) :
    unquote (quote.mark :: (value ++ [quote.mark])) = value := by
  cases quote with
  | single => simp [unquote, Quote.mark]
  | double => simp [unquote, Quote.mark]

/-- A value between its quotes is trimmed, and comes back out of them. -/
theorem unquote_trim_quoted {value : List Char} {quote : Option Quote}
    (h : quote = none → trim value = value ∧ unquote value = value) :
    unquote (trim (quoted value quote)) = value := by
  cases quote with
  | none =>
    rw [quoted, (h rfl).1]
    exact (h rfl).2
  | some quote =>
    have hlast : ∀ d ∈ (quote.mark :: (value ++ [quote.mark])).getLast?,
        Text.isWhitespace d = false := by
      intro d hd
      rw [← List.cons_append, List.getLast?_append, List.getLast?_singleton] at hd
      obtain rfl := Option.some.inj hd
      exact quote.not_isWhitespace_mark
    rw [quoted, trim_eq_self quote.not_isWhitespace_mark hlast, quote.unquote_quoted]

/-- An assignment ends in no white space. -/
theorem getLast?_assignment {value : List Char} {quote : Option Quote} (name : List Char)
    (h : quote = none → trim value = value ∧ unquote value = value) :
    ∀ c ∈ (name ++ '=' :: quoted value quote).getLast?, Text.isWhitespace c = false := by
  intro c hc
  rw [List.getLast?_append, List.getLast?_cons, Option.some_or] at hc
  cases quote with
  | none =>
    cases hvalue : value.getLast? with
    | none =>
      rw [quoted, hvalue] at hc
      obtain rfl := Option.some.inj hc
      decide
    | some d =>
      rw [quoted, hvalue] at hc
      obtain rfl := Option.some.inj hc
      exact (ends_of_trim_eq_self (h rfl).1).2 d hvalue
  | some quote =>
    rw [quoted, ← List.cons_append, List.getLast?_append, List.getLast?_singleton] at hc
    obtain rfl := Option.some.inj hc
    exact quote.not_isWhitespace_mark

/-- Before the equals sign of a name that does not begin with it stands no `export `. -/
theorem not_export_prefix {name rest : List Char} (h : ¬ "export ".toList <+: name) :
    ¬ "export ".toList <+: name ++ '=' :: rest := by
  intro hstart
  have hname : name ++ ['='] <+: name ++ '=' :: rest := ⟨rest, by simp⟩
  rcases List.prefix_or_prefix_of_prefix hstart hname with hwithin | hpast
  · rcases List.prefix_concat_iff.1 hwithin with heq | hname
    · have hmem : '=' ∈ "export ".toList := heq ▸ List.mem_append_right name (List.mem_singleton_self _)
      exact absurd hmem (by decide)
    · exact h hname
  · exact absurd (hpast.subset (List.mem_append_right name (List.mem_singleton_self _))) (by decide)

/-- What is behind `export `, or a line that does not begin so. -/
theorem withoutExport_render (exported : Bool) {c : Char} (cs : List Char)
    (hc : Text.isWhitespace c = false)
    (hplain : exported = false → ¬ "export ".toList <+: c :: cs) :
    withoutExport ((if exported then "export ".toList else []) ++ (c :: cs)) = c :: cs := by
  rw [withoutExport]
  cases exported with
  | false =>
    rw [if_neg Bool.false_ne_true, List.nil_append, if_neg (hplain rfl), Text.trimStart_cons hc]
  | true =>
    rw [if_pos rfl, if_pos (List.prefix_append _ _), List.drop_left, Text.trimStart_cons hc]

/-- A line with an assignment is trimmed, and neither blank nor a comment. -/
theorem trim_render (exported : Bool) {c : Char} (cs : List Char) (hc : Text.isWhitespace c = false)
    (hlast : ∀ d ∈ (c :: cs).getLast?, Text.isWhitespace d = false)
    (hcomment : exported = false → c ≠ '#') :
    trim ((if exported then "export ".toList else []) ++ (c :: cs)) =
        (if exported then "export ".toList else []) ++ (c :: cs) ∧
      (if exported then "export ".toList else []) ++ (c :: cs) ≠ [] ∧
      ((if exported then "export ".toList else []) ++ (c :: cs)).head? ≠ some '#' := by
  cases exported with
  | false =>
    rw [if_neg Bool.false_ne_true, List.nil_append]
    exact ⟨trim_eq_self hc hlast, List.cons_ne_nil _ _, fun h ↦ hcomment rfl (Option.some.inj h)⟩
  | true =>
    rw [if_pos rfl]
    have hall : ∀ d ∈ ("export ".toList ++ (c :: cs)).getLast?, Text.isWhitespace d = false := by
      rw [List.getLast?_append_of_ne_nil _ (List.cons_ne_nil _ _)]
      exact hlast
    refine ⟨trim_eq_self (by decide) hall, List.cons_ne_nil _ _, ?_⟩
    have hhead : ("export ".toList).head? = some 'e' := by decide
    rw [List.head?_append, hhead, Option.some_or]
    decide

/-- **A written line says what it is to say.** -/
theorem readLine_render {line : Line} (h : line.WellFormed) : readLine line.render = line.said := by
  cases line with
  | blank => rfl
  | comment text =>
    have htrim : trim ('#' :: text) = '#' :: trimEnd text := by
      rw [Text.trim_cons (by decide)]
      refine Text.trimEnd_append (x := ['#']) (fun c hc ↦ ?_) text
      obtain rfl := Option.some.inj hc
      decide
    rw [Line.render, readLine, htrim, if_pos (.inr rfl)]
    rfl
  | assignment exported name value quote =>
    obtain ⟨hname, -, hplain, hvalue⟩ := h
    obtain ⟨c, cs, rfl⟩ := List.exists_cons_of_ne_nil hname.nonempty
    have hc := (ends_of_trim_eq_self hname.trimmed).1 c rfl
    obtain ⟨htrim, hsome, hcomment⟩ := trim_render exported
      (cs ++ '=' :: quoted value quote) hc (getLast?_assignment (c :: cs) hvalue)
      fun hfalse ↦ by simpa using (hplain hfalse).1
    have hwithout := withoutExport_render exported (cs ++ '=' :: quoted value quote)
      hc fun hfalse ↦ not_export_prefix (hplain hfalse).2
    rw [Line.render, readLine, List.cons_append, htrim, if_neg (not_or.2 ⟨hsome, hcomment⟩), assignment,
      hwithout, ← List.cons_append, Address.splitOnce_append hname.noEquals]
    dsimp only
    rw [hname.trimmed, if_neg hname.nonempty, unquote_trim_quoted hvalue]
    rfl

/-- A written line is one line. -/
theorem not_mem_render {line : Line} (h : line.WellFormed) : '\n' ∉ line.render := by
  cases line with
  | blank => exact List.not_mem_nil
  | comment text => exact fun hmem ↦ h ((List.mem_cons.1 hmem).resolve_left (by decide))
  | assignment exported name value quote =>
    obtain ⟨hname, hvalue, -, -⟩ := h
    have hquoted : '\n' ∉ quoted value quote := by
      cases quote with
      | none => exact hvalue
      | some quote => cases quote <;> simpa [quoted, Quote.mark] using hvalue
    have hexport : '\n' ∉ (if exported then "export ".toList else []) := by
      cases exported <;> decide
    simp only [Line.render, List.mem_append, List.mem_cons]
    rintro (hmem | hmem | hmem | hmem)
    · exact hexport hmem
    · exact hname.oneLine hmem
    · exact absurd hmem (by decide)
    · exact hquoted hmem

/-- The text of some lines. -/
def render (lines : List Line) : String := String.ofList (['\n'].intercalate (lines.map Line.render))

/-- **A file is read as it is written**: blank lines and comments anywhere, `export ` before a name or
not, a value bare or in either quotes. It parses to what its lines assign, the last one of a name. -/
theorem parse_render (lines : List Line) (h : ∀ line ∈ lines, line.WellFormed) :
    parse (render lines) = .ok ((lines.map Line.said).foldl add []) := by
  have hlines : (lines.map Line.render).map readLine = lines.map Line.said := by
    rw [List.map_map]
    exact List.map_congr_left fun line hline ↦ readLine_render (h line hline)
  rw [render, parse_intercalate, parseDotenv_eq_ok_iff, hlines]
  · refine ⟨fun rendered hrendered ↦ ?_, rfl⟩
    obtain ⟨line, hline, rfl⟩ := List.mem_map.1 hrendered
    rw [readLine_render (h line hline)]
    cases line <;> simp [Line.said]
  · intro rendered hrendered
    obtain ⟨line, hline, rfl⟩ := List.mem_map.1 hrendered
    exact not_mem_render (h line hline)

/-- A comment, a name that begins like one behind `export `, and a value that keeps its blanks. -/
def threeLines : List Line :=
  [.comment " db".toList, .assignment true "#A".toList "1".toList none,
    .assignment false "B".toList " 'x' ".toList (some .single)]

theorem parse_render_threeLines : parse (render threeLines) = .ok [("#A", "1"), ("B", " 'x' ")] := by
  refine (parse_render threeLines fun line hline ↦ ?_).trans rfl
  simp only [threeLines, List.mem_cons, List.not_mem_nil, or_false] at hline
  rcases hline with rfl | rfl | rfl
  · show '\n' ∉ " db".toList
    decide
  · exact ⟨⟨by decide, by decide, by decide, by decide⟩, by decide, fun hfalse ↦ (by cases hfalse),
      fun _ ↦ by decide⟩
  · exact ⟨⟨by decide, by decide, by decide, by decide⟩, by decide, fun _ ↦ by decide,
      fun hnone ↦ (by cases hnone)⟩

/-! ### Writing back what was read -/

/-- What parses are names a line can have and values a line can have between quotes. -/
theorem assigns_of_readLine {line : List Char} {name value : String} (hline : '\n' ∉ line)
    (h : readLine line = .assigns name value) : IsName name.toList ∧ '\n' ∉ value.toList := by
  have hwithout : ∀ {l : List Char} {c : Char}, c ∈ withoutExport l → c ∈ l := by
    intro l c hc
    rw [withoutExport] at hc
    have hmem := (List.dropWhile_suffix Text.isWhitespace).subset hc
    split at hmem
    · exact List.mem_of_mem_drop hmem
    · exact hmem
  rw [readLine] at h
  split at h
  · cases h
  · rw [assignment] at h
    split at h
    · cases h
    · next n v hsplit =>
      split at h
      · cases h
      · next hname =>
        obtain ⟨rfl, rfl⟩ := Said.assigns.inj h
        rw [String.toList_ofList, String.toList_ofList]
        have hparts : n = (withoutExport (trim line)).takeWhile (· ≠ '=') ∧
            v = ((withoutExport (trim line)).dropWhile (· ≠ '=')).drop 1 := by
          rw [Text.splitOnce] at hsplit
          split at hsplit
          · obtain ⟨rfl, rfl⟩ := Prod.mk.inj (Option.some.inj hsplit)
            exact ⟨rfl, rfl⟩
          · cases hsplit
        obtain ⟨rfl, rfl⟩ := hparts
        refine ⟨⟨hname, trim_trim _, fun hmem ↦ ?_, fun hmem ↦ ?_⟩, fun hmem ↦ ?_⟩
        · simpa using List.mem_takeWhile_imp (mem_of_mem_trim hmem)
        · exact hline (mem_of_mem_trim (hwithout
            ((List.takeWhile_prefix _).subset (mem_of_mem_trim hmem))))
        · have hunquote : ∀ {l : List Char} {c : Char}, c ∈ unquote l → c ∈ l := by
            intro l c hc
            rw [unquote.eq_def] at hc
            split at hc
            · split at hc
              · exact List.mem_cons_of_mem _ (List.mem_of_mem_dropLast hc)
              · exact hc
            · split at hc
              · exact List.mem_cons_of_mem _ (List.mem_of_mem_dropLast hc)
              · exact hc
            · exact hc
          exact hline (mem_of_mem_trim (hwithout ((List.dropWhile_suffix _).subset
            (List.mem_of_mem_drop (mem_of_mem_trim (hunquote hmem))))))

/-- Variables that a file can have: in order, and each one of a line. -/
structure Variables (entries : List (String × String)) : Prop where
  ordered : (entries.map Prod.fst).Pairwise (· < ·)
  each : ∀ e ∈ entries, IsName e.1.toList ∧ '\n' ∉ e.2.toList

theorem mem_insertOrdered {k v : String} {entries : List (String × String)} {e : String × String}
    (h : e ∈ insertOrdered k v entries) : e = (k, v) ∨ e ∈ entries := by
  induction entries with
  | nil => exact .inl (List.mem_singleton.1 h)
  | cons first entries ih =>
    rw [insertOrdered] at h
    split at h
    · exact (List.mem_cons.1 h)
    · split at h
      · exact (List.mem_cons.1 h).imp_right (List.mem_cons_of_mem _)
      · rcases List.mem_cons.1 h with rfl | h
        · exact .inr List.mem_cons_self
        · exact (ih h).imp_right (List.mem_cons_of_mem _)

/-- **What parses are variables of lines.** -/
theorem variables_of_parse {text : String} {entries : List (String × String)}
    (h : parse text = .ok entries) : Variables entries := by
  refine ⟨pairwise_parseDotenv List.Pairwise.nil h, ?_⟩
  have hall : ∀ said ∈ (Text.lines text.toList).map readLine, ∀ name value,
      said = .assigns name value → IsName name.toList ∧ '\n' ∉ value.toList := by
    intro said hsaid name value heq
    obtain ⟨line, hline, rfl⟩ := List.mem_map.1 hsaid
    exact assigns_of_readLine (not_mem_of_mem_lines hline) heq
  rw [(parseDotenv_eq_ok_iff.1 h).2]
  -- By induction over the lines, with what was read before.
  have hfold : ∀ (saids : List Said) (before : List (String × String)),
      (∀ said ∈ saids, ∀ name value, said = .assigns name value →
        IsName name.toList ∧ '\n' ∉ value.toList) →
      (∀ e ∈ before, IsName e.1.toList ∧ '\n' ∉ e.2.toList) →
      ∀ e ∈ saids.foldl add before, IsName e.1.toList ∧ '\n' ∉ e.2.toList := by
    intro saids
    induction saids with
    | nil => exact fun before _ hbefore ↦ hbefore
    | cons said saids ih =>
      intro before hsaids hbefore
      rw [List.forall_mem_cons] at hsaids
      refine ih _ hsaids.2 ?_
      cases said with
      | nothing | bad => exact hbefore
      | assigns name value =>
        intro e he
        rcases mem_insertOrdered he with rfl | he
        · exact hsaids.1 name value rfl
        · exact hbefore e he
  exact hfold _ [] hall fun e he ↦ absurd he List.not_mem_nil

/-- Some variables as lines: behind `export ` and in quotes. -/
def written (entries : List (String × String)) : List Line :=
  entries.map fun e ↦ .assignment true e.1.toList e.2.toList (some .double)

/-- What is after every key is put last. -/
theorem insertOrdered_of_lt {k v : String} {entries : List (String × String)}
    (h : ∀ e ∈ entries, e.1 < k) : insertOrdered k v entries = entries ++ [(k, v)] := by
  induction entries with
  | nil => rfl
  | cons e entries ih =>
    rw [List.forall_mem_cons] at h
    rw [insertOrdered, if_neg (lt_asymm h.1), if_neg (ne_of_gt h.1), ih h.2]
    rfl

/-- Variables in order, put in one by one, are themselves. -/
theorem foldl_insertOrdered {entries : List (String × String)}
    (h : (entries.map Prod.fst).Pairwise (· < ·)) :
    entries.foldl (fun es e ↦ insertOrdered e.1 e.2 es) [] = entries := by
  induction entries using List.reverseRecOn with
  | nil => rfl
  | append_singleton entries e ih =>
    rw [List.map_append, List.pairwise_append] at h
    rw [List.foldl_append, ih h.1, List.foldl_cons, List.foldl_nil]
    refine insertOrdered_of_lt fun f hf ↦ ?_
    exact h.2.2 f.1 (List.mem_map_of_mem hf) e.1 (by simp)

/-- **What parses can be written back.** The variables of any file, written with `export ` and quotes,
parse to themselves: a name that begins with `#` or `export ` too, and a value with white space or quotes
at its ends. -/
theorem parse_written (text : String) (entries : List (String × String)) (h : parse text = .ok entries) :
    parse (render (written entries)) = .ok entries := by
  have hvariables := variables_of_parse h
  rw [parse_render]
  · have hsaid : ∀ es before : List (String × String),
        ((written es).map Line.said).foldl add before =
          es.foldl (fun es e ↦ insertOrdered e.1 e.2 es) before := by
      intro es
      induction es with
      | nil => exact fun _ ↦ rfl
      | cons e es ih =>
        intro before
        rw [List.foldl_cons, ← ih, written, List.map_cons, List.map_cons, List.foldl_cons, Line.said,
          String.ofList_toList, String.ofList_toList]
        rfl
    rw [hsaid, foldl_insertOrdered hvariables.ordered]
  · intro line hline
    obtain ⟨e, he, rfl⟩ := List.mem_map.1 hline
    obtain ⟨hname, hvalue⟩ := hvariables.each e he
    exact ⟨hname, hvalue, fun hfalse ↦ (by cases hfalse), fun hnone ↦ (by cases hnone)⟩

theorem parse_written_hash :
    parse (render (written [("#A", " 'x' ")])) = .ok [("#A", " 'x' ")] :=
  parse_written "export #A=\" 'x' \"" [("#A", " 'x' ")] (by decide)

end DynamicConfig.Dotenv
