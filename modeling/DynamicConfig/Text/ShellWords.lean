import Mathlib.Data.Nat.Notation
import Mathlib.Tactic.SplitIfs

/-!
# The words of a command

A shell takes a command apart at its blanks, where these are not quoted. Between single quotes every
character is itself; between double quotes a backslash quotes a dollar, a backquote, a double quote and
itself; outside it quotes any character, and with a newline behind it it is nothing at all, in double
quotes too. Quotes are dropped, and with nothing between them they are a word all the same.

`foldl_step_quote` is the rule about a quoted text: whatever is in it, it goes to the word it stands in
as it is.
-/

namespace Shell

/-- Whether the next character is quoted, and how. -/
inductive Quoting where
  | plain
  /-- Behind a backslash. -/
  | escaped
  | single
  | double
  /-- Behind a backslash in double quotes. -/
  | doubleEscaped
  deriving DecidableEq

/-- What was read of a command. -/
structure Reader where
  quoting : Quoting
  /-- The word that was begun, if one was. -/
  word : Option (List Char)
  words : List (List Char)
  deriving DecidableEq

namespace Reader

/-- Nothing was read. -/
def start : Reader := ⟨.plain, none, []⟩

/-- A character of the word, which it begins if none was begun. -/
def put (r : Reader) (c : Char) : Reader := { r with word := some (r.word.getD [] ++ [c]) }

/-- A quote begins a word, whatever comes behind it. -/
def enter (r : Reader) (quoting : Quoting) : Reader :=
  { r with quoting := quoting, word := some (r.word.getD []) }

/-- The word ends, if one was begun. -/
def close (r : Reader) : Reader :=
  match r.word with
  | none => r
  | some word => { r with word := none, words := r.words ++ [word] }

/-- What a blank is. -/
def blank (c : Char) : Bool := c = ' ' || c = '\t' || c = '\n'

/-- What a backslash quotes in double quotes. -/
def quotable (c : Char) : Bool := c = '$' || c = '\x60' || c = '"' || c = '\\'

/-- Read a character. -/
def step (r : Reader) (c : Char) : Reader :=
  match r.quoting with
  | .plain =>
    if blank c then r.close
    else if c = '\'' then r.enter .single
    else if c = '"' then r.enter .double
    else if c = '\\' then { r with quoting := .escaped }
    else r.put c
  -- A newline that is escaped joins two lines.
  | .escaped => { (if c = '\n' then r else r.put c) with quoting := .plain }
  | .single => if c = '\'' then { r with quoting := .plain } else r.put c
  | .double =>
    if c = '"' then { r with quoting := .plain }
    else if c = '\\' then { r with quoting := .doubleEscaped }
    else r.put c
  | .doubleEscaped =>
    if c = '\n' then { r with quoting := .double }
    else if quotable c then { r.put c with quoting := .double }
    else { (r.put '\\').put c with quoting := .double }

/-- The words, where the command ends. A quote that is open has none to give. -/
def finish (r : Reader) : Option (List (List Char)) :=
  match r.quoting with
  | .plain => some r.close.words
  | .escaped => some (r.put '\\').close.words
  | .single | .double | .doubleEscaped => none

end Reader

/-- The words of a command, unless a quote in it is not closed. -/
def words (command : String) : Option (List String) :=
  (command.toList.foldl Reader.step .start).finish.map fun found ↦ found.map String.ofList

/-- What stands for itself outside of quotes. -/
def bare (c : Char) : Bool :=
  !Reader.blank c && !decide (c = '\'') && !decide (c = '"') && !decide (c = '\\')

/-- A text that needs no quotes goes to its word as it is. -/
theorem foldl_step_bare {text : List Char} (htext : text ≠ []) (hbare : text.all bare = true)
    (word : Option (List Char)) (words : List (List Char)) :
    text.foldl Reader.step ⟨.plain, word, words⟩ = ⟨.plain, some (word.getD [] ++ text), words⟩ := by
  induction text generalizing word with
  | nil => exact absurd rfl htext
  | cons c text ih =>
    obtain ⟨hc, hrest⟩ := Bool.and_eq_true_iff.1 ((List.all_cons ..).symm.trans hbare)
    have hstep : Reader.step ⟨.plain, word, words⟩ c =
        ⟨.plain, some (word.getD [] ++ [c]), words⟩ := by
      simp only [bare, Bool.and_eq_true, Bool.not_eq_true', decide_eq_false_iff_not] at hc
      obtain ⟨⟨⟨hblank, hsingle⟩, hdouble⟩, hbackslash⟩ := hc
      show (if Reader.blank c = true then _ else if c = '\'' then _ else if c = '"' then _
        else if c = '\\' then _ else Reader.put ⟨.plain, word, words⟩ c) = _
      rw [if_neg (by rw [hblank]; exact Bool.false_ne_true), if_neg hsingle, if_neg hdouble,
        if_neg hbackslash]
      rfl
    rw [List.foldl_cons, hstep]
    rcases text with - | ⟨d, text⟩
    · rfl
    · rw [ih (List.cons_ne_nil d text) hrest]
      show (⟨.plain, some (word.getD [] ++ [c] ++ d :: text), words⟩ : Reader) = _
      rw [← List.append_cons]

/-- A blank ends the word before it. -/
theorem step_blank (word : List Char) (words : List (List Char)) :
    Reader.step ⟨.plain, some word, words⟩ ' ' = ⟨.plain, none, words ++ [word]⟩ := rfl

/-- A text between single quotes. A single quote in it leaves the quotes, is escaped, and enters them
again. -/
def quote (text : List Char) : List Char :=
  '\'' :: text.flatMap (fun c ↦ if c = '\'' then ['\'', '\\', '\'', '\''] else [c]) ++ ['\'']

/-- What is read inside of the quotes. -/
theorem foldl_step_single (text word : List Char) (words : List (List Char)) :
    (text.flatMap fun c ↦ if c = '\'' then ['\'', '\\', '\'', '\''] else [c]).foldl Reader.step
        ⟨.single, some word, words⟩ = ⟨.single, some (word ++ text), words⟩ := by
  induction text generalizing word with
  | nil => rw [List.flatMap_nil, List.foldl_nil, List.append_nil]
  | cons c text ih =>
    rw [List.flatMap_cons, List.foldl_append, List.append_cons]
    split_ifs with hquote
    · -- Out of the quotes, the quote itself behind its backslash, and into the quotes.
      rw [hquote]
      exact ih (word ++ ['\''])
    · have hstep : Reader.step ⟨.single, some word, words⟩ c =
          ⟨.single, some (word ++ [c]), words⟩ := if_neg hquote
      rw [List.foldl_cons, List.foldl_nil, hstep]
      exact ih (word ++ [c])

/-- **A quoted text goes to its word as it is.** -/
theorem foldl_step_quote (text : List Char) (word : Option (List Char)) (words : List (List Char)) :
    (quote text).foldl Reader.step ⟨.plain, word, words⟩ =
      ⟨.plain, some (word.getD [] ++ text), words⟩ := by
  have hopen : Reader.step ⟨.plain, word, words⟩ '\'' = ⟨.single, some (word.getD []), words⟩ := rfl
  rw [quote, List.cons_append, List.foldl_cons, hopen, List.foldl_append, foldl_step_single]
  rfl

end Shell
