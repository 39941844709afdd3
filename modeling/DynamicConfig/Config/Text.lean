import Mathlib.Data.List.Basic

/-!
# Text operations of the standard library

The few operations on text the crate leans on, on lists of characters: trimming, lines, ASCII case,
prefixes and replacement. Each is the standard library's own; blank means Unicode white space, and a
line ends at a line feed, with a carriage return before it dropped.
-/

namespace DynamicConfig.Text

/-- `char::is_whitespace`. -/
def isWhitespace (c : Char) : Bool :=
  let n := c.toNat
  decide (9 ≤ n ∧ n ≤ 13) || n == 0x20 || n == 0x85 || n == 0xA0 || n == 0x1680 ||
    decide (0x2000 ≤ n ∧ n ≤ 0x200A) || n == 0x2028 || n == 0x2029 || n == 0x202F ||
    n == 0x205F || n == 0x3000

/-- `str::trim_start`. -/
def trimStart (s : List Char) : List Char :=
  s.dropWhile isWhitespace

/-- `str::trim_end`. -/
def trimEnd (s : List Char) : List Char :=
  (s.reverse.dropWhile isWhitespace).reverse

/-- `str::trim`. -/
def trim (s : List Char) : List Char :=
  trimEnd (trimStart s)

/-- `text.trim().is_empty()`. -/
def isBlank (s : String) : Bool :=
  s.toList.all isWhitespace

/-- A line with a trailing carriage return dropped. -/
def chomp (line : List Char) : List Char :=
  if line.getLast? = some '\r' then line.dropLast else line

/-- `str::lines`: the text between line feeds. A carriage return is part of the line ending only
where a line feed follows it, and a final line feed opens no further line. -/
def lines (s : List Char) : List (List Char) :=
  let parts := s.splitOn '\n'
  let last := parts.getLast?.getD []
  parts.dropLast.map chomp ++ if last = [] then [] else [last]

/-- `str::to_ascii_lowercase`. -/
def lower (s : String) : String :=
  String.ofList (s.toList.map Char.toLower)

/-- `str::to_ascii_uppercase`. -/
def upper (s : String) : String :=
  String.ofList (s.toList.map Char.toUpper)

/-- `str::eq_ignore_ascii_case`. -/
def eqIgnoreCase (a b : String) : Bool :=
  decide (lower a = lower b)

/-- `str::split_once`. -/
def splitOnce (c : Char) (s : List Char) : Option (List Char × List Char) :=
  if c ∈ s then some (s.takeWhile (· ≠ c), (s.dropWhile (· ≠ c)).drop 1) else none

/-- `strip_prefix_ignoring_case`: what is left of a name after a prefix compared without regard to
ASCII case. -/
def stripPrefixIgnoringCase (name start : String) : Option String :=
  let n := start.toList.length
  if eqIgnoreCase (String.ofList (name.toList.take n)) start then
    some (String.ofList (name.toList.drop n))
  else none

/-- One pass of `str::replace`, with the characters of a match still to be skipped. -/
def replaceGo (pattern with_ : List Char) : Nat → List Char → List Char
  | _, [] => []
  | 0, c :: cs =>
    if pattern <+: c :: cs then with_ ++ replaceGo pattern with_ (pattern.length - 1) cs
    else c :: replaceGo pattern with_ 0 cs
  | n + 1, _ :: cs => replaceGo pattern with_ n cs

/-- `str::replace`. The empty pattern matches before every character and at the end. -/
def replace (s pattern with_ : String) : String :=
  if pattern.toList = [] then
    String.ofList (with_.toList ++ s.toList.flatMap fun c ↦ c :: with_.toList)
  else String.ofList (replaceGo pattern.toList with_.toList 0 s.toList)

example : lines "a\r\nb\n".toList = ["a".toList, "b".toList] := by decide

example : replace "POOL__MAX__SIZE" "__" "." = "POOL.MAX.SIZE" := by decide

end DynamicConfig.Text
