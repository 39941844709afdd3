import Mathlib.Data.List.Basic
import Mathlib.Data.List.Infix
import Mathlib.Order.Notation
import Mathlib.Tactic.SplitIfs

/-!
# Glob patterns

A pattern is read once, from the front: a star is any run of symbols, a question mark is any one
symbol, brackets are a class of symbols with its ranges and its negation, and a backslash takes what
is behind it as it stands, outside of brackets and inside. What is left of a class that is never
closed is in the class, and a backslash with nothing behind it is itself.

`matches_escape_star` is the rule a quoted literal rests on: with every symbol that means something
escaped, a literal and a star after it match just what begins with the literal.
-/

namespace Glob

/-- The symbols that mean something in a pattern. The four that are looked for outside of a class are
not one another. -/
structure Marks (α : Type*) where
  star : α
  question : α
  bracket : α
  backslash : α
  closing : α
  caret : α
  dash : α
  backslash_ne : backslash ≠ star ∧ backslash ≠ question ∧ backslash ≠ bracket

/-- What a pattern asks for, one place after the other. -/
inductive Item (α : Type*) where
  /-- Any run of symbols, also none. -/
  | run
  /-- Any one symbol. -/
  | any
  /-- This symbol. -/
  | literal (a : α)
  /-- A symbol that is in one of the ranges, or in none of them. -/
  | oneOf (negated : Bool) (ranges : List (α × α))
  deriving DecidableEq

/-- Where the reader of a pattern stands. In a class it holds what was read of the class. -/
inductive Place (α : Type*) where
  | outside
  /-- Behind a backslash. -/
  | escaped
  /-- Behind the bracket that opens a class. -/
  | opened
  | inside (negated : Bool) (ranges : List (α × α))
  /-- Behind a backslash in a class. -/
  | insideEscaped (negated : Bool) (ranges : List (α × α))
  /-- Behind a symbol of a class, which a range may begin with. -/
  | held (negated : Bool) (ranges : List (α × α)) (a : α)
  /-- Behind a symbol of a class and a dash. -/
  | dashed (negated : Bool) (ranges : List (α × α)) (a : α)

section Reading

variable {α : Type*} [DecidableEq α] (M : Marks α)

/-- The next symbol of a class. -/
def enter (negated : Bool) (ranges : List (α × α)) (a : α) : List (Item α) × Place α :=
  if a = M.backslash then ([], .insideEscaped negated ranges)
  else if a = M.closing then ([.oneOf negated ranges], .outside)
  else ([], .held negated ranges a)

/-- What a symbol completes, and where it leaves the reader. -/
def step : Place α → α → List (Item α) × Place α
  | .outside, a =>
    if a = M.star then ([.run], .outside)
    else if a = M.question then ([.any], .outside)
    else if a = M.bracket then ([], .opened)
    else if a = M.backslash then ([], .escaped)
    else ([.literal a], .outside)
  | .escaped, a => ([.literal a], .outside)
  | .opened, a => if a = M.caret then ([], .inside true []) else enter M false [] a
  | .inside negated ranges, a => enter M negated ranges a
  | .insideEscaped negated ranges, a => ([], .inside negated ((a, a) :: ranges))
  | .held negated ranges b, a =>
    if a = M.dash then ([], .dashed negated ranges b) else enter M negated ((b, b) :: ranges) a
  | .dashed negated ranges b, a => ([], .inside negated ((b, a) :: ranges))

/-- What is left to complete where the pattern ends. -/
def finish : Place α → List (Item α)
  | .outside => []
  | .escaped => [.literal M.backslash]
  | .opened => [.oneOf false []]
  | .inside negated ranges => [.oneOf negated ranges]
  | .insideEscaped negated ranges => [.oneOf negated ((M.backslash, M.backslash) :: ranges)]
  | .held negated ranges b => [.oneOf negated ((b, b) :: ranges)]
  | .dashed negated ranges b => [.oneOf negated ((M.dash, M.dash) :: (b, b) :: ranges)]

/-- Read a pattern from where the reader stands. -/
def parse : Place α → List α → List (Item α)
  | place, [] => finish M place
  | place, a :: rest => (step M place a).1 ++ parse (step M place a).2 rest

/-- A text with a backslash before every symbol of a kind. -/
def escape (special : α → Bool) : List α → List α
  | [] => []
  | a :: rest => if special a then M.backslash :: a :: escape special rest else a :: escape special rest

omit [DecidableEq α] in
theorem escape_append (special : α → Bool) (xs ys : List α) :
    escape M special (xs ++ ys) = escape M special xs ++ escape M special ys := by
  induction xs with
  | nil => rfl
  | cons a xs ih =>
    rw [List.cons_append, escape, escape, ih]
    split_ifs <;> rfl

omit [DecidableEq α] in
theorem escape_eq_self {special : α → Bool} {text : List α} (h : ∀ a ∈ text, special a = false) :
    escape M special text = text := by
  induction text with
  | nil => rfl
  | cons a text ih =>
    rw [escape, if_neg (by rw [h a List.mem_cons_self]; exact Bool.false_ne_true),
      ih fun b hb ↦ h b (List.mem_cons_of_mem a hb)]

theorem step_literal {a : α} (hstar : a ≠ M.star) (hquestion : a ≠ M.question)
    (hbracket : a ≠ M.bracket) (hbackslash : a ≠ M.backslash) :
    step M .outside a = ([.literal a], .outside) := by
  rw [step, if_neg hstar, if_neg hquestion, if_neg hbracket, if_neg hbackslash]

/-- The backslash is none of the three marks that are looked for before it. -/
theorem step_backslash : step M .outside M.backslash = ([], .escaped) := by
  obtain ⟨hstar, hquestion, hbracket⟩ := M.backslash_ne
  rw [step, if_neg hstar, if_neg hquestion, if_neg hbracket, if_pos rfl]

/-- **What is escaped is read as it stands**, where the kind has the four symbols that mean something
outside of a class. -/
theorem parse_escape {special : α → Bool}
    (h : special M.star = true ∧ special M.question = true ∧ special M.bracket = true ∧
      special M.backslash = true) (text rest : List α) :
    parse M .outside (escape M special text ++ rest) =
      text.map Item.literal ++ parse M .outside rest := by
  obtain ⟨hstar, hquestion, hbracket, hbackslash⟩ := h
  induction text with
  | nil => rfl
  | cons a text ih =>
    rw [escape, List.map_cons, List.cons_append, ← ih]
    split_ifs with hspecial
    · show (step M .outside M.backslash).1 ++ parse M (step M .outside M.backslash).2
        (a :: (escape M special text ++ rest)) = _
      rw [step_backslash]
      rfl
    · have hne {b : α} (hb : special b = true) : a ≠ b := fun heq ↦ hspecial (heq ▸ hb)
      show (step M .outside a).1 ++ parse M (step M .outside a).2 (escape M special text ++ rest) = _
      rw [step_literal M (hne hstar) (hne hquestion) (hne hbracket) (hne hbackslash)]
      rfl

end Reading

section Matching

variable {α : Type*} [DecidableEq α] [LE α] [DecidableLE α]

/-- A symbol is in a range, whichever end was written first. -/
def within (a : α) (range : α × α) : Bool :=
  decide (range.1 ≤ a ∧ a ≤ range.2 ∨ range.2 ≤ a ∧ a ≤ range.1)

/-- An item takes a symbol. A run takes any number of them and is not asked. -/
def Item.takes : Item α → α → Bool
  | .run, _ => false
  | .any, _ => true
  | .literal b, a => decide (a = b)
  | .oneOf negated ranges, a => ranges.any (within a) != negated

/-- The items take the text, from its first symbol to its last. -/
def accepts : List (Item α) → List α → Bool
  | [], text => text.isEmpty
  | item :: items, text =>
    match item, text with
    | .run, text => text.tails.any fun left ↦ accepts items left
    | _, [] => false
    | item, a :: left => item.takes a && accepts items left

/-- A text matches a pattern. -/
def Matches (M : Marks α) (pattern text : List α) : Prop :=
  accepts (parse M .outside pattern) text = true

instance (M : Marks α) (pattern text : List α) : Decidable (Matches M pattern text) :=
  inferInstanceAs (Decidable (_ = true))

theorem accepts_run (text : List α) : accepts [Item.run] text = true :=
  List.any_eq_true.2 ⟨[], (List.mem_tails _ _).2 List.nil_suffix, rfl⟩

theorem accepts_literals_run {literal text : List α} :
    accepts (literal.map Item.literal ++ [Item.run]) text = true ↔ literal <+: text := by
  induction literal generalizing text with
  | nil => exact iff_of_true (accepts_run text) List.nil_prefix
  | cons a literal ih =>
    rcases text with - | ⟨b, text⟩
    · exact iff_of_false Bool.false_ne_true fun h ↦ List.cons_ne_nil _ _ (List.prefix_nil.1 h)
    · show (decide (b = a) && accepts (literal.map Item.literal ++ [Item.run]) text) = true ↔ _
      rw [Bool.and_eq_true, decide_eq_true_iff, ih, List.cons_prefix_cons, eq_comm]

/-- **A literal that is escaped, with a star after it, matches just what begins with it.** -/
theorem matches_escape_star (M : Marks α) {special : α → Bool}
    (h : special M.star = true ∧ special M.question = true ∧ special M.bracket = true ∧
      special M.backslash = true) {literal text : List α} :
    Matches M (escape M special literal ++ [M.star]) text ↔ literal <+: text := by
  have hstar : parse M .outside [M.star] = [Item.run] := by
    rw [parse, step, if_pos rfl]
    rfl
  rw [Matches, parse_escape M h, hstar]
  exact accepts_literals_run

end Matching

end Glob
