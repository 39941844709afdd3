import DynamicConfig.Config.Text
import Mathlib.Data.List.TakeWhile

/-!
# Trimming

What trimming leaves of a text that is given in parts. Blanks at an end go; a part that ends in no
blank stays, and so does what stands before it (`trimEnd_append`). What was trimmed off is blank, so a
text is what is left of it between blanks (`exists_trim`).
-/

namespace DynamicConfig.Text

/-- White space only. -/
def Blank (s : List Char) : Prop := ∀ c ∈ s, isWhitespace c = true

theorem blank_nil : Blank [] := fun _ hc ↦ absurd hc List.not_mem_nil

theorem Blank.append {a b : List Char} (ha : Blank a) (hb : Blank b) : Blank (a ++ b) := fun c hc ↦
  (List.mem_append.1 hc).elim (ha c) (hb c)

theorem Blank.reverse {s : List Char} (h : Blank s) : Blank s.reverse := fun c hc ↦
  h c (List.mem_reverse.1 hc)

theorem toNat_of_isAlpha {c : Char} (h : c.isAlpha = true) :
    (65 ≤ c.toNat ∧ c.toNat ≤ 90) ∨ (97 ≤ c.toNat ∧ c.toNat ≤ 122) := by
  have hcases : decide (c.val ≥ 65 ∧ c.val ≤ 90) = true ∨
      (decide (c.val ≥ 97) && decide (c.val ≤ 122)) = true := (Bool.or_eq_true _ _).mp h
  rw [Bool.and_eq_true, decide_eq_true_eq, decide_eq_true_eq, decide_eq_true_eq] at hcases
  exact hcases

theorem not_isWhitespace_of_isAlpha {c : Char} (h : c.isAlpha = true) :
    isWhitespace c = false := by
  have hrange := toNat_of_isAlpha h
  simp only [isWhitespace, Bool.or_eq_false_iff, decide_eq_false_iff_not, beq_eq_false_iff_ne]
  omega

theorem not_isWhitespace_of_isDigit {c : Char} (h : c.isDigit = true) :
    isWhitespace c = false := by
  simp only [Char.isDigit, Bool.and_eq_true, decide_eq_true_eq, UInt32.le_iff_toNat_le,
    ge_iff_le] at h
  have hrange : 48 ≤ c.toNat ∧ c.toNat ≤ 57 := h
  simp only [isWhitespace, Bool.or_eq_false_iff, decide_eq_false_iff_not, beq_eq_false_iff_ne]
  omega

/-! ### At the start -/

theorem trimStart_of_blank {s : List Char} (h : Blank s) : trimStart s = [] :=
  List.dropWhile_eq_nil_iff.2 h

theorem trimStart_blank_append {b : List Char} (h : Blank b) (s : List Char) :
    trimStart (b ++ s) = trimStart s :=
  List.dropWhile_append_of_pos h

theorem trimStart_cons {c : Char} (hc : isWhitespace c = false) (cs : List Char) :
    trimStart (c :: cs) = c :: cs :=
  List.dropWhile_cons_of_neg (Bool.eq_false_iff.1 hc)

theorem exists_trimStart (s : List Char) : ∃ b, Blank b ∧ s = b ++ trimStart s :=
  ⟨s.takeWhile isWhitespace, fun _ hc ↦ List.mem_takeWhile_imp hc, List.takeWhile_append_dropWhile.symm⟩

/-! ### At the end -/

theorem trimEnd_of_blank {s : List Char} (h : Blank s) : trimEnd s = [] := by
  rw [trimEnd, List.dropWhile_eq_nil_iff.2 h.reverse, List.reverse_nil]

theorem trimEnd_append_blank {b : List Char} (h : Blank b) (s : List Char) :
    trimEnd (s ++ b) = trimEnd s := by
  rw [trimEnd, List.reverse_append, List.dropWhile_append_of_pos h.reverse, trimEnd]

/-- **Trimming the end keeps what ends in no white space**, and all before it. -/
theorem trimEnd_append {x : List Char} (h : ∀ c ∈ x.getLast?, isWhitespace c = false)
    (s : List Char) : trimEnd (x ++ s) = x ++ trimEnd s := by
  rw [trimEnd, trimEnd, List.reverse_append, List.dropWhile_append]
  split
  · rename_i hblank
    have hkeep : x.reverse.dropWhile isWhitespace = x.reverse := by
      rcases hrev : x.reverse with - | ⟨c, cs⟩
      · rfl
      · have hlast : x.getLast? = some c := by
          rw [List.getLast?_eq_head?_reverse, hrev]
          rfl
        exact List.dropWhile_cons_of_neg (by simpa using h c hlast)
    rw [hkeep, List.reverse_reverse, List.isEmpty_iff.1 hblank, List.reverse_nil, List.append_nil]
  · rw [List.reverse_append, List.reverse_reverse]

theorem exists_trimEnd (s : List Char) : ∃ b, Blank b ∧ s = trimEnd s ++ b := by
  refine ⟨(s.reverse.takeWhile isWhitespace).reverse, Blank.reverse fun _ hc ↦
    List.mem_takeWhile_imp hc, ?_⟩
  rw [trimEnd, ← List.reverse_append, List.takeWhile_append_dropWhile, List.reverse_reverse]

/-! ### At both -/

theorem trim_blank_append {b : List Char} (h : Blank b) (s : List Char) : trim (b ++ s) = trim s := by
  rw [trim, trimStart_blank_append h, trim]

theorem trim_cons {c : Char} (hc : isWhitespace c = false) (cs : List Char) :
    trim (c :: cs) = trimEnd (c :: cs) := by
  rw [trim, trimStart_cons hc]

/-- **A text is what is left of it between blanks.** -/
theorem exists_trim (s : List Char) : ∃ b e, Blank b ∧ Blank e ∧ s = b ++ (trim s ++ e) := by
  obtain ⟨b, hb, hs⟩ := exists_trimStart s
  obtain ⟨e, he, hstart⟩ := exists_trimEnd (trimStart s)
  refine ⟨b, e, hb, he, ?_⟩
  rw [trim, ← hstart, ← hs]

theorem trim_eq_nil_iff {s : List Char} : trim s = [] ↔ Blank s := by
  refine ⟨fun h ↦ ?_, fun h ↦ ?_⟩
  · obtain ⟨b, e, hb, he, hs⟩ := exists_trim s
    rw [hs, h, List.nil_append]
    exact hb.append he
  · rw [trim, trimStart_of_blank h]
    rfl

end DynamicConfig.Text
