import Mathlib.Algebra.Group.Nat.Defs
import Mathlib.Data.List.Basic
import Mathlib.Data.Nat.Notation

/-!
# Self-delimiting codes

A code is self-delimiting where no word of it is the beginning of another one's: what is written can
then be followed by anything and is still told from everything else. `Apart` says so of two values, so
that it can be proved along the structure of one of them.

The rules follow how codes are put together: words of one length, words with an end mark, one code
after another, and a list with its length before it.
-/

namespace Delimited

variable {α β γ : Type*}

/-- Two values are told apart by what is written for them, whatever is written behind it. -/
def Apart (encode : α → List γ) (a b : α) : Prop :=
  ∀ r r', encode a ++ r = encode b ++ r' → a = b ∧ r = r'

/-- Up to a mark that is in neither of them, two lists are told apart. -/
theorem append_mark_inj {mark : γ} {xs ys r r' : List γ} (hxs : mark ∉ xs) (hys : mark ∉ ys)
    (h : xs ++ mark :: r = ys ++ mark :: r') : xs = ys ∧ r = r' := by
  induction xs generalizing ys with
  | nil =>
    rcases ys with - | ⟨y, ys⟩
    · exact ⟨rfl, (List.cons.inj h).2⟩
    · exact absurd ((List.cons.inj h).1 ▸ List.mem_cons_self) hys
  | cons x xs ih =>
    rcases ys with - | ⟨y, ys⟩
    · exact absurd ((List.cons.inj h).1 ▸ List.mem_cons_self) hxs
    · obtain ⟨rfl, hrest⟩ := List.cons.inj h
      obtain ⟨rfl, hbehind⟩ := ih (fun hmem ↦ hxs (List.mem_cons_of_mem x hmem))
        (fun hmem ↦ hys (List.mem_cons_of_mem x hmem)) hrest
      exact ⟨rfl, hbehind⟩

namespace Apart

variable {encode : α → List γ} {a b : α}

theorem eq_of_encode_eq (h : Apart encode a b) (heq : encode a = encode b) : a = b :=
  (h [] [] (by rw [heq])).1

/-- **The word of one is not the beginning of the word of the other.** -/
theorem eq_of_prefix (h : Apart encode a b) (hbegin : encode a <+: encode b) : a = b := by
  obtain ⟨rest, hrest⟩ := hbegin
  exact (h rest [] (hrest.trans (List.append_nil _).symm)).1

/-- Words of one length. -/
theorem of_length (hlength : (encode a).length = (encode b).length)
    (hinj : encode a = encode b → a = b) : Apart encode a b := by
  intro r r' h
  obtain ⟨heq, hrest⟩ := List.append_inj h hlength
  exact ⟨hinj heq, hrest⟩

/-- Words that end with a mark that is nowhere else in them. -/
theorem of_mark {mark : γ} (ha : mark ∉ encode a) (hb : mark ∉ encode b)
    (hinj : encode a = encode b → a = b) : Apart (fun x ↦ encode x ++ [mark]) a b := by
  intro r r' h
  rw [List.append_assoc, List.append_assoc] at h
  obtain ⟨heq, hrest⟩ := append_mark_inj ha hb h
  exact ⟨hinj heq, hrest⟩

/-- One code after another. -/
theorem pair {encode' : β → List γ} {p q : α × β} (hfst : Apart encode p.1 q.1)
    (hsnd : Apart encode' p.2 q.2) : Apart (fun x : α × β ↦ encode x.1 ++ encode' x.2) p q := by
  intro r r' h
  rw [List.append_assoc, List.append_assoc] at h
  obtain ⟨hone, h⟩ := hfst _ _ h
  obtain ⟨htwo, hrest⟩ := hsnd _ _ h
  exact ⟨Prod.ext hone htwo, hrest⟩

/-- Lists of one length, item after item. -/
theorem flatMap {as bs : List α} (hlength : as.length = bs.length)
    (h : ∀ a ∈ as, ∀ b ∈ bs, Apart encode a b) : Apart (List.flatMap encode) as bs := by
  induction as generalizing bs with
  | nil =>
    obtain rfl := List.length_eq_zero_iff.1 hlength.symm
    exact fun r r' heq ↦ ⟨rfl, heq⟩
  | cons a as ih =>
    obtain ⟨b, bs, rfl⟩ := List.exists_cons_of_length_eq_add_one hlength.symm
    intro r r' heq
    rw [List.flatMap_cons, List.flatMap_cons, List.append_assoc, List.append_assoc] at heq
    obtain ⟨rfl, hthen⟩ := h a List.mem_cons_self b List.mem_cons_self _ _ heq
    have hrest := ih (Nat.succ.inj hlength) fun c hc d hd ↦
      h c (List.mem_cons_of_mem a hc) d (List.mem_cons_of_mem a hd)
    obtain ⟨rfl, hleft⟩ := hrest _ _ hthen
    exact ⟨rfl, hleft⟩

/-- **Lists with their lengths before them.** -/
theorem counted {count : ℕ → List γ} {as bs : List α} (hcount : Apart count as.length bs.length)
    (h : ∀ a ∈ as, ∀ b ∈ bs, Apart encode a b) :
    Apart (fun xs ↦ count xs.length ++ xs.flatMap encode) as bs := by
  intro r r' heq
  rw [List.append_assoc, List.append_assoc] at heq
  obtain ⟨hlength, heq⟩ := hcount _ _ heq
  exact flatMap hlength h _ _ heq

end Apart

/-! ### Numbers in bytes -/

/-- A number in so many bytes, the lowest one first. -/
def bytes : ℕ → ℕ → List UInt8
  | 0, _ => []
  | width + 1, n => UInt8.ofNat n :: bytes width (n / 256)

@[simp] theorem length_bytes (width n : ℕ) : (bytes width n).length = width := by
  induction width generalizing n with
  | zero => rfl
  | succ width ih => rw [bytes, List.length_cons, ih]

/-- A number that has room in its bytes is known by them. -/
theorem eq_of_bytes_eq {width n m : ℕ} (hn : n < 256 ^ width) (hm : m < 256 ^ width)
    (h : bytes width n = bytes width m) : n = m := by
  induction width generalizing n m with
  | zero =>
    rw [Nat.pow_zero] at hn hm
    omega
  | succ width ih =>
    obtain ⟨hlow, hhigh⟩ := List.cons.inj h
    have hmod : n % 256 = m % 256 := by
      have hnat := congrArg UInt8.toNat hlow
      rwa [UInt8.toNat_ofNat', UInt8.toNat_ofNat'] at hnat
    rw [Nat.pow_succ] at hn hm
    have hdiv : n / 256 = m / 256 :=
      ih (Nat.div_lt_of_lt_mul (by omega)) (Nat.div_lt_of_lt_mul (by omega)) hhigh
    omega

end Delimited
