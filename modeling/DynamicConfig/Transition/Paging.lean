import Mathlib.Data.List.Perm.Basic
import Mathlib.Data.List.Sort
import Mathlib.Order.Basic

/-!
# Reading an ordered store page by page

A store that holds keys in their order hands them out in pages, each with a mark to go on from. It may
hold other keys at each page. `Serves` is what one page promises, in terms of what the store holds then,
and `Paged` a reading that went on to a page without a mark.

What is read so is in strict order (`pairwise`), was held at some page (`exists_stored`), and lacks nothing that
was held throughout (`complete`). Of a store that does not change a page leaves the rest (`left_eq`).
-/

namespace Paging

variable {K : Type*} [LinearOrder K]

/-- Whether a key is after a mark. The start is before every key. -/
def beyond : Option K → K → Bool
  | none, _ => true
  | some mark, key => decide (mark < key)

@[simp] theorem beyond_none (key : K) : beyond none key = true := rfl

@[simp] theorem beyond_some (mark key : K) : beyond (some mark) key = true ↔ mark < key :=
  decide_eq_true_iff

/-- What is left of a store after a mark. -/
def left (stored : List K) (mark : Option K) : List K := stored.filter (beyond mark)

theorem mem_left {stored : List K} {mark : Option K} {key : K} :
    key ∈ left stored mark ↔ key ∈ stored ∧ beyond mark key = true :=
  List.mem_filter

@[simp] theorem left_none (stored : List K) : left stored none = stored :=
  List.filter_eq_self.2 fun _ _ ↦ rfl

/-- What a page promises: it is a beginning of what is left, all of it where no mark comes with it, and
a mark tells what is on the page from what is not, and does not go back. -/
structure Serves (stored : List K) (mark : Option K) (page : List K) (next : Option K) : Prop where
  start : page <+: left stored mark
  whole : next = none → page = left stored mark
  behind : ∀ m, next = some m → ∀ key ∈ page, key ≤ m
  ahead : ∀ m, next = some m → ∀ key ∈ left stored mark, key ∉ page → m < key
  onward : ∀ m m', mark = some m → next = some m' → m ≤ m'

/-- Pages read one after the other, the `n`-th of what is stored then, up to one without a mark. -/
inductive Paged (stored : ℕ → List K) : ℕ → Option K → List (List K) → Prop
  | last {n : ℕ} {mark : Option K} {page : List K} (h : Serves (stored n) mark page none) :
    Paged stored n mark [page]
  | next {n : ℕ} {mark : Option K} {page : List K} {m : K} {pages : List (List K)}
    (h : Serves (stored n) mark page (some m)) (hrest : Paged stored (n + 1) (some m) pages) :
    Paged stored n mark (page :: pages)

/-- What is after a later mark is after an earlier one. -/
theorem beyond_of_le {mark : Option K} {m key : K} (hle : ∀ m', mark = some m' → m' ≤ m)
    (h : m < key) : beyond mark key = true := by
  cases mark with
  | none => rfl
  | some m' => exact (beyond_some m' key).2 (lt_of_le_of_lt (hle m' rfl) h)

theorem Serves.beyond_of_mem {stored page : List K} {mark next : Option K}
    (h : Serves stored mark page next) {key : K} (hkey : key ∈ page) : beyond mark key = true :=
  (mem_left.1 (h.start.subset hkey)).2

/-- **What is left after a page is the rest of what was left before it.** -/
theorem Serves.left_eq {stored page : List K} {mark : Option K} {m : K}
    (h : Serves stored mark page (some m)) (hstored : stored.Pairwise (· < ·)) :
    left stored (some m) = (left stored mark).drop page.length := by
  obtain ⟨rest, hrest⟩ := h.start
  have hsorted : (left stored mark).Pairwise (· < ·) := hstored.filter _
  rw [← hrest, List.drop_left]
  rw [← hrest, List.pairwise_append] at hsorted
  refine (hstored.filter _).eq_of_mem_iff hsorted.2.1 fun key ↦ ?_
  rw [← left, mem_left, beyond_some]
  constructor
  · rintro ⟨hkey, hlt⟩
    have hleft : key ∈ left stored mark :=
      mem_left.2 ⟨hkey, beyond_of_le (fun m' hm' ↦ h.onward m' m hm' rfl) hlt⟩
    rw [← hrest, List.mem_append] at hleft
    exact hleft.resolve_left fun hpage ↦ absurd (h.behind m rfl key hpage) (not_le.2 hlt)
  · intro hkey
    have hleft : key ∈ left stored mark := hrest ▸ List.mem_append_right page hkey
    refine ⟨(mem_left.1 hleft).1, h.ahead m rfl key hleft fun hpage ↦ ?_⟩
    exact absurd (hsorted.2.2 key hpage key hkey) (lt_irrefl key)

namespace Paged

variable {stored : ℕ → List K} {n : ℕ} {mark : Option K} {pages : List (List K)}

/-- Nothing is read twice: every key is after the mark. -/
theorem beyond (h : Paged stored n mark pages) {key : K} (hkey : key ∈ pages.flatten) :
    Paging.beyond mark key = true := by
  induction h with
  | last hserves =>
    rw [List.flatten_singleton] at hkey
    exact hserves.beyond_of_mem hkey
  | next hserves hrest ih =>
    rw [List.flatten_cons, List.mem_append] at hkey
    rcases hkey with hkey | hkey
    · exact hserves.beyond_of_mem hkey
    · have hlater := ih hkey
      exact beyond_of_le (fun m' hm' ↦ hserves.onward m' _ hm' rfl) ((beyond_some _ _).1 hlater)

/-- **What is read is in strict order.** -/
theorem pairwise (hstored : ∀ i, (stored i).Pairwise (· < ·)) (h : Paged stored n mark pages) :
    pages.flatten.Pairwise (· < ·) := by
  have hpage : ∀ {i : ℕ} {mark next : Option K} {page : List K}, Serves (stored i) mark page next →
      page.Pairwise (· < ·) := fun {i _ _ _} hserves ↦
    ((hstored i).filter _).sublist hserves.start.sublist
  induction h with
  | last hserves =>
    rw [List.flatten_singleton]
    exact hpage hserves
  | next hserves hrest ih =>
    rw [List.flatten_cons, List.pairwise_append]
    refine ⟨hpage hserves, ih, fun key hkey later hlater ↦ ?_⟩
    exact lt_of_le_of_lt (hserves.behind _ rfl key hkey) ((beyond_some _ _).1 (hrest.beyond hlater))

/-- **What is read was there.** -/
theorem exists_stored (h : Paged stored n mark pages) {key : K} (hkey : key ∈ pages.flatten) :
    ∃ i, i < n + pages.length ∧ key ∈ stored i := by
  induction h with
  | @last n mark page hserves =>
    rw [List.flatten_singleton] at hkey
    exact ⟨n, Nat.lt_succ_self n, (mem_left.1 (hserves.start.subset hkey)).1⟩
  | @next n mark page m pages hserves hrest ih =>
    rw [List.flatten_cons, List.mem_append] at hkey
    rw [List.length_cons]
    rcases hkey with hkey | hkey
    · exact ⟨n, by omega, (mem_left.1 (hserves.start.subset hkey)).1⟩
    · obtain ⟨i, hi, hmem⟩ := ih hkey
      exact ⟨i, by omega, hmem⟩

/-- **What was there throughout is read.** -/
theorem complete (h : Paged stored n mark pages) {key : K} (hbeyond : Paging.beyond mark key = true)
    (hthere : ∀ i, i < n + pages.length → key ∈ stored i) : key ∈ pages.flatten := by
  induction h with
  | @last n mark page hserves =>
    rw [List.flatten_singleton, hserves.whole rfl]
    exact mem_left.2 ⟨hthere n (Nat.lt_succ_self n), hbeyond⟩
  | @next n mark page m pages hserves hrest ih =>
    rw [List.flatten_cons, List.mem_append]
    rw [List.length_cons] at hthere
    by_cases hkey : key ∈ page
    · exact .inl hkey
    · have hleft : key ∈ left (stored n) mark := mem_left.2 ⟨hthere n (by omega), hbeyond⟩
      have hahead := hserves.ahead m rfl key hleft hkey
      exact .inr (ih ((beyond_some _ _).2 hahead) fun i hi ↦ hthere i (by omega))

end Paged

end Paging
