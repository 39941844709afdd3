import Mathlib.Data.List.Basic
import Mathlib.Data.Nat.Notation
import Mathlib.Order.Nat

/-!
# A log that is compacted, and who reads it

Entries are put at the end of a log, and of a kind only the newest is kept for good: those before it may
be dropped before anybody has read them. A reader is opened at some place and handed entries of the kind
it has not come past, in order. It may be handed any of them, since what is skipped stands before what is
handed and is superseded by it.

The newest of all is never skipped: a reader that has come past everything was handed it last, unless it
is older than the reader (`Keeps.getLast?_handed_eq_some_iff`).
-/

namespace Compacted

variable {α : Type*} {p : α → Bool} {log : List α} {i j : ℕ}

/-! ### Places in a log -/

/-- An entry of the kind stands at a place. -/
def Holds (p : α → Bool) (log : List α) (i : ℕ) : Prop := ∃ a ∈ log[i]?, p a = true

instance (p : α → Bool) (log : List α) (i : ℕ) : Decidable (Holds p log i) :=
  inferInstanceAs (Decidable (∃ a ∈ log[i]?, p a = true))

theorem Holds.lt (h : Holds p log i) : i < log.length := by
  obtain ⟨a, ha, -⟩ := h
  exact (List.getElem?_eq_some_iff.1 ha).1

/-- What is put at the end moves nothing. -/
theorem Holds.append (h : Holds p log i) (more : List α) : Holds p (log ++ more) i := by
  have hlt := h.lt
  obtain ⟨a, ha, hp⟩ := h
  exact ⟨a, by rw [List.getElem?_append_left hlt]; exact ha, hp⟩

/-- What stood in the log at some time stands there still, and had been put there by then. -/
theorem holds_take {n : ℕ} : Holds p (log.take n) i ↔ i < n ∧ Holds p log i := by
  rw [Holds, List.getElem?_take]
  split
  · next hlt => exact ⟨fun h ↦ ⟨hlt, h⟩, And.right⟩
  · next hge => exact iff_of_false (fun ⟨a, ha, _⟩ ↦ by cases ha) fun h ↦ hge h.1

/-- The last place of the kind. -/
structure Newest (p : α → Bool) (log : List α) (i : ℕ) : Prop where
  holds : Holds p log i
  latest : ∀ j, Holds p log j → j ≤ i

/-- The last place of the kind, if there is any. -/
def newest (p : α → Bool) : List α → Option ℕ
  | [] => none
  | a :: log => ((newest p log).map (· + 1)).or (if p a then some 0 else none)

theorem newest_eq_none {p : α → Bool} {log : List α} (h : newest p log = none) (i : ℕ) :
    ¬ Holds p log i := by
  induction log generalizing i with
  | nil => exact fun ⟨a, ha, _⟩ ↦ by cases ha
  | cons b log ih =>
    obtain ⟨hnone, hb⟩ := Option.or_eq_none_iff.1 h
    cases i with
    | zero =>
      rintro ⟨a, ha, hp⟩
      obtain rfl := Option.some.inj ha
      rw [if_pos hp] at hb
      cases hb
    | succ i => exact ih (Option.map_eq_none_iff.1 hnone) i

theorem newest_of_eq_some {p : α → Bool} {log : List α} {i : ℕ} (h : newest p log = some i) :
    Newest p log i := by
  induction log generalizing i with
  | nil => cases h
  | cons b log ih =>
    rw [newest] at h
    cases hrest : newest p log with
    | some k =>
      rw [hrest] at h
      obtain rfl := Option.some.inj h
      obtain ⟨hholds, hlatest⟩ := ih hrest
      refine ⟨hholds, fun j hj ↦ ?_⟩
      cases j with
      | zero => exact Nat.zero_le _
      | succ j => exact Nat.succ_le_succ (hlatest j hj)
    | none =>
      rw [hrest] at h
      split at h
      · next hb =>
        obtain rfl := Option.some.inj h
        refine ⟨⟨b, rfl, hb⟩, fun j hj ↦ ?_⟩
        cases j with
        | zero => exact Nat.le_refl 0
        | succ j => exact absurd hj (newest_eq_none hrest j)
      · cases h

/-- The newest was the newest before, since it was put there. -/
theorem Newest.take (h : Newest p log i) {n : ℕ} (hlt : i < n) : Newest p (log.take n) i :=
  ⟨holds_take.2 ⟨hlt, h.holds⟩, fun j hj ↦ h.latest j (holds_take.1 hj).2⟩

/-- What was the newest at some time is so as long as none of its kind is put behind it. -/
theorem Newest.extend {m n : ℕ} (h : Newest p (log.take m) i) (hle : m ≤ n)
    (hquiet : ∀ j, m ≤ j → j < n → ¬ Holds p log j) : Newest p (log.take n) i := by
  obtain ⟨hlt, hholds⟩ := holds_take.1 h.holds
  refine ⟨holds_take.2 ⟨Nat.lt_of_lt_of_le hlt hle, hholds⟩, fun j hj ↦ ?_⟩
  obtain ⟨hj, hjolds⟩ := holds_take.1 hj
  rcases Nat.lt_or_ge j m with hold | hnew
  · exact h.latest j (holds_take.2 ⟨hold, hjolds⟩)
  · exact absurd hjolds (hquiet j hnew hj)

theorem Newest.eq (h : Newest p log i) (h' : Newest p log j) : i = j :=
  Nat.le_antisymm (h'.latest i h.holds) (h.latest j h'.holds)

/-! ### Readers -/

/-- A reader: the place it was opened at, and the places it has been handed. -/
structure Reader where
  opened : ℕ
  handed : List ℕ
  deriving DecidableEq

namespace Reader

/-- The first place it has not come past. -/
def next (reader : Reader) : ℕ := (reader.handed.getLast?.map (· + 1)).getD reader.opened

/-- It is handed an entry. -/
def hand (reader : Reader) (i : ℕ) : Reader := { reader with handed := reader.handed ++ [i] }

@[simp] theorem opened_hand (reader : Reader) (i : ℕ) : (reader.hand i).opened = reader.opened := rfl

@[simp] theorem handed_hand (reader : Reader) (i : ℕ) :
    (reader.hand i).handed = reader.handed ++ [i] := rfl

@[simp] theorem next_hand (reader : Reader) (i : ℕ) : (reader.hand i).next = i + 1 := by
  simp [next]

theorem next_of_nil {reader : Reader} (h : reader.handed = []) : reader.next = reader.opened := by
  simp [next, h]

theorem next_of_getLast? {reader : Reader} (h : reader.handed.getLast? = some i) :
    reader.next = i + 1 := by
  simp [next, h]

end Reader

/-- It may be handed the entry at a place. -/
def Offers (p : α → Bool) (log : List α) (reader : Reader) (i : ℕ) : Prop :=
  reader.next ≤ i ∧ Holds p log i

instance (p : α → Bool) (log : List α) (reader : Reader) (i : ℕ) :
    Decidable (Offers p log reader i) :=
  inferInstanceAs (Decidable (_ ∧ _))

/-- It has come past everything of the kind. -/
def CaughtUp (p : α → Bool) (log : List α) (reader : Reader) : Prop :=
  ∀ i, Holds p log i → i < reader.next

/-- What a reader has been handed: entries of the kind, in order, from where it was opened. -/
structure Keeps (p : α → Bool) (log : List α) (reader : Reader) : Prop where
  ordered : reader.handed.Pairwise (· < ·)
  handed : ∀ i ∈ reader.handed, reader.opened ≤ i ∧ Holds p log i

variable {reader : Reader}

theorem keeps_opened (p : α → Bool) (log : List α) (n : ℕ) : Keeps p log ⟨n, []⟩ :=
  ⟨.nil, fun _ h ↦ absurd h List.not_mem_nil⟩

/-- It has come past what it was handed. -/
theorem Keeps.lt_next (h : Keeps p log reader) (hi : i ∈ reader.handed) : i < reader.next := by
  cases hlast : reader.handed.getLast? with
  | none => rw [List.getLast?_eq_none_iff.1 hlast] at hi; cases hi
  | some k =>
    rw [Reader.next_of_getLast? hlast]
    obtain ⟨before, hbefore⟩ := List.getLast?_eq_some_iff.1 hlast
    have hordered := h.ordered
    rw [hbefore] at hi hordered
    rcases List.mem_append.1 hi with hi | hi
    · exact Nat.lt_succ_of_lt ((List.pairwise_append.1 hordered).2.2 i hi k (List.mem_singleton_self k))
    · exact Nat.lt_succ_of_le (List.mem_singleton.1 hi).le

theorem Keeps.opened_le_next (h : Keeps p log reader) : reader.opened ≤ reader.next := by
  cases hlast : reader.handed.getLast? with
  | none => rw [Reader.next_of_nil (List.getLast?_eq_none_iff.1 hlast)]
  | some k =>
    rw [Reader.next_of_getLast? hlast]
    exact Nat.le_succ_of_le (h.handed k (List.mem_of_getLast? hlast)).1

/-- **Handing over keeps it so.** -/
theorem Keeps.hand (h : Keeps p log reader) (ho : Offers p log reader i) :
    Keeps p log (reader.hand i) := by
  constructor
  · rw [Reader.handed_hand]
    refine List.pairwise_append.2 ⟨h.ordered, List.pairwise_singleton _ _, fun k hk l hl ↦ ?_⟩
    rw [List.mem_singleton.1 hl]
    exact Nat.lt_of_lt_of_le (h.lt_next hk) ho.1
  · intro k hk
    rcases List.mem_append.1 hk with hk | hk
    · exact h.handed k hk
    · rw [List.mem_singleton.1 hk]
      exact ⟨Nat.le_trans h.opened_le_next ho.1, ho.2⟩

theorem Keeps.append (h : Keeps p log reader) (more : List α) : Keeps p (log ++ more) reader :=
  ⟨h.ordered, fun i hi ↦ ⟨(h.handed i hi).1, (h.handed i hi).2.append more⟩⟩

/-- **What a reader is not handed is superseded**, or still to come. -/
theorem Reader.superseded (hle : reader.opened ≤ i)
    (hnot : i ∉ reader.handed) : (∃ j ∈ reader.handed, i < j) ∨ reader.next ≤ i := by
  cases hlast : reader.handed.getLast? with
  | none =>
    rw [Reader.next_of_nil (List.getLast?_eq_none_iff.1 hlast)]
    exact .inr hle
  | some k =>
    have hk := List.mem_of_getLast? hlast
    rw [Reader.next_of_getLast? hlast]
    rcases Nat.lt_trichotomy i k with hlt | heq | hgt
    · exact .inl ⟨k, hk, hlt⟩
    · exact absurd (heq ▸ hk) hnot
    · exact .inr hgt

/-- **A reader that has come past everything was handed the newest last**, where that was put in the log
after the reader was opened. -/
theorem Keeps.getLast?_handed_eq_some_iff (h : Keeps p log reader) (hcaught : CaughtUp p log reader)
    (hnewest : Newest p log i) : reader.handed.getLast? = some i ↔ reader.opened ≤ i := by
  constructor
  · intro hlast
    exact (h.handed i (List.mem_of_getLast? hlast)).1
  · intro hle
    have hlt := hcaught i hnewest.holds
    cases hlast : reader.handed.getLast? with
    | none =>
      rw [Reader.next_of_nil (List.getLast?_eq_none_iff.1 hlast)] at hlt
      omega
    | some k =>
      rw [Reader.next_of_getLast? hlast] at hlt
      have hk := hnewest.latest k (h.handed k (List.mem_of_getLast? hlast)).2
      rw [Nat.le_antisymm hk (Nat.lt_succ_iff.1 hlt)]

/-- A reader opened behind the newest has been handed nothing. -/
theorem Keeps.handed_eq_nil (h : Keeps p log reader) (hnewest : Newest p log i)
    (hlt : i < reader.opened) : reader.handed = [] := by
  refine List.eq_nil_iff_forall_not_mem.2 fun j hj ↦ ?_
  obtain ⟨hle, hholds⟩ := h.handed j hj
  have hj' := hnewest.latest j hholds
  omega

end Compacted
