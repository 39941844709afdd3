import Mathlib.Data.List.Sort

/-!
# Histories read from a revision on

Writes are committed together under one revision, and revisions grow by one. A feed hands the writes
over from the revision it was opened at, in order; what it has not handed over yet is outstanding,
and so is everything committed later.

A feed that is opened where another has come to has the same outstanding (`events_eq_outstanding`),
whatever the revision it was opened at was taken from: nothing outstanding may come before that
revision, and nothing handed over at or after it.
-/

namespace Revisions

variable {α : Type} {R : α → α → Prop}

/-- What has been committed. What shares a revision is related by `R`. -/
structure History (α : Type) (R : α → α → Prop) where
  revision : Nat
  log : List (Nat × α)
  ordered : log.Pairwise fun a b ↦ a.1 < b.1 ∨ a.1 = b.1 ∧ R a.2 b.2
  le_revision : ∀ e ∈ log, e.1 ≤ revision

namespace History

/-- Nothing has been committed yet. -/
def empty : History α R := ⟨0, [], List.Pairwise.nil, fun _ he ↦ absurd he List.not_mem_nil⟩

/-- The next revision. -/
def commit (h : History α R) (xs : List α) (hxs : xs.Pairwise R) : History α R where
  revision := h.revision + 1
  log := h.log ++ xs.map fun x ↦ (h.revision + 1, x)
  ordered := by
    refine List.pairwise_append.2 ⟨h.ordered, ?_, fun a ha b hb ↦ ?_⟩
    · exact List.pairwise_map.2 (hxs.imp fun hab ↦ Or.inr ⟨rfl, hab⟩)
    · obtain ⟨x, -, rfl⟩ := List.mem_map.1 hb
      exact Or.inl (Nat.lt_succ_of_le (h.le_revision a ha))
  le_revision e he := by
    rcases List.mem_append.1 he with hold | hnew
    · exact Nat.le_succ_of_le (h.le_revision e hold)
    · obtain ⟨x, -, rfl⟩ := List.mem_map.1 hnew
      exact Nat.le_refl _

@[simp] theorem commit_revision (h : History α R) (xs : List α) (hxs : xs.Pairwise R) :
    (h.commit xs hxs).revision = h.revision + 1 := rfl

/-- The writes up to a revision. -/
def upTo (h : History α R) (revision : Nat) : List (Nat × α) :=
  h.log.filter fun e ↦ e.1 ≤ revision

/-- **The past does not change.** -/
theorem upTo_commit (h : History α R) (xs : List α) (hxs : xs.Pairwise R) {revision : Nat}
    (hle : revision ≤ h.revision) : (h.commit xs hxs).upTo revision = h.upTo revision := by
  have hnew : (xs.map fun x ↦ (h.revision + 1, x)).filter (fun e ↦ e.1 ≤ revision) = [] := by
    refine List.filter_eq_nil_iff.2 fun e he ↦ ?_
    obtain ⟨x, -, rfl⟩ := List.mem_map.1 he
    simp only [decide_eq_true_eq]
    omega
  rw [upTo, commit, List.filter_append, hnew, List.append_nil]
  rfl

/-- The writes of one kind at or after a revision. -/
def events (p : α → Bool) (h : History α R) (revision : Nat) : List (Nat × α) :=
  h.log.filter fun e ↦ revision ≤ e.1 && p e.2

variable {p : α → Bool} {h : History α R} {revision : Nat}

theorem mem_events {e : Nat × α} :
    e ∈ events p h revision ↔ e ∈ h.log ∧ revision ≤ e.1 ∧ p e.2 = true := by
  rw [events, List.mem_filter, Bool.and_eq_true, decide_eq_true_eq]

/-- A commit adds its writes of the kind. -/
theorem events_commit (xs : List α) (hxs : xs.Pairwise R) (hle : revision ≤ h.revision + 1) :
    events p (h.commit xs hxs) revision =
      events p h revision ++ (xs.filter p).map fun x ↦ (h.revision + 1, x) := by
  have hnew : (xs.map fun x ↦ (h.revision + 1, x)).filter (fun e ↦ revision ≤ e.1 && p e.2) =
      (xs.filter p).map fun x ↦ (h.revision + 1, x) := by
    rw [List.filter_map]
    congr 1
    refine List.filter_congr fun x _ ↦ ?_
    show (decide (revision ≤ h.revision + 1) && p x) = p x
    rw [decide_eq_true hle, Bool.true_and]
  rw [events, commit, List.filter_append, hnew]
  rfl

/-- Nothing has been committed after the last revision. -/
theorem events_eq_nil (hlt : h.revision < revision) : events p h revision = [] := by
  refine List.filter_eq_nil_iff.2 fun e he hkept ↦ ?_
  have hle := h.le_revision e he
  have hafter : revision ≤ e.1 := (mem_events.1 (List.mem_filter.2 ⟨he, hkept⟩)).2.1
  omega

/-- The writes of a kind that no revision has two of come one to a revision. -/
theorem strict (hone : ∀ a b, p a = true → p b = true → ¬ R a b) :
    (events p h revision).Pairwise fun a b ↦ a.1 < b.1 := by
  refine (h.ordered.sublist List.filter_sublist).imp_of_mem fun {a b} ha hb hab ↦ ?_
  rcases hab with hlt | ⟨-, hR⟩
  · exact hlt
  · exact absurd hR (hone a.2 b.2 (mem_events.1 ha).2.2 (mem_events.1 hb).2.2)

/-- So a revision names one of them. -/
theorem eq_of_revision_eq (hone : ∀ a b, p a = true → p b = true → ¬ R a b) {a b : Nat × α}
    (ha : a ∈ h.log) (hb : b ∈ h.log) (hpa : p a.2 = true) (hpb : p b.2 = true)
    (heq : a.1 = b.1) : a = b := by
  have hstrict : (events p h 0).Pairwise fun a b ↦ a.1 < b.1 := strict hone
  have hdistinct : ∀ ⦃a⦄, a ∈ events p h 0 → ∀ ⦃b⦄, b ∈ events p h 0 → a.1 = b.1 → a = b :=
    List.Pairwise.forall_of_forall_of_flip (fun _ _ _ ↦ rfl)
      (hstrict.imp fun hlt hsame ↦ absurd hsame (Nat.ne_of_lt hlt))
      (hstrict.imp fun hlt hsame ↦ absurd hsame (Nat.ne_of_gt hlt))
  exact hdistinct (mem_events.2 ⟨ha, Nat.zero_le _, hpa⟩) (mem_events.2 ⟨hb, Nat.zero_le _, hpb⟩) heq

end History

/-! ### Feeds -/

/-- A feed: the revision it was opened at, and how much of what came from there it has handed over. -/
structure Feed where
  start : Nat
  handed : Nat
  deriving DecidableEq

namespace Feed

variable {p : α → Bool} {h : History α R} {feed : Feed}

/-- What it has not handed over yet. -/
def outstanding (p : α → Bool) (h : History α R) (feed : Feed) : List (Nat × α) :=
  (h.events p feed.start).drop feed.handed

/-- It hands over some more. -/
def hand (feed : Feed) (count : Nat) : Feed := { feed with handed := feed.handed + count }

@[simp] theorem outstanding_hand (count : Nat) :
    outstanding p h (feed.hand count) = (outstanding p h feed).drop count := by
  rw [outstanding, outstanding, hand, List.drop_drop]

/-- Opened at a revision, it has everything from there on to hand over. -/
@[simp] theorem outstanding_opened (revision : Nat) :
    outstanding p h ⟨revision, 0⟩ = h.events p revision := rfl

theorem outstanding_sublist : (outstanding p h feed).Sublist (h.events p feed.start) :=
  List.drop_sublist _ _

theorem mem_log_of_mem {e : Nat × α} (he : e ∈ outstanding p h feed) :
    e ∈ h.log ∧ p e.2 = true := by
  obtain ⟨hlog, -, hp⟩ := History.mem_events.1 (outstanding_sublist.subset he)
  exact ⟨hlog, hp⟩

/-- A feed is behind the history: it was opened no later than the next revision, and has handed over
no more than there was. -/
structure Behind (p : α → Bool) (h : History α R) (feed : Feed) : Prop where
  start_le : feed.start ≤ h.revision + 1
  handed_le : feed.handed ≤ (h.events p feed.start).length

theorem behind_opened {revision : Nat} (hle : revision ≤ h.revision + 1) :
    Behind p h ⟨revision, 0⟩ := ⟨hle, Nat.zero_le _⟩

theorem Behind.hand (hbehind : Behind p h feed) {count : Nat}
    (hcount : count ≤ (outstanding p h feed).length) : Behind p h (feed.hand count) where
  start_le := hbehind.start_le
  handed_le := by
    have hhanded := hbehind.handed_le
    rw [outstanding, List.length_drop] at hcount
    show feed.handed + count ≤ (h.events p feed.start).length
    omega

/-- What is committed is outstanding. -/
theorem Behind.outstanding_commit (hbehind : Behind p h feed) (xs : List α)
    (hxs : xs.Pairwise R) : outstanding p (h.commit xs hxs) feed =
      outstanding p h feed ++ (xs.filter p).map fun x ↦ (h.revision + 1, x) := by
  rw [outstanding, outstanding, History.events_commit xs hxs hbehind.start_le,
    List.drop_append_of_le_length hbehind.handed_le]

theorem Behind.commit (hbehind : Behind p h feed) (xs : List α) (hxs : xs.Pairwise R) :
    Behind p (h.commit xs hxs) feed where
  start_le := Nat.le_succ_of_le hbehind.start_le
  handed_le := by
    rw [History.events_commit xs hxs hbehind.start_le, List.length_append]
    exact Nat.le_add_right_of_le hbehind.handed_le

/-- What is outstanding from a revision on is what a feed opened there would hand over first of all,
or some of it. -/
theorem outstanding_subset {revision : Nat} (hafter : ∀ e ∈ outstanding p h feed, revision ≤ e.1) :
    ∀ e ∈ outstanding p h feed, e ∈ h.events p revision := by
  intro e he
  obtain ⟨hlog, hp⟩ := mem_log_of_mem he
  exact History.mem_events.2 ⟨hlog, hafter e he, hp⟩

/-- **A feed opened where another has come to hands over the same**, of the writes of a kind that no
revision has two of. -/
theorem events_eq_outstanding {q : Nat × α → Bool} {revision : Nat}
    (hone : ∀ a b, p a = true → p b = true → ¬ R a b)
    (hafter : ∀ e ∈ outstanding p h feed, revision ≤ e.1)
    (honly : ∀ e ∈ h.events p revision, q e = true → e ∈ outstanding p h feed) :
    (h.events p revision).filter q = (outstanding p h feed).filter q := by
  have hirrefl : Std.Irrefl fun a b : Nat × α ↦ a.1 < b.1 := ⟨fun a ↦ Nat.lt_irrefl a.1⟩
  have hantisymm : Std.Antisymm fun a b : Nat × α ↦ a.1 < b.1 :=
    ⟨fun a b hab hba ↦ absurd hba (Nat.lt_asymm hab)⟩
  have hnew : ((h.events p revision).filter q).Pairwise fun a b ↦ a.1 < b.1 :=
    (History.strict hone).sublist List.filter_sublist
  have hold : ((outstanding p h feed).filter q).Pairwise fun a b ↦ a.1 < b.1 :=
    (History.strict hone).sublist (List.filter_sublist.trans outstanding_sublist)
  refine hnew.eq_of_mem_iff hold fun {e} ↦ ?_
  rw [List.mem_filter, List.mem_filter]
  exact ⟨fun ⟨he, hq⟩ ↦ ⟨honly e he hq, hq⟩,
    fun ⟨he, hq⟩ ↦ ⟨outstanding_subset hafter e he, hq⟩⟩

end Feed

end Revisions
