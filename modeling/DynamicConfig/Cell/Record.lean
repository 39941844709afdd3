import DynamicConfig.Cell.Store
import Mathlib.Data.List.Infix
import Mathlib.Data.List.Nodup

/-!
# What a cell has on record

The log of a run and the state it leads to are two views of one history. A call is in a list of the
log exactly when it has passed the step the list is about, and it is in there once (`Marks`); what
the cell holds is the last entry of the list (`Recorded`). Every claim about the order of installs,
of generations and of reasons is read off these.
-/

namespace DynamicConfig.Cell

open Remote (word wrappingSucc saturatingSucc)
open Transition (run)

variable {T R W : Type}

/-! ### Calls that have passed a step -/

/-- The calls past a step, each once. -/
structure Marks (p : Nat) (owners : List Nat) (calls : List (StoreCall T R W)) : Prop where
  nodup : owners.Nodup
  mem_iff : ∀ i, i ∈ owners ↔ ∃ c, calls[i]? = some c ∧ p < c.point.taken

namespace Marks

variable {p q i : Nat} {owners others : List Nat} {calls : List (StoreCall T R W)}
  {c d : StoreCall T R W}

/-- A new call has passed nothing. -/
theorem join (h : Marks p owners calls) (value : T) (reason : R) :
    Marks p owners (calls ++ [StoreCall.new value reason]) where
  nodup := h.nodup
  mem_iff := by
    intro i
    rw [h.mem_iff]
    constructor
    · rintro ⟨c, hc, hpast⟩
      obtain ⟨hlt, -⟩ := List.getElem?_eq_some_iff.1 hc
      exact ⟨c, by rw [List.getElem?_append_left hlt, hc], hpast⟩
    · rintro ⟨c, hc, hpast⟩
      rcases lt_or_ge i calls.length with hlt | hge
      · rw [List.getElem?_append_left hlt] at hc
        exact ⟨c, hc, hpast⟩
      · rw [List.getElem?_append_right hge] at hc
        obtain rfl : StoreCall.new value reason = c := by
          rcases hsub : i - calls.length with - | n
          · rw [hsub] at hc
            exact Option.some.inj hc
          · rw [hsub] at hc
            cases hc
        exact absurd hpast (Nat.not_lt_zero p)

/-- A call that moves without passing the step. -/
theorem stay (h : Marks p owners calls) (hc : calls[i]? = some c)
    (hstay : p < d.point.taken ↔ p < c.point.taken) : Marks p owners (calls.set i d) where
  nodup := h.nodup
  mem_iff := by
    obtain ⟨hlt, -⟩ := List.getElem?_eq_some_iff.1 hc
    intro k
    rw [h.mem_iff]
    rcases eq_or_ne i k with rfl | hne
    · rw [List.getElem?_set_self hlt, hc]
      constructor
      · rintro ⟨e, he, hpast⟩
        obtain rfl := Option.some.inj he
        exact ⟨d, rfl, hstay.2 hpast⟩
      · rintro ⟨e, he, hpast⟩
        obtain rfl := Option.some.inj he
        exact ⟨c, rfl, hstay.1 hpast⟩
    · rw [List.getElem?_set_ne hne]

/-- A call that passes the step. -/
theorem pass (h : Marks p owners calls) (hc : calls[i]? = some c) (hbefore : ¬ p < c.point.taken)
    (hafter : p < d.point.taken) : Marks p (owners ++ [i]) (calls.set i d) where
  nodup := by
    rw [List.nodup_append]
    refine ⟨h.nodup, List.nodup_singleton i, fun k hk j hj hkj ↦ ?_⟩
    obtain rfl := List.mem_singleton.1 hj
    obtain rfl := hkj
    obtain ⟨e, he, hpast⟩ := (h.mem_iff k).1 hk
    rw [hc] at he
    obtain rfl := Option.some.inj he
    exact hbefore hpast
  mem_iff := by
    obtain ⟨hlt, -⟩ := List.getElem?_eq_some_iff.1 hc
    intro k
    rw [List.mem_append, List.mem_singleton, h.mem_iff]
    rcases eq_or_ne i k with rfl | hne
    · rw [List.getElem?_set_self hlt]
      exact iff_of_true (Or.inr rfl) ⟨d, rfl, hafter⟩
    · rw [List.getElem?_set_ne hne]
      exact or_iff_left hne.symm

/-- Who has passed a later step has passed an earlier one. -/
theorem subset (h : Marks p owners calls) (hq : Marks q others calls) (hle : q ≤ p) :
    owners ⊆ others := by
  intro i hi
  obtain ⟨c, hc, hpast⟩ := (h.mem_iff i).1 hi
  exact (hq.mem_iff i).2 ⟨c, hc, by omega⟩

/-- No more calls have passed a later step than an earlier one. -/
theorem length_le (h : Marks p owners calls) (hq : Marks q others calls) (hle : q ≤ p) :
    owners.length ≤ others.length :=
  (h.nodup.subperm (h.subset hq hle)).length_le

end Marks

/-! ### One call -/

/-- What the log says of the `i`-th call. -/
structure CallRecord (log : Log T R) (i : Nat) (c : StoreCall T R W) : Prop where
  started : 0 < c.point.taken → log.chain ≠ []
  swapped : 1 < c.point.taken →
    ∃ j, log.chain[j + 1]? = some (c.arc i) ∧ c.previous = log.chain[j]?
  before : c.point = .publish → ∀ m, c.before = some m → m ∈ log.issued
  installed : 3 < c.point.taken → ∃ m, c.installed = some m ∧ ⟨i, m⟩ ∈ log.issued
  explained : 4 < c.point.taken → ⟨i, c.reason⟩ ∈ log.explained
  event : c.point = .returned → ∃ m, c.installed = some m ∧ c.event = some
    { previous := c.previous.filter fun p ↦ !decide (p.owner = i)
      current := c.arc i, reason := c.reason, meta_ := m }

/-- A log that has gone on. -/
structure Log.Le (a b : Log T R) : Prop where
  chain : a.chain <+: b.chain
  issued : a.issued <+: b.issued
  explained : a.explained <+: b.explained
  bumped : a.bumped <+: b.bumped

theorem Log.Le.refl (log : Log T R) : log.Le log :=
  ⟨List.prefix_refl _, List.prefix_refl _, List.prefix_refl _, List.prefix_refl _⟩

/-- A step of a call adds to the log. -/
theorem Log.le_after (log : Log T R) (i : Nat) (cell : ConfigCell T R W) (c d : StoreCall T R W) :
    log.Le (log.after i cell c d) := by
  have hkeep : ∀ {α : Type} (xs : List α), xs <+: xs := fun xs ↦ List.prefix_refl xs
  rw [Log.after]
  rcases c.point
  all_goals dsimp only
  case initialise =>
    refine ⟨?_, hkeep _, hkeep _, hkeep _⟩
    show log.chain <+: if cell.inner.isSome then log.chain else log.chain ++ [c.arc i]
    split
    · exact hkeep _
    · exact List.prefix_append _ _
  case swap => exact ⟨List.prefix_append _ _, hkeep _, hkeep _, hkeep _⟩
  case publish =>
    refine ⟨hkeep _, ?_, hkeep _, hkeep _⟩
    show log.issued <+: if d.point = .explain then _ else log.issued
    split
    · exact List.prefix_append _ _
    · exact hkeep _
  case explain => exact ⟨hkeep _, hkeep _, List.prefix_append _ _, hkeep _⟩
  case advance => exact ⟨hkeep _, hkeep _, hkeep _, List.prefix_append _ _⟩
  all_goals exact ⟨hkeep _, hkeep _, hkeep _, hkeep _⟩

/-- A record stays true as the log goes on. -/
theorem CallRecord.mono {a b : Log T R} {i : Nat} {c : StoreCall T R W} (h : CallRecord a i c)
    (hle : a.Le b) : CallRecord b i c where
  started hpast hnil := by
    have hprefix := hle.chain
    rw [hnil, List.prefix_nil] at hprefix
    exact h.started hpast hprefix
  swapped hpast := by
    obtain ⟨j, hown, hprevious⟩ := h.swapped hpast
    obtain ⟨hlt, -⟩ := List.getElem?_eq_some_iff.1 hown
    obtain ⟨rest, hrest⟩ := hle.chain
    refine ⟨j, ?_, ?_⟩
    · rw [← hrest, List.getElem?_append_left hlt, hown]
    · rw [← hrest, List.getElem?_append_left (by omega), hprevious]
  before hpoint m hm := hle.issued.subset (h.before hpoint m hm)
  installed hpast := by
    obtain ⟨m, hm, hissued⟩ := h.installed hpast
    exact ⟨m, hm, hle.issued.subset hissued⟩
  explained hpast := hle.explained.subset (h.explained hpast)
  event := h.event

/-! ### The cell -/

/-- What holds between turns. -/
structure Recorded (s : System T R W) : Prop where
  inner : s.cell.inner = s.log.chain.getLast?
  meta_ : s.cell.meta_ = s.log.issued.getLast?
  lastReason : s.cell.lastReason = s.log.explained.getLast?
  generation : s.cell.generation = s.log.bumped.length % word
  numbered : ∀ j m, s.log.issued[j]? = some m → m.value.generation = (j + 1) % word
  swaps : Marks 1 (s.log.swaps.map Arc.owner) s.calls
  issued : Marks 3 (s.log.issued.map Arc.owner) s.calls
  explained : Marks 4 (s.log.explained.map Arc.owner) s.calls
  bumped : Marks 6 s.log.bumped s.calls
  calls : ∀ i c, s.calls[i]? = some c → CallRecord s.log i c

theorem recorded_new : Recorded (System.new : System T R W) := by
  have hnone : ∀ p, Marks p [] ([] : List (StoreCall T R W)) := fun p ↦
    ⟨List.nodup_nil, fun i ↦ iff_of_false List.not_mem_nil fun ⟨c, hc, _⟩ ↦ nomatch hc⟩
  exact ⟨rfl, rfl, rfl, rfl, fun j m hm ↦ (nomatch hm), hnone 1, hnone 3, hnone 4, hnone 6,
    fun i c hc ↦ (nomatch hc)⟩

/-- Who has published its metadata has swapped. -/
theorem Recorded.issued_le_swaps {s : System T R W} (h : Recorded s) :
    s.log.issued.length ≤ s.log.swaps.length := by
  have hle := h.issued.length_le h.swaps (by decide)
  rw [List.length_map, List.length_map] at hle
  exact hle

/-- Who has bumped the counter of changes has swapped. -/
theorem Recorded.bumped_le_swaps {s : System T R W} (h : Recorded s) :
    s.log.bumped.length ≤ s.log.swaps.length := by
  have hle := h.bumped.length_le h.swaps (by decide)
  rw [List.length_map] at hle
  exact hle

/-- What a load finds once something has been swapped in: the last of it. -/
theorem Recorded.inner_of_swaps {s : System T R W} (h : Recorded s) (hpos : 0 < s.log.swaps.length) :
    ∃ a, s.cell.inner = some a ∧ s.log.swaps[s.log.swaps.length - 1]? = some a := by
  have hlength : s.log.swaps.length = s.log.chain.length - 1 := List.length_tail
  obtain ⟨a, ha⟩ : ∃ a, s.log.chain[s.log.chain.length - 1]? = some a :=
    ⟨_, List.getElem?_eq_getElem (by omega)⟩
  refine ⟨a, ?_, ?_⟩
  · rw [h.inner, List.getLast?_eq_getElem?, ha]
  · rw [Log.swaps, List.getElem?_tail, ← ha]
    congr 1
    rw [← Log.swaps]
    omega

section Store

variable {s : System T R W} {i now : Nat} {c d : StoreCall T R W} {log : Log T R}

/-- The records of the calls, after one of them has moved. -/
theorem Recorded.calls_set (h : Recorded s) (hle : s.log.Le log) (hd : CallRecord log i d) :
    ∀ k e, (s.calls.set i d)[k]? = some e → CallRecord log k e := by
  intro k e he
  rcases eq_or_ne i k with rfl | hne
  · obtain ⟨hlt, hself⟩ := List.getElem?_eq_some_iff.1 he
    rw [List.getElem_set_self] at hself
    exact hself ▸ hd
  · rw [List.getElem?_set_ne hne] at he
    exact (h.calls k e he).mono hle

/-- A step that adds nothing to the log. -/
theorem Recorded.quiet (h : Recorded s) (hc : s.calls[i]? = some c)
    (hpassed : ∀ p ∈ [1, 3, 4, 6], p < d.point.taken ↔ p < c.point.taken)
    (hd : CallRecord s.log i d) (cell : ConfigCell T R W) (tasks : List (Task T W))
    (hinner : cell.inner = s.cell.inner) (hmeta : cell.meta_ = s.cell.meta_)
    (hreason : cell.lastReason = s.cell.lastReason)
    (hgeneration : cell.generation = s.cell.generation) :
    Recorded { s with cell, tasks, calls := s.calls.set i d } where
  inner := hinner.trans h.inner
  meta_ := hmeta.trans h.meta_
  lastReason := hreason.trans h.lastReason
  generation := hgeneration.trans h.generation
  numbered := h.numbered
  swaps := h.swaps.stay hc (hpassed 1 (by decide))
  issued := h.issued.stay hc (hpassed 3 (by decide))
  explained := h.explained.stay hc (hpassed 4 (by decide))
  bumped := h.bumped.stay hc (hpassed 6 (by decide))
  calls := h.calls_set (Log.Le.refl s.log) hd

/-- `get_or_init`. -/
theorem Recorded.initialise (h : Recorded s) (hc : s.calls[i]? = some c)
    (hpoint : c.point = .initialise) (tasks : List (Task T W)) :
    Recorded
      { s with
        cell := { s.cell with inner := s.cell.inner.or (some (c.arc i)) }
        tasks
        calls := s.calls.set i { c with point := .swap }
        log := { s.log with
          chain := if s.cell.inner.isSome then s.log.chain else s.log.chain ++ [c.arc i] } } := by
  have hstay : ∀ p ∈ [1, 3, 4, 6], p < StorePoint.swap.taken ↔ p < c.point.taken := by
    rw [hpoint]
    decide
  have hinner := h.inner
  rcases hfresh : s.cell.inner with - | a
  · -- Nothing has been in the cell yet.
    have hnil : s.log.chain = [] := by
      rw [hfresh] at hinner
      exact List.getLast?_eq_none_iff.1 hinner.symm
    have hle : s.log.Le { s.log with chain := [c.arc i] } :=
      ⟨hnil ▸ List.nil_prefix, List.prefix_refl _, List.prefix_refl _, List.prefix_refl _⟩
    have hswaps : Marks 1 (List.map Arc.owner ([] : List (Arc T))) s.calls := by
      have hmarks := h.swaps
      rw [Log.swaps, hnil] at hmarks
      exact hmarks
    rw [hnil]
    refine { h with
      inner := rfl
      swaps := hswaps.stay hc (hstay 1 (by decide))
      issued := h.issued.stay hc (hstay 3 (by decide))
      explained := h.explained.stay hc (hstay 4 (by decide))
      bumped := h.bumped.stay hc (hstay 6 (by decide))
      calls := h.calls_set hle ?_ }
    exact
      { started := fun _ ↦ List.cons_ne_nil _ _
        swapped := fun hpast ↦ absurd hpast (by decide : ¬ 1 < StorePoint.swap.taken)
        before := fun hpoint ↦ nomatch hpoint
        installed := fun hpast ↦ absurd hpast (by decide : ¬ 3 < StorePoint.swap.taken)
        explained := fun hpast ↦ absurd hpast (by decide : ¬ 4 < StorePoint.swap.taken)
        event := fun hpoint ↦ nomatch hpoint }
  · refine h.quiet hc hstay ?_ _ tasks ?_ rfl rfl rfl
    · have hne : s.log.chain ≠ [] := by
        intro hnil
        rw [hfresh, hnil] at hinner
        cases hinner
      exact
        { started := fun _ ↦ hne
          swapped := fun hpast ↦ absurd hpast (by decide : ¬ 1 < StorePoint.swap.taken)
          before := fun hpoint ↦ nomatch hpoint
          installed := fun hpast ↦ absurd hpast (by decide : ¬ 3 < StorePoint.swap.taken)
          explained := fun hpast ↦ absurd hpast (by decide : ¬ 4 < StorePoint.swap.taken)
          event := fun hpoint ↦ nomatch hpoint }
    · rw [hfresh]
      rfl

/-- The swap. -/
theorem Recorded.swap (h : Recorded s) (hc : s.calls[i]? = some c) (hpoint : c.point = .swap)
    (tasks : List (Task T W)) :
    Recorded
      { s with
        cell := { s.cell with inner := some (c.arc i) }
        tasks
        calls := s.calls.set i { c with point := .read, previous := s.cell.inner }
        log := { s.log with chain := s.log.chain ++ [c.arc i] } } := by
  have hrec := h.calls i c hc
  have hne : s.log.chain ≠ [] := hrec.started (by rw [hpoint]; decide)
  have hpos : 0 < s.log.chain.length := List.length_pos_iff.2 hne
  have hstay : ∀ p ∈ [3, 4, 6], p < StorePoint.read.taken ↔ p < c.point.taken := by
    rw [hpoint]
    decide
  have hle : s.log.Le { s.log with chain := s.log.chain ++ [c.arc i] } :=
    ⟨List.prefix_append _ _, List.prefix_refl _, List.prefix_refl _, List.prefix_refl _⟩
  refine { h with
    inner := (List.getLast?_concat).symm
    swaps := ?_
    issued := h.issued.stay hc (hstay 3 (by decide))
    explained := h.explained.stay hc (hstay 4 (by decide))
    bumped := h.bumped.stay hc (hstay 6 (by decide))
    calls := h.calls_set hle ?_ }
  · rw [Log.swaps, List.tail_append_of_ne_nil hne, List.map_append]
    exact h.swaps.pass hc (by rw [hpoint]; decide) (by decide : 1 < StorePoint.read.taken)
  · refine
      { started := fun _ ↦ List.append_ne_nil_of_left_ne_nil hne _
        swapped := fun _ ↦ ⟨s.log.chain.length - 1, ?_, ?_⟩
        before := fun hpoint ↦ nomatch hpoint
        installed := fun hpast ↦ absurd hpast (by decide : ¬ 3 < StorePoint.read.taken)
        explained := fun hpast ↦ absurd hpast (by decide : ¬ 4 < StorePoint.read.taken)
        event := fun hpoint ↦ nomatch hpoint }
    · show (s.log.chain ++ [c.arc i])[s.log.chain.length - 1 + 1]? = _
      rw [Nat.sub_add_cancel hpos, List.getElem?_concat_length]
      rfl
    · show s.cell.inner = (s.log.chain ++ [c.arc i])[s.log.chain.length - 1]?
      rw [List.getElem?_append_left (by omega), h.inner, List.getLast?_eq_getElem?]

/-- Two loads of the same allocation saw the same metadata. -/
theorem Recorded.eq_of_sameMeta (h : Recorded s) (hc : s.calls[i]? = some c)
    (hpoint : c.point = .publish) (hsame : sameMeta c.before s.cell.meta_ = true) :
    c.before = s.cell.meta_ := by
  have howners : c.before.map Arc.owner = s.cell.meta_.map Arc.owner := of_decide_eq_true hsame
  rcases hbefore : c.before with - | m
  · rw [hbefore] at howners
    exact (Option.map_eq_none_iff.1 howners.symm).symm
  · rw [hbefore] at howners
    obtain ⟨m', hmeta, howner⟩ := Option.map_eq_some_iff.1 howners.symm
    have hm : m ∈ s.log.issued := (h.calls i c hc).before hpoint m hbefore
    have hm' : m' ∈ s.log.issued := by
      rw [h.meta_] at hmeta
      exact List.mem_of_getLast? hmeta
    rw [hmeta, List.inj_on_of_nodup_map h.issued.nodup hm hm' howner.symm]

/-- The number a reader finds: how many have been issued. -/
theorem Recorded.published (h : Recorded s) :
    (s.cell.meta_.map fun m ↦ m.value.generation).getD 0 = s.log.issued.length % word := by
  rw [h.meta_, List.getLast?_eq_getElem?]
  rcases hm : s.log.issued[s.log.issued.length - 1]? with - | m
  · rw [List.getElem?_eq_none_iff] at hm
    have hzero : s.log.issued.length = 0 := by omega
    rw [hzero]
    rfl
  · obtain ⟨hlt, -⟩ := List.getElem?_eq_some_iff.1 hm
    have hnumber := h.numbered _ m hm
    rw [Nat.sub_add_cancel (by omega)] at hnumber
    exact hnumber

/-- The number a closure of `rcu` gives the next install. -/
theorem Recorded.nextMeta_generation (h : Recorded s) (now : Nat) :
    (nextMeta s.cell.meta_ now).generation = (s.log.issued.length + 1) % word := by
  show wrappingSucc _ = _
  rw [h.published, wrappingSucc, Nat.mod_add_mod]

/-- A compare-and-swap that succeeds. -/
theorem Recorded.publish (h : Recorded s) (hc : s.calls[i]? = some c)
    (hpoint : c.point = .publish) (hsame : sameMeta c.before s.cell.meta_ = true)
    (tasks : List (Task T W)) :
    Recorded
      { s with
        cell := { s.cell with meta_ := some ⟨i, nextMeta c.before now⟩ }
        tasks
        calls := s.calls.set i
          { c with point := .explain, installed := some (nextMeta c.before now) }
        log := { s.log with issued := s.log.issued ++ [⟨i, nextMeta c.before now⟩] } } := by
  have hrec := h.calls i c hc
  have hstay : ∀ p ∈ [1, 4, 6], p < StorePoint.explain.taken ↔ p < c.point.taken := by
    rw [hpoint]
    decide
  have hle : s.log.Le { s.log with issued := s.log.issued ++ [⟨i, nextMeta c.before now⟩] } :=
    ⟨List.prefix_refl _, List.prefix_append _ _, List.prefix_refl _, List.prefix_refl _⟩
  refine { h with
    meta_ := (List.getLast?_concat).symm
    numbered := fun j m hm ↦ ?_
    swaps := h.swaps.stay hc (hstay 1 (by decide))
    issued := ?_
    explained := h.explained.stay hc (hstay 4 (by decide))
    bumped := h.bumped.stay hc (hstay 6 (by decide))
    calls := h.calls_set hle ?_ }
  · rcases lt_or_ge j s.log.issued.length with hlt | hge
    · have hold : s.log.issued[j]? = some m := by
        rw [← hm]
        exact (List.getElem?_append_left hlt).symm
      exact h.numbered j m hold
    · obtain ⟨hbound, -⟩ := List.getElem?_eq_some_iff.1 hm
      rw [List.length_append, List.length_singleton] at hbound
      obtain rfl : j = s.log.issued.length := by omega
      have hnew : (s.log.issued ++ [⟨i, nextMeta c.before now⟩])[s.log.issued.length]? = some m := hm
      rw [List.getElem?_concat_length] at hnew
      obtain rfl := Option.some.inj hnew
      rw [h.eq_of_sameMeta hc hpoint hsame]
      exact h.nextMeta_generation now
  · rw [List.map_append]
    exact h.issued.pass hc (by rw [hpoint]; decide) (by decide : 3 < StorePoint.explain.taken)
  · exact
      { started := fun _ ↦ hrec.started (by rw [hpoint]; decide)
        swapped := fun _ ↦ hrec.swapped (by rw [hpoint]; decide)
        before := fun hpoint ↦ nomatch hpoint
        installed := fun _ ↦
          ⟨nextMeta c.before now, rfl, List.mem_append_right _ (List.mem_singleton_self _)⟩
        explained := fun hpast ↦ absurd hpast (by decide : ¬ 4 < StorePoint.explain.taken)
        event := fun hpoint ↦ nomatch hpoint }

/-- Storing the reason. -/
theorem Recorded.explain (h : Recorded s) (hc : s.calls[i]? = some c)
    (hpoint : c.point = .explain) (tasks : List (Task T W)) :
    Recorded
      { s with
        cell := { s.cell with lastReason := some ⟨i, c.reason⟩ }
        tasks
        calls := s.calls.set i { c with point := .reset }
        log := { s.log with explained := s.log.explained ++ [⟨i, c.reason⟩] } } := by
  have hrec := h.calls i c hc
  have hstay : ∀ p ∈ [1, 3, 6], p < StorePoint.reset.taken ↔ p < c.point.taken := by
    rw [hpoint]
    decide
  have hle : s.log.Le { s.log with explained := s.log.explained ++ [⟨i, c.reason⟩] } :=
    ⟨List.prefix_refl _, List.prefix_refl _, List.prefix_append _ _, List.prefix_refl _⟩
  refine { h with
    lastReason := (List.getLast?_concat).symm
    swaps := h.swaps.stay hc (hstay 1 (by decide))
    issued := h.issued.stay hc (hstay 3 (by decide))
    explained := ?_
    bumped := h.bumped.stay hc (hstay 6 (by decide))
    calls := h.calls_set hle ?_ }
  · rw [List.map_append]
    exact h.explained.pass hc (by rw [hpoint]; decide) (by decide : 4 < StorePoint.reset.taken)
  · exact
      { started := fun _ ↦ hrec.started (by rw [hpoint]; decide)
        swapped := fun _ ↦ hrec.swapped (by rw [hpoint]; decide)
        before := fun hpoint ↦ nomatch hpoint
        installed := fun _ ↦ hrec.installed (by rw [hpoint]; decide)
        explained := fun _ ↦ List.mem_append_right _ (List.mem_singleton_self _)
        event := fun hpoint ↦ nomatch hpoint }

/-- Moving the counter of changes. -/
theorem Recorded.advance (h : Recorded s) (hc : s.calls[i]? = some c)
    (hpoint : c.point = .advance) (tasks : List (Task T W)) :
    Recorded
      { s with
        cell := { s.cell with generation := wrappingSucc s.cell.generation }
        tasks
        calls := s.calls.set i { c with point := .take }
        log := { s.log with bumped := s.log.bumped ++ [i] } } := by
  have hrec := h.calls i c hc
  have hstay : ∀ p ∈ [1, 3, 4], p < StorePoint.take.taken ↔ p < c.point.taken := by
    rw [hpoint]
    decide
  have hle : s.log.Le { s.log with bumped := s.log.bumped ++ [i] } :=
    ⟨List.prefix_refl _, List.prefix_refl _, List.prefix_refl _, List.prefix_append _ _⟩
  refine { h with
    generation := ?_
    swaps := h.swaps.stay hc (hstay 1 (by decide))
    issued := h.issued.stay hc (hstay 3 (by decide))
    explained := h.explained.stay hc (hstay 4 (by decide))
    bumped := h.bumped.pass hc (by rw [hpoint]; decide) (by decide : 6 < StorePoint.take.taken)
    calls := h.calls_set hle ?_ }
  · show wrappingSucc s.cell.generation = (s.log.bumped ++ [i]).length % word
    rw [h.generation, wrappingSucc, Nat.mod_add_mod, List.length_append, List.length_singleton]
  · exact
      { started := fun _ ↦ hrec.started (by rw [hpoint]; decide)
        swapped := fun _ ↦ hrec.swapped (by rw [hpoint]; decide)
        before := fun hpoint ↦ nomatch hpoint
        installed := fun _ ↦ hrec.installed (by rw [hpoint]; decide)
        explained := fun _ ↦ hrec.explained (by rw [hpoint]; decide)
        event := fun hpoint ↦ nomatch hpoint }

/-- A failed compare-and-swap, and every step that writes nothing the log is about. -/
theorem Recorded.pause (h : Recorded s) (hc : s.calls[i]? = some c) (hstarted : 0 < c.point.taken)
    (hpassed : ∀ p ∈ [1, 3, 4, 6], p < d.point.taken ↔ p < c.point.taken)
    (harc : d.arc i = c.arc i) (hreason : d.reason = c.reason) (hprevious : d.previous = c.previous)
    (hinstalled : 3 < c.point.taken → d.installed = c.installed)
    (hbefore : d.point = .publish → d.before = s.cell.meta_) (hevent : d.point ≠ .returned)
    (cell : ConfigCell T R W) (tasks : List (Task T W)) (hinner : cell.inner = s.cell.inner)
    (hmeta : cell.meta_ = s.cell.meta_) (hlast : cell.lastReason = s.cell.lastReason)
    (hgeneration : cell.generation = s.cell.generation) :
    Recorded { s with cell, tasks, calls := s.calls.set i d } := by
  have hrec := h.calls i c hc
  refine h.quiet hc hpassed ?_ cell tasks hinner hmeta hlast hgeneration
  refine
    { started := fun _ ↦ hrec.started hstarted
      swapped := fun hpast ↦ ?_
      before := fun hpoint m hm ↦ ?_
      installed := fun hpast ↦ ?_
      explained := fun hpast ↦ ?_
      event := fun hpoint ↦ absurd hpoint hevent }
  · rw [harc, hprevious]
    exact hrec.swapped ((hpassed 1 (by decide)).1 hpast)
  · rw [hbefore hpoint, h.meta_] at hm
    exact List.mem_of_getLast? hm
  · have hearlier := (hpassed 3 (by decide)).1 hpast
    rw [hinstalled hearlier]
    exact hrec.installed hearlier
  · rw [hreason]
    exact hrec.explained ((hpassed 4 (by decide)).1 hpast)

/-- Taking the list, and waking those who were in it. -/
theorem Recorded.waking (h : Recorded s) (hc : s.calls[i]? = some c)
    (hpoint : c.point = .take ∨ c.point = .wake) (woken : List W) (cell : ConfigCell T R W)
    (tasks : List (Task T W)) (hinner : cell.inner = s.cell.inner)
    (hmeta : cell.meta_ = s.cell.meta_) (hlast : cell.lastReason = s.cell.lastReason)
    (hgeneration : cell.generation = s.cell.generation) :
    Recorded { s with cell, tasks, calls := s.calls.set i (c.waking woken) } := by
  have hnext : (c.waking woken).point = .dispatch ∨ (c.waking woken).point = .wake := by
    show (if woken.isEmpty then StorePoint.dispatch else .wake) = .dispatch ∨ _ = _
    exact ite_eq_or_eq _ _ _
  have hpassed : ∀ p ∈ [1, 3, 4, 6], p < (c.waking woken).point.taken ↔ p < c.point.taken := by
    rcases hpoint with hpoint | hpoint
    all_goals
      rcases hnext with hnext | hnext
      all_goals
        rw [hpoint, hnext]
        decide
  have hstarted : 0 < c.point.taken := by
    rcases hpoint with hpoint | hpoint
    all_goals
      rw [hpoint]
      decide
  refine h.pause hc hstarted hpassed rfl rfl rfl (fun _ ↦ rfl) (fun hpublish ↦ ?_)
    (fun hreturned ↦ ?_) cell tasks hinner hmeta hlast hgeneration
  · rcases hnext with hnext | hnext
    all_goals
      rw [hpublish] at hnext
      cases hnext
  · rcases hnext with hnext | hnext
    all_goals
      rw [hreturned] at hnext
      cases hnext

/-- The dispatch. -/
theorem Recorded.dispatch (h : Recorded s) (hc : s.calls[i]? = some c)
    (hpoint : c.point = .dispatch) {m : SnapshotMeta} (hinstalled : c.installed = some m)
    (tasks : List (Task T W)) :
    Recorded
      { s with
        tasks
        calls := s.calls.set i
          { c with
            point := .returned
            event := some
              { previous := c.previous.filter fun p ↦ !decide (p.owner = i)
                current := c.arc i, reason := c.reason, meta_ := m } } } := by
  have hrec := h.calls i c hc
  have hstay : ∀ p ∈ [1, 3, 4, 6], p < StorePoint.returned.taken ↔ p < c.point.taken := by
    rw [hpoint]
    decide
  refine h.quiet hc hstay ?_ s.cell tasks rfl rfl rfl rfl
  exact
    { started := fun _ ↦ hrec.started (by rw [hpoint]; decide)
      swapped := fun _ ↦ hrec.swapped (by rw [hpoint]; decide)
      before := fun hpoint ↦ nomatch hpoint
      installed := fun _ ↦ hrec.installed (by rw [hpoint]; decide)
      explained := fun _ ↦ hrec.explained (by rw [hpoint]; decide)
      event := fun _ ↦ ⟨m, hinstalled, rfl⟩ }

/-- **A step of a call keeps the record.** -/
theorem Recorded.store (h : Recorded s) (hc : s.calls[i]? = some c)
    {e : ConfigCell T R W × StoreCall T R W} (he : c.step i now s.cell = some e)
    (tasks : List (Task T W)) :
    Recorded
      { s with
        cell := e.1, tasks, calls := s.calls.set i e.2, log := s.log.after i s.cell c e.2 } := by
  rw [StoreCall.step] at he
  rw [Log.after]
  rcases hpoint : c.point
  all_goals
    rw [hpoint] at he
    dsimp only at he ⊢
  case initialise =>
    obtain rfl := Option.some.inj he
    exact h.initialise hc hpoint tasks
  case swap =>
    obtain rfl := Option.some.inj he
    exact h.swap hc hpoint tasks
  case read =>
    obtain rfl := Option.some.inj he
    have hpassed : ∀ p ∈ [1, 3, 4, 6], p < StorePoint.publish.taken ↔ p < c.point.taken := by
      rw [hpoint]
      decide
    exact h.pause (d := { c with point := .publish, before := s.cell.meta_ }) hc
      (by rw [hpoint]; decide) hpassed rfl rfl rfl (fun _ ↦ rfl) (fun _ ↦ rfl)
      (fun hreturned ↦ nomatch hreturned) s.cell tasks rfl rfl rfl rfl
  case publish =>
    split at he
    · next hsame =>
      obtain rfl := Option.some.inj he
      exact h.publish hc hpoint hsame tasks
    · obtain rfl := Option.some.inj he
      have hpassed : ∀ p ∈ [1, 3, 4, 6], p < StorePoint.publish.taken ↔ p < c.point.taken := by
        rw [hpoint]
        decide
      exact h.pause
        (d := { c with
          point := .publish, before := s.cell.meta_, installed := some (nextMeta c.before now) }) hc
        (by rw [hpoint]; decide) hpassed rfl rfl rfl
        (fun hpast ↦ absurd hpast (by rw [hpoint]; decide)) (fun _ ↦ rfl)
        (fun hreturned ↦ nomatch hreturned) s.cell tasks rfl rfl rfl rfl
  case explain =>
    obtain rfl := Option.some.inj he
    exact h.explain hc hpoint tasks
  case reset =>
    obtain rfl := Option.some.inj he
    have hpassed : ∀ p ∈ [1, 3, 4, 6], p < StorePoint.advance.taken ↔ p < c.point.taken := by
      rw [hpoint]
      decide
    exact h.pause (d := { c with point := .advance }) hc (by rw [hpoint]; decide) hpassed rfl rfl rfl
      (fun _ ↦ rfl) (fun hpublish ↦ nomatch hpublish) (fun hreturned ↦ nomatch hreturned)
      { s.cell with consecutiveFailures := 0 } tasks rfl rfl rfl rfl
  case advance =>
    obtain rfl := Option.some.inj he
    exact h.advance hc hpoint tasks
  case take =>
    obtain rfl := Option.some.inj he
    exact h.waking hc (Or.inl hpoint) s.cell.waiting { s.cell with waiting := [] } tasks rfl rfl rfl rfl
  case wake =>
    obtain rfl := Option.some.inj he
    exact h.waking hc (Or.inr hpoint) c.woken.tail s.cell tasks rfl rfl rfl rfl
  case dispatch =>
    obtain ⟨m, hinstalled, he⟩ := Option.bind_eq_some_iff.1 he
    obtain rfl := Option.some.inj he
    exact h.dispatch hc hpoint hinstalled tasks
  case returned => cases he

end Store

/-! ### Every run -/

/-- A turn that changes nothing the record is about. -/
theorem Recorded.of_eq {s t : System T R W} (h : Recorded s) (hlog : t.log = s.log)
    (hcalls : t.calls = s.calls) (hinner : t.cell.inner = s.cell.inner)
    (hmeta : t.cell.meta_ = s.cell.meta_) (hreason : t.cell.lastReason = s.cell.lastReason)
    (hgeneration : t.cell.generation = s.cell.generation) : Recorded t where
  inner := by rw [hinner, hlog, h.inner]
  meta_ := by rw [hmeta, hlog, h.meta_]
  lastReason := by rw [hreason, hlog, h.lastReason]
  generation := by rw [hgeneration, hlog, h.generation]
  numbered := hlog ▸ h.numbered
  swaps := hlog ▸ hcalls ▸ h.swaps
  issued := hlog ▸ hcalls ▸ h.issued
  explained := hlog ▸ hcalls ▸ h.explained
  bumped := hlog ▸ hcalls ▸ h.bumped
  calls := hlog ▸ hcalls ▸ h.calls

/-- A call is made. -/
theorem Recorded.join {s : System T R W} (h : Recorded s) (value : T) (reason : R) :
    Recorded { s with calls := s.calls ++ [StoreCall.new value reason] } :=
  { h with
    swaps := h.swaps.join value reason
    issued := h.issued.join value reason
    explained := h.explained.join value reason
    bumped := h.bumped.join value reason
    calls := by
      intro i c hc
      rcases lt_or_ge i s.calls.length with hlt | hge
      · have hold : s.calls[i]? = some c := by
          rw [← hc]
          exact (List.getElem?_append_left hlt).symm
        exact h.calls i c hold
      · have hnew : c = StoreCall.new value reason := by
          have hmem : c ∈ [StoreCall.new value reason] := by
            have hsome : [StoreCall.new value reason][i - s.calls.length]? = some c := by
              rw [← hc]
              exact (List.getElem?_append_right hge).symm
            exact List.mem_of_getElem? hsome
          exact List.mem_singleton.1 hmem
        rw [hnew]
        exact
          { started := fun hpast ↦ absurd hpast (Nat.lt_irrefl 0)
            swapped := fun hpast ↦ absurd hpast (Nat.not_lt_zero 1)
            before := fun hpoint ↦ nomatch hpoint
            installed := fun hpast ↦ absurd hpast (Nat.not_lt_zero 3)
            explained := fun hpast ↦ absurd hpast (Nat.not_lt_zero 4)
            event := fun hpoint ↦ nomatch hpoint } }

variable [DecidableEq W]

/-- A poll reads what the record is about and writes none of it. -/
theorem Task.step_cell {t : Task T W} {cell : ConfigCell T R W}
    {e : ConfigCell T R W × Task T W} (h : t.step cell = some e) :
    ∃ waiting, e.1 = { cell with waiting } := by
  rw [Task.step] at h
  rcases hpoint : t.point
  all_goals
    rw [hpoint] at h
    dsimp only at h
  case check =>
    split at h
    · obtain rfl := Option.some.inj h
      exact ⟨cell.waiting, rfl⟩
    · obtain rfl := Option.some.inj h
      exact ⟨cell.waiting, rfl⟩
  case checkAgain =>
    split at h
    · obtain rfl := Option.some.inj h
      exact ⟨cell.waiting, rfl⟩
    · obtain rfl := Option.some.inj h
      exact ⟨cell.waiting, rfl⟩
  case load =>
    obtain rfl := Option.some.inj h
    exact ⟨cell.waiting, rfl⟩
  case loadAgain =>
    obtain rfl := Option.some.inj h
    exact ⟨cell.waiting, rfl⟩
  case register =>
    obtain ⟨waker, -, rfl⟩ := Option.map_eq_some_iff.1 h
    exact ⟨_, rfl⟩
  all_goals cases h

/-- One turn adds to the log. -/
theorem System.log_le_of_step {s t : System T R W} {turn : Turn T R W}
    (hstep : s.step turn = some t) : s.log.Le t.log := by
  cases System.moves_of_step hstep with
  | store hc he => exact Log.le_after _ _ _ _ _
  | _ => exact Log.Le.refl _

/-- **One turn keeps the record.** -/
theorem Recorded.step {s t : System T R W} (h : Recorded s) {turn : Turn T R W}
    (hstep : s.step turn = some t) : Recorded t := by
  cases System.moves_of_step hstep with
  | begin_ value reason => exact h.join value reason
  | store hc he => exact h.store hc he _
  | task ht he =>
    obtain ⟨waiting, hcell⟩ := Task.step_cell he
    exact h.of_eq rfl rfl (by rw [hcell]) (by rw [hcell]) (by rw [hcell]) (by rw [hcell])
  | _ => exact h.of_eq rfl rfl rfl rfl rfl rfl

/-- Every run is on record. -/
theorem recorded_of_run {s : System T R W} {turns : List (Turn T R W)}
    (h : run System.step System.new turns = some s) : Recorded s :=
  Transition.run_invariant (fun _ _ _ hstep hrecorded ↦ hrecorded.step hstep) h recorded_new

end DynamicConfig.Cell
