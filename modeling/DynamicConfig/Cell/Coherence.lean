import DynamicConfig.Cell.Chain

/-!
# What the metadata describes

Once every store has returned, the cell holds the last snapshot swapped in, the last metadata
published and the last reason stored. Each is said to be of what the cell holds. Nothing makes the
three the same call's: the steps of two stores overlap in any order, so what is reported for good may
be of an install that is no longer there (`not_coherent_of_overlap`).
-/

namespace DynamicConfig.Cell

open Transition (run)

variable {T R W : Type}

/-- `ConfigStatus`, without the last failure. -/
structure ConfigStatus (R : Type) where
  generation : Nat
  loadedAt : Option Nat
  lastReason : Option R
  consecutiveFailures : Nat
  deriving DecidableEq, Repr

namespace ConfigCell

/-- The current snapshot: `ConfigCell::load`. -/
def load (cell : ConfigCell T R W) : Option (Arc T) := cell.inner

/-- What is true of the installed snapshot: `ConfigCell::meta`. -/
def «meta» (cell : ConfigCell T R W) : Option SnapshotMeta := cell.meta_.map Arc.value

/-- `ConfigCell::status`. -/
def status (cell : ConfigCell T R W) : ConfigStatus R where
  generation := (cell.meta.map SnapshotMeta.generation).getD 0
  loadedAt := cell.meta.map SnapshotMeta.loadedAt
  lastReason := cell.lastReason.map Arc.value
  consecutiveFailures := cell.consecutiveFailures

end ConfigCell

/-- What is reported is of the call whose snapshot is installed. -/
structure CoherentAt (s : System T R W) (i : Nat) (c : StoreCall T R W) : Prop where
  call : s.calls[i]? = some c
  load : s.cell.load = some (c.arc i)
  meta_ : s.cell.meta_ = c.installed.map fun installed ↦ ⟨i, installed⟩
  lastReason : s.cell.lastReason = some ⟨i, c.reason⟩

/-- What is reported is of one call, the one whose snapshot is installed. -/
def Coherent (s : System T R W) : Prop := ∃ i c, CoherentAt s i c

/-- The condition: the call that swaps last publishes last and stores its reason last. -/
structure LastOfAll (log : Log T R) : Prop where
  issued : log.issued.getLast?.map Arc.owner = log.swaps.getLast?.map Arc.owner
  explained : log.explained.getLast?.map Arc.owner = log.swaps.getLast?.map Arc.owner

section Quiet

variable {s : System T R W} {i : Nat} {c : StoreCall T R W}

/-- What is reported of a coherent cell. -/
theorem CoherentAt.status (h : CoherentAt s i c) :
    s.cell.meta = c.installed ∧ s.cell.status =
      { generation := (c.installed.map SnapshotMeta.generation).getD 0
        loadedAt := c.installed.map SnapshotMeta.loadedAt
        lastReason := some c.reason
        consecutiveFailures := s.cell.consecutiveFailures } := by
  have hmeta : s.cell.meta = c.installed := by
    rw [ConfigCell.meta, h.meta_, Option.map_map]
    exact Option.map_id'
  refine ⟨hmeta, ?_⟩
  rw [ConfigCell.status, hmeta, h.lastReason]
  rfl

/-- The last snapshot swapped in is the installed one. -/
theorem Recorded.getLast?_swaps (h : Recorded s) (hswapped : s.log.swaps ≠ []) :
    s.log.swaps.getLast? = s.cell.inner := by
  obtain ⟨a, ha, hlast⟩ := h.inner_of_swaps (List.length_pos_iff.2 hswapped)
  rw [ha, List.getLast?_eq_getElem?, hlast]

/-- A cell whose calls have all returned holds the snapshot, and each call is past every step. -/
theorem Recorded.swaps_ne_nil (h : Recorded s) (hquiet : s.Quiet) (hcalls : s.calls ≠ []) :
    s.log.swaps ≠ [] := by
  obtain ⟨c, hc⟩ : ∃ c, s.calls[0]? = some c :=
    ⟨_, List.getElem?_eq_getElem (List.length_pos_iff.2 hcalls)⟩
  obtain ⟨j, -, -, hown, -⟩ := h.returned hquiet hc
  intro hnil
  rw [← getElem?_swaps, hnil] at hown
  cases hown

/-- A coherent cell: the last of everything is one call's. -/
theorem CoherentAt.lastOfAll (hat : CoherentAt s i c) (h : Recorded s) (hquiet : s.Quiet)
    (hswapped : s.log.swaps ≠ []) : LastOfAll s.log := by
  have hpoint := hquiet i c hat.call
  obtain ⟨m, hinstalled, -⟩ := (h.calls i c hat.call).installed (by rw [hpoint]; decide)
  have hinner : s.cell.inner = some (c.arc i) := hat.load
  constructor
  · rw [h.getLast?_swaps hswapped, ← h.meta_, hat.meta_, hinstalled, hinner]
    rfl
  · rw [h.getLast?_swaps hswapped, ← h.lastReason, hat.lastReason, hinner]
    rfl

/-- Where the last of everything is one call's, the cell is coherent. -/
theorem LastOfAll.coherent (hlast : LastOfAll s.log) (h : Recorded s) (hquiet : s.Quiet)
    (hswapped : s.log.swaps ≠ []) : Coherent s := by
  obtain ⟨a, ha, hswap⟩ := h.inner_of_swaps (List.length_pos_iff.2 hswapped)
  rw [getElem?_swaps] at hswap
  obtain ⟨c, hc, harc, -⟩ := h.swap_at hswap
  have hpoint := hquiet _ c hc
  have howner : s.log.swaps.getLast?.map Arc.owner = some a.owner := by
    rw [h.getLast?_swaps hswapped, ha]
    rfl
  obtain ⟨m, hinstalled, hissued⟩ := (h.calls _ c hc).installed (by rw [hpoint]; decide)
  have hexplained := (h.calls _ c hc).explained (by rw [hpoint]; decide)
  refine ⟨a.owner, c, hc, ?_, ?_, ?_⟩
  · rw [ConfigCell.load, ha, harc]
  · obtain ⟨x, hx, hxowner⟩ := Option.map_eq_some_iff.1 (hlast.issued.trans howner)
    have hsame : x = ⟨a.owner, m⟩ :=
      List.inj_on_of_nodup_map h.issued.nodup (List.mem_of_getLast? hx) hissued hxowner
    rw [h.meta_, hx, hsame, hinstalled]
    rfl
  · obtain ⟨x, hx, hxowner⟩ := Option.map_eq_some_iff.1 (hlast.explained.trans howner)
    have hsame : x = ⟨a.owner, c.reason⟩ :=
      List.inj_on_of_nodup_map h.explained.nodup (List.mem_of_getLast? hx) hexplained hxowner
    rw [h.lastReason, hx, hsame]

end Quiet

variable [DecidableEq W]

/-- **The metadata describes the snapshot exactly when the call that swapped last did everything
last.** -/
theorem coherent_iff {s : System T R W} {turns : List (Turn T R W)}
    (h : run System.step System.new turns = some s) (hquiet : s.Quiet) (hcalls : s.calls ≠ []) :
    Coherent s ↔ LastOfAll s.log := by
  have hrecorded := recorded_of_run h
  have hswapped := hrecorded.swaps_ne_nil hquiet hcalls
  constructor
  · rintro ⟨i, c, hat⟩
    exact hat.lastOfAll hrecorded hquiet hswapped
  · intro hlast
    exact hlast.coherent hrecorded hquiet hswapped

/-- One store after the other. -/
theorem coherent_sequential : ∃ s : System String String Nat,
    run System.step System.new
        (twoCalls "first" "second" "startup" "file" ++ stored 0 ++ stored 1) = some s ∧
      (Coherent s ↔ LastOfAll s.log) := by
  have hruns : (run System.step (System.new : System String String Nat)
      (twoCalls "first" "second" "startup" "file" ++ stored 0 ++ stored 1)).map (fun s ↦
        (s.calls.all fun c ↦ decide (c.point = .returned), s.calls.length)) = some (true, 2) := by
    decide +kernel
  obtain ⟨s, hrun, hread⟩ := Option.map_eq_some_iff.1 hruns
  obtain ⟨hall, hcalls⟩ := Prod.mk.inj hread
  have hne : s.calls ≠ [] := by
    intro hnil
    rw [hnil] at hcalls
    cases hcalls
  exact ⟨s, hrun, coherent_iff hrun (quiet_of_all hall) hne⟩

/-- **The metadata of another install, for good.** The store that swaps last publishes first. -/
theorem not_coherent_of_overlap :
    let turns : List (Turn String String Nat) :=
      twoCalls "first" "second" "startup" "file" ++ steps 0 0 2 ++ steps 1 1 9 ++ steps 0 2 7
    ∃ s : System String String Nat, run System.step System.new turns = some s ∧ s.Quiet ∧
      s.calls ≠ [] ∧ s.cell.load = some ⟨1, "second"⟩ ∧
        s.cell.status = ⟨2, some 2, some "startup", 0⟩ ∧ ¬ Coherent s := by
  intro turns
  have hruns : (run System.step (System.new : System String String Nat) turns).map (fun s ↦
      (s.calls.all fun c ↦ decide (c.point = .returned), s.calls.length, s.cell.load,
        s.cell.meta_.map Arc.owner)) = some (true, 2, some ⟨1, "second"⟩, some 0) := by
    decide +kernel
  have hreports : (run System.step (System.new : System String String Nat) turns).map
      (fun s ↦ s.cell.status) = some ⟨2, some 2, some "startup", 0⟩ := by
    decide +kernel
  obtain ⟨s, hrun, hread⟩ := Option.map_eq_some_iff.1 hruns
  simp only [Prod.mk.injEq] at hread
  obtain ⟨hall, hlength, hload, howners⟩ := hread
  rw [hrun] at hreports
  have hstatus := Option.some.inj hreports
  have hne : s.calls ≠ [] := by
    intro hnil
    rw [hnil] at hlength
    cases hlength
  refine ⟨s, hrun, quiet_of_all hall, hne, hload, hstatus, ?_⟩
  rintro ⟨i, c, hat⟩
  have hinstalled := Option.some.inj (hload.symm.trans hat.load)
  have hi : i = 1 := (congrArg Arc.owner hinstalled).symm
  rw [hat.meta_, hi, Option.map_map] at howners
  obtain ⟨m, -, howner⟩ := Option.map_eq_some_iff.1 howners
  cases howner

end DynamicConfig.Cell
