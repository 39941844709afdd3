import Mathlib.Data.Nat.Notation
import Mathlib.Order.Defs.Unbundled
import Mathlib.Tactic.SplitIfs

/-!
# A cell that is replaced by comparison

A cell holds a value that is read, copied and replaced: whoever replaces it gives back what it has read,
and the replacement is made only where the cell has not been replaced since. The versions stand for
that comparison. A pointer that is kept is not given out again, so it is the one that was read just
where the version is.

`Loaded` is what a copy says of the cell for as long as it is kept, where replacements only go up in an
order. `swap_eq_ok_iff` is what a comparison that succeeds has replaced.
-/

namespace Transition

variable {α : Type*}

/-- A value, and how often it was replaced. -/
structure Versioned (α : Type*) where
  version : ℕ
  value : α

namespace Versioned

/-- The cell with another value in it. -/
def install (cell : Versioned α) (new : α) : Versioned α := ⟨cell.version + 1, new⟩

/-- Replace what was seen by what it becomes, or see what is there by now. -/
def swap (cell seen : Versioned α) (become : α → α) : Except (Versioned α) (Versioned α) :=
  if seen.version = cell.version then .ok (cell.install (become seen.value)) else .error cell

/-- A copy that was read of a cell: while no one has replaced it the two are the same, and what it holds
comes before what the cell holds. -/
structure Loaded (r : α → α → Prop) (seen cell : Versioned α) : Prop where
  le : seen.version ≤ cell.version
  same : seen.version = cell.version → seen.value = cell.value
  before : r seen.value cell.value

variable {r : α → α → Prop} {seen cell cell' : Versioned α} {become : α → α} {new : α}

theorem Loaded.refl [Std.Refl r] (cell : Versioned α) : Loaded r cell cell :=
  ⟨Nat.le_refl _, fun _ ↦ rfl, Std.Refl.refl cell.value⟩

/-- **A copy stays one** when the cell is replaced by something above. -/
theorem Loaded.install [IsTrans α r] (h : Loaded r seen cell) (hup : r cell.value new) :
    Loaded r seen (cell.install new) := by
  refine ⟨?_, fun heq ↦ ?_, IsTrans.trans _ _ _ h.before hup⟩
  · have hle := h.le
    show seen.version ≤ cell.version + 1
    omega
  · have hle := h.le
    have hnext : seen.version = cell.version + 1 := heq
    omega

/-- **A comparison that succeeds replaces what is there now**, though it was read before. -/
theorem Loaded.swap_eq_ok_iff (h : Loaded r seen cell) :
    cell.swap seen become = .ok cell' ↔
      seen.version = cell.version ∧ cell' = cell.install (become cell.value) := by
  rw [swap]
  split_ifs with heq
  · rw [h.same heq]
    exact ⟨fun hok ↦ ⟨heq, (Except.ok.inj hok).symm⟩, fun hnew ↦ congrArg Except.ok hnew.2.symm⟩
  · exact iff_of_false (fun hok ↦ by cases hok) fun hnew ↦ heq hnew.1

/-- One that fails has seen what is there. -/
theorem swap_eq_error {found : Versioned α} (h : cell.swap seen become = .error found) :
    found = cell := by
  rw [swap] at h
  split_ifs at h
  exact (Except.error.inj h).symm

end Versioned

end Transition
