import Mathlib.Logic.Function.Basic

/-!
# Entries in directories

A disk holds at most one entry at a place: a file with its bytes, a directory, or a link. Programs
change it through a few calls, each of which the system carries out whole or refuses. Here they are
partial functions: nothing comes back where the entries alone make the system refuse.

Two places are involved where a file is written beside the one it is to replace, and `Holding` is all
that ever happens to the rest of the disk: one entry is new, and every other is as it was. Taking it
away again is the disk as it was (`Holding.remove`), and moving it onto another place is that place
replaced and nothing else (`Holding.rename`).
-/

namespace Files

/-- What stands at a place. -/
inductive Entry
  /-- A file, with the mode it was asked to be created with. -/
  | file (mode : Nat) (bytes : List UInt8)
  | directory
  | link (target : List Char)
  deriving DecidableEq, Repr

variable {ι : Type*}

/-- The entries, by place. -/
abbrev Disk (ι : Type*) := ι → Option Entry

variable [DecidableEq ι] {before disk : Disk ι} {i j : ι} {mode : Nat} {bytes more : List UInt8}

/-! ### The calls -/

/-- Opens a place for writing, creating a file there. A place that is taken, be it by a link that
leads nowhere, is refused. -/
def Disk.createNew (disk : Disk ι) (i : ι) (mode : Nat) : Option (Disk ι) :=
  if disk i = none then some (Function.update disk i (some (.file mode []))) else none

/-- Writes bytes behind those a file holds. -/
def Disk.append (disk : Disk ι) (i : ι) (bytes : List UInt8) : Option (Disk ι) :=
  match disk i with
  | some (.file mode written) => some (Function.update disk i (some (.file mode (written ++ bytes))))
  | _ => none

/-- Moves a file onto another place, whatever file or link is there. A directory is not replaced. -/
def Disk.rename (disk : Disk ι) (i j : ι) : Option (Disk ι) :=
  match disk i with
  | some (.file mode bytes) =>
    if disk j = some .directory then none
    else some (Function.update (Function.update disk i none) j (some (.file mode bytes)))
  | _ => none

/-- Takes the entry at a place away. -/
def Disk.remove (disk : Disk ι) (i : ι) : Disk ι :=
  Function.update disk i none

/-! ### One new file -/

/-- A disk with a file where there was nothing, and otherwise as it was. -/
structure Holding (before : Disk ι) (i : ι) (mode : Nat) (bytes : List UInt8) (disk : Disk ι) :
    Prop where
  fresh : before i = none
  eq : disk = Function.update before i (some (.file mode bytes))

theorem holding_of_createNew (h : before.createNew i mode = some disk) :
    Holding before i mode [] disk := by
  rw [Disk.createNew] at h
  split at h
  · next hfresh => exact ⟨hfresh, (Option.some.inj h).symm⟩
  · cases h

theorem Holding.self (h : Holding before i mode bytes disk) : disk i = some (.file mode bytes) := by
  rw [h.eq, Function.update_self]

/-- What was there before is as it was. -/
theorem Holding.of_ne_none (h : Holding before i mode bytes disk) (hj : before j ≠ none) :
    disk j = before j := by
  have hne : j ≠ i := by
    rintro rfl
    exact hj h.fresh
  rw [h.eq, Function.update_of_ne hne]

theorem Holding.of_ne (h : Holding before i mode bytes disk) (hj : j ≠ i) : disk j = before j := by
  rw [h.eq, Function.update_of_ne hj]

theorem Holding.append (h : Holding before i mode bytes disk) {disk' : Disk ι}
    (happend : disk.append i more = some disk') : Holding before i mode (bytes ++ more) disk' := by
  rw [Disk.append, h.self] at happend
  refine ⟨h.fresh, ?_⟩
  rw [← Option.some.inj happend, h.eq, Function.update_idem]

/-- Taken away again, the new file leaves the disk as it was. -/
theorem Holding.remove (h : Holding before i mode bytes disk) : disk.remove i = before := by
  rw [Disk.remove, h.eq, Function.update_idem, ← h.fresh, Function.update_eq_self]

/-- Moved onto another place, the new file is there, and otherwise the disk is as it was. -/
theorem Holding.rename (h : Holding before i mode bytes disk) {disk' : Disk ι}
    (hrename : disk.rename i j = some disk') :
    disk' = Function.update before j (some (.file mode bytes)) := by
  rw [Disk.rename, h.self] at hrename
  dsimp only at hrename
  split at hrename
  · cases hrename
  · have hremoved : Function.update disk i none = before := h.remove
    rw [hremoved] at hrename
    exact (Option.some.inj hrename).symm

end Files
