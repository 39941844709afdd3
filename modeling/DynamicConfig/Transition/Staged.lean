import Mathlib.Data.List.Basic

/-!
# Operations that can be cut short

An operation on something that outlives the program takes it through stages, one for each change. It
comes to an end, or fails on the way, but the program may also stop at any stage and never return, so
the stages are part of what the operation does. One operation goes on after another unless that one
failed (`andThen`), and what all of both keep, the two keep (`All.andThen`).
-/

namespace Transition

variable {σ ε : Type*}

/-- What an operation does: the states after each change, the last state, and why it failed if it
did. -/
structure Staged (σ ε : Type*) where
  stages : List σ
  final : σ
  failed : Option ε

namespace Staged

/-- Nothing changes. -/
def done (s : σ) : Staged σ ε := ⟨[], s, none⟩

/-- It fails where it is. -/
def fail (s : σ) (e : ε) : Staged σ ε := ⟨[], s, some e⟩

/-- One operation, and then another unless it failed. -/
def andThen (t : Staged σ ε) (f : σ → Staged σ ε) : Staged σ ε :=
  match t.failed with
  | some _ => t
  | none => ⟨t.stages ++ (f t.final).stages, (f t.final).final, (f t.final).failed⟩

/-- The states the operation can be cut short in: the one it begins in, and its stages. -/
def points (s : σ) (t : Staged σ ε) : List σ := s :: t.stages

theorem andThen_of_failed {t : Staged σ ε} {e : ε} (h : t.failed = some e) (f : σ → Staged σ ε) :
    t.andThen f = t := by
  rw [andThen, h]

theorem failed_andThen {t : Staged σ ε} (h : t.failed = none) (f : σ → Staged σ ε) :
    (t.andThen f).failed = (f t.final).failed := by
  rw [andThen, h]

theorem final_andThen {t : Staged σ ε} (h : t.failed = none) (f : σ → Staged σ ε) :
    (t.andThen f).final = (f t.final).final := by
  rw [andThen, h]

/-- Something holds at every stage and in the end. -/
def All (P : σ → Prop) (t : Staged σ ε) : Prop := (∀ s ∈ t.stages, P s) ∧ P t.final

theorem all_done {P : σ → Prop} {s : σ} (h : P s) : All P (done s : Staged σ ε) :=
  ⟨fun _ hmem ↦ absurd hmem List.not_mem_nil, h⟩

theorem all_fail {P : σ → Prop} {s : σ} {e : ε} (h : P s) : All P (fail s e) :=
  ⟨fun _ hmem ↦ absurd hmem List.not_mem_nil, h⟩

/-- **What each of two operations keeps, the one after the other keeps.** -/
theorem All.andThen {P : σ → Prop} {t : Staged σ ε} {f : σ → Staged σ ε} (ht : All P t)
    (hf : ∀ s, P s → All P (f s)) : All P (t.andThen f) := by
  rcases hfailed : t.failed with - | e
  · obtain ⟨hstages, hfinal⟩ := hf t.final ht.2
    rw [Staged.andThen, hfailed]
    refine ⟨fun s hs ↦ ?_, hfinal⟩
    exact (List.mem_append.1 hs).elim (ht.1 s) (hstages s)
  · rw [andThen_of_failed hfailed]
    exact ht

/-- It holds wherever the operation is cut short. -/
theorem All.of_mem_points {P : σ → Prop} {s u : σ} {t : Staged σ ε} (ht : All P t) (hs : P s)
    (hu : u ∈ points s t) : P u := by
  rcases List.mem_cons.1 hu with rfl | hu
  · exact hs
  · exact ht.1 u hu

end Staged

end Transition
