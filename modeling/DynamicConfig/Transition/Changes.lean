import Mathlib.Data.List.Destutter

/-!
# The changes of what is observed

An observer compares what it sees with what it saw last, and takes note where it is another. What it has
taken note of is the sequence of its observations without the repetitions: `List.destutter`, by a value
that each observation has. `changes_concat` is one more observation.

Where the observations are stamped, in order, and one stamp stands for one value, two changes have
different stamps (`pairwise_changes`). So there are no more changes than the stamps have room for
(`length_add_le`).
-/

namespace Changes

variable {α β : Type*} [DecidableEq β] (f : α → β)

/-- Two observations of different values. -/
def Differ (a b : α) : Prop := f a ≠ f b

instance : DecidableRel (Differ f) := fun a b ↦ inferInstanceAs (Decidable (f a ≠ f b))

/-- The observations of another value than the one before, and the first. -/
def changes (seen : List α) : List α := seen.destutter (Differ f)

theorem destutter'_concat (a : α) (seen : List α) (x : α) :
    (seen ++ [x]).destutter' (Differ f) a = seen.destutter' (Differ f) a ++
      if (a :: seen).getLast?.map f = some (f x) then [] else [x] := by
  induction seen generalizing a with
  | nil =>
    by_cases h : f a = f x
    · simp [Differ, h]
    · simp [Differ, h]
  | cons b seen ih =>
    by_cases h : f a = f b
    · have hlast : (a :: b :: seen).getLast?.map f = (a :: seen).getLast?.map f := by
        cases seen with
        | nil => simp [h]
        | cons c seen => simp
      rw [hlast, List.cons_append, List.destutter'_cons_neg _ (not_not.2 h),
        List.destutter'_cons_neg _ (not_not.2 h), ih]
    · rw [List.getLast?_cons_cons, List.cons_append, List.destutter'_cons_pos _ h,
        List.destutter'_cons_pos _ h, ih, List.cons_append]

/-- **One more observation** is a change exactly where it is of another value than the last. -/
theorem changes_concat (seen : List α) (x : α) :
    changes f (seen ++ [x]) =
      changes f seen ++ if seen.getLast?.map f = some (f x) then [] else [x] := by
  cases seen with
  | nil => simp [changes]
  | cons a seen => exact destutter'_concat f a seen x

/-- The last change is to the value that was last seen. -/
theorem getLast?_changes (seen : List α) :
    (changes f seen).getLast?.map f = seen.getLast?.map f := by
  induction seen using List.reverseRecOn with
  | nil => rfl
  | append_singleton seen x ih =>
    rw [changes_concat, List.getLast?_concat]
    by_cases h : seen.getLast?.map f = some (f x)
    · rw [if_pos h, List.append_nil, ih, h]
      rfl
    · rw [if_neg h, List.getLast?_concat]

variable {f}

/-- **Two changes have different stamps**, where one stamp stands for one value. -/
theorem pairwise_changes {stamp : α → ℕ} {seen : List α}
    (hordered : seen.Pairwise fun a b ↦ stamp a ≤ stamp b)
    (hsame : ∀ a ∈ seen, ∀ b ∈ seen, stamp a = stamp b → f a = f b) :
    (changes f seen).Pairwise fun a b ↦ stamp a < stamp b := by
  have hsub : List.Sublist (changes f seen) seen := List.destutter_sublist _ _
  have hle : (changes f seen).Pairwise fun a b ↦ stamp a ≤ stamp b := hordered.sublist hsub
  have hchain : (changes f seen).IsChain (Differ f) := List.isChain_destutter _ _
  have hstamps : ∀ kept : List α, List.Sublist kept seen →
      kept.Pairwise (fun a b ↦ stamp a ≤ stamp b) → kept.IsChain (Differ f) →
        kept.Pairwise fun a b ↦ stamp a < stamp b := by
    intro kept
    induction kept with
    | nil =>
      intro _ _ _
      exact List.Pairwise.nil
    | cons a kept ih =>
      intro hkept hle hchain
      have hrest := ih (List.Sublist.trans (List.sublist_cons_self a kept) hkept) hle.of_cons hchain.tail
      refine List.Pairwise.cons (fun b hb ↦ ?_) hrest
      cases kept with
      | nil => exact absurd hb List.not_mem_nil
      | cons c kept =>
        have hac : stamp a < stamp c := by
          refine Nat.lt_of_le_of_ne (List.rel_of_pairwise_cons hle List.mem_cons_self) fun heq ↦ ?_
          exact (List.isChain_cons_cons.1 hchain).1 (hsame a (hkept.subset List.mem_cons_self) c
            (hkept.subset (List.mem_cons_of_mem a List.mem_cons_self)) heq)
        cases hb with
        | head => exact hac
        | tail _ hb => exact Nat.lt_trans hac (List.rel_of_pairwise_cons hrest hb)
  exact hstamps _ hsub hle hchain

omit [DecidableEq β] in
/-- What is strictly ordered by its stamps has no more elements than there are stamps. -/
theorem length_add_le {stamp : α → ℕ} {a : α} {kept : List α} {n : ℕ}
    (hordered : (a :: kept).Pairwise fun x y ↦ stamp x < stamp y) (hle : ∀ x ∈ a :: kept, stamp x ≤ n) :
    stamp a + kept.length ≤ n := by
  induction kept generalizing a with
  | nil => exact hle a List.mem_cons_self
  | cons b kept ih =>
    have hab : stamp a < stamp b := List.rel_of_pairwise_cons hordered List.mem_cons_self
    have hrest := ih hordered.of_cons fun x hx ↦ hle x (List.mem_cons_of_mem a hx)
    rw [List.length_cons]
    omega

end Changes
