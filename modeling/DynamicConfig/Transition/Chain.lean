import Mathlib.Data.List.Perm.Subperm
import Mathlib.Logic.Relation

/-!
# Chains of links

A partial function links its arguments to its values, and following the links from anywhere gives a
chain. Without a cycle a chain comes to an end, and visits nothing twice on the way, so it is no
longer than there are links.

Replacing one link closes a cycle exactly if the new chain leads back to where it starts
(`acyclic_relink_iff`): whatever was linked from there before is not part of it.
-/

namespace Transition

open Relation

variable {α : Type*} {f : α → Option α} {a b x y : α}

/-- One link. -/
def Leads (f : α → Option α) (x y : α) : Prop := f x = some y

/-- No chain comes back to where it started. -/
def Acyclic (f : α → Option α) : Prop := ∀ x, ¬ TransGen (Leads f) x x

/-- Without links there are no cycles. -/
theorem acyclic_of_eq_none (h : ∀ x, f x = none) : Acyclic f := by
  intro x hcycle
  obtain ⟨y, hlead, -⟩ := TransGen.head'_iff.1 hcycle
  rw [Leads, h x] at hlead
  cases hlead

/-- A chain goes on where its first link leads. -/
theorem transGen_iff_of_leads (h : f x = some y) {z : α} :
    TransGen (Leads f) x z ↔ y = z ∨ TransGen (Leads f) y z := by
  constructor
  · intro hchain
    obtain ⟨w, hlead, hrest⟩ := TransGen.head'_iff.1 hchain
    obtain rfl : y = w := Option.some.inj (h.symm.trans hlead)
    exact (reflTransGen_iff_eq_or_transGen.1 hrest).imp_left Eq.symm
  · rintro (rfl | hrest)
    · exact TransGen.single h
    · exact TransGen.head h hrest

theorem not_transGen_of_eq_none (h : f x = none) {z : α} : ¬ TransGen (Leads f) x z := by
  intro hchain
  obtain ⟨y, hlead, -⟩ := TransGen.head'_iff.1 hchain
  rw [Leads, h] at hlead
  cases hlead

/-- **A chain without a cycle is no longer than there are links.** -/
theorem length_lt_of_acyclic (hacyclic : Acyclic f) {domain seen : List α} {cursor : α}
    (hnodup : seen.Nodup) (hseen : ∀ s ∈ seen, s ∈ domain ∧ TransGen (Leads f) s cursor)
    (hcursor : cursor ∈ domain) : seen.length < domain.length := by
  have hnew : cursor ∉ seen := fun hmem ↦ hacyclic cursor (hseen cursor hmem).2
  have hall : (cursor :: seen).Nodup := List.nodup_cons.2 ⟨hnew, hnodup⟩
  have hsubset : cursor :: seen ⊆ domain := by
    intro s hs
    rcases List.mem_cons.1 hs with rfl | hs
    · exact hcursor
    · exact (hseen s hs).1
  have hlength := (List.subperm_of_subset hall hsubset).length_le
  rw [List.length_cons] at hlength
  omega

section Relink

variable [DecidableEq α]

/-- The links with one of them replaced, or added. -/
def relink (f : α → Option α) (a b : α) (x : α) : Option α :=
  if x = a then some b else f x

theorem leads_relink_self : Leads (relink f a b) a b := by
  rw [Leads, relink, if_pos rfl]

/-- A chain of the new links is one of the old ones, or goes through the new link. -/
theorem transGen_relink (h : TransGen (Leads (relink f a b)) x y) :
    TransGen (Leads f) x y ∨ (ReflTransGen (Leads f) x a ∧ ReflTransGen (Leads f) b y) := by
  have hlink : ∀ {u v}, Leads (relink f a b) u v → (u = a ∧ v = b) ∨ Leads f u v := by
    intro u v hlead
    rw [Leads, relink] at hlead
    split at hlead
    · next hu => exact Or.inl ⟨hu, (Option.some.inj hlead).symm⟩
    · exact Or.inr hlead
  induction h with
  | single hlead =>
    rcases hlink hlead with ⟨rfl, rfl⟩ | hlead
    · exact Or.inr ⟨ReflTransGen.refl, ReflTransGen.refl⟩
    · exact Or.inl (TransGen.single hlead)
  | tail _ hlead ih =>
    rcases hlink hlead with ⟨rfl, rfl⟩ | hlead
    · exact Or.inr ⟨ih.elim TransGen.to_reflTransGen And.left, ReflTransGen.refl⟩
    · exact ih.imp (fun hchain ↦ hchain.tail hlead) fun h ↦ ⟨h.1, h.2.tail hlead⟩

/-- A chain that comes to where the new link starts does not need what was linked from there. -/
theorem reflTransGen_relink (h : ReflTransGen (Leads f) x a) :
    ReflTransGen (Leads (relink f a b)) x a := by
  induction h using ReflTransGen.head_induction_on with
  | refl => exact ReflTransGen.refl
  | @head u v hlead _ ih =>
    by_cases hu : u = a
    · rw [hu]
    · refine ReflTransGen.head ?_ ih
      rw [Leads, relink, if_neg hu]
      exact hlead

/-- **A new link closes a cycle** exactly if its chain leads back to where it starts. -/
theorem acyclic_relink_iff (h : Acyclic f) :
    Acyclic (relink f a b) ↔ ¬ ReflTransGen (Leads f) b a := by
  constructor
  · intro hacyclic hback
    exact hacyclic a (TransGen.head' leads_relink_self (reflTransGen_relink hback))
  · intro hno x hcycle
    rcases transGen_relink hcycle with hold | ⟨hto, hfrom⟩
    · exact h x hold
    · exact hno (hfrom.trans hto)

end Relink

end Transition
