import DynamicConfig.Loader.AliasesPass

/-!
# The rounds of the alias pass

The pass keeps a record of its firings that only grows. Every entry of the record was offered at one
visit of one round (`exists_offer_of_mem_afterRounds`), and what is offered at a visit is in the record
from then on (`mem_fills_of_offer`).

From the two follows which of several aliases with one destination fires: the first in path order
exactly when it has something to offer when its turn comes, in one of the rounds
(`first_source_iff`). It need not be the first in path order, and it need not be one that had
anything to offer before the pass.
-/

namespace DynamicConfig

section Rounds

variable {Fig : Type} [Figment Fig]

/-! ### One visit -/

/-- What an alias would fill if it were visited now. -/
def Pass.offer (key : String) (pass : Pass Fig) (pair : String × String) : Option Fill :=
  if pair.2 ∈ pass.filled ∨
      suppliedAboveDefaults (Figment.select pass.figment (sectionProfile key)) pair.2 = true then
    none
  else foundAt pass.figment key pair.1 pair.2

theorem Pass.visit_eq (key : String) (pass : Pass Fig) (pair : String × String) :
    (pass.offer key pair = none ∧ pass.visit key pair = pass) ∨
      ∃ f, pass.offer key pair = some f ∧ pass.visit key pair =
        { figment := fill key pass.figment f, fills := pass.fills ++ [f], progressed := true } := by
  rw [Pass.offer, Pass.visit]
  by_cases hfilled : pair.2 ∈ pass.filled
  · rw [if_pos (Or.inl hfilled), if_pos hfilled]
    exact Or.inl ⟨rfl, rfl⟩
  · rw [if_neg hfilled]
    by_cases hsupplied :
        suppliedAboveDefaults (Figment.select pass.figment (sectionProfile key)) pair.2 = true
    · rw [if_pos (Or.inr hsupplied), if_pos hsupplied]
      exact Or.inl ⟨rfl, rfl⟩
    · rw [if_neg hsupplied, if_neg (not_or.2 ⟨hfilled, hsupplied⟩)]
      rcases foundAt pass.figment key pair.1 pair.2 with - | f
      · exact Or.inl ⟨rfl, rfl⟩
      · exact Or.inr ⟨f, rfl, rfl⟩

theorem Pass.offer_eq_some {key : String} {pass : Pass Fig} {pair : String × String} {f : Fill}
    (h : pass.offer key pair = some f) : f.source = pair.1 ∧ f.destination = pair.2 := by
  rw [Pass.offer] at h
  split at h
  · cases h
  · exact foundAt_eq_some h

/-! ### The record only grows -/

theorem Pass.fills_prefix_visit (key : String) (pass : Pass Fig) (pair : String × String) :
    pass.fills <+: (pass.visit key pair).fills := by
  rcases pass.visit_eq key pair with ⟨-, hstay⟩ | ⟨f, -, hfire⟩
  · have hfills : (pass.visit key pair).fills = pass.fills := congrArg Pass.fills hstay
    exact hfills ▸ List.prefix_refl _
  · rw [hfire]
    exact List.prefix_append _ _

theorem Pass.fills_prefix_foldl (key : String) (visits : List (String × String))
    (pass : Pass Fig) : pass.fills <+: (visits.foldl (Pass.visit key) pass).fills := by
  induction visits generalizing pass with
  | nil => exact List.prefix_refl _
  | cons pair visits ih => exact (pass.fills_prefix_visit key pair).trans (ih _)

theorem Pass.fills_prefix_rounds (key : String) (pairs : List (String × String)) (fuel : Nat)
    (pass : Pass Fig) : pass.fills <+: (pass.rounds key pairs fuel).fills := by
  induction fuel generalizing pass with
  | zero => exact List.prefix_refl _
  | succ fuel ih =>
    rw [Pass.rounds]
    split
    · exact (Pass.fills_prefix_foldl key pairs { pass with progressed := false }).trans (ih _)
    · exact List.prefix_refl _

/-! ### Turns -/

/-- The state in which a round comes to an alias: those before it have been visited. -/
def Pass.turn (key : String) (earlier : List (String × String)) (pass : Pass Fig) : Pass Fig :=
  earlier.foldl (Pass.visit key) { pass with progressed := false }

/-- The pass after some rounds, at most. -/
def afterRounds (key : String) (pairs : List (String × String)) (figment : Fig) (rounds : Nat) :
    Pass Fig :=
  Pass.rounds key pairs rounds { figment, fills := [], progressed := true }

/-- Every entry of the record that some visits leave was there, or was offered at one of them. -/
theorem Pass.exists_offer_of_mem_foldl {key : String} {visits : List (String × String)}
    {pass : Pass Fig} {f : Fill} (h : f ∈ (visits.foldl (Pass.visit key) pass).fills) :
    f ∈ pass.fills ∨ ∃ earlier pair later, visits = earlier ++ pair :: later ∧
      (earlier.foldl (Pass.visit key) pass).offer key pair = some f := by
  induction visits generalizing pass with
  | nil => exact Or.inl h
  | cons pair visits ih =>
    rw [List.foldl_cons] at h
    rcases ih h with hvisit | ⟨earlier, e, later, rfl, hoffer⟩
    · rcases pass.visit_eq key pair with ⟨-, hstay⟩ | ⟨g, hoffer, hfire⟩
      · rw [hstay] at hvisit
        exact Or.inl hvisit
      · rw [hfire, List.mem_append, List.mem_singleton] at hvisit
        rcases hvisit with hvisit | rfl
        · exact Or.inl hvisit
        · exact Or.inr ⟨[], pair, visits, rfl, hoffer⟩
    · exact Or.inr ⟨pair :: earlier, e, later, rfl, hoffer⟩

/-- One round more. -/
theorem afterRounds_succ (key : String) (pairs : List (String × String)) (figment : Fig) (n : Nat) :
    afterRounds key pairs figment (n + 1) =
      if (afterRounds key pairs figment n).progressed then
        (afterRounds key pairs figment n).round key pairs
      else afterRounds key pairs figment n := by
  rw [afterRounds, Pass.rounds_add]
  rfl

/-- Every entry of the record was offered at one visit of one round. -/
theorem exists_offer_of_mem_afterRounds {key : String} {pairs : List (String × String)} {figment : Fig}
    {n : Nat} {f : Fill} (h : f ∈ (afterRounds key pairs figment n).fills) :
    ∃ m, (afterRounds key pairs figment m).progressed = true ∧ ∃ earlier pair later,
      pairs = earlier ++ pair :: later ∧
        ((afterRounds key pairs figment m).turn key earlier).offer key pair = some f := by
  induction n with
  | zero => exact absurd h List.not_mem_nil
  | succ n ih =>
    rw [afterRounds_succ] at h
    split at h
    · next hprogressed =>
      rcases Pass.exists_offer_of_mem_foldl h with hbefore | hoffer
      · exact ih hbefore
      · exact ⟨n, hprogressed, hoffer⟩
    · exact ih h

/-- What is offered at a visit of a round is in the record when the pass ends. -/
theorem mem_fills_of_offer {key : String} {pairs : List (String × String)} {figment : Fig} {n : Nat}
    (hprogressed : (afterRounds key pairs figment n).progressed = true)
    {earlier later : List (String × String)} {pair : String × String}
    (hpairs : pairs = earlier ++ pair :: later) {f : Fill}
    (hoffer : ((afterRounds key pairs figment n).turn key earlier).offer key pair = some f) :
    f ∈ (aliasPass key pairs figment).fills := by
  have hround : f ∈ (afterRounds key pairs figment (n + 1)).fills := by
    have hvisit : f ∈ (((afterRounds key pairs figment n).turn key earlier).visit key pair).fills := by
      rcases Pass.visit_eq key ((afterRounds key pairs figment n).turn key earlier) pair with
        ⟨hnone, -⟩ | ⟨g, hsome, hfire⟩
      · rw [hoffer] at hnone
        cases hnone
      · rw [hoffer] at hsome
        obtain rfl := Option.some.inj hsome
        rw [hfire]
        exact List.mem_append_right _ (List.mem_singleton_self _)
    have hfold : (afterRounds key pairs figment n).round key pairs =
        later.foldl (Pass.visit key)
          (((afterRounds key pairs figment n).turn key earlier).visit key pair) := by
      rw [Pass.round, Pass.turn, ← List.foldl_cons, ← List.foldl_append, ← hpairs]
    rw [afterRounds_succ, if_pos hprogressed, hfold]
    exact (Pass.fills_prefix_foldl key later _).subset hvisit
  -- More rounds than the pass has change nothing, and they keep what was offered.
  have hend := (progressed_aliasPass key pairs figment).2 (n + 1 + (pairs.length + 1)) (by omega)
  rw [Pass.rounds_add] at hend
  rw [← hend]
  exact (Pass.fills_prefix_rounds key pairs (pairs.length + 1) _).subset hround

/-! ### Which alias fires -/

/-- In one of the rounds, the first alias in path order with a destination has something to fill it
with when its turn comes. -/
def FirstOffers (key : String) (pairs : List (String × String)) (figment : Fig)
    (destination : String) : Prop :=
  ∃ n, (afterRounds key pairs figment n).progressed = true ∧ ∃ earlier source later,
    pairs = earlier ++ (source, destination) :: later ∧
      destination ∉ earlier.map Prod.snd ∧
        (((afterRounds key pairs figment n).turn key earlier).offer key (source, destination)).isSome

omit [Figment Fig] in
/-- The first alias with a destination. -/
theorem find_destination {pairs earlier later : List (String × String)}
    {source destination : String} (hpairs : pairs = earlier ++ (source, destination) :: later)
    (hearlier : destination ∉ earlier.map Prod.snd) :
    pairs.find? (fun pair ↦ decide (pair.2 = destination)) = some (source, destination) := by
  have hnone : earlier.find? (fun pair ↦ decide (pair.2 = destination)) = none := by
    refine List.find?_eq_none.2 fun pair hpair hdest ↦ hearlier ?_
    exact of_decide_eq_true hdest ▸ List.mem_map_of_mem hpair
  rw [hpairs, List.find?_append, hnone, Option.none_or, List.find?_cons, decide_eq_true rfl]

/-- **Which alias fires.** An alias that fired is the first in path order with a destination exactly
when that is its destination, and in one of the rounds the first has something to offer when its turn
comes. -/
theorem first_source_iff {key : String} {pairs : List (String × String)}
    (hsources : (pairs.map Prod.fst).Nodup) {figment : Fig} {f : Fill}
    (hf : f ∈ (aliasPass key pairs figment).fills) (destination : String) :
    (pairs.find? fun pair ↦ decide (pair.2 = destination)).map Prod.fst = some f.source ↔
      f.destination = destination ∧ FirstOffers key pairs figment destination := by
  constructor
  · intro h
    obtain ⟨first, hfirst, hsource⟩ := Option.map_eq_some_iff.1 h
    obtain ⟨n, hprogressed, earlier, pair, later, hpairs, hoffer⟩ := exists_offer_of_mem_afterRounds hf
    obtain ⟨hs, hd⟩ := Pass.offer_eq_some hoffer
    have hpair : pair ∈ pairs := hpairs ▸ List.mem_append_right _ List.mem_cons_self
    -- Old paths are distinct, so the alias that fired is the first one.
    have hsame : pair = first := by
      refine List.inj_on_of_nodup_map hsources hpair (List.mem_of_find?_eq_some hfirst) ?_
      rw [← hs, hsource]
    have hdest : pair.2 = destination := by
      have hdecide := List.find?_some hfirst
      rw [hsame]
      exact of_decide_eq_true hdecide
    refine ⟨hd.trans hdest, n, hprogressed, earlier, pair.1, later, ?_, ?_, ?_⟩
    · rw [hpairs, ← hdest]
    · intro hmem
      obtain ⟨e, he, hedest⟩ := List.mem_map.1 hmem
      have hfound : (earlier.find? fun pair ↦ decide (pair.2 = destination)).isSome :=
        List.find?_isSome.2 ⟨e, he, decide_eq_true hedest⟩
      obtain ⟨g, hg⟩ := Option.isSome_iff_exists.1 hfound
      rw [hpairs, List.find?_append, hg, Option.some_or, ← hsame] at hfirst
      obtain rfl := Option.some.inj hfirst
      rw [hpairs, List.map_append, List.map_cons] at hsources
      exact (List.nodup_append.1 hsources).2.2 g.1
        (List.mem_map_of_mem (List.mem_of_find?_eq_some hg)) g.1 List.mem_cons_self rfl
    · rw [← hdest, hoffer]
      rfl
  · rintro ⟨hdest, n, hprogressed, earlier, source, later, hpairs, hearlier, hoffer⟩
    obtain ⟨g, hg⟩ := Option.isSome_iff_exists.1 hoffer
    obtain ⟨hgs, hgd⟩ := Pass.offer_eq_some hg
    have hmem := mem_fills_of_offer hprogressed hpairs hg
    have hsame : f = g :=
      List.inj_on_of_nodup_map (aliasPass_fills key pairs figment).nodup hf hmem
        (hdest.trans hgd.symm)
    rw [find_destination hpairs hearlier, Option.map_some, hsame, hgs]

end Rounds

end DynamicConfig
