import DynamicConfig.Cache.Redaction
import DynamicConfig.Explain.Agreement
import DynamicConfig.Loader.Rounds
import DynamicConfig.Tree.Similar

/-!
# What an explanation gives away

Two sets of sources that differ only in scalars at some places, each a profile and a position, go
through a load in step: they are merged alike, the same aliases fire, and what comes out differs at the
places the section sees and at those the aliases have carried something to. So an explanation tells the
two apart only at a path that reads such a place, and there it is redacted where the place is at or
below a declared secret (`builderExplain_eq`).

**An alias has two names, and a declaration knows one of them.** A path that reads the old spelling of
a secret shows it (`not_builderExplain_eq_of_old_spelling`).
-/

namespace DynamicConfig

open LabelledTree (SimilarOff)

/-! ### Sources that differ in scalars -/

/-- A leaf with its scalars hidden. -/
def Leaf.blind : Leaf → Leaf
  | .scalar _ => .scalar .empty
  | .array items => .array (List.replicate items.length (.scalar .empty))

theorem Leaf.blind_blind (leaf : Leaf) : leaf.blind.blind = leaf.blind := by
  rcases leaf with s | items
  · rfl
  · rw [blind, blind, List.length_replicate]

/-- Places in the tables of a load. -/
abbrev Places := Profile → List String → Prop

/-- The positions of a section that read one of the places. -/
def Places.seen (D : Places) (key : String) (p : List String) : Prop :=
  D Profile.default p ∨ D (sectionProfile key) p ∨ D Profile.global p

/-- Computations that fail alike, or have results that are related. -/
def Alike {ε α β : Type} (R : α → β → Prop) (x : Except ε α) (y : Except ε β) : Prop :=
  (∃ e, x = .error e ∧ y = .error e) ∨ ∃ a b, x = .ok a ∧ y = .ok b ∧ R a b

theorem Alike.error {ε α β : Type} {R : α → β → Prop} (e : ε) :
    Alike R (.error e) (.error e) := Or.inl ⟨e, rfl, rfl⟩

theorem Alike.ok {ε α β : Type} {R : α → β → Prop} {a : α} {b : β} (h : R a b) :
    Alike R (.ok a : Except ε α) (.ok b) := Or.inr ⟨a, b, rfl, rfl, h⟩

/-- Tables that differ at some places only. -/
def SimilarTables (D : Places) (a b : Tables) : Prop :=
  ∀ p, SimilarOff Leaf.blind (D p) (a p).root (b p).root

/-- Providers that differ at some places only. -/
structure SimilarProviders (D : Places) (a b : Provider) : Prop where
  metadata : a.metadata = b.metadata
  profile : a.profile = b.profile
  data : Alike (fun xs ys ↦ SimilarTables D (fun p ↦ (xs.lookup p).getD [])
    fun p ↦ (ys.lookup p).getD []) a.data b.data

/-- Figments that differ at some places only. -/
structure SimilarStacks (D : Places) (s s' : Stack) : Prop where
  profile : s.profile = s'.profile
  values : Alike (SimilarTables D) s.values s'.values

section Stacks

variable {D : Places} {s s' : Stack}

theorem similarStacks_new : SimilarStacks D Stack.new Stack.new :=
  ⟨rfl, .ok fun _ ↦ rfl⟩

/-- A provider over a figment. -/
theorem SimilarStacks.merge (h : SimilarStacks D s s') {a b : Provider}
    (hab : SimilarProviders D a b) : SimilarStacks D (s.merge a) (s'.merge b) where
  profile := by
    show a.profile.getD s.profile = b.profile.getD s'.profile
    rw [hab.profile, h.profile]
  values := by
    obtain ⟨-, hvalues⟩ := h
    obtain ⟨hmetadata, -, hdata⟩ := hab
    show Alike _ (mergeData s.values a) (mergeData s'.values b)
    rw [mergeData.eq_def, mergeData.eq_def, hmetadata]
    rcases hvalues with ⟨e, hs, hs'⟩ | ⟨old, old', hs, hs', hold⟩
    · rw [hs, hs']
      exact .error e
    · rw [hs, hs']
      rcases hdata with ⟨e, ha, hb⟩ | ⟨new, new', ha, hb, hnew⟩
      · rw [ha, hb]
        exact .error _
      · rw [ha, hb]
        refine .ok fun p ↦ ?_
        rw [Dict.root_mergeTables, Dict.root_mergeTables]
        exact (hold p).merge ((hnew p).mapTagEntries (labelled b.metadata))

theorem SimilarStacks.mergeAll (h : SimilarStacks D s s') {ps qs : List Provider}
    (hps : List.Forall₂ (SimilarProviders D) ps qs) :
    SimilarStacks D (mergeAll s ps) (mergeAll s' qs) := by
  induction hps generalizing s s' with
  | nil => exact h
  | cons hp _ ih => exact ih (h.merge hp)

theorem SimilarStacks.select (h : SimilarStacks D s s') (p : Profile) :
    SimilarStacks D (s.select p) (s'.select p) := ⟨rfl, h.values⟩

/-- What a section finds at a path differs where the section sees a place. -/
theorem SimilarStacks.findValue (h : SimilarStacks D s s') (key : String)
    (hkey : s.profile = sectionProfile key) (path : String) :
    Alike (SimilarOff Leaf.blind fun q ↦ D.seen key (walked path ++ q)) (s.findValue path)
      (s'.findValue path) := by
  obtain ⟨hprofile, hvalues⟩ := h
  rcases hvalues with ⟨e, hs, hs'⟩ | ⟨values, values', hs, hs', hsimilar⟩
  · rw [Stack.findValue_of_error hs, Stack.findValue_of_error hs']
    exact .error e
  · -- The section reads three profiles, and sees the places of all three.
    have hcombined : SimilarOff Leaf.blind (D.seen key)
        (Dict.root (combine (sectionProfile key) values))
        (Dict.root (combine (sectionProfile key) values')) := by
      have hin : ∀ p, (∀ q, D p q → D.seen key q) →
          SimilarOff Leaf.blind (D.seen key) (values p).root (values' p).root := fun p hsub ↦
        (hsimilar p).mono Leaf.blind_blind hsub
      rw [root_combine_sectionProfile, root_combine_sectionProfile]
      exact ((hin _ fun _ hq ↦ Or.inl hq).merge (hin _ fun _ hq ↦ Or.inr (Or.inl hq))).merge
        (hin _ fun _ hq ↦ Or.inr (Or.inr hq))
    rw [Stack.findValue_of_ok hs, Stack.findValue_of_ok hs', ← hprofile, hkey, Dict.find, Dict.find]
    rcases hcombined.get (walked path) with ⟨hnone, hnone'⟩ | ⟨v, w, hv, hw, hvw⟩
    · rw [hnone, hnone']
      exact .error _
    · rw [hv, hw]
      exact .ok hvw

/-- Its supplier is the same. -/
theorem SimilarStacks.findMetadata_eq (h : SimilarStacks D s s') (key : String)
    (hkey : s.profile = sectionProfile key) (path : String) :
    s.findMetadata path = s'.findMetadata path := by
  rw [Stack.findMetadata, Stack.findMetadata]
  rcases h.findValue key hkey path with ⟨e, hv, hw⟩ | ⟨v, w, hv, hw, hvw⟩
  · rw [hv, hw]
  · rw [hv, hw]
    exact hvw.tag_eq

end Stacks

/-! ### The aliases fire alike -/

/-- A firing carries what differs to places that may differ. -/
def Fill.Within (D : Places) (key : String) (f : Fill) : Prop :=
  ∀ q, D.seen ((splitSection f.source).1.getD key) (walked (splitSection f.source).2 ++ q) →
    D (sectionProfile key) (segments f.destination ++ q)

/-- Two states of the pass that differ at some places only. -/
structure SimilarPasses (D : Places) (pass pass' : Pass Stack) : Prop where
  figment : SimilarStacks D pass.figment pass'.figment
  filled : pass.filled = pass'.filled
  progressed : pass.progressed = pass'.progressed

section Aliases

variable {D : Places} {key : String} {s s' : Stack} {pass pass' : Pass Stack}

/-- What an old path leads to. -/
theorem SimilarStacks.foundAt (h : SimilarStacks D s s') (key source destination : String) :
    (foundAt s key source destination = none ∧ foundAt s' key source destination = none) ∨
      ∃ f f', foundAt s key source destination = some f ∧
        foundAt s' key source destination = some f' ∧ f.source = source ∧
          f.destination = destination ∧ f'.destination = destination ∧ f.metadata = f'.metadata ∧
            SimilarOff Leaf.blind (fun q ↦ D.seen ((splitSection source).1.getD key)
              (walked (splitSection source).2 ++ q)) f.value f'.value := by
  have hselected : SimilarStacks D (sourceOf s key source) (sourceOf s' key source) := h.select _
  have hmetadata := hselected.findMetadata_eq ((splitSection source).1.getD key) rfl
    (splitSection source).2
  rcases hselected.findValue ((splitSection source).1.getD key) rfl (splitSection source).2
    with ⟨e, hv, hw⟩ | ⟨v, w, hv, hw, hvw⟩
  · exact Or.inl ⟨foundAt_error hv destination, foundAt_error hw destination⟩
  · exact Or.inr ⟨_, _, foundAt_ok hv destination, foundAt_ok hw destination, rfl, rfl, rfl,
      congrArg (·.getD (Metadata.named (aliasPrefix ++ source))) hmetadata, hvw⟩

/-- A firing that carries what differs to places that may differ. -/
theorem SimilarStacks.fill (h : SimilarStacks D s s') {f f' : Fill}
    (hwithin : f.Within D key) (hdestination : f'.destination = f.destination)
    (hmetadata : f.metadata = f'.metadata)
    (hvalue : SimilarOff Leaf.blind (fun q ↦ D.seen ((splitSection f.source).1.getD key)
      (walked (splitSection f.source).2 ++ q)) f.value f'.value) :
    SimilarStacks D (fill key s f) (fill key s' f') := by
  refine h.merge ⟨hmetadata, rfl, .ok fun p ↦ ?_⟩
  show SimilarOff Leaf.blind (D p)
    (Dict.root ((List.lookup p [(sectionProfile key, insertPath [] f.destination f.value)]).getD []))
    (Dict.root ((List.lookup p [(sectionProfile key, insertPath [] f'.destination f'.value)]).getD []))
  by_cases hp : p = sectionProfile key
  · rw [hp, List.lookup_cons_self, List.lookup_cons_self, hdestination]
    exact hvalue.chain hwithin Leaf.blind_blind
  · have hne : (p == sectionProfile key) = false := beq_false_of_ne hp
    rw [List.lookup_cons, List.lookup_cons, hne]
    exact SimilarOff.refl _

/-- Visiting an alias. -/
theorem SimilarPasses.visit (h : SimilarPasses D pass pass') (pair : String × String)
    (hwithin : ∀ f ∈ (pass.visit key pair).fills, f.Within D key) :
    SimilarPasses D (pass.visit key pair) (pass'.visit key pair) := by
  have hsupplied : suppliedAboveDefaults (Figment.select pass.figment (sectionProfile key)) pair.2 =
      suppliedAboveDefaults (Figment.select pass'.figment (sectionProfile key)) pair.2 := by
    have hmetadata : Figment.findMetadata (Figment.select pass.figment (sectionProfile key)) pair.2 =
        Figment.findMetadata (Figment.select pass'.figment (sectionProfile key)) pair.2 :=
      (h.figment.select (sectionProfile key)).findMetadata_eq key rfl pair.2
    rw [suppliedAboveDefaults, suppliedAboveDefaults, hmetadata]
  rw [Pass.visit] at hwithin ⊢
  rw [Pass.visit, ← h.filled, ← hsupplied]
  split
  · exact h
  · next hfilled =>
    rw [if_neg hfilled] at hwithin
    split
    · exact h
    · next hnot =>
      rw [if_neg hnot] at hwithin
      rcases h.figment.foundAt key pair.1 pair.2 with ⟨hnone, hnone'⟩ |
        ⟨f, f', hf, hf', hsource, hdestination, hdestination', hmetadata, hvalue⟩
      · rw [hnone, hnone']
        exact h
      · rw [hf] at hwithin ⊢
        rw [hf']
        have hlast : f.Within D key := hwithin f (List.mem_append_right _ (List.mem_singleton.2 rfl))
        refine ⟨h.figment.fill hlast (hdestination'.trans hdestination.symm) hmetadata ?_, ?_, rfl⟩
        · rw [hsource]
          exact hvalue
        · show (pass.fills ++ [f]).map Fill.destination = (pass'.fills ++ [f']).map Fill.destination
          have hbefore : pass.fills.map Fill.destination = pass'.fills.map Fill.destination := h.filled
          rw [List.map_append, List.map_append, hbefore, List.map_singleton, List.map_singleton,
            hdestination, hdestination']

theorem SimilarPasses.foldl (h : SimilarPasses D pass pass') (visits : List (String × String))
    (hwithin : ∀ f ∈ (visits.foldl (Pass.visit key) pass).fills, f.Within D key) :
    SimilarPasses D (visits.foldl (Pass.visit key) pass) (visits.foldl (Pass.visit key) pass') := by
  induction visits generalizing pass pass' with
  | nil => exact h
  | cons pair visits ih =>
    -- What has been filled stays in the record.
    exact ih (h.visit pair fun f hf ↦
      hwithin f ((Pass.fills_prefix_foldl key visits _).subset hf)) hwithin

theorem SimilarPasses.rounds (pairs : List (String × String)) (fuel : Nat)
    (h : SimilarPasses D pass pass')
    (hwithin : ∀ f ∈ (pass.rounds key pairs fuel).fills, f.Within D key) :
    SimilarPasses D (pass.rounds key pairs fuel) (pass'.rounds key pairs fuel) := by
  induction fuel generalizing pass pass' with
  | zero => exact h
  | succ fuel ih =>
    rw [Pass.rounds] at hwithin ⊢
    rw [Pass.rounds, ← h.progressed]
    split
    · next hprogressed =>
      rw [if_pos hprogressed] at hwithin
      have hstart : SimilarPasses D { pass with progressed := false }
          { pass' with progressed := false } := ⟨h.figment, h.filled, rfl⟩
      exact ih (hstart.foldl pairs fun f hf ↦
        hwithin f ((Pass.fills_prefix_rounds key pairs fuel _).subset hf)) hwithin
    · exact h

/-- **What a section resolves differs at some places only**, if what differs is carried to no
others. -/
theorem similar_resolvedIn {spec spec' : LoadSpec} {ps qs : List Provider}
    (hkey : spec'.key = spec.key) (haliases : spec'.aliases = spec.aliases)
    (hps : List.Forall₂ (SimilarProviders D) ps qs)
    (hwithin : ∀ f ∈ firings spec ps, f.Within D spec.key) :
    SimilarStacks D (resolvedIn spec ps) (resolvedIn spec' qs) := by
  have hmerged := similarStacks_new.mergeAll hps
  rw [resolvedIn, resolvedIn, applyAliases, applyAliases, hkey, haliases]
  rw [firings] at hwithin
  rcases haliased : spec.aliases with - | aliases
  · exact hmerged.select _
  · rw [haliased] at hwithin
    have hstart : SimilarPasses D ⟨mergeAll Stack.new ps, [], true⟩ ⟨mergeAll Stack.new qs, [], true⟩ :=
      ⟨hmerged, rfl, rfl⟩
    exact (hstart.rounds aliases.pairs (aliases.pairs.length + 1) hwithin).figment.select _

end Aliases

/-! ### The rows -/

/-- A row as it is shown. -/
def Contribution.seenBy (see : String → String) (row : Contribution) : Contribution :=
  { row with value := row.value.map see }

/-- Two builders with the same aliases, whose sources differ in scalars at some places only: the same
variables are set, and the layers merge similar providers. -/
structure DifferOnly (D : Places) (host : Host) (spec : LoadSpec) (host' : Host)
    (spec' : LoadSpec) : Prop where
  key : spec'.key = spec.key
  aliases : spec'.aliases = spec.aliases
  nest : spec'.nest = spec.nest
  vars : ∀ name, (host'.var name).isSome = (host.var name).isSome
  layers : Alike (List.Forall₂ fun l l' ↦ l.1 = l'.1 ∧ List.Forall₂ (SimilarProviders D) l.2 l'.2)
    (layerProviders host spec) (layerProviders host' spec')

section Rows

variable {D : Places} {showFloat : UInt64 → String} {host host' : Host} {spec spec' : LoadSpec}
  {path : String} {see : String → String}

/-- What a value renders to does not tell similar values apart, off their root. -/
theorem render_eq_of_similar {E : List String → Prop} {v w : Node} (h : SimilarOff Leaf.blind E v w)
    (hroot : ¬ E []) : render showFloat v = render showFloat w := by
  have hpeek := h.peek_eq hroot
  rcases v with ⟨s, x⟩ | ⟨s, xs⟩
  · rcases w with ⟨t, y⟩ | ⟨t, ys⟩
    · obtain rfl := Option.some.inj hpeek
      rcases x with x | items
      · rfl
      · rfl
    · cases hpeek
  · rcases w with ⟨t, y⟩ | ⟨t, ys⟩
    · cases hpeek
    · rw [render, render, h.keys_eq]

/-- The same variables name the same origins. -/
theorem originFrom_eq (hvars : ∀ name, (host'.var name).isSome = (host.var name).isSome)
    (path nest : String) (metadata : Option Metadata) :
    originFrom host' path nest metadata = originFrom host path nest metadata := by
  rw [originFrom, originFrom, refineEnv.eq_def, refineEnv.eq_def]
  split
  · split
    · simp only [hvars]
    · rfl
  · rfl

/-- Whoever sees the rows this way cannot tell the similar values of a path apart. -/
def CannotTell (D : Places) (showFloat : UInt64 → String) (key path : String)
    (see : String → String) : Prop :=
  ∀ v w : Node, SimilarOff Leaf.blind (fun q ↦ D.seen key (walked path ++ q)) v w →
    see (render showFloat v) = see (render showFloat w)

/-- The row of a layer. -/
theorem seenBy_layerRow_eq (Fig : Type) [Figment Fig] [LawfulFigment Fig]
    (h : DifferOnly D host spec host' spec') (hsee : CannotTell D showFloat spec.key path see)
    (name : String) {ps qs : List Provider} (hps : List.Forall₂ (SimilarProviders D) ps qs) :
    (layerRow showFloat host spec.nest path name (Figment.select (mergeAll (Figment.new : Fig) ps)
        (sectionProfile spec.key))).seenBy see =
      (layerRow showFloat host' spec'.nest path name (Figment.select
        (mergeAll (Figment.new : Fig) qs) (sectionProfile spec'.key))).seenBy see := by
  have hfound := ((similarStacks_new.mergeAll hps).select (sectionProfile spec.key)).findValue
    spec.key rfl path
  rw [layerRow_eq, layerRow_eq, h.key, h.nest, alone, alone]
  rcases hfound with ⟨e, hv, hw⟩ | ⟨v, w, hv, hw, hvw⟩
  · have hv' : Figment.findValue (Figment.select (mergeAll Stack.new ps) (sectionProfile spec.key))
        path = .error e := hv
    have hw' : Figment.findValue (Figment.select (mergeAll Stack.new qs) (sectionProfile spec.key))
        path = .error e := hw
    rw [hv', hw']
    rfl
  · have hv' : Figment.findValue (Figment.select (mergeAll Stack.new ps) (sectionProfile spec.key))
        path = .ok v := hv
    have hw' : Figment.findValue (Figment.select (mergeAll Stack.new qs) (sectionProfile spec.key))
        path = .ok w := hw
    rw [hv', hw']
    show (⟨name, some (originFrom host path spec.nest v.tag), some (see (render showFloat v)), none⟩ :
      Contribution) = ⟨name, some (originFrom host' path spec.nest w.tag),
        some (see (render showFloat w)), none⟩
    rw [originFrom_eq h.vars, hvw.tag_eq, hsee v w hvw]

/-- Seeing rows does not change which of them wins, and where it comes from. -/
theorem winnerOf_seenBy (see : String → String) (rows : List Contribution) :
    winnerOf (rows.map (Contribution.seenBy see)) = (winnerOf rows).map (Contribution.seenBy see) := by
  have hvalue : ((fun row : Contribution ↦ row.value.isSome) ∘ Contribution.seenBy see) =
      fun row ↦ row.value.isSome := by
    funext row
    exact Option.isSome_map
  rw [winnerOf, winnerOf, ← List.map_reverse, List.find?_map, hvalue]

/-- Claiming an answer goes by where the winner is from. -/
theorem claimed_eq_of_origin {winner winner' : Option Contribution}
    (h : winner.map Contribution.origin = winner'.map Contribution.origin) (origin : Origin) :
    claimed winner origin = claimed winner' origin := by
  rcases winner with - | winner
  · rcases winner' with - | winner'
    · rfl
    · cases h
  · rcases winner' with - | winner'
    · cases h
    · have horigin : winner.origin = winner'.origin := Option.some.inj h
      rw [claimed, claimed, horigin]

/-- The row of the alias, where the load has an answer. -/
theorem aliasRow_of_ok {s : Stack} {v : Node} (hv : s.findValue path = .ok v)
    (rows : List Contribution) :
    aliasRow showFloat host spec path rows s =
      if claimed (winnerOf rows) (originIn host s path spec.nest) then []
      else [{ layer := "alias", origin := some (originIn host s path spec.nest)
              value := some (render showFloat v), aliasedFrom := aliasedFrom spec path }] := by
  have hvalue : Figment.findValue s path = .ok v := hv
  rw [aliasRow, hvalue]
  dsimp only
  rcases winnerOf rows with - | winner
  · rfl
  · have hchoice : ∀ (a b : Bool) (row : List Contribution),
        (if (!a && !b) = true then row else []) = if (a || b) = true then [] else row := by
      intro a b row
      rcases a <;> rcases b <;> rfl
    exact hchoice _ _ _

/-- The row of the alias. -/
theorem seenBy_aliasRow_eq (h : DifferOnly D host spec host' spec')
    (hsee : CannotTell D showFloat spec.key path see) {rows rows' : List Contribution}
    (hrows : rows.map (Contribution.seenBy see) = rows'.map (Contribution.seenBy see))
    {s s' : Stack} (hs : SimilarStacks D s s') (hprofile : s.profile = sectionProfile spec.key) :
    (aliasRow showFloat host spec path rows s).map (Contribution.seenBy see) =
      (aliasRow showFloat host' spec' path rows' s').map (Contribution.seenBy see) := by
  have hwinner : (winnerOf rows).map Contribution.origin = (winnerOf rows').map Contribution.origin := by
    have hseen := congrArg winnerOf hrows
    rw [winnerOf_seenBy, winnerOf_seenBy] at hseen
    have horigin := congrArg (Option.map Contribution.origin) hseen
    rwa [Option.map_map, Option.map_map] at horigin
  have horigins : originIn host s path spec.nest = originIn host' s' path spec'.nest := by
    rw [originIn, originIn, h.nest, originFrom_eq h.vars]
    exact congrArg (originFrom host path spec.nest) (hs.findMetadata_eq spec.key hprofile path)
  have haliased : aliasedFrom spec' path = aliasedFrom spec path := by
    rw [aliasedFrom, aliasedFrom, h.aliases]
  rcases hs.findValue spec.key hprofile path with ⟨e, hv, hw⟩ | ⟨v, w, hv, hw, hvw⟩
  · have hnone : (Figment.findValue s path).toOption = none :=
      congrArg Except.toOption (show Figment.findValue s path = .error e from hv)
    have hnone' : (Figment.findValue s' path).toOption = none :=
      congrArg Except.toOption (show Figment.findValue s' path = .error e from hw)
    rw [aliasRow_of_none hnone, aliasRow_of_none hnone']
  · rw [aliasRow_of_ok hv, aliasRow_of_ok hw, horigins, claimed_eq_of_origin hwinner]
    split
    · rfl
    · rw [List.map_singleton, List.map_singleton, Contribution.seenBy, Contribution.seenBy,
        Option.map_some, Option.map_some, hsee v w hvw, haliased]

/-- A figment is asked for the row of the alias as its stack is. -/
theorem aliasRow_of_stack {Fig : Type} [Figment Fig] [LawfulFigment Fig] {figment : Fig}
    {s : Stack} (hstack : Figment.stack figment = s) (rows : List Contribution) :
    aliasRow showFloat host spec path rows figment = aliasRow showFloat host spec path rows s := by
  subst hstack
  have hvalue : Figment.findValue figment path = Figment.findValue (Figment.stack figment) path :=
    LawfulFigment.findValue_eq figment path
  have horigin : originIn host figment path spec.nest =
      originIn host (Figment.stack figment) path spec.nest := by
    rw [originIn, originIn, LawfulFigment.findMetadata_eq]
    rfl
  rw [aliasRow, aliasRow, hvalue, horigin]

/-- There is nothing to explain where the layers do not come about. -/
theorem explain_of_error {Fig : Type} [Figment Fig] {e : Error}
    (hlayers : layerProviders host spec = .error e) :
    explain Fig showFloat host spec path = .error e := by
  rw [explain, layerFigments_eq, hlayers]
  rfl

/-- **Whoever cannot tell the similar values of a path apart cannot tell the explanations apart.** -/
theorem seenBy_explain_eq (Fig : Type) [Figment Fig] [LawfulFigment Fig]
    (h : DifferOnly D host spec host' spec')
    (hwithin : ∀ ls, layerProviders host spec = .ok ls →
      ∀ f ∈ firings spec (ls.flatMap Prod.snd), f.Within D spec.key)
    (hsee : CannotTell D showFloat spec.key path see) :
    (explain Fig showFloat host spec path).map
        (fun e ↦ ({ e with rows := e.rows.map (Contribution.seenBy see) } : Explanation)) =
      (explain Fig showFloat host' spec' path).map
        fun e ↦ { e with rows := e.rows.map (Contribution.seenBy see) } := by
  rcases h.layers with ⟨e, hlayers, hlayers'⟩ | ⟨ls, ls', hlayers, hlayers', hls⟩
  · rw [explain_of_error hlayers, explain_of_error hlayers']
  · have hproviders : List.Forall₂ (SimilarProviders D) (ls.flatMap Prod.snd)
        (ls'.flatMap Prod.snd) := by
      clear hlayers hlayers'
      induction hls with
      | nil => exact List.Forall₂.nil
      | cons hl _ ih =>
        rw [List.flatMap_cons, List.flatMap_cons]
        exact List.rel_append hl.2 ih
    have hrows : (layerRows Fig showFloat host spec path ls).map (Contribution.seenBy see) =
        (layerRows Fig showFloat host' spec' path ls').map (Contribution.seenBy see) := by
      clear hlayers hlayers' hproviders
      rw [layerRows, layerRows]
      induction hls with
      | nil => rfl
      | cons hl _ ih =>
        rw [List.map_cons, List.map_cons, List.map_cons, List.map_cons, ih, ← hl.1,
          seenBy_layerRow_eq Fig h hsee _ hl.2]
    have hresolved := similar_resolvedIn h.key h.aliases hproviders (hwithin ls hlayers)
    have halias := seenBy_aliasRow_eq h hsee hrows hresolved rfl
    rw [explain_of_layers hlayers, explain_of_layers hlayers']
    refine congrArg Except.ok ?_
    show (⟨path, List.map _ (_ ++ _)⟩ : Explanation) = ⟨path, List.map _ (_ ++ _)⟩
    rw [List.map_append, List.map_append, hrows, aliasRow_of_stack (stack_of_layers ls),
      aliasRow_of_stack (stack_of_layers ls'), halias]

/-- A path that reads a place at or below a declared secret touches it. -/
theorem touchesSecret_of_covered {secrets : List String} (h : Covered secrets (walked path)) :
    touchesSecret path secrets = true := by
  obtain ⟨secret, hsecret, hsegments⟩ := h
  refine List.any_eq_true.2 ⟨secret, hsecret, ?_⟩
  rcases segments_prefix_iff.1 (hsegments.trans ( walked_prefix path)) with rfl | ⟨rest, rfl⟩
  · rw [decide_eq_true rfl]
    rfl
  · have hstripped : stripPrefix (secret ++ "." ++ rest) secret = some ("." ++ rest) := by
      have htext : (secret ++ "." ++ rest).toList = secret.toList ++ ("." ++ rest).toList := by
        rw [String.toList_append, String.toList_append, String.toList_append, List.append_assoc]
      rw [stripPrefix, htext, if_pos (List.prefix_append _ _), List.drop_left, String.ofList_toList]
    have hdot : (("." ++ rest).toList.head? == some '.') = true := by
      rw [String.toList_append]
      rfl
    rw [hstripped]
    dsimp only
    rw [hdot, Bool.or_true, Bool.true_or]

/-- **An explanation shows a declared secret to nobody who asks by its name.** Where a path that reads
one of the places at which the sources differ, or to which an alias carries what differs, reads it at or
below a declared secret, the explanations are the same. -/
theorem builderExplain_eq (Fig : Type) [Figment Fig] [LawfulFigment Fig]
    (showFloat : UInt64 → String) {D : Places} {host host' : Host} {spec spec' : LoadSpec}
    (h : DifferOnly D host spec host' spec') (secrets : List String) (path : String)
    (hwithin : ∀ ls, layerProviders host spec = .ok ls →
      ∀ f ∈ firings spec (ls.flatMap Prod.snd), f.Within D spec.key)
    (hdeclared : D.seen spec.key (walked path) → Covered secrets (walked path)) :
    builderExplain Fig showFloat host spec (some secrets) path =
      builderExplain Fig showFloat host' spec' (some secrets) path := by
  have hred : ∀ x : Except Error Explanation, (x >>= fun explanation ↦
      if touchesSecret path secrets then .ok explanation.redacted else .ok explanation) =
        if touchesSecret path secrets then x.map Explanation.redacted else x := by
    intro x
    split
    · rfl
    · rcases x with e | explanation
      · rfl
      · rfl
  rw [builderExplain, builderExplain]
  simp only [hred]
  split
  · exact seenBy_explain_eq Fig h hwithin fun _ _ _ ↦ rfl
  · next htouches =>
    have hopen : ¬ D.seen spec.key (walked path ++ []) := by
      rw [List.append_nil]
      exact fun hseen ↦ htouches (touchesSecret_of_covered (hdeclared hseen))
    have hsee : CannotTell D showFloat spec.key path id := fun v w hvw ↦
      render_eq_of_similar hvw hopen
    have hid : ∀ x : Except Error Explanation, x.map (fun e ↦
        ({ e with rows := e.rows.map (Contribution.seenBy id) } : Explanation)) = x := by
      have hrow : Contribution.seenBy id = id := by
        funext row
        rw [Contribution.seenBy, Option.map_id_fun]
        rfl
      intro x
      rcases x with e | explanation
      · rfl
      · rw [hrow]
        show Except.ok (⟨explanation.path, explanation.rows.map id⟩ : Explanation) = _
        rw [List.map_id]
    have hsame := seenBy_explain_eq Fig h hwithin hsee
    rwa [hid, hid] at hsame

end Rows

/-! ### The old spelling of a secret -/

/-- The renamed configuration, with a password of its own. -/
def renamedWith (password : String) : LoadSpec :=
  { renamed with
    sources := [.provider (Provider.table { name := "TOML file", source := some (.file "config.toml") }
      (Profile.from "db") [("old_password", Node.text password)])] }

/-- Where the password is: under its old name, and where the alias carries it. -/
def passwordPlaces : Places := fun p q ↦
  p = sectionProfile "db" ∧ (q = ["old_password"] ∨ q = ["password"])

/-- What a load of it resolves at a path. -/
def resolvedText (spec : LoadSpec) (path : String) : Option (Option Leaf) :=
  ((merged Host.bare spec : Except Error Stack).toOption.bind fun figment ↦
    (Figment.findValue figment path).toOption).map LabelledTree.peek

/-- The values of the rows of an explanation, with the new name declared a secret. -/
def shownValues (spec : LoadSpec) (path : String) : Option (List (Option String)) :=
  (builderExplain Stack (fun _ ↦ "") Host.bare spec (some ["password"]) path).toOption.map
    fun explanation ↦ explanation.rows.map Contribution.value

theorem differOnly_renamedWith (a b : String) : DifferOnly passwordPlaces Host.bare (renamedWith a)
    Host.bare (renamedWith b) where
  key := rfl
  aliases := rfl
  nest := rfl
  vars _ := rfl
  layers := by
    refine Or.inr ⟨_, _, rfl, rfl, List.Forall₂.cons ⟨rfl, List.Forall₂.cons ⟨rfl, rfl, ?_⟩
      List.Forall₂.nil⟩ List.Forall₂.nil⟩
    refine Or.inr ⟨_, _, rfl, rfl, fun p ↦ ?_⟩
    show SimilarOff Leaf.blind (passwordPlaces p)
      (Dict.root ((List.lookup p [(sectionProfile "db", [("old_password", Node.text a)])]).getD []))
      (Dict.root ((List.lookup p [(sectionProfile "db", [("old_password", Node.text b)])]).getD []))
    by_cases hp : p = sectionProfile "db"
    · have hplace : passwordPlaces p ["old_password"] := ⟨hp, Or.inl rfl⟩
      have hhidden : ∀ text : String, LabelledTree.hide Leaf.blind (passwordPlaces p)
          ["old_password"] (.scalar (.string text)) = .scalar .empty := fun _ ↦ if_pos hplace
      rw [← hp, List.lookup_cons_self, List.lookup_cons_self]
      refine LabelledTree.similarOff_node_iff.2 ?_
      show [("old_password", LabelledTree.mapAt _ (Node.text a))] =
        [("old_password", LabelledTree.mapAt _ (Node.text b))]
      rw [Node.text, Node.text, Node.scalar, Node.scalar, LabelledTree.mapAt_leaf,
        LabelledTree.mapAt_leaf, hhidden, hhidden]
    · have hne : (p == sectionProfile "db") = false := beq_false_of_ne hp
      rw [List.lookup_cons, List.lookup_cons, hne]
      exact SimilarOff.refl _

/-- The alias carries the password, and nothing else fires. -/
theorem within_renamedWith (password : String) (ls : List (String × List Provider)) :
    ∀ f ∈ firings (renamedWith password) (ls.flatMap Prod.snd), f.Within passwordPlaces "db" := by
  have hpair : ∀ f ∈ firings (renamedWith password) (ls.flatMap Prod.snd),
      (f.source, f.destination) = ("old_password", "password") := by
    intro f hf
    have hdeclared := (aliasPass_fills "db" [("old_password", "password")]
      (mergeAll Stack.new (ls.flatMap Prod.snd))).declared f hf
    exact List.mem_singleton.1 hdeclared
  intro f hf q hseen
  obtain ⟨hsource, hdestination⟩ := Prod.mk.inj (hpair f hf)
  have hsplit : splitSection "old_password" = (none, "old_password") := by decide
  have hwalked : walked "old_password" = ["old_password"] := by decide
  have hsegments : segments "password" = ["password"] := by decide
  rw [hsource, hsplit] at hseen
  rw [hdestination, hsegments]
  simp only [hwalked] at hseen
  rcases hseen with ⟨hdefault, -⟩ | ⟨-, hq⟩ | ⟨hglobal, -⟩
  · exact absurd hdefault (default_ne_sectionProfile "db")
  · rcases hq with hq | hq
    · obtain rfl : q = [] := by simpa using hq
      exact ⟨rfl, Or.inr rfl⟩
    · exact absurd hq (by simp)
  · exact absurd hglobal (global_ne_sectionProfile "db")

/-- Two passwords explain alike under their declared name. -/
theorem builderExplain_eq_renamedWith :
    builderExplain Stack (fun _ ↦ "") Host.bare (renamedWith "hunter2") (some ["password"])
        "password" =
      builderExplain Stack (fun _ ↦ "") Host.bare (renamedWith "hunter3") (some ["password"])
        "password" :=
  builderExplain_eq Stack (fun _ ↦ "") (differOnly_renamedWith "hunter2" "hunter3") ["password"]
    "password" (fun ls _ ↦ within_renamedWith "hunter2" ls) fun _ ↦ ⟨"password", List.mem_singleton.2 rfl, by decide⟩

/-- **The old spelling of a secret is shown.** The two differ in what the load resolves at the secret
and nowhere else, and the path that reads the old name tells them apart. -/
theorem not_builderExplain_eq_of_old_spelling :
    DifferOnly passwordPlaces Host.bare (renamedWith "hunter2") Host.bare (renamedWith "hunter3") ∧
      resolvedText (renamedWith "hunter2") "password" = some (some (.scalar (.string "hunter2"))) ∧
        resolvedText (renamedWith "hunter3") "password" =
          some (some (.scalar (.string "hunter3"))) ∧
            builderExplain Stack (fun _ ↦ "") Host.bare (renamedWith "hunter2") (some ["password"])
                "old_password" ≠
              builderExplain Stack (fun _ ↦ "") Host.bare (renamedWith "hunter3")
                (some ["password"]) "old_password" := by
  refine ⟨differOnly_renamedWith _ _, rfl, rfl, fun hsame ↦ ?_⟩
  have hfirst : shownValues (renamedWith "hunter2") "old_password" = some [some "hunter2"] := by
    decide +kernel
  have hsecond : shownValues (renamedWith "hunter3") "old_password" = some [some "hunter3"] := by
    decide +kernel
  rw [shownValues, hsame] at hfirst
  rw [shownValues, hfirst] at hsecond
  exact absurd hsecond (by decide)

end DynamicConfig
