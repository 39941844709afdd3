import DynamicConfig.Loader.Gaps
import DynamicConfig.Loader.Rounds
import DynamicConfig.Tree.Layers

/-!
# What a section is made of

A list of providers contributes tables, lowest first; the aliases contribute the values they carry,
laid over the section's own tables. `Shown` reads a path off the contributions.

Which values the aliases carry is itself a matter of the tables and of the declarations: an alias
carries what its old path leads to, once for each destination, where nothing above the runtime
defaults supplies the destination (`Carries`); the aliases are visited in path order, round after
round, until none of them has anything left to carry (`RoundsCarry`). The pass carries exactly these
(`roundsCarry_iff`).
-/

namespace DynamicConfig

open LabelledTree (stacked layered Holds StandsIn readAt)

/-! ### What a list of providers contributes -/

/-- The tables a provider supplies, by profile. -/
def suppliedBy (provider : Provider) : Except FigmentError Tables :=
  match provider.data with
  | .ok data => .ok (suppliedTable provider.metadata data)
  | .error e => .error (e.retagged provider.metadata)

/-- The tables of some providers, unless one of them fails. -/
def supplied (providers : List Provider) : Except FigmentError (List Tables) :=
  providers.mapM suppliedBy

/-- The table a firing lays over its section. -/
def Fill.dict (f : Fill) : Dict :=
  LabelledTree.chain (some f.metadata) (segments f.destination) (f.value.mapTag (labelled f.metadata))

/-- What is contributed under one profile, lowest first, from the empty table on. -/
def contributed (profile : Profile) (tables : List Tables) (fills : List Fill) : List Node :=
  Dict.root [] :: (tables.map (fun t ↦ (t profile).root) ++ fills.map fun f ↦ f.dict.root)

/-- What the contributions to a section show at a path: its reading, where something does. -/
def Shown (key : String) (tables : List Tables) (fills : List Fill) (p : List String)
    (y : Option Metadata × Option Leaf) : Prop :=
  Holds (contributed Profile.default tables []) (contributed (sectionProfile key) tables fills)
    (contributed Profile.global tables []) p y

/-- A contribution to a section still stands at a path: something is there in it, and no scalar or list
above the path comes after it. -/
def StillStands (key : String) (tables : List Tables) (fills : List Fill) (p : List String) : Prop :=
  StandsIn (contributed Profile.default tables []) (contributed (sectionProfile key) tables fills)
    (contributed Profile.global tables []) p

/-- Something is shown exactly where a contribution still stands. -/
theorem exists_shown_iff {key : String} {tables : List Tables} {fills : List Fill}
    {p : List String} : (∃ y, Shown key tables fills p y) ↔ StillStands key tables fills p :=
  LabelledTree.exists_holds_iff

theorem root_foldl_mergeTables (d : Dict) (ds : List Dict) :
    Dict.root (ds.foldl LabelledTree.mergeTables d) = layered d.root (ds.map Dict.root) := by
  induction ds generalizing d with
  | nil => rfl
  | cons e ds ih =>
    rw [List.foldl_cons, ih, Dict.root_mergeTables]
    rfl

/-- A figment that failed stays failed. -/
theorem values_mergeAll_of_error {s : Stack} {e : FigmentError} (h : s.values = .error e)
    (providers : List Provider) : (mergeAll s providers).values = .error e := by
  induction providers generalizing s with
  | nil => exact h
  | cons p ps ih =>
    have hmerge : (Figment.merge s p).values = .error e := by
      show mergeData s.values p = _
      rw [h]
      rfl
    exact ih hmerge

theorem mergeData_ok (before : Tables) (provider : Provider) :
    mergeData (.ok before) provider =
      (suppliedBy provider).map fun t q ↦ LabelledTree.mergeTables (before q) (t q) := by
  rw [mergeData.eq_def, suppliedBy]
  rcases provider.data with e | data
  · rfl
  · rfl

/-- The tables after some providers. -/
theorem values_mergeAll {s : Stack} {before : Tables} (h : s.values = .ok before)
    (providers : List Provider) :
    (mergeAll s providers).values =
      (supplied providers).map fun tables p ↦
        (tables.map fun t ↦ t p).foldl LabelledTree.mergeTables (before p) := by
  induction providers generalizing s before with
  | nil => exact h
  | cons p ps ih =>
    have hvalues : (Figment.merge s p).values = (suppliedBy p).map fun t q ↦
        LabelledTree.mergeTables (before q) (t q) := by
      show mergeData s.values p = _
      rw [h, mergeData_ok]
    rw [mergeAll_cons, supplied, List.mapM_cons]
    rcases hsupplied : suppliedBy p with e | t
    · rw [hsupplied] at hvalues
      exact values_mergeAll_of_error hvalues ps
    · rw [hsupplied] at hvalues
      rw [ih hvalues]
      show Except.map _ (List.mapM suppliedBy ps) = Except.map _ (List.mapM suppliedBy ps >>= _)
      rcases List.mapM suppliedBy ps with e | tables
      · rfl
      · rfl

/-- The tables after some firings: the section's own, with each laid over it. -/
theorem values_foldl_fill {s : Stack} {before : Tables} (h : s.values = .ok before) (key : String)
    (fills : List Fill) :
    (fills.foldl (fill key) s).values = .ok fun p ↦
      if p = sectionProfile key then
        (fills.map Fill.dict).foldl LabelledTree.mergeTables (before p)
      else before p := by
  induction fills generalizing s before with
  | nil =>
    rw [List.foldl_nil, h]
    congr 1
    funext p
    split
    · rfl
    · rfl
  | cons f fs ih =>
    rw [List.foldl_cons, ih (values_fill h key f)]
    congr 1
    funext p
    rw [Fill.tables]
    split
    · rfl
    · rfl

/-- The tables laid over each other, the section's own with the carried values over them. -/
def laid (key : String) (tables : List Tables) (carried : List Fill) : Tables := fun p ↦
  if p = sectionProfile key then
    (carried.map Fill.dict).foldl LabelledTree.mergeTables
      ((tables.map fun t ↦ t p).foldl LabelledTree.mergeTables [])
  else (tables.map fun t ↦ t p).foldl LabelledTree.mergeTables []

theorem values_laid {providers : List Provider} {tables : List Tables}
    (h : supplied providers = .ok tables) (key : String) (carried : List Fill) :
    (carried.foldl (fill key) (mergeAll Stack.new providers)).values =
      .ok (laid key tables carried) := by
  have hmerged : (mergeAll Stack.new providers).values =
      .ok fun p ↦ (tables.map fun t ↦ t p).foldl LabelledTree.mergeTables [] := by
    rw [values_mergeAll rfl providers, h]
    rfl
  exact values_foldl_fill hmerged key carried

/-- One value more is laid over the section's own tables. -/
theorem laid_concat (key : String) (tables : List Tables) (carried : List Fill) (f : Fill) :
    laid key tables (carried ++ [f]) = f.tables key (laid key tables carried) := by
  funext p
  rw [Fill.tables, laid, laid, List.map_append, List.foldl_append]
  split
  · rfl
  · rfl

/-- **What a section shows** is read off its contributions. -/
theorem readAt_laid {key : String} {tables : List Tables} {carried : List Fill} {p : List String}
    {y : Option Metadata × Option Leaf} :
    (resolvedSection key (laid key tables carried)).readAt p = some y ↔
      Shown key tables carried p y := by
  have hprofile : ∀ q : Profile,
      Dict.root ((tables.map fun t ↦ t q).foldl LabelledTree.mergeTables []) =
        layered (Dict.root []) (tables.map fun t ↦ (t q).root) := by
    intro q
    rw [root_foldl_mergeTables, List.map_map]
    rfl
  have hown : Dict.root ((carried.map Fill.dict).foldl LabelledTree.mergeTables
      ((tables.map fun t ↦ t (sectionProfile key)).foldl LabelledTree.mergeTables [])) =
        layered (Dict.root []) (tables.map (fun t ↦ (t (sectionProfile key)).root) ++
          carried.map fun f ↦ f.dict.root) := by
    rw [root_foldl_mergeTables, hprofile, List.map_map, layered, layered, layered,
      List.foldl_append]
    rfl
  rw [resolvedSection_eq, laid, laid, laid, if_neg (default_ne_sectionProfile key),
    if_neg (global_ne_sectionProfile key), if_pos rfl, hown, hprofile, hprofile, Shown,
    contributed, contributed, contributed, List.map_nil, List.append_nil, List.append_nil]
  exact LabelledTree.readAt_stacked_layered

/-! ### What the aliases carry -/

/-- An alias carries a value over what has been carried so far: its destination has been given none
yet, nothing above the runtime defaults supplies it, and the value is what its old path leads to, in
its own section. -/
structure Carries (key : String) (tables : List Tables) (carried : List Fill) (f : Fill) : Prop where
  fresh : f.destination ∉ carried.map Fill.destination
  gap : ¬ SuppliedAbove key (laid key tables carried) (walked f.destination)
  found : (resolvedSection ((splitSection f.source).1.getD key) (laid key tables carried)).get
    (walked (splitSection f.source).2) = some f.value
  supplier : f.supplier = f.value.tag

/-- The aliases of a list visited one after the other. -/
inductive VisitsCarry (key : String) (tables : List Tables) :
    List Fill → List (String × String) → List Fill → Prop
  | done {carried : List Fill} : VisitsCarry key tables carried [] carried
  | carries {carried after : List Fill} {f : Fill} {visits : List (String × String)}
      (now : Carries key tables carried f)
      (later : VisitsCarry key tables (carried ++ [f]) visits after) :
      VisitsCarry key tables carried ((f.source, f.destination) :: visits) after
  | passes {carried after : List Fill} {pair : String × String} {visits : List (String × String)}
      (now : ∀ f, Carries key tables carried f → (f.source, f.destination) ≠ pair)
      (later : VisitsCarry key tables carried visits after) :
      VisitsCarry key tables carried (pair :: visits) after

/-- Round after round over the aliases, until none of them carries anything more. -/
inductive RoundsCarry (key : String) (tables : List Tables) (pairs : List (String × String)) :
    List Fill → List Fill → Prop
  | rest {carried : List Fill}
      (none : ∀ f, Carries key tables carried f → (f.source, f.destination) ∉ pairs) :
      RoundsCarry key tables pairs carried carried
  | round {carried next after : List Fill} (visited : VisitsCarry key tables carried pairs next)
      (later : RoundsCarry key tables pairs next after) : RoundsCarry key tables pairs carried after

section Unique

variable {key : String} {tables : List Tables} {pairs : List (String × String)}
  {carried : List Fill}

/-- An alias carries one value at most. -/
theorem Carries.unique {f g : Fill} (hf : Carries key tables carried f)
    (hg : Carries key tables carried g)
    (h : (f.source, f.destination) = (g.source, g.destination)) : f = g := by
  obtain ⟨hsource, hdestination⟩ := Prod.mk.inj h
  have hvalue : f.value = g.value := by
    have hfound := hf.found
    rw [hsource, hg.found] at hfound
    exact (Option.some.inj hfound).symm
  have hsupplier : f.supplier = g.supplier := by rw [hf.supplier, hg.supplier, hvalue]
  rcases f with ⟨source, destination, value, supplier⟩
  rcases g with ⟨source', destination', value', supplier'⟩
  subst hsource hdestination hvalue hsupplier
  rfl

theorem VisitsCarry.unique {visits : List (String × String)} {after after' : List Fill}
    (h : VisitsCarry key tables carried visits after) (h' : VisitsCarry key tables carried visits after') :
    after = after' := by
  induction h generalizing after' with
  | done =>
    rcases h' with - | - | -
    rfl
  | @carries carried after f visits now later ih =>
    generalize hpair : (f.source, f.destination) = pair at h'
    rcases h' with - | ⟨now', later'⟩ | ⟨now', later'⟩
    · obtain rfl := now.unique now' hpair
      exact ih later'
    · exact absurd hpair (now' f now)
  | @passes carried after pair visits now later ih =>
    rcases h' with - | ⟨now', later'⟩ | ⟨now', later'⟩
    · exact absurd rfl (now _ now')
    · exact ih later'

/-- Where nothing is left to carry, a round carries nothing. -/
theorem VisitsCarry.eq_of_rest {visits : List (String × String)} {after : List Fill}
    (h : VisitsCarry key tables carried visits after)
    (hrest : ∀ f, Carries key tables carried f → (f.source, f.destination) ∉ visits) :
    after = carried := by
  induction h with
  | done => rfl
  | carries now later ih => exact absurd List.mem_cons_self (hrest _ now)
  | passes now later ih =>
    exact ih fun f hf hmem ↦ hrest f hf (List.mem_cons_of_mem _ hmem)

/-- What the aliases carry depends on the tables and the declarations alone. -/
theorem RoundsCarry.unique {after after' : List Fill} (h : RoundsCarry key tables pairs carried after)
    (h' : RoundsCarry key tables pairs carried after') : after = after' := by
  induction h generalizing after' with
  | rest hrest =>
    induction h' with
    | rest => rfl
    | round visited later ih =>
      obtain rfl := visited.eq_of_rest hrest
      exact ih hrest
  | @round carried next after visited later ih =>
    rcases h' with hrest | ⟨visited', later'⟩
    · obtain rfl := visited.eq_of_rest hrest
      exact ih (.rest hrest)
    · obtain rfl := visited.unique visited'
      exact ih later'

end Unique

/-! ### The pass carries exactly these -/

section Pass

variable {key : String} {tables : List Tables} {pairs : List (String × String)} {pass : Pass Stack}

/-- The value at a path of a figment that holds these tables. -/
theorem findValue_of_tables {s : Stack} {now : Tables} (h : s.values = .ok now)
    (key path : String) :
    ((s.select (sectionProfile key)).findValue path).toOption =
      (resolvedSection key now).get (walked path) := by
  have hselected : (s.select (sectionProfile key)).values = .ok now := h
  have hfound : (s.select (sectionProfile key)).findValue path =
      match (resolvedSection key now).get (walked path) with
      | some v => .ok v
      | none => .error (missing path) :=
    Stack.findValue_of_ok hselected path
  rw [hfound]
  rcases (resolvedSection key now).get (walked path) with - | v
  · rfl
  · rfl

/-- What an old path leads to, read off the tables. -/
theorem foundAt_iff {s : Stack} {now : Tables} (h : s.values = .ok now)
    {key source destination : String} {f : Fill} :
    foundAt s key source destination = some f ↔
      (f.source = source ∧ f.destination = destination) ∧
        (resolvedSection ((splitSection f.source).1.getD key) now).get
            (walked (splitSection f.source).2) = some f.value ∧ f.supplier = f.value.tag := by
  have hvalue :
      (Figment.findValue (sourceOf s key source) (splitSection source).2).toOption =
        (resolvedSection ((splitSection source).1.getD key) now).get
          (walked (splitSection source).2) :=
    findValue_of_tables h _ _
  rcases hfindValue : Figment.findValue (sourceOf s key source) (splitSection source).2 with e | v
  · rw [foundAt_error hfindValue]
    refine iff_of_false (fun hnone ↦ ?_) ?_
    · cases hnone
    · rintro ⟨⟨rfl, -⟩, hfound, -⟩
      rw [← hvalue, hfindValue] at hfound
      cases hfound
  · have hlabel : Figment.findMetadata (sourceOf s key source) (splitSection source).2 = v.tag :=
      Stack.findMetadata_of_findValue hfindValue
    rw [foundAt_ok hfindValue, hlabel]
    rw [hfindValue] at hvalue
    constructor
    · intro hsome
      obtain rfl := Option.some.inj hsome
      exact ⟨⟨rfl, rfl⟩, hvalue.symm, rfl⟩
    · rintro ⟨⟨rfl, rfl⟩, hfound, hsupplier⟩
      rw [← hvalue] at hfound
      obtain rfl : v = f.value := Option.some.inj hfound
      show some (Fill.mk f.source f.destination f.value f.value.tag) = some f
      rw [← hsupplier]

/-- What is offered at a visit is what the alias carries. -/
theorem offer_iff (h : pass.figment.values = .ok (laid key tables pass.fills))
    {pair : String × String} {f : Fill} :
    pass.offer key pair = some f ↔
      Carries key tables pass.fills f ∧ (f.source, f.destination) = pair := by
  have hgap := suppliedAboveDefaults_iff h key pair.2
  rw [Pass.offer]
  split
  · next hclosed =>
    refine iff_of_false (fun hnone ↦ ?_) ?_
    · cases hnone
    · rintro ⟨hcarries, rfl⟩
      rcases hclosed with hfilled | hsupplied
      · exact hcarries.fresh hfilled
      · exact hcarries.gap (hgap.1 hsupplied)
  · next hopen =>
    obtain ⟨hfresh, hunsupplied⟩ := not_or.1 hopen
    rw [foundAt_iff h]
    constructor
    · rintro ⟨⟨hsource, hdestination⟩, hfound, hsupplier⟩
      refine ⟨⟨?_, ?_, hfound, hsupplier⟩, Prod.ext hsource hdestination⟩
      · rw [hdestination]
        exact hfresh
      · rw [hdestination]
        exact fun hsupplied ↦ hunsupplied (hgap.2 hsupplied)
    · rintro ⟨hcarries, rfl⟩
      exact ⟨⟨rfl, rfl⟩, hcarries.found, hcarries.supplier⟩

/-- A visit keeps the figment what has been carried makes it. -/
theorem values_visit (h : pass.figment.values = .ok (laid key tables pass.fills))
    (pair : String × String) :
    (pass.visit key pair).figment.values = .ok (laid key tables (pass.visit key pair).fills) := by
  rcases pass.visit_eq key pair with ⟨-, hstay⟩ | ⟨f, -, hfire⟩
  · rw [hstay]
    exact h
  · rw [hfire, laid_concat]
    exact values_fill h key f

/-- The visits of a list carry what the aliases of the list carry. -/
theorem visitsCarry_foldl (h : pass.figment.values = .ok (laid key tables pass.fills))
    (visits : List (String × String)) :
    VisitsCarry key tables pass.fills visits (visits.foldl (Pass.visit key) pass).fills ∧
      (visits.foldl (Pass.visit key) pass).figment.values =
        .ok (laid key tables (visits.foldl (Pass.visit key) pass).fills) := by
  induction visits generalizing pass with
  | nil => exact ⟨.done, h⟩
  | cons pair visits ih =>
    obtain ⟨hvisited, hvalues⟩ := ih (values_visit h pair)
    rw [List.foldl_cons]
    refine ⟨?_, hvalues⟩
    rcases pass.visit_eq key pair with ⟨hnone, hstay⟩ | ⟨f, hsome, hfire⟩
    · rw [hstay] at hvisited ⊢
      refine .passes (fun f hf hpair ↦ ?_) hvisited
      rw [(offer_iff h).2 ⟨hf, hpair⟩] at hnone
      cases hnone
    · obtain ⟨hcarries, rfl⟩ := (offer_iff h).1 hsome
      refine .carries hcarries ?_
      rw [hfire] at hvisited ⊢
      exact hvisited

/-- A round that fires nothing was offered nothing. -/
theorem offer_eq_none_of_foldl {visits : List (String × String)}
    (h : (visits.foldl (Pass.visit key) pass).progressed = false) :
    visits.foldl (Pass.visit key) pass = pass ∧
      ∀ pair ∈ visits, pass.offer key pair = none := by
  induction visits generalizing pass with
  | nil => exact ⟨rfl, fun pair hpair ↦ absurd hpair List.not_mem_nil⟩
  | cons pair visits ih =>
    rw [List.foldl_cons] at h ⊢
    obtain ⟨hsame, hnone⟩ := ih h
    rcases pass.visit_eq key pair with ⟨hoffer, hstay⟩ | ⟨f, -, hfire⟩
    · rw [hstay] at hsame hnone ⊢
      refine ⟨hsame, fun e he ↦ ?_⟩
      rcases List.mem_cons.1 he with rfl | he
      · exact hoffer
      · exact hnone e he
    · rw [hsame, hfire] at h
      cases h

/-- Rounds until one carries nothing, from any state of the pass. -/
theorem roundsCarry_rounds (h : pass.figment.values = .ok (laid key tables pass.fills))
    (hprogressed : pass.progressed = true) {fuel : ℕ} (hfuel : pass.remaining pairs < fuel) :
    RoundsCarry key tables pairs pass.fills (pass.rounds key pairs fuel).fills := by
  induction fuel generalizing pass with
  | zero => exact absurd hfuel (Nat.not_lt_zero _)
  | succ fuel ih =>
    rw [Pass.rounds, if_pos hprogressed]
    have hstart : ({ pass with progressed := false } : Pass Stack).figment.values =
        .ok (laid key tables pass.fills) := h
    obtain ⟨hvisited, hvalues⟩ := visitsCarry_foldl hstart pairs
    refine .round hvisited ?_
    show RoundsCarry key tables pairs (pass.round key pairs).fills _
    rcases hround : (pass.round key pairs).progressed with - | -
    · -- The round carried nothing, so nothing is left, and the pass has ended.
      obtain ⟨hsame, hnone⟩ := offer_eq_none_of_foldl hround
      have hsame' : pass.round key pairs = { pass with progressed := false } := hsame
      rw [Pass.rounds_of_stopped fuel hround, hsame']
      refine .rest fun f hf hpair ↦ ?_
      have hoffer := hnone _ hpair
      rw [(offer_iff hstart).2 ⟨hf, rfl⟩] at hoffer
      cases hoffer
    · obtain ⟨-, hless⟩ := Pass.remaining_foldl key (List.Subset.refl pairs)
        { pass with progressed := false }
      have hlt : (pass.round key pairs).remaining pairs < pass.remaining pairs :=
        (hless hround).resolve_left Bool.false_ne_true
      exact ih hvalues hround (by omega)

/-- **The pass carries what the aliases carry**, whatever figment the tables are merged in. -/
theorem roundsCarry_iff {providers : List Provider} (h : supplied providers = .ok tables)
    {carried : List Fill} :
    RoundsCarry key tables pairs [] carried ↔
      carried = (aliasPass key pairs (mergeAll Stack.new providers)).fills := by
  have hstart : (⟨mergeAll Stack.new providers, [], true⟩ : Pass Stack).figment.values =
      .ok (laid key tables []) :=
    values_laid h key []
  have hpass : RoundsCarry key tables pairs []
      (aliasPass key pairs (mergeAll Stack.new providers)).fills :=
    roundsCarry_rounds hstart rfl (Nat.lt_succ_of_le (List.length_filter_le _ _))
  constructor
  · intro hcarried
    exact hcarried.unique hpass
  · rintro rfl
    exact hpass

end Pass

end DynamicConfig
