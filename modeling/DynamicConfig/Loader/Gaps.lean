import DynamicConfig.Loader.AliasesPass
import DynamicConfig.Tree.Fill

/-!
# What an alias may fill

An alias is meant to fill a gap: what some layer above the runtime defaults supplied before the pass
is what it supplies after it, and only destinations change. `GapsOnly` says so of a figment before
the pass and one after it. A firing keeps it under a condition on the figment the pass started from
and on the value carried, `FillsGap`: no scalar or list sits on the way to the destination, and
nothing supplied above the defaults sits where the value lands with something else in it.

**The code does not check the condition.** It asks one question, whether the destination itself is
supplied above the defaults. A scalar above the destination supplies no destination, so it passes
the test and is replaced by a table (`not_gapsOnly_of_scalar_above`).

The section a load selects is the profile of that section between figment's two reserved ones, so the
results are those about three stacked trees, with the tables of a figment for trees.
-/

namespace DynamicConfig

open LabelledTree (stacked filledAt Kept Fitting LeavesFrom)

/-! ### The section a figment resolves -/

/-- The tables of a figment, by profile. -/
abbrev Tables := Profile → Dict

/-- What a section resolves to. -/
def resolvedSection (key : String) (tables : Tables) : Node :=
  Dict.root (combine (sectionProfile key) tables)

/-- What a section holds under the profile that outranks every section. -/
def underGlobal (key : String) (tables : Tables) : Node :=
  (tables Profile.default).root.merge (tables (sectionProfile key)).root

theorem resolvedSection_eq (key : String) (tables : Tables) :
    resolvedSection key tables =
      stacked (tables Profile.default).root (tables (sectionProfile key)).root
        (tables Profile.global).root :=
  root_combine_sectionProfile key tables

/-- Something above the runtime defaults supplies what a section resolves to at a path. -/
def SuppliedAbove (key : String) (tables : Tables) (p : List String) : Prop :=
  ∃ v m, (resolvedSection key tables).get p = some v ∧ v.tag = some m ∧ m.name ≠ defaultsName

theorem SuppliedAbove.shows {key : String} {tables : Tables} {p : List String}
    (h : SuppliedAbove key tables p) : (resolvedSection key tables).peekAt p ≠ none := by
  obtain ⟨v, m, hv, -, -⟩ := h
  rw [LabelledTree.peekAt, hv]
  exact Option.some_ne_none _

/-- The one question the pass asks, read off the tables. -/
theorem suppliedAboveDefaults_iff {s : Stack} {tables : Tables} (h : s.values = .ok tables)
    (key path : String) :
    suppliedAboveDefaults (Figment.select s (sectionProfile key)) path = true ↔
      SuppliedAbove key tables (walked path) := by
  have hfound : Figment.findMetadata (Figment.select s (sectionProfile key)) path =
      ((resolvedSection key tables).get (walked path)).bind LabelledTree.tag := by
    have hselected : (s.select (sectionProfile key)).values = .ok tables := h
    exact Stack.findMetadata_of_ok hselected path
  rw [suppliedAboveDefaults, hfound, SuppliedAbove]
  rcases (resolvedSection key tables).get (walked path) with - | v
  · simp
  · rcases htag : v.tag with - | m
    · simp [htag]
    · simp [htag]

/-! ### Firings on tables -/

/-- The tables after a firing: the section's own, with the value laid over it. -/
def Fill.tables (key : String) (tables : Tables) (f : Fill) : Tables := fun p ↦
  if p = sectionProfile key then
    LabelledTree.mergeTables (tables p)
      (LabelledTree.chain (some f.metadata) (segments f.destination)
        (f.value.mapTag (labelled f.metadata)))
  else tables p

theorem values_fill {s : Stack} {tables : Tables} (h : s.values = .ok tables) (key : String)
    (f : Fill) : (fill key s f).values = .ok (f.tables key tables) := by
  show (mergeData s.values (aliased key f)) = _
  rw [h]
  show Except.ok _ = Except.ok _
  congr 1
  funext p
  show LabelledTree.mergeTables (tables p) (suppliedTable f.metadata
    [(sectionProfile key, insertPath [] f.destination f.value)] p) = _
  rw [Fill.tables, suppliedTable, Entries.lookup_cons_eq]
  split
  · have hchain : insertPath [] f.destination f.value =
        LabelledTree.chain none (segments f.destination) f.value := rfl
    rw [Option.getD_some, hchain, LabelledTree.mapTagEntries_chain, labelled_none]
  · rw [List.lookup_nil, Option.getD_none, LabelledTree.mapTagEntries,
      LabelledTree.mergeTables_nil_right]

/-- A firing fills the middle one of the three trees of a section. -/
theorem resolvedSection_fill (key : String) (tables : Tables) (f : Fill) :
    resolvedSection key (f.tables key tables) =
      stacked (tables Profile.default).root
        (filledAt (some f.metadata) none (tables (sectionProfile key)).root
          (segments f.destination) (f.value.mapTag (labelled f.metadata)))
        (tables Profile.global).root := by
  rw [resolvedSection_eq, Fill.tables, Fill.tables, Fill.tables,
    if_neg (default_ne_sectionProfile key), if_neg (global_ne_sectionProfile key), if_pos rfl,
    Dict.root_mergeTables]
  rfl

/-! ### The property and the condition -/

/-- Only gaps were filled between two states of a figment: what was supplied above the defaults
shows what it showed, and what shows differently lies at or below a destination, or is a table that
was made on the way to one. -/
structure GapsOnly (key : String) (before after : Tables) (fills : List Fill) : Prop where
  supplied : ∀ p, SuppliedAbove key before p →
    (resolvedSection key after).peekAt p = (resolvedSection key before).peekAt p
  elsewhere : ∀ p,
    (resolvedSection key after).peekAt p ≠ (resolvedSection key before).peekAt p →
      (∃ f ∈ fills, segments f.destination <+: p) ∨
        ((∃ f ∈ fills, p <+: segments f.destination) ∧
          (resolvedSection key before).peekAt p = none ∧
            (resolvedSection key after).peekAt p = some none)

/-- The condition on a firing, in terms of the tables the pass started from: a scalar or list on the
way to the destination comes from the defaults and sits where an earlier alias has filled, and
whatever is supplied above the defaults where the value lands is what the value has there, or is
left alone by it. -/
structure FillsGap (key : String) (before : Tables) (earlier : List Fill) (f : Fill) : Prop where
  above : ∀ q r x, segments f.destination = q ++ r → r ≠ [] →
    (underGlobal key before).peekAt q = some (some x) →
      ¬ SuppliedAbove key before q ∧ ∃ g ∈ earlier, segments g.destination <+: q
  landing : ∀ r, SuppliedAbove key before (segments f.destination ++ r) →
    f.value.blocks r = false ∧ (f.value.peekAt r = none ∨
      f.value.peekAt r = (resolvedSection key before).peekAt (segments f.destination ++ r))

/-- A destination under a top-level key that nothing supplies is always a gap. -/
theorem fillsGap_of_new_key {key : String} {before : Tables} {earlier : List Fill} {f : Fill}
    {k : String} {ks : List String} (hf : segments f.destination = k :: ks)
    (hunder : (underGlobal key before).get [k] = none)
    (hresolved : (resolvedSection key before).get [k] = none) :
    FillsGap key before earlier f where
  above := by
    intro q r x hq _ hleaf
    rcases q with - | ⟨l, q⟩
    · rw [LabelledTree.peekAt, LabelledTree.get_nil, underGlobal, Option.map_some,
        LabelledTree.peek_merge] at hleaf
      cases hleaf
    · obtain ⟨rfl, -⟩ := List.cons.inj (hf.symm.trans hq)
      rw [LabelledTree.peekAt, ← List.singleton_append, LabelledTree.get_append, hunder] at hleaf
      cases hleaf
  landing := by
    rintro r ⟨v, m, hv, -, -⟩
    rw [hf, List.cons_append, ← List.singleton_append, LabelledTree.get_append, hresolved] at hv
    cases hv

/-- The places fills have been. -/
def destinations (fills : List Fill) : List (List String) :=
  fills.map fun f ↦ segments f.destination

theorem exists_mem_destinations {fills : List Fill} {P : List String → Prop} :
    (∃ d ∈ destinations fills, P d) ↔ ∃ f ∈ fills, P (segments f.destination) := by
  rw [destinations]
  constructor
  · rintro ⟨d, hd, hP⟩
    obtain ⟨f, hf, rfl⟩ := List.mem_map.1 hd
    exact ⟨f, hf, hP⟩
  · rintro ⟨f, hf, hP⟩
    exact ⟨_, List.mem_map_of_mem hf, hP⟩

theorem fitting_iff {key : String} {before : Tables} {earlier : List Fill} {f : Fill} :
    Fitting (before Profile.default).root (before (sectionProfile key)).root
        (before Profile.global).root (SuppliedAbove key before) (destinations earlier)
        (segments f.destination) (f.value.mapTag (labelled f.metadata)) ↔
      FillsGap key before earlier f := by
  constructor
  · rintro ⟨habove, hlanding⟩
    refine ⟨fun q r x hq hr hleaf ↦ ?_, fun r hr ↦ ?_⟩
    · obtain ⟨hnot, hfilled⟩ := habove q r x hq hr hleaf
      exact ⟨hnot, exists_mem_destinations.1 hfilled⟩
    · have hlands := hlanding r hr
      rw [LabelledTree.blocks_mapTag, LabelledTree.peekAt_mapTag] at hlands
      rw [resolvedSection_eq]
      exact hlands
  · rintro ⟨habove, hlanding⟩
    refine ⟨fun q r x hq hr hleaf ↦ ?_, fun r hr ↦ ?_⟩
    · obtain ⟨hnot, hfilled⟩ := habove q r x hq hr hleaf
      exact ⟨hnot, exists_mem_destinations.2 hfilled⟩
    · have hlands := hlanding r hr
      rw [resolvedSection_eq] at hlands
      rw [LabelledTree.blocks_mapTag, LabelledTree.peekAt_mapTag]
      exact hlands

/-! ### The pass -/

/-- The state of a run on tables, with what its firings have kept. -/
theorem Fills.kept {key : String} {pairs : List (String × String)} {start : Stack}
    {before : Tables} (hstart : start.values = .ok before) {fs : List Fill} {s : Stack}
    (h : Fills key pairs start fs s)
    (hgap : ∀ earlier f later, fs = earlier ++ f :: later → FillsGap key before earlier f) :
    ∃ after : Tables, s.values = .ok after ∧
      after Profile.default = before Profile.default ∧ after Profile.global = before Profile.global ∧
      LeavesFrom (before (sectionProfile key)).root (destinations fs)
        (after (sectionProfile key)).root ∧
      Kept (before Profile.default).root (before (sectionProfile key)).root
        (before Profile.global).root (SuppliedAbove key before) (destinations fs)
        (after (sectionProfile key)).root := by
  induction h with
  | nil => exact ⟨before, hstart, rfl, rfl, fun q x hq ↦ Or.inl hq, LabelledTree.kept_nil⟩
  | @snoc fs s f hrun hfires ih =>
    have hearlier : ∀ earlier g later, fs = earlier ++ g :: later →
        FillsGap key before earlier g := by
      intro earlier g later hfs
      refine hgap earlier g (later ++ [f]) ?_
      rw [hfs, List.append_assoc, List.cons_append]
    obtain ⟨after, hvalues, hdefault, hglobal, hleaves, hkept⟩ := ih hearlier
    have hfit := fitting_iff.2 (hgap fs f [] rfl)
    have hne := segments_ne_nil f.destination
    have hshows : ∀ p, SuppliedAbove key before p →
        (stacked (before Profile.default).root (before (sectionProfile key)).root
          (before Profile.global).root).peekAt p ≠ none := by
      intro p hp
      rw [← resolvedSection_eq]
      exact hp.shows
    have hown : (f.tables key after (sectionProfile key)).root =
        filledAt (some f.metadata) none (after (sectionProfile key)).root
          (segments f.destination) (f.value.mapTag (labelled f.metadata)) := by
      rw [Fill.tables, if_pos rfl, Dict.root_mergeTables]
      rfl
    have hdest : destinations (fs ++ [f]) = destinations fs ++ [segments f.destination] :=
      List.map_append
    refine ⟨f.tables key after, values_fill hvalues key f, ?_, ?_, ?_, ?_⟩
    · rw [Fill.tables, if_neg (default_ne_sectionProfile key), hdefault]
    · rw [Fill.tables, if_neg (global_ne_sectionProfile key), hglobal]
    · rw [hown, hdest]
      exact hleaves.fill _ _ hne _
    · rw [hown, hdest]
      exact hkept.fill hleaves hshows _ _ hne hfit

/-- What the three trees kept is what the section kept. -/
theorem gapsOnly_iff_kept {key : String} {before after : Tables} {fills : List Fill}
    (hdefault : after Profile.default = before Profile.default)
    (hglobal : after Profile.global = before Profile.global) :
    GapsOnly key before after fills ↔
      Kept (before Profile.default).root (before (sectionProfile key)).root
        (before Profile.global).root (SuppliedAbove key before) (destinations fills)
        (after (sectionProfile key)).root := by
  have hafter : resolvedSection key after = stacked (before Profile.default).root
      (after (sectionProfile key)).root (before Profile.global).root := by
    rw [resolvedSection_eq, hdefault, hglobal]
  have hbefore := resolvedSection_eq key before
  constructor
  · rintro ⟨hsupplied, helsewhere⟩
    rw [hafter, hbefore] at hsupplied helsewhere
    refine ⟨hsupplied, fun p hp ↦ ?_⟩
    rcases helsewhere p hp with hbelow | ⟨habove, hpeek⟩
    · exact Or.inl (exists_mem_destinations.2 hbelow)
    · exact Or.inr ⟨exists_mem_destinations.2 habove, hpeek⟩
  · rintro ⟨hsupplied, helsewhere⟩
    rw [← hafter, ← hbefore] at hsupplied helsewhere
    refine ⟨hsupplied, fun p hp ↦ ?_⟩
    rcases helsewhere p hp with hbelow | ⟨habove, hpeek⟩
    · exact Or.inl (exists_mem_destinations.1 hbelow)
    · exact Or.inr ⟨exists_mem_destinations.1 habove, hpeek⟩

/-- Tables along a run, whatever was filled. -/
theorem Fills.tables {key : String} {pairs : List (String × String)} {start : Stack}
    {before : Tables} (hstart : start.values = .ok before) {fs : List Fill} {s : Stack}
    (h : Fills key pairs start fs s) :
    ∃ after : Tables, s.values = .ok after ∧
      after Profile.default = before Profile.default ∧
        after Profile.global = before Profile.global := by
  induction h with
  | nil => exact ⟨before, hstart, rfl, rfl⟩
  | @snoc fs s f hrun hfires ih =>
    obtain ⟨after, hvalues, hdefault, hglobal⟩ := ih
    refine ⟨f.tables key after, values_fill hvalues key f, ?_, ?_⟩
    · rw [Fill.tables, if_neg (default_ne_sectionProfile key), hdefault]
    · rw [Fill.tables, if_neg (global_ne_sectionProfile key), hglobal]

/-- A run leaves a run at each of its firings. -/
theorem Fills.of_append {Fig : Type} [Figment Fig] {key : String} {pairs : List (String × String)}
    {start figment : Fig} {fs reached rest : List Fill} (h : Fills key pairs start fs figment)
    (hfs : fs = reached ++ rest) :
    Fills key pairs start reached (reached.foldl (fill key) start) := by
  induction h generalizing rest with
  | nil =>
    obtain ⟨rfl, -⟩ := List.append_eq_nil_iff.1 hfs.symm
    exact Fills.nil
  | @snoc fs figment f hrun hfires ih =>
    rcases List.eq_nil_or_concat rest with rfl | ⟨rest, g, rfl⟩
    · rw [List.append_nil] at hfs
      have hall := hrun.snoc hfires
      rw [hfs] at hall
      rw [← hall.eq_foldl]
      exact hall
    · rw [List.concat_eq_append, ← List.append_assoc] at hfs
      exact ih (List.append_inj' hfs rfl).1

/-- Nothing is carried in a figment that failed. -/
theorem foundAt_of_error {s : Stack} {e : FigmentError} (h : s.values = .error e)
    (key source destination : String) : foundAt s key source destination = none := by
  have hvalue : Figment.findValue (sourceOf s key source) (splitSection source).2 = .error e :=
    Stack.findValue_of_error (s := sourceOf s key source) h _
  exact foundAt_error hvalue destination

theorem Fills.eq_nil_of_error {key : String} {pairs : List (String × String)} {start s : Stack}
    {e : FigmentError} (hstart : start.values = .error e) {fs : List Fill}
    (h : Fills key pairs start fs s) : fs = [] := by
  rcases fs with - | ⟨f, fs⟩
  · rfl
  · obtain ⟨before, hbefore, hfires⟩ := h.fires_of_append (List.nil_append (f :: fs)).symm
    have hfound := hfires.found
    rw [hbefore.eq_foldl, List.foldl_nil, foundAt_of_error hstart] at hfound
    cases hfound

/-- Every firing of a pass met the condition. -/
def FiringsFillGaps (key : String) (before : Tables) (fills : List Fill) : Prop :=
  ∀ earlier f later, fills = earlier ++ f :: later → FillsGap key before earlier f

/-- In every state a pass reached, the last among them, only gaps had been filled. -/
def StatesFillGaps {Fig : Type} [Figment Fig] (key : String) (start : Fig) (before : Tables)
    (fills : List Fill) : Prop :=
  ∀ reached rest, fills = reached ++ rest →
    ∃ after, Figment.data (reached.foldl (fill key) start) = .ok after ∧
      GapsOnly key before after reached

/-- Nothing lies over what a section holds. -/
def NoGlobals (tables : Tables) : Prop :=
  ∀ p, p ≠ [] → (tables Profile.global).root.decides p = false

theorem Fills.statesFillGaps {key : String} {pairs : List (String × String)} {start s : Stack}
    {before : Tables} (hstart : start.values = .ok before) {fs : List Fill}
    (h : Fills key pairs start fs s) (hgaps : FiringsFillGaps key before fs) :
    StatesFillGaps key start before fs := by
  intro reached rest hfs
  have hearlier : FiringsFillGaps key before reached := by
    intro earlier f later hreached
    refine hgaps earlier f (later ++ rest) ?_
    rw [hfs, hreached, List.append_assoc, List.cons_append]
  obtain ⟨after, hvalues, hdefault, hglobal, -, hkept⟩ := (h.of_append hfs).kept hstart hearlier
  exact ⟨after, hvalues, (gapsOnly_iff_kept hdefault hglobal).2 hkept⟩

theorem Fills.firingsFillGaps {key : String} {pairs : List (String × String)} {start s : Stack}
    {before : Tables} (hstart : start.values = .ok before) (hglobals : NoGlobals before)
    {fs : List Fill} (h : Fills key pairs start fs s)
    (hstates : StatesFillGaps key start before fs) : FiringsFillGaps key before fs := by
  intro earlier f later hfs
  have hrun := h.of_append hfs
  obtain ⟨tables, hvalues, hdefault, hglobal⟩ := hrun.tables hstart
  obtain ⟨after, hafter, hgaps⟩ :=
    hstates (earlier ++ [f]) later (by rw [hfs, List.append_assoc]; rfl)
  -- The state after the firing is the firing of the state before it.
  have hfilled : f.tables key tables = after := by
    have hlast : (earlier ++ [f]).foldl (fill key) start =
        fill key (earlier.foldl (fill key) start) f := by
      rw [List.foldl_append]
      rfl
    have hvalues' := values_fill hvalues key f
    rw [hlast] at hafter
    exact Except.ok.inj (hvalues'.symm.trans hafter)
  subst hfilled
  have hdefault' : f.tables key tables Profile.default = before Profile.default := by
    rw [Fill.tables, if_neg (default_ne_sectionProfile key), hdefault]
  have hglobal' : f.tables key tables Profile.global = before Profile.global := by
    rw [Fill.tables, if_neg (global_ne_sectionProfile key), hglobal]
  have hkept := (gapsOnly_iff_kept hdefault' hglobal').1 hgaps
  have hown : (f.tables key tables (sectionProfile key)).root =
      filledAt (some f.metadata) none (tables (sectionProfile key)).root
        (segments f.destination) (f.value.mapTag (labelled f.metadata)) := by
    rw [Fill.tables, if_pos rfl, Dict.root_mergeTables]
    rfl
  have hdest : destinations (earlier ++ [f]) =
      destinations earlier ++ [segments f.destination] :=
    List.map_append
  rw [hown, hdest] at hkept
  refine fitting_iff.1 (Fitting.of_kept hglobals rfl (fun p hp ↦ ?_) _ _
    (segments_ne_nil f.destination) hkept)
  rw [← resolvedSection_eq]
  exact hp.shows

/-- **An alias fills a gap, under the condition the code leaves to chance.** The pass terminates, and
fills each destination at most once. Where every firing met the condition, only gaps had been
filled in every state the pass reached; and where no value sits in the reserved global profile, the
condition is met exactly then. -/
theorem aliasPass_fillsGaps {Fig : Type} [Figment Fig] [LawfulFigment Fig] (key : String)
    (pairs : List (String × String)) (figment : Fig) :
    ((aliasPass key pairs figment).progressed = false ∧
        ∀ fuel, pairs.length + 1 ≤ fuel →
          Pass.rounds key pairs fuel { figment, fills := [], progressed := true } =
            aliasPass key pairs figment) ∧
      ((aliasPass key pairs figment).fills.map Fill.destination).Nodup ∧
        (aliasPass key pairs figment).figment =
          (aliasPass key pairs figment).fills.foldl (fill key) figment ∧
            (∀ e, Figment.data figment = .error e → (aliasPass key pairs figment).fills = []) ∧
              ∀ before, Figment.data figment = .ok before →
                (FiringsFillGaps key before (aliasPass key pairs figment).fills →
                    StatesFillGaps key figment before (aliasPass key pairs figment).fills) ∧
                  (NoGlobals before →
                    StatesFillGaps key figment before (aliasPass key pairs figment).fills →
                      FiringsFillGaps key before (aliasPass key pairs figment).fills) := by
  have hrun := aliasPass_fills key pairs figment
  have hstack : (aliasPass key pairs (Figment.stack figment)).fills =
      (aliasPass key pairs figment).fills := by
    rw [← stack_aliasPass]
    rfl
  have hrun' : Fills key pairs (Figment.stack figment) (aliasPass key pairs figment).fills
      (aliasPass key pairs (Figment.stack figment)).figment := by
    rw [← hstack]
    exact aliasPass_fills key pairs (Figment.stack figment)
  have hreached : ∀ reached : List Fill,
      Figment.data (reached.foldl (fill key) figment) =
        (reached.foldl (fill key) (Figment.stack figment)).values := by
    intro reached
    rw [← stack_foldl_fill]
    rfl
  have hstates : ∀ before, StatesFillGaps key figment before (aliasPass key pairs figment).fills ↔
      StatesFillGaps key (Figment.stack figment) before (aliasPass key pairs figment).fills := by
    intro before
    constructor
    · intro h reached rest hfs
      obtain ⟨after, hafter, hgaps⟩ := h reached rest hfs
      exact ⟨after, (hreached reached).symm.trans hafter, hgaps⟩
    · intro h reached rest hfs
      obtain ⟨after, hafter, hgaps⟩ := h reached rest hfs
      exact ⟨after, (hreached reached).trans hafter, hgaps⟩
  refine ⟨progressed_aliasPass key pairs figment, hrun.nodup, hrun.eq_foldl,
    fun e he ↦ hrun'.eq_nil_of_error he, fun before hbefore ↦ ⟨fun h ↦ ?_, fun hglobals h ↦ ?_⟩⟩
  · exact (hstates before).2 (hrun'.statesFillGaps hbefore h)
  · exact hrun'.firingsFillGaps hbefore hglobals ((hstates before).1 h)

/-! ### One file and one alias -/

/-- One file's section `db`, merged into the empty figment. -/
def oneFile (values : Dict) : Stack :=
  Figment.merge Stack.new (Provider.table
    { name := "TOML file", source := some (.file "config.toml") } (sectionProfile "db") values)

/-- A file that has the old spelling only: the rename of `size` to `pool.max` fills one gap. -/
theorem statesFillGaps_of_old_spelling :
    let start := oneFile [("size", Node.scalar (.int 3))]
    let fills := (aliasPass "db" [("size", "pool.max")] start).fills
    fills.length = 1 ∧ ∃ before, Figment.data start = .ok before ∧
      StatesFillGaps "db" start before fills := by
  intro start fills
  have hdestinations : fills.map Fill.destination = ["pool.max"] := by rfl
  obtain ⟨before, hbefore, hunder, hresolved⟩ : ∃ before : Tables,
      Figment.data start = .ok before ∧ (underGlobal "db" before).get ["pool"] = none ∧
        (resolvedSection "db" before).get ["pool"] = none :=
    ⟨_, rfl, Option.isNone_iff_eq_none.1 (by decide), Option.isNone_iff_eq_none.1 (by decide)⟩
  obtain ⟨-, -, -, -, hgaps⟩ := aliasPass_fillsGaps "db" [("size", "pool.max")] start
  have hlen : fills.length = 1 :=
    (List.length_map Fill.destination).symm.trans (congrArg List.length hdestinations)
  refine ⟨hlen, before, hbefore, (hgaps before hbefore).1 ?_⟩
  intro earlier f later hfs
  have hmem : f.destination ∈ fills.map Fill.destination := by
    have hf : f ∈ fills := by
      show f ∈ (aliasPass "db" [("size", "pool.max")] start).fills
      rw [hfs]
      exact List.mem_append_right earlier List.mem_cons_self
    exact List.mem_map_of_mem hf
  have hsegments : segments f.destination = "pool" :: ["max"] := by
    rw [hdestinations, List.mem_singleton] at hmem
    rw [hmem]
    decide
  exact fillsGap_of_new_key hsegments hunder hresolved

/-- **A scalar above the destination is displaced.** The file says `pool = 5` and still has the old
`size`; the alias makes a table of `pool`. -/
theorem not_gapsOnly_of_scalar_above :
    let start := oneFile [("pool", Node.scalar (.int 5)), ("size", Node.scalar (.int 3))]
    ¬ ∀ before after, Figment.data start = .ok before →
      Figment.data (aliasPass "db" [("size", "pool.max")] start).figment = .ok after →
        GapsOnly "db" before after (aliasPass "db" [("size", "pool.max")] start).fills := by
  intro start h
  let file : Metadata := { name := "TOML file", source := some (.file "config.toml") }
  obtain ⟨before, hbefore, hpool, hglobal⟩ : ∃ before : Tables, Figment.data start = .ok before ∧
      (resolvedSection "db" before).get ["pool"] = some (.leaf (some file) (.scalar (.int 5))) ∧
        (before Profile.global).root.decides ["pool"] = false :=
    ⟨_, rfl, rfl, by decide⟩
  obtain ⟨f, hfills, hdestination⟩ : ∃ f,
      (aliasPass "db" [("size", "pool.max")] start).fills = [f] ∧ f.destination = "pool.max" :=
    ⟨_, rfl, rfl⟩
  have hfigment : (aliasPass "db" [("size", "pool.max")] start).figment = fill "db" start f := by
    rw [(aliasPass_fills "db" [("size", "pool.max")] start).eq_foldl, hfills]
    rfl
  have hafter : Figment.data (aliasPass "db" [("size", "pool.max")] start).figment =
      .ok (f.tables "db" before) := by
    rw [hfigment]
    exact values_fill hbefore "db" f
  have hkept := (h before _ hbefore hafter).supplied ["pool"]
    ⟨_, file, hpool, rfl, by decide⟩
  have hsegments : segments f.destination = ["pool"] ++ ["max"] := by
    rw [hdestination]
    decide
  have hpeek : (resolvedSection "db" before).peekAt ["pool"] = some (some (.scalar (.int 5))) := by
    rw [LabelledTree.peekAt, hpool]
    rfl
  rw [hpeek, resolvedSection_fill, stacked, LabelledTree.peekAt_merge_of_not_decides hglobal,
    LabelledTree.peekAt_merge,
    LabelledTree.peekAt_filledAt_above (List.cons_ne_nil _ _) hsegments] at hkept
  cases hkept

end DynamicConfig
