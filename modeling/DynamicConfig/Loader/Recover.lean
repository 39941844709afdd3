import DynamicConfig.Loader.AliasesPass
import DynamicConfig.Loader.Build

/-!
# Recovery

A load that fails can start from the cache: `recover` merges the cached tree, then the layers above
the files, then runs the alias pass, and resolves the section. It writes the layer order out a second
time instead of walking the rows of `layers`.

`standIn` is what the rows make of the same situation: the cached tree in the place of everything
below the `.env` files, then the rows from there on. The two agree on the `.env` files, the
environment and the bindings. They part at the last two rows: a load files the flags and the
overrides under the profile of the section, recovery files them under a profile named by the bare
key, which the section never selects. So recovery keeps the precedence of a load exactly when those
two layers say nothing (`keepsPrecedence_iff`).
-/

namespace DynamicConfig

/-! ### The merged figment -/

/-- The composed figment: every layer merged, aliases applied, the section selected. -/
def merged {Fig : Type} [Figment Fig] (host : Host) (spec : LoadSpec) : Except Error Fig := do
  let figment ← build host spec
  .ok (Figment.select (applyAliases figment spec) (sectionProfile spec.key))

/-- The resolved table of a figment: `figment.extract::<Dict>()`. -/
def resolvedTable {Fig : Type} [Figment Fig] (host : Host) (spec : LoadSpec) (figment : Fig) :
    Except Error Dict :=
  (Figment.extract figment fun table ↦ .ok table).mapError (convert host spec)

/-- The section of a load, read by a type: `loader::load`. -/
def load {T : Type} (Fig : Type) [Figment Fig] (host : Host) (spec : LoadSpec)
    (read : Dict → Except FigmentError T) : Except Error T := do
  let figment : Fig ← merged host spec
  (Figment.extract figment read).mapError (convert host spec)

/-- A load reads the section of the figment the alias pass leaves. -/
theorem load_of_data {T Fig : Type} [Figment Fig] [LawfulFigment Fig] {host : Host}
    {spec : LoadSpec} {figment : Fig} {tables : Profile → Dict}
    (hbuild : build host spec = .ok figment)
    (hdata : Figment.data (applyAliases figment spec) = .ok tables)
    (read : Dict → Except FigmentError T) :
    load Fig host spec read =
      (read (combine (sectionProfile spec.key) tables)).mapError (convert host spec) := by
  have hstack : (Figment.stack (applyAliases figment spec)).values = .ok tables := hdata
  rw [load, merged, hbuild]
  show Except.mapError _ (Figment.extract
    (Figment.select (applyAliases figment spec) (sectionProfile spec.key)) read) = _
  rw [LawfulFigment.extract_eq, LawfulFigment.stack_select, Stack.extract, Stack.combined,
    Stack.select, hstack]
  rfl

/-! ### Recovery -/

/-- The cached tree as a provider: `Cached`. -/
def cachedProvider (values : Dict) (profile : Profile) : Provider :=
  Provider.table (Metadata.named cachedName) profile values

/-- The figment recovery extracts from. -/
def recoveredFigment {Fig : Type} [Figment Fig] (host : Host) (spec : LoadSpec) (cached : Dict) :
    Except Error Fig := do
  let figment : Fig :=
    Figment.merge Figment.new (cachedProvider cached (sectionProfile spec.key))
  let figment ← mergeEnvFiles host spec figment
  let figment ← (match spec.fullEnvPrefix with
    | some start => do
      if spec.strictEnv then rejectAmbiguous host start
      .ok (Figment.merge figment (environment host start spec.key spec.nest spec.allowEmptyEnv))
    | none => .ok figment)
  let figment ← (match spec.envBindings with
    | some bindings => do
      let fallback ← envFileEntries host spec
      .ok (mergeAll figment (bindings.providers host spec.key spec.allowEmptyEnv fallback))
    | none => .ok figment)
  -- The profile here is the bare key, not the section's.
  let figment := (match spec.flags with
    | some flags => Figment.merge figment (flags.provider (Profile.from spec.key) flagsName)
    | none => figment)
  let figment := (match spec.overrides with
    | some overrides =>
      Figment.merge figment (overrides.provider (Profile.from spec.key) overridesName)
    | none => figment)
  .ok (Figment.select (applyAliases figment spec) (sectionProfile spec.key))

/-- Loads with `cached` standing in for the files: the configuration, and the resolved tree it was
read from. -/
def recover (Fig : Type) [Figment Fig] {T : Type} (host : Host) (spec : LoadSpec) (cached : Dict)
    (read : Dict → Except FigmentError T) : Except Error (T × Dict) := do
  let figment : Fig ← recoveredFigment host spec cached
  let resolved ← resolvedTable host spec figment
  let config ← (Figment.extract figment read).mapError (convert host spec)
  .ok (config, resolved)

/-! ### The rows of a load, over the cached tree -/

/-- The rows above everything the cached tree stands in for: `.env` files and up. -/
def aboveFiles : List LayerDef := layers.drop 5

example : aboveFiles.map LayerDef.name = [".env", "environment", "binding", "flag", "override"] :=
  rfl

/-- The figment the rows of a load make of the cached tree. -/
def standIn {Fig : Type} [Figment Fig] (host : Host) (spec : LoadSpec) (cached : Dict) :
    Except Error Fig := do
  let figment ← mergeLayers host spec aboveFiles
    (Figment.merge Figment.new (cachedProvider cached (sectionProfile spec.key)))
  .ok (Figment.select (applyAliases figment spec) (sectionProfile spec.key))

/-- The section that recovery resolves. -/
def recoveredSection (Fig : Type) [Figment Fig] (host : Host) (spec : LoadSpec) (cached : Dict) :
    Except Error Dict :=
  (recover Fig host spec cached fun table ↦ .ok table).map Prod.snd

/-- The section the rows of a load resolve over the cached tree. -/
def standInSection (Fig : Type) [Figment Fig] (host : Host) (spec : LoadSpec) (cached : Dict) :
    Except Error Dict := do
  let figment : Fig ← standIn host spec cached
  resolvedTable host spec figment

/-- The same failure, or tables that show the same everywhere. -/
def SameSection : Except Error Dict → Except Error Dict → Prop
  | .ok a, .ok b => Dict.SameValues a b
  | .error a, .error b => a = b
  | _, _ => False

theorem sameSection_refl (a : Except Error Dict) : SameSection a a := by
  rcases a with e | table
  · exact rfl
  · exact fun p ↦ rfl

/-- Recovery keeps the precedence of a load, for one section key and the two runtime layers a load
merges last: whatever else is configured, found on the host or cached, the section it resolves is
the one the rows of a load make of the cached tree; and what a load shows at a path one of the two
layers sets, it shows there. -/
structure KeepsPrecedence (key : String) (flags overrides : Option Layer) : Prop where
  standIn : ∀ (Fig : Type) [Figment Fig] [LawfulFigment Fig] (host : Host) (spec : LoadSpec)
    (cached : Dict), spec.key = key → spec.flags = flags → spec.overrides = overrides →
      SameSection (recoveredSection Fig host spec cached) (standInSection Fig host spec cached)
  kept : ∀ (Fig : Type) [Figment Fig] [LawfulFigment Fig] (host : Host) (spec : LoadSpec)
    (cached : Dict), spec.key = key → spec.flags = flags → spec.overrides = overrides →
      ∀ layer ∈ [flags, overrides], ∀ set ∈ layer, ∀ e ∈ set.entries,
        ∀ (figment : Fig) (loaded recovered : Dict), merged host spec = .ok figment →
          resolvedTable host spec figment = .ok loaded →
            recoveredSection Fig host spec cached = .ok recovered →
              recovered.root.peekAt (segments e.1) = loaded.root.peekAt (segments e.1)

/-! ### Layers that say nothing -/

/-- The table of a runtime layer, empty where there is none. -/
def layerDict (layer : Option Layer) : Dict :=
  (layer.map Layer.dict).getD []

theorem contributes_eq_false_iff (layer : Option Layer) :
    contributes layer = false ↔ layerDict layer = [] := by
  rcases layer with - | layer
  · exact iff_of_true rfl rfl
  · show (!layer.isEmpty) = false ↔ layer.dict = []
    rw [Layer.dict_eq_nil_iff, Bool.not_eq_false']

/-- Merging an empty table changes nothing. -/
theorem Stack.merge_table_nil (s : Stack) (metadata : Metadata) (profile : Profile) :
    s.merge (Provider.table metadata profile []) = s := by
  obtain ⟨selected, values⟩ := s
  rcases values with e | values
  · rfl
  · show Stack.mk selected (Except.ok _) = Stack.mk selected (Except.ok values)
    congr 2
    funext p
    show LabelledTree.mergeTables (values p) (suppliedTable metadata [(profile, [])] p) = values p
    rw [suppliedTable, Entries.lookup_cons_eq]
    split
    · exact LabelledTree.mergeTables_nil_right _
    · exact LabelledTree.mergeTables_nil_right _

/-- Merging a runtime layer where there is one. -/
def mergeRuntime {Fig : Type} [Figment Fig] (layer : Option Layer) (profile : Profile)
    (name : String) (figment : Fig) : Fig :=
  match layer with
  | some layer => Figment.merge figment (layer.provider profile name)
  | none => figment

/-- Merging a runtime layer where there is one and it says anything. -/
def mergeActive {Fig : Type} [Figment Fig] (layer : Option Layer) (profile : Profile)
    (name : String) (figment : Fig) : Fig :=
  if contributes layer then mergeRuntime layer profile name figment else figment

section Lawful

variable {Fig : Type} [Figment Fig] [LawfulFigment Fig]

theorem stack_mergeRuntime (layer : Option Layer) (profile : Profile) (name : String)
    (figment : Fig) :
    Figment.stack (mergeRuntime layer profile name figment) =
      (Figment.stack figment).merge
        (Provider.table (Metadata.named name) profile (layerDict layer)) := by
  rcases layer with - | layer
  · exact (Stack.merge_table_nil _ _ _).symm
  · exact LawfulFigment.stack_merge figment _

/-- Leaving out a layer that says nothing makes no difference. -/
theorem stack_mergeActive (layer : Option Layer) (profile : Profile) (name : String)
    (figment : Fig) :
    Figment.stack (mergeActive layer profile name figment) =
      Figment.stack (mergeRuntime layer profile name figment) := by
  rw [mergeActive]
  split
  · rfl
  · next hsilent =>
    have hnil := (contributes_eq_false_iff layer).1 (Bool.eq_false_iff.2 hsilent)
    rw [stack_mergeRuntime, hnil, Stack.merge_table_nil]

/-- Figments with one stack resolve to one section. -/
theorem resolvedTable_congr {Fig' : Type} [Figment Fig'] [LawfulFigment Fig'] {f : Fig} {g : Fig'}
    (h : Figment.stack f = Figment.stack g) (host : Host) (spec : LoadSpec) :
    resolvedTable host spec f = resolvedTable host spec g := by
  rw [resolvedTable, resolvedTable, LawfulFigment.extract_eq, LawfulFigment.extract_eq, h]

end Lawful

/-! ### The two orders, row by row -/

section Rows

variable {Fig : Type} [Figment Fig]

/-- The layers both orders merge alike. -/
def mergeShared (host : Host) (spec : LoadSpec) (figment : Fig) : Except Error Fig := do
  let figment ← mergeEnvFiles host spec figment
  let figment ← mergeEnvironment host spec figment
  mergeBindings host spec figment

theorem recoveredFigment_eq (host : Host) (spec : LoadSpec) (cached : Dict) :
    (recoveredFigment host spec cached : Except Error Fig) =
      (mergeShared host spec
        (Figment.merge Figment.new (cachedProvider cached (sectionProfile spec.key)))).map
          fun figment ↦ Figment.select (applyAliases
            (mergeRuntime spec.overrides (Profile.from spec.key) overridesName
              (mergeRuntime spec.flags (Profile.from spec.key) flagsName figment)) spec)
            (sectionProfile spec.key) := by
  show (mergeEnvFiles host spec _ >>= fun f ↦ mergeEnvironment host spec f >>= fun f ↦
    mergeBindings host spec f >>= _) = Except.map _ (mergeEnvFiles host spec _ >>= fun f ↦
      mergeEnvironment host spec f >>= fun f ↦ mergeBindings host spec f)
  rcases mergeEnvFiles host spec
    (Figment.merge Figment.new (cachedProvider cached (sectionProfile spec.key)) : Fig) with e | f
  · rfl
  · show (mergeEnvironment host spec f >>= _) = Except.map _ (mergeEnvironment host spec f >>= _)
    rcases mergeEnvironment host spec f with e | f
    · rfl
    · show (mergeBindings host spec f >>= _) = Except.map _ (mergeBindings host spec f)
      rcases mergeBindings host spec f with e | f
      · rfl
      · rfl

omit [Figment Fig] in
/-- An inactive row merges nothing, so whether it is asked is all the same. -/
theorem ite_active_eq {active : Bool} {step : Except Error Fig} {figment : Fig}
    (h : active = false → step = .ok figment) :
    (if active then step else .ok figment) = step := by
  rcases active with - | -
  · exact (h rfl).symm
  · rfl

theorem mergeEnvFiles_eq (host : Host) (spec : LoadSpec) (figment : Fig) :
    (if !spec.envFiles.isEmpty then mergeEnvFiles host spec figment else .ok figment) =
      mergeEnvFiles host spec figment := by
  refine ite_active_eq fun h ↦ ?_
  rw [Bool.not_eq_false', List.isEmpty_iff] at h
  rw [mergeEnvFiles, h]
  rcases spec.fullEnvPrefix with - | start
  · rfl
  · rfl

theorem mergeEnvironment_eq (host : Host) (spec : LoadSpec) (figment : Fig) :
    (if spec.fullEnvPrefix.isSome then mergeEnvironment host spec figment else .ok figment) =
      mergeEnvironment host spec figment := by
  refine ite_active_eq fun h ↦ ?_
  rw [Option.isSome_eq_false_iff, Option.isNone_iff_eq_none] at h
  rw [mergeEnvironment, h]

theorem mergeBindings_eq (host : Host) (spec : LoadSpec) (figment : Fig) :
    (if (match spec.envBindings with
      | some bindings => !bindings.entries.isEmpty
      | none => false) then mergeBindings host spec figment else .ok figment) =
      mergeBindings host spec figment := by
  refine ite_active_eq fun h ↦ ?_
  rcases hbindings : spec.envBindings with - | bindings
  · rw [mergeBindings, hbindings]
  · rw [hbindings] at h
    have hnil : bindings.entries.isEmpty = true := by
      rwa [Bool.not_eq_false'] at h
    have hfallback : envFileEntries host spec = .ok [] := by
      rw [envFileEntries, hbindings]
      show (if (spec.envFiles.isEmpty || !(!bindings.entries.isEmpty)) = true then _ else _) = _
      rw [hnil, Bool.not_true, Bool.not_false, Bool.or_true, if_pos rfl]
    have hproviders : bindings.providers host spec.key spec.allowEmptyEnv [] = [] := by
      rw [EnvBindings.providers, List.isEmpty_iff.1 hnil]
      rfl
    rw [mergeBindings, hbindings]
    show (envFileEntries host spec >>= _) = _
    rw [hfallback]
    show Except.ok (mergeAll figment _) = _
    rw [hproviders]
    rfl

theorem mergeFlags_eq (host : Host) (spec : LoadSpec) (figment : Fig) :
    (if contributes spec.flags then mergeFlags host spec figment else .ok figment) =
      .ok (mergeActive spec.flags (sectionProfile spec.key) flagsName figment) := by
  rw [mergeActive, mergeFlags]
  split
  · rcases spec.flags with - | flags
    · rfl
    · rfl
  · rfl

theorem mergeOverrides_eq (host : Host) (spec : LoadSpec) (figment : Fig) :
    (if contributes spec.overrides then mergeOverrides host spec figment else .ok figment) =
      .ok (mergeActive spec.overrides (sectionProfile spec.key) overridesName figment) := by
  rw [mergeActive, mergeOverrides]
  split
  · rcases spec.overrides with - | overrides
    · rfl
    · rfl
  · rfl

/-- The rows above the files merge the shared layers, then the two runtime layers. -/
theorem mergeLayers_aboveFiles (host : Host) (spec : LoadSpec) (figment : Fig) :
    mergeLayers host spec aboveFiles figment =
      (mergeShared host spec figment).map fun figment ↦
        mergeActive spec.overrides (sectionProfile spec.key) overridesName
          (mergeActive spec.flags (sectionProfile spec.key) flagsName figment) := by
  have hrows : mergeLayers host spec aboveFiles figment =
      (if !spec.envFiles.isEmpty then mergeEnvFiles host spec figment else .ok figment) >>=
        fun f : Fig ↦
          (if spec.fullEnvPrefix.isSome then mergeEnvironment host spec f else .ok f) >>=
            fun f : Fig ↦
              (if (match spec.envBindings with
                | some bindings => !bindings.entries.isEmpty
                | none => false) then mergeBindings host spec f else .ok f) >>= fun f : Fig ↦
                  (if contributes spec.flags then mergeFlags host spec f else .ok f) >>=
                    fun f : Fig ↦ (if contributes spec.overrides then mergeOverrides host spec f
                      else .ok f) >>= fun f : Fig ↦ .ok f := rfl
  simp only [mergeEnvFiles_eq, mergeEnvironment_eq, mergeBindings_eq, mergeFlags_eq,
    mergeOverrides_eq] at hrows
  rw [hrows, mergeShared]
  rcases mergeEnvFiles host spec figment with e | f
  · rfl
  · show mergeEnvironment host spec f >>= _ = Except.map _ (mergeEnvironment host spec f >>= _)
    rcases mergeEnvironment host spec f with e | f
    · rfl
    · show mergeBindings host spec f >>= _ = Except.map _ (mergeBindings host spec f)
      rcases mergeBindings host spec f with e | f
      · rfl
      · rfl

theorem standIn_eq (host : Host) (spec : LoadSpec) (cached : Dict) :
    (standIn host spec cached : Except Error Fig) =
      (mergeShared host spec
        (Figment.merge Figment.new (cachedProvider cached (sectionProfile spec.key)))).map
          fun figment ↦ Figment.select (applyAliases
            (mergeActive spec.overrides (sectionProfile spec.key) overridesName
              (mergeActive spec.flags (sectionProfile spec.key) flagsName figment)) spec)
            (sectionProfile spec.key) := by
  rw [standIn, mergeLayers_aboveFiles]
  rcases mergeShared host spec
    (Figment.merge Figment.new (cachedProvider cached (sectionProfile spec.key)) : Fig) with e | f
  · rfl
  · rfl

end Rows

/-! ### Where the two orders agree -/

theorem recoveredSection_eq (Fig : Type) [Figment Fig] (host : Host) (spec : LoadSpec)
    (cached : Dict) :
    recoveredSection Fig host spec cached =
      (recoveredFigment host spec cached : Except Error Fig) >>= resolvedTable host spec := by
  rw [recoveredSection, recover]
  rcases (recoveredFigment host spec cached : Except Error Fig) with e | f
  · rfl
  · show Except.map Prod.snd (resolvedTable host spec f >>= fun resolved ↦
      resolvedTable host spec f >>= fun config ↦ .ok (config, resolved)) = resolvedTable host spec f
    rcases resolvedTable host spec f with e | table
    · rfl
    · rfl

/-- **With nothing in the last two layers, recovery is a load of the cached tree.** -/
theorem keepsPrecedence_of_silent {key : String} {flags overrides : Option Layer}
    (hflags : contributes flags = false) (hoverrides : contributes overrides = false) :
    KeepsPrecedence key flags overrides where
  standIn := by
    intro Fig _ _ host spec cached hkey hspecFlags hspecOverrides
    have hsame : recoveredSection Fig host spec cached = standInSection Fig host spec cached := by
      rw [recoveredSection_eq, standInSection, recoveredFigment_eq, standIn_eq, hspecFlags,
        hspecOverrides]
      rcases mergeShared host spec
        (Figment.merge Figment.new (cachedProvider cached (sectionProfile spec.key)) : Fig) with
        e | f
      · rfl
      · refine resolvedTable_congr ?_ host spec
        have hnil₁ := (contributes_eq_false_iff flags).1 hflags
        have hnil₂ := (contributes_eq_false_iff overrides).1 hoverrides
        rw [LawfulFigment.stack_select, LawfulFigment.stack_select, stack_applyAliases,
          stack_applyAliases, stack_mergeActive, stack_mergeRuntime, stack_mergeRuntime,
          stack_mergeRuntime, stack_mergeActive, stack_mergeRuntime, hnil₁, hnil₂,
          Stack.merge_table_nil, Stack.merge_table_nil, Stack.merge_table_nil,
          Stack.merge_table_nil]
    rw [hsame]
    exact sameSection_refl _
  kept := by
    intro Fig _ _ host spec cached _ _ _ layer hlayer set hset e he
    have hempty : set.entries = [] := by
      have hsilent : contributes layer = false := by
        rcases List.mem_cons.1 hlayer with rfl | hlayer
        · exact hflags
        · rw [List.mem_singleton] at hlayer
          exact hlayer ▸ hoverrides
      obtain rfl := Option.mem_def.1 hset
      have hisEmpty : (!set.isEmpty) = false := hsilent
      rw [Bool.not_eq_false', Layer.isEmpty, List.isEmpty_iff] at hisEmpty
      exact hisEmpty
    rw [hempty] at he
    exact absurd he List.not_mem_nil

/-! ### Where they part -/

/-- A machine with nothing on it. -/
def Host.bare : Host where
  vars := []
  discovered _ := []
  fileProvider _ path := Provider.table (Metadata.named path) Profile.default []
  textProvider _ _ := Provider.table (Metadata.named inlineSuffix) Profile.default []
  decrypted _ := .ok none
  secretFiles _ := .ok none
  envFileText _ := .ok none
  envProvider _ _ _ profile := Provider.table (Metadata.named envSuffix) profile []
  parseValue := Node.text
  display _ := "configuration error"

/-- Two tables merged under one profile. -/
def twoTables (profile : Profile) (lower upper : Metadata × Dict) : Stack :=
  (Stack.new.merge (Provider.table lower.1 profile lower.2)).merge
    (Provider.table upper.1 profile upper.2)

theorem suppliedTable_of_ne (metadata : Metadata) {profile p : Profile} (h : p ≠ profile)
    (values : Dict) : suppliedTable metadata [(profile, values)] p = [] := by
  rw [suppliedTable, Entries.lookup_cons_eq, if_neg h]
  rfl

theorem suppliedTable_self (metadata : Metadata) (profile : Profile) (values : Dict) :
    suppliedTable metadata [(profile, values)] profile =
      LabelledTree.mapTagEntries (labelled metadata) values := by
  rw [suppliedTable, Entries.lookup_cons_eq, if_pos rfl]
  rfl

/-- What two tables show in a section they are not filed under: nothing. -/
theorem combined_twoTables_of_ne {key : String} {profile : Profile} (hcustom : profile.isCustom)
    (hne : profile ≠ sectionProfile key) (lower upper : Metadata × Dict) :
    ((twoTables profile lower upper).select (sectionProfile key)).combined = .ok [] := by
  have hnil : ∀ p, p ≠ profile → LabelledTree.mergeTables (LabelledTree.mergeTables []
      (suppliedTable lower.1 [(profile, lower.2)] p))
        (suppliedTable upper.1 [(profile, upper.2)] p) = [] := by
    intro p hp
    rw [suppliedTable_of_ne _ hp, suppliedTable_of_ne _ hp, LabelledTree.mergeTables_nil_right,
      LabelledTree.mergeTables_nil_right]
  have hdefault : Profile.default ≠ profile := by
    rintro rfl
    exact absurd hcustom (by decide)
  have hglobal : Profile.global ≠ profile := by
    rintro rfl
    exact absurd hcustom (by decide)
  show Except.ok (combine (sectionProfile key) fun p ↦ LabelledTree.mergeTables
    (LabelledTree.mergeTables [] (suppliedTable lower.1 [(profile, lower.2)] p))
      (suppliedTable upper.1 [(profile, upper.2)] p)) = .ok []
  rw [combine, isCustom_sectionProfile, if_pos rfl, hnil _ hdefault, hnil _ hne.symm,
    hnil _ hglobal, LabelledTree.mergeTables_nil_right, LabelledTree.mergeTables_nil_right]

/-- What they show in their own: one laid over the other. -/
theorem combined_twoTables (key : String) (lower upper : Metadata × Dict) :
    ((twoTables (sectionProfile key) lower upper).select (sectionProfile key)).combined =
      .ok (LabelledTree.mergeTables (LabelledTree.mapTagEntries (labelled lower.1) lower.2)
        (LabelledTree.mapTagEntries (labelled upper.1) upper.2)) := by
  have hnil : ∀ p, p ≠ sectionProfile key → LabelledTree.mergeTables (LabelledTree.mergeTables []
      (suppliedTable lower.1 [(sectionProfile key, lower.2)] p))
        (suppliedTable upper.1 [(sectionProfile key, upper.2)] p) = [] := by
    intro p hp
    rw [suppliedTable_of_ne _ hp, suppliedTable_of_ne _ hp, LabelledTree.mergeTables_nil_right,
      LabelledTree.mergeTables_nil_right]
  show Except.ok (combine (sectionProfile key) fun p ↦ LabelledTree.mergeTables
    (LabelledTree.mergeTables [] (suppliedTable lower.1 [(sectionProfile key, lower.2)] p))
      (suppliedTable upper.1 [(sectionProfile key, upper.2)] p)) = _
  rw [combine, isCustom_sectionProfile, if_pos rfl,
    hnil Profile.default (default_ne_sectionProfile key),
    hnil Profile.global (global_ne_sectionProfile key), suppliedTable_self, suppliedTable_self,
    LabelledTree.mergeTables_nil_left, LabelledTree.mergeTables_nil_left,
    LabelledTree.mergeTables_nil_right]

/-- A table that shows nothing has nothing in it. -/
theorem eq_nil_of_sameValues_nil {table : Dict} (h : Dict.SameValues [] table) : table = [] := by
  refine Entries.eq_nil_of_lookup_eq_none fun k ↦ ?_
  have hk := h [k]
  have hnothing : Dict.root [] = (LabelledTree.node none [] : Node) := rfl
  rw [hnothing, LabelledTree.peekAt, LabelledTree.peekAt, LabelledTree.get_node_cons] at hk
  rcases hlook : table.lookup k with - | v
  · rfl
  · rw [Dict.root, LabelledTree.get_node_cons, hlook] at hk
    simp at hk

theorem mapTagEntries_eq_nil {metadata : Metadata} {table : Dict}
    (h : LabelledTree.mapTagEntries (labelled metadata) table = []) : table = [] := by
  rcases table with - | ⟨⟨k, v⟩, es⟩
  · rfl
  · rw [LabelledTree.mapTagEntries] at h
    cases h

theorem mergeTables_eq_nil {a b : Dict} (h : LabelledTree.mergeTables a b = []) :
    a = [] ∧ b = [] := by
  have hlookup : ∀ k, ((b.lookup k).map fun v ↦ LabelledTree.mergeOver (a.lookup k) v).or
      (a.lookup k) = none := by
    intro k
    rw [← LabelledTree.lookup_mergeTables, h]
    rfl
  constructor
  · refine Entries.eq_nil_of_lookup_eq_none fun k ↦ ?_
    exact (Option.or_eq_none_iff.1 (hlookup k)).2
  · refine Entries.eq_nil_of_lookup_eq_none fun k ↦ ?_
    exact Option.map_eq_none_iff.1 (Option.or_eq_none_iff.1 (hlookup k)).1

/-- **Where a runtime layer says anything, recovery drops it**: on a bare machine with an empty
cache, the section shows what the layer says in a load and nothing in a recovery. -/
theorem silent_of_keepsPrecedence {key : String} (hkey : (Profile.from key).isCustom = true)
    {flags overrides : Option Layer} (h : KeepsPrecedence key flags overrides) :
    contributes flags = false ∧ contributes overrides = false := by
  let spec : LoadSpec := { key, flags, overrides }
  have hsame := h.standIn Stack Host.bare spec [] rfl rfl rfl
  have hstart : (Figment.merge Figment.new (cachedProvider [] (sectionProfile key)) : Stack) =
      Stack.new :=
    Stack.merge_table_nil _ _ _
  have hrecovered : recoveredSection Stack Host.bare spec [] = .ok [] := by
    have hstack : mergeRuntime overrides (Profile.from key) overridesName
        (mergeRuntime flags (Profile.from key) flagsName Stack.new) =
        twoTables (Profile.from key) (Metadata.named flagsName, layerDict flags)
          (Metadata.named overridesName, layerDict overrides) := by
      have h₁ := stack_mergeRuntime flags (Profile.from key) flagsName Stack.new
      have h₂ := stack_mergeRuntime overrides (Profile.from key) overridesName
        (mergeRuntime flags (Profile.from key) flagsName Stack.new)
      rw [h₁] at h₂
      exact h₂
    rw [recoveredSection_eq, recoveredFigment_eq]
    show resolvedTable Host.bare spec (Figment.select (mergeRuntime overrides (Profile.from key)
      overridesName (mergeRuntime flags (Profile.from key) flagsName
        (Figment.merge Figment.new (cachedProvider [] (sectionProfile key))))) (sectionProfile key) :
          Stack) = _
    rw [hstart, hstack]
    show ((Except.bind ((twoTables _ _ _).select (sectionProfile key)).combined _).mapError _) = _
    rw [combined_twoTables_of_ne hkey (from_ne_sectionProfile key)]
    rfl
  have hstandIn : standInSection Stack Host.bare spec [] =
      .ok (LabelledTree.mergeTables
        (LabelledTree.mapTagEntries (labelled (Metadata.named flagsName)) (layerDict flags))
        (LabelledTree.mapTagEntries (labelled (Metadata.named overridesName)) (layerDict overrides))) := by
    have hstack : mergeActive overrides (sectionProfile key) overridesName
        (mergeActive flags (sectionProfile key) flagsName Stack.new) =
        twoTables (sectionProfile key) (Metadata.named flagsName, layerDict flags)
          (Metadata.named overridesName, layerDict overrides) := by
      have h₁ := (stack_mergeActive flags (sectionProfile key) flagsName Stack.new).trans
        (stack_mergeRuntime flags (sectionProfile key) flagsName Stack.new)
      have h₂ := (stack_mergeActive overrides (sectionProfile key) overridesName
        (mergeActive flags (sectionProfile key) flagsName Stack.new)).trans
        (stack_mergeRuntime overrides (sectionProfile key) overridesName
          (mergeActive flags (sectionProfile key) flagsName Stack.new))
      rw [h₁] at h₂
      exact h₂
    rw [standInSection, standIn_eq]
    show resolvedTable Host.bare spec (Figment.select (mergeActive overrides (sectionProfile key)
      overridesName (mergeActive flags (sectionProfile key) flagsName
        (Figment.merge Figment.new (cachedProvider [] (sectionProfile key))))) (sectionProfile key) :
          Stack) = _
    rw [hstart, hstack]
    show ((Except.bind ((twoTables _ _ _).select (sectionProfile key)).combined _).mapError _) = _
    rw [combined_twoTables]
    rfl
  rw [hrecovered, hstandIn] at hsame
  obtain ⟨hflags, hoverrides⟩ := mergeTables_eq_nil (eq_nil_of_sameValues_nil hsame)
  exact ⟨(contributes_eq_false_iff flags).2 (mapTagEntries_eq_nil hflags),
    (contributes_eq_false_iff overrides).2 (mapTagEntries_eq_nil hoverrides)⟩

/-- **When recovery keeps the precedence of a load**: exactly when neither the flags nor the
overrides say anything. -/
theorem keepsPrecedence_iff {key : String} (hkey : (Profile.from key).isCustom = true)
    (flags overrides : Option Layer) :
    KeepsPrecedence key flags overrides ↔
      contributes flags = false ∧ contributes overrides = false :=
  ⟨silent_of_keepsPrecedence hkey, fun h ↦ keepsPrecedence_of_silent h.1 h.2⟩

/-- The section `db` with neither flags nor overrides. -/
theorem keepsPrecedence_db :
    (Profile.from "db").isCustom = true ∧ KeepsPrecedence "db" none (some Layer.new) :=
  ⟨by decide, (keepsPrecedence_iff (by decide) none (some Layer.new)).2 ⟨rfl, rfl⟩⟩

/-- `--port 9000` on the command line. -/
def portFlag : Layer :=
  ⟨[("port", Node.scalar (.int 9000))], List.pairwise_singleton _ _⟩

/-- **A flag is lost in recovery.** -/
theorem not_keepsPrecedence_of_flag : ¬ KeepsPrecedence "db" (some portFlag) none := by
  intro h
  have hsilent := (silent_of_keepsPrecedence (by decide) h).1
  exact absurd hsilent (by decide)

end DynamicConfig
