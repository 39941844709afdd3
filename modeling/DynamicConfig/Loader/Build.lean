import DynamicConfig.Loader.Origin

/-!
# The layers of a load

`layers` is the precedence order: one row per layer, with what it is called, when it has anything to
say, and how it merges itself into a figment. The composed load walks it from the empty figment, and
so does the per-layer explanation, one row at a time.

Every row does one thing: it settles on a list of providers, or fails, without looking at the
figment, and merges the list. `LayerDef.Lays` says so and `lays_layers` proves it of every row, so a
load is one list of providers in one order (`build_eq`), and a property of loads is a property of
such lists.
-/

namespace DynamicConfig

section Merges

variable {Fig : Type} [Figment Fig]

/-! ### Merging one source -/

/-- `sections::merge_file`. -/
def mergeFile (host : Host) (figment : Fig) (path : String) (format : Format) (layout : Layout) :
    Except Error Fig :=
  .ok (Figment.merge figment (sections (host.fileProvider format path) layout))

/-- `sections::merge_text`. -/
def mergeText (host : Host) (figment : Fig) (text : String) (format : Format) (layout : Layout) :
    Except Error Fig :=
  .ok (Figment.merge figment (sections (host.textProvider format text) layout))

/-- `sections::merge_named_text`. -/
def mergeNamedText (host : Host) (figment : Fig) (text : String) (format : Format) (name : String)
    (file : Option String) (layout : Layout) : Except Error Fig :=
  .ok (Figment.merge figment (named (sections (host.textProvider format text) layout) name file))

/-- `sections::merge_encrypted_file`. -/
def mergeEncryptedFile (host : Host) (figment : Fig) (path : String) (format : Format)
    (layout : Layout) : Except Error Fig :=
  match host.decrypted path with
  | .error e => .error e
  | .ok none => .ok figment
  | .ok (some plaintext) =>
    mergeNamedText host figment plaintext format path (some path) layout

/-- `sections::merge_profile_variant`. -/
def mergeProfileVariant (host : Host) (figment : Fig) (path : String) (format : Format)
    (profile : Option String) (layout : Layout) : Except Error Fig :=
  match profile with
  | none => .ok figment
  | some profile =>
    match profileVariant path profile with
    | none => .ok figment
    | some variant =>
      if (innerName variant.toList).isSome then mergeEncryptedFile host figment variant format layout
      else mergeFile host figment variant format layout

/-- `sections::merge`. -/
def mergeSource (host : Host) (figment : Fig) (source : Source) (layout : Layout) :
    Except Error Fig :=
  match source with
  | .provider p => .ok (Figment.merge figment (foreign p))
  | .encrypted path format => mergeEncryptedFile host figment path format layout
  | .file path format => mergeFile host figment path format layout
  | .inline text format => mergeText host figment text format layout

/-! ### Merging one layer -/

def mergeDefaults (_ : Host) (spec : LoadSpec) (figment : Fig) : Except Error Fig :=
  match spec.defaults with
  | some defaults =>
    .ok (Figment.merge figment (defaults.provider (sectionProfile spec.key) defaultsName))
  | none => .ok figment

def mergeDiscovered (host : Host) (spec : LoadSpec) (figment : Fig) : Except Error Fig := do
  let profile ← validatedProfile host spec
  let layout := Layout.of spec
  match spec.search with
  | some search =>
    (host.discovered search).foldlM (fun figment found ↦ do
      let figment ← mergeFile host figment found.1 found.2 layout
      mergeProfileVariant host figment found.1 found.2 profile layout) figment
  | none => .ok figment

def mergeListed (host : Host) (spec : LoadSpec) (figment : Fig) : Except Error Fig := do
  let profile ← validatedProfile host spec
  let layout := Layout.of spec
  spec.sources.foldlM (fun figment source ↦ do
    let figment ← mergeSource host figment source layout
    match source.path, source.format with
    | some path, some format => mergeProfileVariant host figment path format profile layout
    | _, _ => .ok figment) figment

def mergeRemote (host : Host) (spec : LoadSpec) (figment : Fig) : Except Error Fig :=
  match spec.remote with
  | some remote =>
    match remote.document with
    | some document =>
      mergeNamedText host figment document.text document.format
        (remotePrefix ++ remote.describe.getD "(unnamed)") none (Layout.of spec)
    | none => .ok figment
  | none => .ok figment

def mergeSecretsDir (host : Host) (spec : LoadSpec) (figment : Fig) : Except Error Fig := do
  match spec.secretsDir with
  | some directory =>
    let secrets ← secretProviders host directory spec
    .ok (mergeAll figment secrets)
  | none => .ok figment

/-- One `.env` file, read, checked where the checks are strict, and merged unless it is empty. -/
def mergeEnvFile (host : Host) (spec : LoadSpec) (start : String) (figment : Fig) (file : String) :
    Except Error Fig := do
  let entries ← readDotenv host file
  if entries = [] then .ok figment
  else
    match entries.find? fun e ↦ spec.strictEnv && isAmbiguous e.2 with
    | some e => .error ((ambiguous e.1).withOrigin (.file file))
    | none => .ok (Figment.merge figment
        (dotenvProvider host entries file start spec.key spec.nest spec.allowEmptyEnv))

def mergeEnvFiles (host : Host) (spec : LoadSpec) (figment : Fig) : Except Error Fig :=
  match spec.fullEnvPrefix with
  | none => .ok figment
  | some start => spec.envFiles.foldlM (mergeEnvFile host spec start) figment

def mergeEnvironment (host : Host) (spec : LoadSpec) (figment : Fig) : Except Error Fig := do
  match spec.fullEnvPrefix with
  | some start =>
    if spec.strictEnv then rejectAmbiguous host start
    .ok (Figment.merge figment (environment host start spec.key spec.nest spec.allowEmptyEnv))
  | none => .ok figment

/-- What the `.env` files say, for the bindings to fall back to. Later files win. -/
def envFileEntries (host : Host) (spec : LoadSpec) : Except Error (List (String × String)) :=
  let bound := match spec.envBindings with
    | some bindings => !bindings.entries.isEmpty
    | none => false
  if spec.envFiles.isEmpty || !bound then .ok []
  else
    spec.envFiles.foldlM (fun entries file ↦ do
      let new ← readDotenv host file
      .ok (new.foldl (fun entries e ↦ insertOrdered e.1 e.2 entries) entries)) []

def mergeBindings (host : Host) (spec : LoadSpec) (figment : Fig) : Except Error Fig := do
  match spec.envBindings with
  | some bindings =>
    let fallback ← envFileEntries host spec
    .ok (mergeAll figment (bindings.providers host spec.key spec.allowEmptyEnv fallback))
  | none => .ok figment

def mergeFlags (_ : Host) (spec : LoadSpec) (figment : Fig) : Except Error Fig :=
  match spec.flags with
  | some flags => .ok (Figment.merge figment (flags.provider (sectionProfile spec.key) flagsName))
  | none => .ok figment

def mergeOverrides (_ : Host) (spec : LoadSpec) (figment : Fig) : Except Error Fig :=
  match spec.overrides with
  | some overrides =>
    .ok (Figment.merge figment (overrides.provider (sectionProfile spec.key) overridesName))
  | none => .ok figment

end Merges

/-! ### The precedence order -/

/-- One layer of the precedence order. -/
structure LayerDef where
  name : String
  active : LoadSpec → Bool
  merge : ∀ {Fig : Type} [Figment Fig], Host → LoadSpec → Fig → Except Error Fig

/-- Whether a runtime layer is there and has anything to say. -/
def contributes (layer : Option Layer) : Bool :=
  match layer with
  | some layer => !layer.isEmpty
  | none => false

/-- The layers in precedence order, lowest first. -/
def layers : List LayerDef :=
  [{ name := "default", active := fun spec ↦ contributes spec.defaults, merge := mergeDefaults },
    { name := "discovered", active := fun spec ↦ spec.search.isSome, merge := mergeDiscovered },
    { name := "file", active := fun spec ↦ !spec.sources.isEmpty, merge := mergeListed },
    { name := "remote"
      active := fun spec ↦ (spec.remote.bind RemoteSlot.document).isSome
      merge := mergeRemote },
    { name := "secrets", active := fun spec ↦ spec.secretsDir.isSome, merge := mergeSecretsDir },
    { name := ".env", active := fun spec ↦ !spec.envFiles.isEmpty, merge := mergeEnvFiles },
    { name := "environment"
      active := fun spec ↦ spec.fullEnvPrefix.isSome
      merge := mergeEnvironment },
    { name := "binding"
      active := fun spec ↦
        match spec.envBindings with
        | some bindings => !bindings.entries.isEmpty
        | none => false
      merge := mergeBindings },
    { name := "flag", active := fun spec ↦ contributes spec.flags, merge := mergeFlags },
    { name := "override", active := fun spec ↦ contributes spec.overrides, merge := mergeOverrides }]

/-- Merge the active layers among some rows, in order. -/
def mergeLayers {Fig : Type} [Figment Fig] (host : Host) (spec : LoadSpec) (rows : List LayerDef)
    (figment : Fig) : Except Error Fig :=
  rows.foldlM (fun figment layer ↦
    if layer.active spec then layer.merge host spec figment else .ok figment) figment

/-- Assembles the providers for `spec`, in precedence order. -/
def build {Fig : Type} [Figment Fig] (host : Host) (spec : LoadSpec) : Except Error Fig := do
  let _ ← validatedProfile host spec
  mergeLayers host spec layers Figment.new

/-- Every active layer's name next to a figment holding only that layer. -/
def layerFigments {Fig : Type} [Figment Fig] (host : Host) (spec : LoadSpec) :
    Except Error (List (String × Fig)) := do
  let _ ← validatedProfile host spec
  (layers.filter fun layer ↦ layer.active spec).mapM fun layer ↦ do
    let figment ← layer.merge host spec Figment.new
    .ok (layer.name, Figment.select figment (sectionProfile spec.key))

/-! ### A layer is a list of providers -/

/-- The figment that remembers what was merged into it, and answers nothing. -/
structure Recorded where
  providers : List Provider

instance : Figment Recorded where
  new := ⟨[]⟩
  merge r p := ⟨r.providers ++ [p]⟩
  select r _ := r
  profile _ := Profile.default
  data _ := .ok fun _ ↦ []
  findValue _ path := .error (missing path)
  findMetadata _ _ := none
  contains _ _ := false
  extract _ read := read []

theorem providers_mergeAll (r : Recorded) (ps : List Provider) :
    (mergeAll r ps).providers = r.providers ++ ps := by
  induction ps generalizing r with
  | nil => exact (List.append_nil _).symm
  | cons p ps ih =>
    rw [mergeAll_cons, ih]
    exact List.append_assoc _ _ _

/-- A step that settles on some providers, or fails, whatever figment it is given. -/
def Laid (step : ∀ {Fig : Type} [Figment Fig], Fig → Except Error Fig) : Prop :=
  ∃ r : Except Error (List Provider), ∀ {Fig : Type} [Figment Fig] (figment : Fig),
    step figment = r.map (mergeAll figment)

/-- The providers a step settles on. -/
def recorded (step : ∀ {Fig : Type} [Figment Fig], Fig → Except Error Fig) :
    Except Error (List Provider) :=
  (step (Figment.new : Recorded)).map Recorded.providers

/-- **A laid step merges what it records**, into any figment. -/
theorem Laid.eq {step : ∀ {Fig : Type} [Figment Fig], Fig → Except Error Fig} (h : Laid step)
    {Fig : Type} [Figment Fig] (figment : Fig) :
    step figment = (recorded step).map (mergeAll figment) := by
  obtain ⟨r, hr⟩ := h
  have hnew : step (Figment.new : Recorded) = r.map (mergeAll Figment.new) := hr Figment.new
  have hrecorded : recorded step = r := by
    rw [recorded, hnew]
    rcases r with e | ps
    · rfl
    · show Except.ok (mergeAll (Figment.new : Recorded) ps).providers = Except.ok ps
      rw [providers_mergeAll]
      rfl
  rw [hrecorded]
  exact hr figment

theorem laid_ok : Laid fun figment ↦ .ok figment := ⟨.ok [], fun _ ↦ rfl⟩

theorem laid_error (e : Error) : Laid fun _ ↦ .error e := ⟨.error e, fun _ ↦ rfl⟩

theorem laid_mergeAll (ps : List Provider) : Laid fun figment ↦ .ok (mergeAll figment ps) :=
  ⟨.ok ps, fun _ ↦ rfl⟩

theorem laid_merge (p : Provider) : Laid fun figment ↦ .ok (Figment.merge figment p) :=
  laid_mergeAll [p]

theorem laid_bind {step step' : ∀ {Fig : Type} [Figment Fig], Fig → Except Error Fig}
    (h : Laid step) (h' : Laid step') : Laid fun figment ↦ step figment >>= step' := by
  obtain ⟨r, hr⟩ := h
  obtain ⟨r', hr'⟩ := h'
  refine ⟨r >>= fun ps ↦ r'.map (ps ++ ·), fun {Fig} _ figment ↦ ?_⟩
  have hstep : step figment = r.map (mergeAll figment) := hr figment
  show (step figment >>= step') = _
  rw [hstep]
  rcases r with e | ps
  · rfl
  · have hstep' : step' (mergeAll figment ps) = r'.map (mergeAll (mergeAll figment ps)) :=
      hr' (mergeAll figment ps)
    show step' (mergeAll figment ps) = _
    rw [hstep']
    rcases r' with e | qs
    · rfl
    · exact congrArg Except.ok (mergeAll_append figment ps qs).symm

theorem laid_foldlM {ι : Type*} {step : ι → ∀ {Fig : Type} [Figment Fig], Fig → Except Error Fig}
    (xs : List ι) (h : ∀ x ∈ xs, Laid (step x)) :
    Laid fun figment ↦ xs.foldlM (fun figment x ↦ step x figment) figment := by
  induction xs with
  | nil => exact laid_ok
  | cons x xs ih =>
    have hx := h x List.mem_cons_self
    have hxs := ih fun y hy ↦ h y (List.mem_cons_of_mem x hy)
    exact laid_bind hx hxs

/-! ### Every row is laid -/

theorem laid_mergeFile (host : Host) (path : String) (format : Format) (layout : Layout) :
    Laid fun figment ↦ mergeFile host figment path format layout :=
  laid_merge _

theorem laid_mergeEncryptedFile (host : Host) (path : String) (format : Format) (layout : Layout) :
    Laid fun figment ↦ mergeEncryptedFile host figment path format layout := by
  unfold mergeEncryptedFile
  rcases host.decrypted path with e | plaintext | plaintext
  · exact laid_error e
  · exact laid_ok
  · exact laid_merge _

theorem laid_mergeProfileVariant (host : Host) (path : String) (format : Format)
    (profile : Option String) (layout : Layout) :
    Laid fun figment ↦ mergeProfileVariant host figment path format profile layout := by
  unfold mergeProfileVariant
  rcases profile with - | profile
  · exact laid_ok
  · dsimp only
    rcases profileVariant path profile with - | other
    · exact laid_ok
    · dsimp only
      rcases (innerName other.toList).isSome with - | -
      · exact laid_mergeFile host other format layout
      · exact laid_mergeEncryptedFile host other format layout

theorem laid_mergeSource (host : Host) (source : Source) (layout : Layout) :
    Laid fun figment ↦ mergeSource host figment source layout := by
  rcases source with ⟨path, format⟩ | ⟨path, format⟩ | ⟨text, format⟩ | p
  · exact laid_mergeFile host path format layout
  · exact laid_mergeEncryptedFile host path format layout
  · exact laid_merge _
  · exact laid_merge _

theorem laid_mergeDefaults (host : Host) (spec : LoadSpec) : Laid (mergeDefaults host spec) := by
  unfold mergeDefaults
  rcases spec.defaults with - | defaults
  · exact laid_ok
  · exact laid_merge _

theorem laid_mergeDiscovered (host : Host) (spec : LoadSpec) :
    Laid (mergeDiscovered host spec) := by
  unfold mergeDiscovered
  rcases validatedProfile host spec with e | profile
  · exact laid_error e
  · rcases spec.search with - | search
    · exact laid_ok
    · exact laid_foldlM (host.discovered search) fun found _ ↦
        laid_bind (laid_mergeFile host found.1 found.2 _)
          (laid_mergeProfileVariant host found.1 found.2 profile _)

theorem laid_mergeListed (host : Host) (spec : LoadSpec) : Laid (mergeListed host spec) := by
  unfold mergeListed
  rcases validatedProfile host spec with e | profile
  · exact laid_error e
  · refine laid_foldlM spec.sources fun source _ ↦ laid_bind (laid_mergeSource host source _) ?_
    rcases source.path with - | path
    · exact laid_ok
    · rcases source.format with - | format
      · exact laid_ok
      · exact laid_mergeProfileVariant host path format profile _

theorem laid_mergeRemote (host : Host) (spec : LoadSpec) : Laid (mergeRemote host spec) := by
  unfold mergeRemote
  rcases spec.remote with - | remote
  · exact laid_ok
  · obtain ⟨document, describe⟩ := remote
    rcases document with - | document
    · exact laid_ok
    · exact laid_merge _

theorem laid_mergeSecretsDir (host : Host) (spec : LoadSpec) :
    Laid (mergeSecretsDir host spec) := by
  unfold mergeSecretsDir
  rcases spec.secretsDir with - | directory
  · exact laid_ok
  · dsimp only
    rcases secretProviders host directory spec with e | secrets
    · exact laid_error e
    · exact laid_mergeAll secrets

theorem laid_mergeEnvFile (host : Host) (spec : LoadSpec) (start file : String) :
    Laid fun figment ↦ mergeEnvFile host spec start figment file := by
  unfold mergeEnvFile
  rcases readDotenv host file with e | entries
  · exact laid_error e
  · by_cases hnil : entries = []
    · subst hnil
      exact laid_ok
    · rcases hfind : entries.find? fun e ↦ spec.strictEnv && isAmbiguous e.2 with - | e
      · refine ⟨.ok [dotenvProvider host entries file start spec.key spec.nest spec.allowEmptyEnv],
          fun figment ↦ ?_⟩
        show (if entries = [] then _ else _) = _
        rw [if_neg hnil, hfind]
        rfl
      · refine ⟨.error ((ambiguous e.1).withOrigin (.file file)), fun figment ↦ ?_⟩
        show (if entries = [] then _ else _) = _
        rw [if_neg hnil, hfind]
        rfl

theorem laid_mergeEnvFiles (host : Host) (spec : LoadSpec) : Laid (mergeEnvFiles host spec) := by
  unfold mergeEnvFiles
  rcases spec.fullEnvPrefix with - | start
  · exact laid_ok
  · exact laid_foldlM spec.envFiles fun file _ ↦ laid_mergeEnvFile host spec start file

theorem laid_mergeEnvironment (host : Host) (spec : LoadSpec) :
    Laid (mergeEnvironment host spec) := by
  unfold mergeEnvironment
  rcases spec.fullEnvPrefix with - | start
  · exact laid_ok
  · dsimp only
    rcases spec.strictEnv with - | -
    · exact laid_merge _
    · rcases rejectAmbiguous host start with e | -
      · exact laid_error e
      · exact laid_merge _

theorem laid_mergeBindings (host : Host) (spec : LoadSpec) : Laid (mergeBindings host spec) := by
  unfold mergeBindings
  rcases spec.envBindings with - | bindings
  · exact laid_ok
  · rcases envFileEntries host spec with e | fallback
    · exact laid_error e
    · exact laid_mergeAll _

theorem laid_mergeFlags (host : Host) (spec : LoadSpec) : Laid (mergeFlags host spec) := by
  unfold mergeFlags
  rcases spec.flags with - | flags
  · exact laid_ok
  · exact laid_merge _

theorem laid_mergeOverrides (host : Host) (spec : LoadSpec) : Laid (mergeOverrides host spec) := by
  unfold mergeOverrides
  rcases spec.overrides with - | overrides
  · exact laid_ok
  · exact laid_merge _

/-- **Every row of the precedence order is laid.** -/
theorem laid_of_mem_layers {row : LayerDef} (h : row ∈ layers) (host : Host) (spec : LoadSpec) :
    Laid (row.merge host spec) := by
  simp only [layers, List.mem_cons, List.not_mem_nil, or_false] at h
  rcases h with rfl | rfl | rfl | rfl | rfl | rfl | rfl | rfl | rfl | rfl
  · exact laid_mergeDefaults host spec
  · exact laid_mergeDiscovered host spec
  · exact laid_mergeListed host spec
  · exact laid_mergeRemote host spec
  · exact laid_mergeSecretsDir host spec
  · exact laid_mergeEnvFiles host spec
  · exact laid_mergeEnvironment host spec
  · exact laid_mergeBindings host spec
  · exact laid_mergeFlags host spec
  · exact laid_mergeOverrides host spec

/-- Merging any rows of the order is laid. -/
theorem laid_mergeLayers {rows : List LayerDef} (h : rows ⊆ layers) (host : Host)
    (spec : LoadSpec) : Laid (mergeLayers host spec rows) := by
  refine laid_foldlM rows fun row hrow ↦ ?_
  by_cases hactive : row.active spec = true
  · simp only [hactive, if_true]
    exact laid_of_mem_layers (h hrow) host spec
  · simp only [hactive]
    exact laid_ok

/-- The providers of a load, in precedence order. -/
def loadProviders (host : Host) (spec : LoadSpec) : Except Error (List Provider) := do
  let _ ← validatedProfile host spec
  recorded (mergeLayers host spec layers)

/-- **A load is a list of providers**, merged in precedence order. -/
theorem build_eq {Fig : Type} [Figment Fig] (host : Host) (spec : LoadSpec) :
    (build host spec : Except Error Fig) =
      (loadProviders host spec).map (mergeAll Figment.new) := by
  have hlaid : Laid (mergeLayers host spec layers) :=
    laid_mergeLayers (List.Subset.refl _) host spec
  rw [build, loadProviders]
  rcases validatedProfile host spec with e | profile
  · rfl
  · exact hlaid.eq Figment.new

end DynamicConfig
