import DynamicConfig.Watch.Relevance

/-!
# The watch and the files a load reads

A load decides which files it reads (a listed path, a discovered one, the profile variant of either)
and the watch decides which paths matter, each from the specification and apart from the other.

What a load reads is a list of sources: the variants are sources too, so the two file layers are one
fold over `withVariants` (`mergeListed_eq`, `mergeDiscovered_eq`), and `reads` are the paths in it.
The watch keeps the listed paths as they are written and the name of the search. So it sees a listed
file unless its path begins with `.`, and a discovered one where the search has a name a file can
have; a profile variant it sees only by chance. `seesReads_iff` says which chance.
-/

namespace DynamicConfig

open UnixPath (Path parse absolute)

/-! ### What a load reads -/

/-- The profile variant of a file, as a source of its own. -/
def Source.variant (profile : Option String) (source : Source) : Option Source :=
  match source.path, source.format with
  | some path, some format =>
    (profile.bind (profileVariant path)).map fun variant ↦
      if (innerName variant.toList).isSome then .encrypted variant format else .file variant format
  | _, _ => none

/-- Some sources, each with its variant behind it. -/
def withVariants (profile : Option String) (sources : List Source) : List Source :=
  sources.flatMap fun source ↦ source :: (source.variant profile).toList

/-- The files a search finds, as sources. -/
def discoveredSources (host : Host) (spec : LoadSpec) : List Source :=
  match spec.search with
  | some search => (host.discovered search).map fun found ↦ .file found.1 found.2
  | none => []

/-- The paths of the files the two file layers read; none where the profile is refused. -/
def reads (host : Host) (spec : LoadSpec) : List String :=
  match validatedProfile host spec with
  | .ok profile =>
    (withVariants profile (discoveredSources host spec ++ spec.sources)).filterMap Source.path
  | .error _ => []

section Merges

variable {Fig : Type} [Figment Fig]

theorem mergeProfileVariant_eq (host : Host) (figment : Fig) (profile : Option String)
    (layout : Layout) {source : Source} {path : String} {format : Format}
    (hpath : source.path = some path) (hformat : source.format = some format) :
    mergeProfileVariant host figment path format profile layout =
      (source.variant profile).toList.foldlM (fun figment s ↦ mergeSource host figment s layout)
        figment := by
  rw [Source.variant, hpath, hformat]
  rcases profile with - | profile
  · rfl
  · dsimp only [mergeProfileVariant]
    rw [Option.bind_some]
    rcases profileVariant path profile with - | variant
    · rfl
    · rw [Option.map_some, Option.toList_some]
      simp only [List.foldlM_cons, List.foldlM_nil, bind_pure]
      split_ifs <;> rfl

theorem foldlM_withVariants (host : Host) (profile : Option String) (layout : Layout)
    (sources : List Source) (figment : Fig) :
    (withVariants profile sources).foldlM (fun figment s ↦ mergeSource host figment s layout)
        figment =
      sources.foldlM (fun figment source ↦
        (source :: (source.variant profile).toList).foldlM
          (fun figment s ↦ mergeSource host figment s layout) figment) figment := by
  induction sources generalizing figment with
  | nil => rfl
  | cons source sources ih =>
    rw [withVariants, List.flatMap_cons, List.foldlM_append, List.foldlM_cons]
    exact bind_congr fun merged ↦ ih merged

/-- **The listed layer is a fold over the listed sources with their variants.** -/
theorem mergeListed_eq (host : Host) (spec : LoadSpec) (figment : Fig) :
    mergeListed host spec figment = validatedProfile host spec >>= fun profile ↦
      (withVariants profile spec.sources).foldlM
        (fun figment s ↦ mergeSource host figment s (Layout.of spec)) figment := by
  unfold mergeListed
  refine bind_congr fun profile ↦ ?_
  rw [foldlM_withVariants]
  refine congrArg (fun step ↦ List.foldlM step figment spec.sources) ?_
  funext figment source
  rw [List.foldlM_cons]
  rcases source with ⟨path, format⟩ | ⟨path, format⟩ | ⟨text, format⟩ | p
  · exact bind_congr fun merged ↦ mergeProfileVariant_eq host merged profile _ rfl rfl
  · exact bind_congr fun merged ↦ mergeProfileVariant_eq host merged profile _ rfl rfl
  all_goals rfl

/-- **The discovered layer is a fold over the discovered files with their variants.** -/
theorem mergeDiscovered_eq (host : Host) (spec : LoadSpec) (figment : Fig) :
    mergeDiscovered host spec figment = validatedProfile host spec >>= fun profile ↦
      (withVariants profile (discoveredSources host spec)).foldlM
        (fun figment s ↦ mergeSource host figment s (Layout.of spec)) figment := by
  unfold mergeDiscovered discoveredSources
  refine bind_congr fun profile ↦ ?_
  rcases spec.search with - | search
  · rfl
  · rw [foldlM_withVariants, List.foldlM_map]
    refine congrArg (fun step ↦ List.foldlM step figment (host.discovered search)) ?_
    funext figment found
    rw [List.foldlM_cons]
    exact bind_congr fun merged ↦ mergeProfileVariant_eq host merged profile _ rfl rfl

end Merges

/-! ### What the watch sees of it -/

/-- An event about a path, as the watch reports changes: a creation, a modification or a removal
that carries the path. -/
def Event.About (event : Event) (path : Path) : Prop :=
  (event.kind = .create ∨ event.kind = .modify ∨ event.kind = .remove) ∧ path ∈ event.paths

/-- Every event about the absolute path of a file a load reads is relevant. -/
def SeesReads (host : Host) (spec : LoadSpec) (cwd : List (List Char)) : Prop :=
  ∀ path ∈ reads host spec, ∀ event : Event,
    event.About (absolute cwd (parse path.toList)) →
      (relevantPath event (Watched.fromSpec host spec)).isSome = true

/-- Whether a path is noticed under its absolute name. -/
def Seen (host : Host) (spec : LoadSpec) (cwd : List (List Char)) (path : String) : Prop :=
  Noticed (Watched.fromSpec host spec) (absolute cwd (parse path.toList))

/-- A name that the file of a search can have: the name of a file, and not a path. -/
def Search.IsPlain (search : Search) : Prop :=
  search.name ≠ "" ∧ '/' ∉ search.name.toList

/-- Where the watch may be blind, it is not: a listed path that begins with `.`, a file discovered
under a name that is a path, and a profile variant are noticed for another reason. -/
structure Complete (host : Host) (spec : LoadSpec) (cwd : List (List Char))
    (profile : Option String) : Prop where
  leading : ∀ source ∈ spec.sources, ∀ path, source.path = some path →
    (parse path.toList).head? = some .curDir → Seen host spec cwd path
  misnamed : ∀ search, spec.search = some search → ¬search.IsPlain →
    ∀ found ∈ host.discovered search, Seen host spec cwd found.1
  variants : ∀ source ∈ discoveredSources host spec ++ spec.sources, ∀ variant,
    source.variant profile = some variant → ∀ path, variant.path = some path →
      Seen host spec cwd path

/-- Seeing what a load reads is noticing each of its paths. -/
theorem seesReads_iff_seen (host : Host) (spec : LoadSpec) (cwd : List (List Char)) :
    SeesReads host spec cwd ↔ ∀ path ∈ reads host spec, Seen host spec cwd path := by
  refine forall₂_congr fun path _ ↦ ?_
  have hhead := UnixPath.head?_absolute cwd (parse path.toList)
  constructor
  · intro h
    have hsome := h ⟨.modify, [absolute cwd (parse path.toList)]⟩
      ⟨.inr (.inl rfl), List.mem_singleton_self _⟩
    obtain ⟨-, changed, hchanged, hours⟩ := isSome_relevantPath_iff.1 hsome
    obtain rfl := List.mem_singleton.1 hchanged
    exact (isOurs_iff host spec hhead).1 hours
  · rintro h event ⟨hkind, hmem⟩
    exact isSome_relevantPath_iff.2 ⟨hkind, _, hmem, (isOurs_iff host spec hhead).2 h⟩

theorem mem_reads_iff {host : Host} {spec : LoadSpec} {profile : Option String}
    (h : validatedProfile host spec = .ok profile) {path : String} :
    path ∈ reads host spec ↔
      ∃ source ∈ discoveredSources host spec ++ spec.sources, source.path = some path ∨
        ∃ variant, source.variant profile = some variant ∧ variant.path = some path := by
  rw [reads, h]
  simp only [List.mem_filterMap, withVariants, List.mem_flatMap, List.mem_cons, Option.mem_toList]
  constructor
  · rintro ⟨s, ⟨source, hsource, rfl | hvariant⟩, hpath⟩
    · exact ⟨s, hsource, .inl hpath⟩
    · exact ⟨source, hsource, .inr ⟨s, hvariant, hpath⟩⟩
  · rintro ⟨source, hsource, hpath | ⟨variant, hvariant, hpath⟩⟩
    · exact ⟨source, ⟨source, hsource, .inl rfl⟩, hpath⟩
    · exact ⟨variant, ⟨source, hsource, .inr hvariant⟩, hpath⟩

/-- A listed path is seen as it is spelled, unless its spelling begins with `.`. -/
theorem seen_listed {host : Host} {spec : LoadSpec} (cwd : List (List Char)) {source : Source}
    {path : String} (hsource : source ∈ spec.sources) (hpath : source.path = some path)
    (h : (parse path.toList).head? ≠ some .curDir) : Seen host spec cwd path :=
  .spelled (mem_files_iff.2 ⟨source, hsource, path, hpath, rfl⟩)
    (UnixPath.suffix_absolute cwd h)

theorem mem_resolve {host : Host} {isFile : String → Bool} {search : Search}
    {found : String × Format} (h : found ∈ search.resolve host isFile) :
    ∃ directory extension, (extension, found.2) ∈ extensions ∧
      found.1 = search.candidate directory extension := by
  obtain ⟨listed, -, hlisted⟩ := List.mem_filterMap.1 h
  obtain ⟨directory, -, hfind⟩ := Option.bind_eq_some_iff.1 hlisted
  obtain ⟨e, he, rfl⟩ := List.mem_map.1 (List.mem_of_find?_eq_some hfind)
  exact ⟨directory, e.1, he, rfl⟩

/-- What a search with a plain name finds is seen by that name. -/
theorem seen_discovered {host : Host} {isFile : String → Bool} {spec : LoadSpec} {search : Search}
    (cwd : List (List Char)) (hsearch : spec.search = some search) (hplain : search.IsPlain)
    {found : String × Format} (h : found ∈ (host.on isFile).discovered search) :
    Seen (host.on isFile) spec cwd found.1 := by
  obtain ⟨directory, extension, hextension, hfound⟩ := mem_resolve h
  obtain ⟨hdot, hsep, hnil, -⟩ := extension_spec hextension
  obtain ⟨hname, hsepName⟩ := hplain
  set file := search.name ++ "." ++ extension with hfile
  have htext : file.toList = search.name.toList ++ '.' :: extension.toList := by
    rw [hfile, String.toList_append, String.toList_append, List.append_assoc]
    rfl
  have hsepFile : '/' ∉ file.toList := by
    rw [htext, List.mem_append, List.mem_cons]
    rintro (hmem | hmem | hmem)
    · exact hsepName hmem
    · exact absurd hmem (by decide)
    · exact hsep hmem
  have hcomponent : UnixPath.component file.toList = some (.normal file.toList) := by
    have hpos := List.length_pos_iff.2 hnil
    have hpos' := List.length_pos_iff.2 (fun h ↦ hname (String.toList_eq_nil_iff.1 h))
    have hlength : 3 ≤ file.toList.length := by
      rw [htext, List.length_append, List.length_cons]
      omega
    rw [UnixPath.component, if_neg, if_neg]
    · intro hdots
      rw [hdots] at hlength
      exact absurd hlength (by decide)
    · rintro (hdots | hdots)
      all_goals
        rw [hdots] at hlength
        exact absurd hlength (by decide)
  have hfileName := UnixPath.fileName_absolute cwd
    (UnixPath.fileName_join directory.toList hsepFile hcomponent)
  have hwatched : (Watched.fromSpec (host.on isFile) spec).searchName = some search.name := by
    rw [Watched.fromSpec, hsearch]
    rfl
  refine .named hwatched (isCandidate_of_fileName hextension hname ?_)
  rw [hfound, Search.candidate, String.toList_ofList]
  exact hfileName

/-- With the blind spots covered, every path a load reads is seen. -/
theorem Complete.seen {host : Host} {isFile : String → Bool} {spec : LoadSpec}
    {cwd : List (List Char)} {profile : Option String}
    (h : Complete (host.on isFile) spec cwd profile)
    (hprofile : validatedProfile (host.on isFile) spec = .ok profile) {path : String}
    (hmem : path ∈ reads (host.on isFile) spec) : Seen (host.on isFile) spec cwd path := by
  obtain ⟨source, hsource, hpath | ⟨variant, hvariant, hpath⟩⟩ := (mem_reads_iff hprofile).1 hmem
  · rcases List.mem_append.1 hsource with hdiscovered | hlisted
    · -- a discovered file is seen by its name, if the search has one
      rcases hsearch : spec.search with - | search
      · rw [discoveredSources, hsearch] at hdiscovered
        exact absurd hdiscovered List.not_mem_nil
      · rw [discoveredSources, hsearch] at hdiscovered
        obtain ⟨found, hfound, rfl⟩ := List.mem_map.1 hdiscovered
        obtain rfl := Option.some_inj.1 hpath
        by_cases hplain : search.IsPlain
        · exact seen_discovered cwd hsearch hplain hfound
        · exact h.misnamed search hsearch hplain found hfound
    · -- a listed one as it is spelled, if its spelling is an ending
      by_cases hlead : (parse path.toList).head? = some .curDir
      · exact h.leading source hlisted path hpath hlead
      · exact seen_listed cwd hlisted hpath hlead
  · exact h.variants source hsource variant hvariant path hpath

/-- Without a profile, nothing is left to chance where no listed path begins with `.` and the search
has a plain name. -/
theorem complete_of_unprofiled (host : Host) {spec : LoadSpec} (cwd : List (List Char))
    (hleading : ∀ source ∈ spec.sources, ∀ path, source.path = some path →
      (parse path.toList).head? ≠ some .curDir)
    (hplain : ∀ search, spec.search = some search → search.IsPlain) :
    Complete host spec cwd none where
  leading source hsource path hpath hlead := absurd hlead (hleading source hsource path hpath)
  misnamed search hsearch hname := absurd (hplain search hsearch) hname
  variants source _ variant hvariant := by
    rcases source with _ | _ | _ | _
    all_goals exact absurd hvariant (by simp [Source.variant, Source.path, Source.format])

/-- **The watch sees what a load reads exactly where its blind spots are covered.** -/
theorem seesReads_iff (host : Host) (isFile : String → Bool) (spec : LoadSpec)
    (cwd : List (List Char)) :
    SeesReads (host.on isFile) spec cwd ↔
      ∀ profile, validatedProfile (host.on isFile) spec = .ok profile →
        Complete (host.on isFile) spec cwd profile := by
  rw [seesReads_iff_seen]
  constructor
  · intro h profile hprofile
    refine ⟨fun source hsource path hpath _ ↦ ?_, fun search hsearch _ found hfound ↦ ?_,
      fun source hsource variant hvariant path hpath ↦ ?_⟩
    · exact h path ((mem_reads_iff hprofile).2
        ⟨source, List.mem_append_right _ hsource, .inl hpath⟩)
    · have hmem : Source.file found.1 found.2 ∈ discoveredSources (host.on isFile) spec := by
        rw [discoveredSources, hsearch]
        exact List.mem_map_of_mem hfound
      exact h found.1 ((mem_reads_iff hprofile).2 ⟨_, List.mem_append_left _ hmem, .inl rfl⟩)
    · exact h path ((mem_reads_iff hprofile).2
        ⟨source, hsource, .inr ⟨variant, hvariant, hpath⟩⟩)
  · intro h path hmem
    rcases hprofile : validatedProfile (host.on isFile) spec with e | profile
    · -- a refused profile stops the load before it reads
      rw [reads, hprofile] at hmem
      exact absurd hmem List.not_mem_nil
    · exact (h profile hprofile).seen hprofile hmem

/-- One listed file, with the profile taken from `APP_ENV`. -/
def listing (path : String) : LoadSpec :=
  { key := "app", sources := [.file path .toml], profileEnv := some "APP_ENV" }

/-- A machine without files whose `APP_ENV` is set. -/
def profiled (profile : String) : Host :=
  { Host.bare with vars := [("APP_ENV", profile)] }

/-- A change to the production variant of the one listed file goes unseen; so does one to the file
itself, listed behind a `.`. -/
theorem not_seesReads :
    ¬SeesReads ((profiled "production").on fun _ ↦ false) (listing "config.toml")
        ["srv".toList, "app".toList] ∧
      ¬SeesReads ((profiled "").on fun _ ↦ false) (listing "./config.toml")
        ["srv".toList, "app".toList] := by
  refine ⟨fun h ↦ ?_, fun h ↦ ?_⟩
  · have hread : "config.production.toml" ∈
        reads ((profiled "production").on fun _ ↦ false) (listing "config.toml") := by decide
    have hours : isOurs (absolute ["srv".toList, "app".toList] (parse "config.production.toml".toList))
        (Watched.fromSpec ((profiled "production").on fun _ ↦ false) (listing "config.toml")) =
          false := by decide
    have hseen := (seesReads_iff_seen _ _ _).1 h _ hread
    exact absurd ((isOurs_iff _ _ (UnixPath.head?_absolute _ _)).2 hseen)
      (ne_true_of_eq_false hours)
  · have hread : "./config.toml" ∈
        reads ((profiled "").on fun _ ↦ false) (listing "./config.toml") := by decide
    have hours : isOurs (absolute ["srv".toList, "app".toList] (parse "./config.toml".toList))
        (Watched.fromSpec ((profiled "").on fun _ ↦ false) (listing "./config.toml")) = false := by
      decide
    have hseen := (seesReads_iff_seen _ _ _).1 h _ hread
    exact absurd ((isOurs_iff _ _ (UnixPath.head?_absolute _ _)).2 hseen)
      (ne_true_of_eq_false hours)

end DynamicConfig
