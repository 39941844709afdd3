import DynamicConfig.Cache.Write

/-!
# Which events are about our files

Whole directories are watched, so most events are about something else. `relevantPath` picks the
first path of an event that is one of ours: a listed file, by comparing the components of the two
paths from the end; a file a search would find, by its name alone; or the bookkeeping entry of a
directory that is remounted under a new name.

An event's paths are absolute and a listed path is as it was written. For an absolute path the three
tests come to three ways of being noticed (`isOurs_iff`), and only the first looks at how a listed
path is spelled.
-/

namespace DynamicConfig

open UnixPath (Path parse absolute)

/-! ### Discovery -/

/-- Extensions tried in each directory, in order. -/
def extensions : List (String × Format) :=
  [("toml", .toml), ("json", .json), ("yaml", .yaml), ("yml", .yaml)]

/-- Expands a leading `~`. One that cannot be expanded drops the directory. -/
def expandHome (host : Host) (path : String) : Option String :=
  match path.toList with
  | '~' :: rest =>
    ((host.var "HOME").or (host.var "USERPROFILE")).map fun home ↦
      let rest := rest.dropWhile fun c ↦ decide (c = '/' ∨ c = '\\')
      if rest = [] then home else String.ofList (UnixPath.join home.toList rest)
  | _ => some path

/-- The file a search looks for in a directory, under one extension. -/
def Search.candidate (search : Search) (directory extension : String) : String :=
  String.ofList (UnixPath.join directory.toList (search.name ++ "." ++ extension).toList)

/-- `Search::resolve`: of every directory, the first candidate that is a file. -/
def Search.resolve (host : Host) (isFile : String → Bool) (search : Search) :
    List (String × Format) :=
  search.paths.filterMap fun directory ↦
    (expandHome host directory).bind fun directory ↦
      (extensions.map fun e ↦ (search.candidate directory e.1, e.2)).find? fun c ↦ isFile c.1

/-- A host that searches the files of a disk. -/
def Host.on (host : Host) (isFile : String → Bool) : Host :=
  { host with discovered := Search.resolve host isFile }

/-- Directories a watcher should listen to for a search, existing or not. -/
def Search.searchDirectories (host : Host) (search : Search) : List String :=
  search.paths.filterMap (expandHome host)

/-- `Path::file_stem`, of a file name. -/
def fileStem (name : List Char) : List Char :=
  ((stemAndExtension name).map Prod.fst).getD name

/-- Whether a path looks like a file a search of this name could find. -/
def isCandidate (path : Path) (name : String) : Bool :=
  match UnixPath.fileName path with
  | none => false
  | some file =>
    if String.ofList (fileStem file) ≠ name then false
    else
      (((stemAndExtension file).map Prod.snd).bind fun extension ↦
        Format.fromExtension (String.ofList extension)).isSome

/-! ### Relevance -/

/-- What a watcher looks at. -/
structure Watched where
  files : List Path
  searchName : Option String
  searchDirectories : List Path

/-- Captures what a watcher needs from a specification. -/
def Watched.fromSpec (host : Host) (spec : LoadSpec) : Watched where
  files := (spec.sources.filterMap Source.path).map fun path ↦ parse path.toList
  searchName := spec.search.map Search.name
  searchDirectories :=
    ((spec.search.map (Search.searchDirectories host)).getD []).map fun path ↦ parse path.toList

/-- What happened to a file. What kind of creation, modification or removal it was is not looked
at. -/
inductive EventKind
  | any | access | create | modify | remove | other
  deriving DecidableEq, Repr

/-- A report of the notification backend. -/
structure Event where
  kind : EventKind
  paths : List Path
  deriving DecidableEq

/-- Whether two directories may be one, the one spelled from further down than the other. -/
def overlaps (directory parent : Path) : Bool :=
  decide (parent <:+ directory) || decide (directory <:+ parent)

/-- Whether a path is the bookkeeping entry of a remounted directory holding one of our files. -/
def isMountMarker (changed : Path) (watched : Watched) : Bool :=
  let isMarker := match UnixPath.fileName changed with
    | some name => decide (['.', '.'] <+: name)
    | none => false
  if !isMarker then false
  else
    match UnixPath.parent changed with
    | none => false
    | some directory =>
      (watched.files.filterMap UnixPath.parent).any (overlaps directory) ||
        watched.searchDirectories.any (overlaps directory)

/-- Whether a changed path is one of ours. -/
def isOurs (changed : Path) (watched : Watched) : Bool :=
  let explicit := watched.files.any fun configured ↦
    decide (changed = configured) || decide (configured <:+ changed) ||
      decide (changed <:+ configured)
  if explicit then true
  else if watched.searchName.any (isCandidate changed) then true
  else isMountMarker changed watched

/-- Which of an event's paths is one of ours, if any. -/
def relevantPath (event : Event) (watched : Watched) : Option Path :=
  if event.kind = .create ∨ event.kind = .modify ∨ event.kind = .remove then
    event.paths.find? fun changed ↦ isOurs changed watched
  else none

/-! ### Being noticed -/

/-- An absolute path is noticed: it ends in a listed path, or it has the name of a searched file, or
it marks a remounted directory. -/
inductive Noticed (watched : Watched) (changed : Path) : Prop
  | spelled {file : Path} (hfile : file ∈ watched.files) (hend : file <:+ changed)
  | named {name : String} (hname : watched.searchName = some name)
      (hcandidate : isCandidate changed name = true)
  | marker (hmarker : isMountMarker changed watched = true)

theorem mem_files_iff {host : Host} {spec : LoadSpec} {file : Path} :
    file ∈ (Watched.fromSpec host spec).files ↔
      ∃ source ∈ spec.sources, ∃ path, source.path = some path ∧ parse path.toList = file := by
  simp only [Watched.fromSpec, List.mem_map, List.mem_filterMap]
  constructor
  · rintro ⟨path, ⟨source, hsource, hpath⟩, hparse⟩
    exact ⟨source, hsource, path, hpath, hparse⟩
  · rintro ⟨source, hsource, path, hpath, hparse⟩
    exact ⟨path, ⟨source, hsource, hpath⟩, hparse⟩

theorem isOurs_eq (changed : Path) (watched : Watched) :
    isOurs changed watched =
      ((watched.files.any fun configured ↦
          decide (changed = configured) || decide (configured <:+ changed) ||
            decide (changed <:+ configured)) ||
        (watched.searchName.any (isCandidate changed) || isMountMarker changed watched)) := by
  unfold isOurs
  dsimp only
  split_ifs with hexplicit hnamed
  · rw [hexplicit, Bool.true_or]
  · rw [hnamed, Bool.true_or, Bool.or_true]
  · rw [Bool.not_eq_true] at hexplicit hnamed
    rw [hexplicit, hnamed, Bool.false_or, Bool.false_or]

/-- **An absolute path is ours exactly when it is noticed**: no listed path ends in an absolute one
without being it. -/
theorem isOurs_iff (host : Host) (spec : LoadSpec) {changed : Path}
    (h : changed.head? = some .rootDir) :
    isOurs changed (Watched.fromSpec host spec) = true ↔
      Noticed (Watched.fromSpec host spec) changed := by
  rw [isOurs_eq, Bool.or_eq_true, Bool.or_eq_true, List.any_eq_true, Option.any_eq_true]
  constructor
  · rintro (⟨file, hfile, htest⟩ | ⟨name, hname, hcandidate⟩ | hmarker)
    · refine .spelled hfile ?_
      simp only [Bool.or_eq_true, decide_eq_true_eq] at htest
      rcases htest with (rfl | hend) | hstart
      · exact List.suffix_rfl
      · exact hend
      · obtain ⟨source, -, path, -, rfl⟩ := mem_files_iff.1 hfile
        exact UnixPath.eq_of_suffix_parse h hstart ▸ List.suffix_rfl
    · exact .named hname hcandidate
    · exact .marker hmarker
  · rintro (⟨hfile, hend⟩ | ⟨hname, hcandidate⟩ | hmarker)
    · refine .inl ⟨_, hfile, ?_⟩
      simp only [Bool.or_eq_true, decide_eq_true_eq]
      exact .inl (.inr hend)
    · exact .inr (.inl ⟨_, hname, hcandidate⟩)
    · exact .inr (.inr hmarker)

/-- An event about a path that is ours is relevant. -/
theorem isSome_relevantPath_iff {event : Event} {watched : Watched} :
    (relevantPath event watched).isSome = true ↔
      (event.kind = .create ∨ event.kind = .modify ∨ event.kind = .remove) ∧
        ∃ changed ∈ event.paths, isOurs changed watched = true := by
  unfold relevantPath
  split_ifs with hkind
  · simp only [List.find?_isSome, hkind, true_and]
  · simp only [hkind, false_and, Option.isSome_none, Bool.false_eq_true]

theorem extension_spec {extension : String} {format : Format} (h : (extension, format) ∈ extensions) :
    '.' ∉ extension.toList ∧ '/' ∉ extension.toList ∧ extension.toList ≠ [] ∧
      (Format.fromExtension extension).isSome = true := by
  simp only [extensions, List.mem_cons, Prod.mk.injEq, List.not_mem_nil, or_false] at h
  rcases h with ⟨rfl, -⟩ | ⟨rfl, -⟩ | ⟨rfl, -⟩ | ⟨rfl, -⟩ <;> decide

/-- A file named like a search, under one of its extensions, is a candidate wherever it is. -/
theorem isCandidate_of_fileName {path : Path} {name extension : String} {format : Format}
    (hextension : (extension, format) ∈ extensions) (hname : name ≠ "")
    (hfile : UnixPath.fileName path = some (name ++ "." ++ extension).toList) :
    isCandidate path name = true := by
  obtain ⟨hdot, -, hnil, hformat⟩ := extension_spec hextension
  have htext : (name ++ "." ++ extension).toList = name.toList ++ '.' :: extension.toList := by
    rw [String.toList_append, String.toList_append, List.append_assoc]
    rfl
  have hstem : name.toList ≠ [] := fun h ↦ hname (String.toList_eq_nil_iff.1 h)
  have hsplit := stemAndExtension_append hstem hdot hnil
  unfold isCandidate
  rw [hfile, htext]
  dsimp only
  rw [fileStem, hsplit, Option.map_some, Option.getD_some, String.ofList_toList,
    if_neg (not_not.2 rfl), Option.map_some, Option.bind_some, String.ofList_toList]
  exact hformat

end DynamicConfig
