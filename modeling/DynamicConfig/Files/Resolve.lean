import DynamicConfig.Config.UnixPath
import DynamicConfig.Files.Disk

/-!
# Where a path leads

A path is followed name by name, from a directory. A link in the way is replaced by its target, and
only so many links are followed. What is followed is the components of the path; the system also
refuses a separator or a `.` behind a file, and that is no directory either way.

Where a path leads to something, more entries on the disk change nothing (`resolve_mono`). Where it
leads nowhere yet, they can bring it anywhere, but if it is plain names from some directory on and
none of them is a link, it can only lead to the place that has those names (`resolve_names`).
-/

namespace Files

open DynamicConfig.UnixPath (Component Path parse)

/-- A place: the names that lead to it from the root. -/
abbrev Place := List (List Char)

/-- What a walk comes to: a place, or a link, with the directory it stands in and what was still to
follow, or nothing. -/
inductive Walked
  | place (place : Place)
  | link (directory : Place) (target : List Char) (rest : Path)
  | nowhere

variable {disk disk' : Disk Place} {links : ℕ} {start : Place}

/-- Whether a directory stands at a place. The root is one. -/
def Disk.isDirectory (disk : Disk Place) (place : Place) : Bool :=
  decide (place = [] ∨ disk place = some .directory)

/-- One component further: a place, or a link that stands there, or nothing. -/
inductive Stride
  | place (place : Place)
  | link (target : List Char)
  | nowhere

/-- Where a component leads from a directory. -/
def Disk.follow (disk : Disk Place) (place : Place) : Component → Stride
  | .rootDir => .place []
  | .curDir => .place place
  | .parentDir => .place place.dropLast
  | .normal name =>
    match disk (place ++ [name]) with
    | none => .nowhere
    | some (.link target) => .link target
    | some _ => .place (place ++ [name])

/-- Where a component leads from a place: nowhere from anything but a directory. -/
def Disk.stride (disk : Disk Place) (place : Place) (component : Component) : Stride :=
  if disk.isDirectory place then disk.follow place component else .nowhere

/-- Follows a path up to the first link. -/
def Disk.walk (disk : Disk Place) : Place → Path → Walked
  | place, [] => .place place
  | place, component :: rest =>
    match disk.stride place component with
    | .place next => disk.walk next rest
    | .link target => .link place target rest
    | .nowhere => .nowhere

/-- Follows a path, through at most so many links. -/
def Disk.resolve (disk : Disk Place) : ℕ → Place → Path → Option Place
  | 0, start, path =>
    match disk.walk start path with
    | .place place => some place
    | _ => none
  | links + 1, start, path =>
    match disk.walk start path with
    | .place place => some place
    | .link directory target rest => disk.resolve links directory (parse target ++ rest)
    | .nowhere => none

/-- Makes a directory or a link, in a directory and where nothing is. -/
def Disk.create (disk : Disk Place) (place : Place) (entry : Entry) : Option (Disk Place) :=
  if place ≠ [] ∧ disk place = none ∧ disk.isDirectory place.dropLast then
    some (Function.update disk place (some entry))
  else none

/-! ### More on the disk -/

/-- Everything is as it was, and there may be more. -/
def Grows (disk disk' : Disk Place) : Prop := ∀ place entry, disk place = some entry → disk' place = some entry

theorem create_eq_some {place : Place} {entry : Entry} (h : disk.create place entry = some disk') :
    disk place = none ∧ disk' = Function.update disk place (some entry) := by
  rw [Disk.create] at h
  split_ifs at h with hfree
  exact ⟨hfree.2.1, (Option.some.inj h).symm⟩

theorem grows_of_create {place : Place} {entry : Entry} (h : disk.create place entry = some disk') :
    Grows disk disk' := by
  obtain ⟨hfree, rfl⟩ := create_eq_some h
  intro other found hfound
  have hne : other ≠ place := by
    rintro rfl
    rw [hfree] at hfound
    cases hfound
  rw [Function.update_of_ne hne]
  exact hfound

theorem isDirectory_mono (h : Grows disk disk') {place : Place} (hplace : disk.isDirectory place = true) :
    disk'.isDirectory place = true :=
  decide_eq_true ((of_decide_eq_true hplace).imp_right (h place _))

theorem stride_mono (h : Grows disk disk') {place : Place} {component : Component}
    (hstride : disk.stride place component ≠ .nowhere) :
    disk'.stride place component = disk.stride place component := by
  rw [Disk.stride] at hstride
  split_ifs at hstride with hdirectory
  · rw [Disk.stride, Disk.stride, if_pos hdirectory, if_pos (isDirectory_mono h hdirectory)]
    cases component with
    | rootDir | curDir | parentDir => rfl
    | normal name =>
      rw [Disk.follow] at hstride
      rw [Disk.follow, Disk.follow]
      rcases hfound : disk (place ++ [name]) with - | entry
      · rw [hfound] at hstride
        exact absurd rfl hstride
      · rw [h _ _ hfound]
  · exact absurd rfl hstride

/-- A walk that came to something comes to the same. -/
theorem walk_mono (h : Grows disk disk') {path : Path} {w : Walked} (hwalk : disk.walk start path = w)
    (hw : w ≠ .nowhere) : disk'.walk start path = w := by
  induction path generalizing start with
  | nil => exact hwalk
  | cons component rest ih =>
    rw [Disk.walk] at hwalk ⊢
    rcases hstride : disk.stride start component with next | target | -
    · rw [stride_mono h (by rw [hstride]; simp), hstride]
      rw [hstride] at hwalk
      exact ih hwalk
    · rw [stride_mono h (by rw [hstride]; simp), hstride]
      rwa [hstride] at hwalk
    · rw [hstride] at hwalk
      exact absurd hwalk.symm hw

/-- **Where a path leads to something, it goes on to lead there.** -/
theorem resolve_mono (h : Grows disk disk') {path : Path} {place : Place}
    (hresolve : disk.resolve links start path = some place) :
    disk'.resolve links start path = some place := by
  induction links generalizing start path with
  | zero =>
    rw [Disk.resolve] at hresolve ⊢
    rcases hwalk : disk.walk start path with found | ⟨directory, target, rest⟩ | - <;>
      simp only [hwalk] at hresolve
    · rw [walk_mono h hwalk (by simp)]
      exact hresolve
    · cases hresolve
    · cases hresolve
  | succ links ih =>
    rw [Disk.resolve] at hresolve ⊢
    rcases hwalk : disk.walk start path with found | ⟨directory, target, rest⟩ | - <;>
      simp only [hwalk] at hresolve
    · rw [walk_mono h hwalk (by simp)]
      exact hresolve
    · rw [walk_mono h hwalk (by simp)]
      exact ih hresolve
    · cases hresolve

/-! ### One path behind another -/

theorem walk_append (front rest : Path) :
    disk.walk start (front ++ rest) =
      match disk.walk start front with
      | .place place => disk.walk place rest
      | .link directory target more => .link directory target (more ++ rest)
      | .nowhere => .nowhere := by
  induction front generalizing start with
  | nil => rfl
  | cons component front ih =>
    rw [List.cons_append, Disk.walk, Disk.walk]
    rcases disk.stride start component with next | target | -
    · exact ih
    · rfl
    · rfl

/-- From where the first path leads, the second is followed, through the links that are left. -/
theorem resolve_append {front : Path} {place : Place}
    (h : disk.resolve links start front = some place) :
    ∃ left, ∀ rest, disk.resolve links start (front ++ rest) = disk.resolve left place rest := by
  induction links generalizing start front with
  | zero =>
    rw [Disk.resolve] at h
    rcases hwalk : disk.walk start front with found | ⟨directory, target, more⟩ | - <;>
      simp only [hwalk] at h
    · obtain rfl := Option.some.inj h
      refine ⟨0, fun rest ↦ ?_⟩
      rw [Disk.resolve, walk_append, hwalk, Disk.resolve]
    · cases h
    · cases h
  | succ links ih =>
    rw [Disk.resolve] at h
    rcases hwalk : disk.walk start front with found | ⟨directory, target, more⟩ | - <;>
      simp only [hwalk] at h
    · obtain rfl := Option.some.inj h
      refine ⟨links + 1, fun rest ↦ ?_⟩
      rw [Disk.resolve, walk_append, hwalk, Disk.resolve]
    · obtain ⟨left, hleft⟩ := ih h
      refine ⟨left, fun rest ↦ ?_⟩
      rw [Disk.resolve, walk_append, hwalk, ← hleft rest, List.append_assoc]
    · cases h

/-! ### Plain names -/

/-- None of the names leads to a link. -/
def Unlinked (disk : Disk Place) : Place → List (List Char) → Prop
  | _, [] => True
  | place, name :: names =>
    (∀ target, disk (place ++ [name]) ≠ some (.link target)) ∧ Unlinked disk (place ++ [name]) names

/-- **Plain names without a link lead to the place that has them, or nowhere.** -/
theorem resolve_names {names : List (List Char)} {place found : Place}
    (hunlinked : Unlinked disk place names)
    (h : disk.resolve links place (names.map .normal) = some found) : found = place ++ names := by
  have hwalk : disk.walk place (names.map .normal) = .place (place ++ names) ∨
      disk.walk place (names.map .normal) = .nowhere := by
    clear h
    induction names generalizing place with
    | nil => exact .inl (by rw [List.append_nil]; rfl)
    | cons name names ih =>
      obtain ⟨hnot, hrest⟩ := hunlinked
      have htail := ih hrest
      rw [List.append_assoc] at htail
      rw [List.map_cons, Disk.walk, Disk.stride]
      split_ifs with hdirectory
      · rw [Disk.follow]
        rcases hfound : disk (place ++ [name]) with - | entry
        · exact .inr rfl
        · cases entry with
          | file mode bytes | directory => exact htail
          | link target => exact absurd hfound (hnot target)
      · exact .inr rfl
  rcases hwalk with hwalk | hwalk <;> rcases links with - | links <;>
    rw [Disk.resolve, hwalk] at h
  · exact (Option.some.inj h).symm
  · exact (Option.some.inj h).symm
  · cases h
  · cases h

/-- What is made elsewhere, or is no link, puts no link in the way. -/
theorem unlinked_of_create {names : List (List Char)} {place made : Place} {entry : Entry}
    (h : disk.create made entry = some disk')
    (hmade : (∀ target, entry ≠ .link target) ∨ ¬ made <+: place ++ names)
    (hunlinked : Unlinked disk place names) : Unlinked disk' place names := by
  induction names generalizing place with
  | nil => trivial
  | cons name names ih =>
    obtain ⟨hnot, hrest⟩ := hunlinked
    have happend : place ++ name :: names = (place ++ [name]) ++ names := by
      rw [List.append_assoc]
      rfl
    rw [happend] at hmade
    refine ⟨fun target ↦ ?_, ih hmade hrest⟩
    obtain ⟨-, rfl⟩ := create_eq_some h
    by_cases hplace : place ++ [name] = made
    · subst hplace
      rw [Function.update_self]
      rcases hmade with hentry | hprefixed
      · exact fun heq ↦ hentry target (Option.some.inj heq)
      · exact absurd (List.prefix_append _ _) hprefixed
    · rw [Function.update_of_ne hplace]
      exact hnot target

end Files
