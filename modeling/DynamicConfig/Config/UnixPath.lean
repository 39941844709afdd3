import Mathlib.Data.List.Infix
import Mathlib.Data.List.TakeWhile

/-!
# Unix paths

A path is text, and the standard library reads it as components: the root, the names, and the two
dot entries. Separators repeat freely and an interior `.` is nothing, but the `.` a relative path
begins with is a component of its own. Equality, endings, parents and file names are all about the
components, so a `Path` is the list of them and `parse` reads it from text.

Two facts carry the comparisons of paths: the root is only ever the first component
(`rootDir_not_mem_body`), so an absolute path is the end of none but itself; and making a path
absolute keeps it as an ending unless it begins with `.` (`suffix_absolute`).
-/

namespace DynamicConfig.UnixPath

/-- `std::path::Component`, without the prefixes of other systems. -/
inductive Component
  | rootDir
  | curDir
  | parentDir
  | normal (name : List Char)
  deriving DecidableEq, Repr

/-- What equality of paths looks at. -/
abbrev Path := List Component

/-! ### Reading a path -/

/-- What stands between two separators: nothing, and `.`, are no component. -/
def component (piece : List Char) : Option Component :=
  if piece = [] ∨ piece = ['.'] then none
  else if piece = ['.', '.'] then some .parentDir
  else some (.normal piece)

/-- The components after the root or the leading `.`. -/
def body (text : List Char) : Path :=
  (text.splitOn '/').filterMap component

/-- The root, or the `.` a relative path begins with. -/
def lead (text : List Char) : Path :=
  if text.head? = some '/' then [.rootDir]
  else if (text.splitOn '/').head? = some ['.'] then [.curDir]
  else []

/-- `Path::components`. -/
def parse (text : List Char) : Path :=
  lead text ++ body text

/-- `Path::file_name`: the last component, where it is a name. -/
def fileName (path : Path) : Option (List Char) :=
  match path.getLast? with
  | some (.normal name) => some name
  | _ => none

/-- `Path::parent`: nothing for the empty path and for the root. -/
def parent (path : Path) : Option Path :=
  if path = [] ∨ path.getLast? = some .rootDir then none else some path.dropLast

/-- `std::path::absolute`, from a working directory given by its names. -/
def absolute (cwd : List (List Char)) (path : Path) : Path :=
  if path.head? = some .rootDir then path
  else .rootDir :: cwd.map .normal ++ if path.head? = some .curDir then path.tail else path

/-! ### The text of a path -/

/-- `Path::join`: an absolute path replaces what it is joined to. -/
def join (base path : List Char) : List Char :=
  if path.head? = some '/' then path
  else if base = [] ∨ base.getLast? = some '/' then base ++ path
  else base ++ '/' :: path

/-- A reversed path from its last component on. The root alone stays, and so does a leading `.`. -/
def trimBack : List Char → List Char
  | '/' :: c :: rest => trimBack (c :: rest)
  | '.' :: '/' :: rest => trimBack ('/' :: rest)
  | text => text

/-- A path without the separators and dots behind its last component. -/
def trimRight (text : List Char) : List Char :=
  (trimBack text.reverse).reverse

/-- `Path::file_name`, behind the text that `Path::with_file_name` puts another name to: the parent,
with a separator where it takes one. -/
def splitFileName (text : List Char) : Option (List Char × List Char) :=
  let text := trimRight text
  let name := (text.reverse.takeWhile (· ≠ '/')).reverse
  if name = [] ∨ name = ['.'] ∨ name = ['.', '.'] then none
  else some (join (trimRight (text.take (text.length - name.length))) [], name)

example : parse "./a//b/./../c/".toList =
    [.curDir, .normal ['a'], .normal ['b'], .parentDir, .normal ['c']] := by decide

/-! ### The components of text -/

@[simp] theorem body_nil : body [] = [] := rfl

theorem body_append_sep (a b : List Char) : body (a ++ '/' :: b) = body a ++ body b := by
  rw [body, List.splitOn_append_cons_self, List.filterMap_append]
  rfl

/-- Behind a separator, or nothing, a text keeps its components. -/
theorem body_append {a : List Char} (h : a = [] ∨ a.getLast? = some '/') (b : List Char) :
    body (a ++ b) = body a ++ body b := by
  rcases h with rfl | h
  · rfl
  · -- the separator closes the first text, and nothing stands behind it there
    obtain ⟨start, rfl⟩ := List.getLast?_eq_some_iff.1 h
    have hstart : body (start ++ ['/']) = body start := by
      rw [body_append_sep, body_nil, List.append_nil]
    rw [hstart, List.append_assoc]
    exact body_append_sep start b

/-- What is joined to a directory comes behind its components. -/
theorem body_join (base : List Char) {path : List Char} (h : path.head? ≠ some '/') :
    body (join base path) = body base ++ body path := by
  rw [join, if_neg h]
  split_ifs with hbase
  · exact body_append hbase path
  · exact body_append_sep base path

/-- Text without separators is one piece. -/
theorem body_of_not_mem {piece : List Char} (h : '/' ∉ piece) :
    body piece = (component piece).toList := by
  rw [body, List.splitOn_eq_singleton h]
  rcases hpiece : component piece with - | c
  · exact List.filterMap_cons_none hpiece
  · exact List.filterMap_cons_some hpiece

theorem component_ne_rootDir {piece : List Char} {c : Component} (h : component piece = some c) :
    c ≠ .rootDir := by
  rintro rfl
  unfold component at h
  split_ifs at h <;> exact absurd (Option.some_inj.1 h) (by simp)

theorem rootDir_not_mem_body (text : List Char) : Component.rootDir ∉ body text := by
  intro h
  obtain ⟨piece, -, hpiece⟩ := List.mem_filterMap.1 h
  exact component_ne_rootDir hpiece rfl

theorem tail_lead_append (text : List Char) (path : Path) :
    (lead text ++ path).tail = if lead text = [] then path.tail else path := by
  unfold lead
  split_ifs <;> first | rfl | contradiction

/-- The root is the first component or none. -/
theorem rootDir_not_mem_tail (text : List Char) : Component.rootDir ∉ (parse text).tail := by
  rw [parse, tail_lead_append]
  have hbody := rootDir_not_mem_body text
  split_ifs
  · exact fun h ↦ hbody (List.mem_of_mem_tail h)
  · exact hbody

/-! ### File names -/

theorem fileName_append {path : Path} {name : List Char} (start : Path)
    (h : fileName path = some name) : fileName (start ++ path) = some name := by
  have hne : path ≠ [] := by
    rintro rfl
    exact absurd h (by simp [fileName])
  rw [fileName, List.getLast?_append_of_ne_nil start hne]
  exact h

theorem fileName_tail {path : Path} {name : List Char} (h : fileName path = some name)
    (hhead : path.head? = some .curDir) : fileName path.tail = some name := by
  rcases path with - | ⟨c, _ | ⟨d, path⟩⟩
  · exact absurd hhead (by simp)
  · obtain rfl : c = .curDir := Option.some_inj.1 hhead
    exact absurd h (by simp [fileName])
  · exact h

/-- Making a path absolute keeps its file name. -/
theorem fileName_absolute (cwd : List (List Char)) {path : Path} {name : List Char}
    (h : fileName path = some name) : fileName (absolute cwd path) = some name := by
  rw [absolute]
  split_ifs with hroot hcur
  · exact h
  · exact fileName_append _ (fileName_tail h hcur)
  · exact fileName_append _ h

/-- What was joined to a directory is the file name of the result. -/
theorem fileName_join (base : List Char) {name : List Char} (h : '/' ∉ name)
    (hname : component name = some (.normal name)) :
    fileName (parse (join base name)) = some name := by
  have hhead : name.head? ≠ some '/' := fun hsep ↦ h (List.mem_of_head? hsep)
  rw [parse, body_join base hhead, body_of_not_mem h, hname, ← List.append_assoc]
  exact fileName_append _ (rfl : fileName [.normal name] = some name)

/-! ### The file name in the text -/

/-- **Trimming keeps the components.** -/
theorem body_trimBack (text : List Char) : body (trimBack text).reverse = body text.reverse := by
  fun_induction trimBack text with
  | case1 c rest ih =>
    rw [ih, List.reverse_cons (a := '/'), body_append_sep, body_nil, List.append_nil]
  | case2 rest ih =>
    rw [ih, List.reverse_cons, List.reverse_cons, List.reverse_cons, List.append_assoc,
      body_append_sep]
    exact (body_append_sep rest.reverse ['.']).symm
  | case3 text => rfl

theorem head?_splitOn_append (a b : List Char) :
    ((a ++ '/' :: b).splitOn '/').head? = (a.splitOn '/').head? := by
  rw [List.splitOn_append_cons_self, List.head?_append_of_ne_nil _ (List.splitOn_ne_nil _ _)]

theorem lead_trimBack (text : List Char) : lead (trimBack text).reverse = lead text.reverse := by
  fun_induction trimBack text with
  | case1 c rest ih =>
    have hne : (c :: rest).reverse ≠ [] := by simp
    rw [ih, List.reverse_cons (a := '/'), lead, lead, List.head?_append_of_ne_nil _ hne,
      head?_splitOn_append]
  | case2 rest ih =>
    have htext : ('.' :: '/' :: rest).reverse = rest.reverse ++ '/' :: ['.'] := by simp
    have htrim : ('/' :: rest).reverse = rest.reverse ++ '/' :: [] := by simp
    rw [ih, htext, htrim, lead, lead, head?_splitOn_append, head?_splitOn_append]
    have hhead : (rest.reverse ++ ['/']).head? = (rest.reverse ++ '/' :: ['.']).head? := by
      rcases rest.reverse with - | ⟨c, start⟩ <;> rfl
    rw [hhead]
  | case3 text => rfl

/-- Trimming a path changes its text only. -/
theorem parse_trimRight (text : List Char) : parse (trimRight text) = parse text := by
  rw [parse, parse, trimRight, lead_trimBack, body_trimBack, List.reverse_reverse]

/-- A trimmed path ends in a separator only where it is the root. -/
theorem trimBack_ne_sep (text rest : List Char) (c : Char) :
    trimBack text ≠ '/' :: c :: rest ∧ trimBack text ≠ '.' :: '/' :: rest := by
  fun_induction trimBack text with
  | case1 _ _ ih => exact ih
  | case2 _ ih => exact ih
  | case3 text hsep hdot => exact ⟨hsep c rest, hdot rest⟩

/-- **The name read off the text is the file name**: the two readings of a path agree. -/
theorem splitFileName_eq (text : List Char) :
    (splitFileName text).map Prod.snd = fileName (parse text) := by
  -- the trimmed path is a directory, then the name
  set back := trimBack text.reverse with hback
  set name := (back.takeWhile (· ≠ '/')).reverse with hname
  set dir := (back.dropWhile (· ≠ '/')).reverse with hdir
  have htext : trimRight text = dir ++ name := by
    rw [trimRight, ← hback, hdir, hname, ← List.reverse_append, List.takeWhile_append_dropWhile]
  have hsep : dir = [] ∨ dir.getLast? = some '/' := by
    rw [hdir, List.getLast?_reverse, List.reverse_eq_nil_iff]
    exact or_iff_not_imp_left.2 fun hne ↦ by
      have hhead := List.head?_dropWhile_not (· ≠ '/') back
      rcases hdrop : back.dropWhile (· ≠ '/') with - | ⟨c, rest⟩
      · exact absurd hdrop hne
      · rw [hdrop] at hhead
        simpa using hhead
  have hnot : '/' ∉ name := by
    rw [hname, List.mem_reverse]
    exact fun h ↦ by simpa using List.mem_takeWhile_imp h
  have hparse : parse text = (lead (dir ++ name) ++ body dir) ++ (component name).toList := by
    rw [← parse_trimRight text, htext, parse, body_append hsep, body_of_not_mem hnot,
      List.append_assoc]
  have hsplit : (splitFileName text).map Prod.snd =
      if name = [] ∨ name = ['.'] ∨ name = ['.', '.'] then none else some name := by
    rw [splitFileName, trimRight, List.reverse_reverse, ← hback, ← hname]
    split_ifs <;> rfl
  rw [hsplit]
  split_ifs with hspecial
  · have hsplitBack : back = name.reverse ++ dir.reverse := by
      rw [hname, hdir, List.reverse_reverse, List.reverse_reverse, List.takeWhile_append_dropWhile]
    rcases hspecial with hnil | hdot | hdots
    · -- nothing is left but a separator, and then it is the root
      rw [hnil, List.reverse_nil, List.nil_append] at hsplitBack
      rcases hsep with hsep | hsep
      · rw [hparse, hnil, hsep]
        rfl
      · obtain ⟨start, hstart⟩ := List.getLast?_eq_some_iff.1 hsep
        rw [hstart, List.reverse_append] at hsplitBack
        rcases hreverse : start.reverse with - | ⟨c, rest⟩
        · rw [hparse, hnil, hstart, List.reverse_eq_nil_iff.1 hreverse]
          rfl
        · rw [hreverse] at hsplitBack
          exact absurd hsplitBack (trimBack_ne_sep text.reverse rest c).1
    · -- a dot behind a separator is trimmed, so this one leads
      rw [hdot] at hsplitBack
      rcases hsep with hsep | hsep
      · rw [hparse, hdot, hsep]
        rfl
      · obtain ⟨start, hstart⟩ := List.getLast?_eq_some_iff.1 hsep
        rw [hstart, List.reverse_append] at hsplitBack
        exact absurd hsplitBack (trimBack_ne_sep text.reverse start.reverse '/').2
    · rw [hparse, hdots]
      exact (by simp [fileName, component])
  · have hcomponent : component name = some (.normal name) := by
      grind [component]
    rw [hparse, hcomponent]
    exact (fileName_append _ (rfl : fileName [.normal name] = some name)).symm

/-! ### Endings -/

/-- A path that does not begin with `.` ends the absolute path it stands for. -/
theorem suffix_absolute (cwd : List (List Char)) {path : Path} (h : path.head? ≠ some .curDir) :
    path <:+ absolute cwd path := by
  rw [absolute, if_neg h]
  split_ifs
  · exact List.suffix_rfl
  · exact List.suffix_append _ path

theorem head?_absolute (cwd : List (List Char)) (path : Path) :
    (absolute cwd path).head? = some .rootDir := by
  rw [absolute]
  split_ifs with h
  · exact h
  all_goals rfl

/-- An absolute path is the ending of no path but itself. -/
theorem eq_of_suffix_parse {changed : Path} {text : List Char}
    (h : changed.head? = some .rootDir) (hsuffix : changed <:+ parse text) :
    changed = parse text := by
  obtain ⟨start, hstart⟩ := hsuffix
  rcases start with - | ⟨c, start⟩
  · exact hstart
  · -- otherwise the root stands behind another component
    have hmem : Component.rootDir ∈ (parse text).tail := by
      rw [← hstart, List.cons_append, List.tail_cons]
      exact List.mem_append_right start (List.mem_of_head? h)
    exact absurd hmem (rootDir_not_mem_tail text)

end DynamicConfig.UnixPath
