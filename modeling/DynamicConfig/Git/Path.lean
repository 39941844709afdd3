import DynamicConfig.Git.Tree
import DynamicConfig.Stores.Documents
import DynamicConfig.Text.Utf8
import Mathlib.Data.List.DropRight

/-!
# Paths in a repository

A path is text, and what it is looked up by is its components, which are bytes: it is cut at every
slash whatever the platform. No two paths have the same components (`components_injective`). A walk
goes the other way: it puts a name it met behind the path of the directory it met it in
(`components_join`). The root of the repository has no components, and its path is empty, so it is
told apart (`base`).
-/

namespace DynamicConfig.Git

open Etcd (from_utf8 as_bytes)

/-- `path.split('/').map(str::as_bytes)`. -/
def components (path : String) : List Name :=
  (path.toList.splitOn '/').map fun component ↦ as_bytes (String.ofList component)

/-- The components of a directory's path. -/
def base (directory : String) : List Name :=
  if directory = "" then [] else components directory

/-- The path of a name in a directory. -/
def join (directory name : String) : String :=
  if directory = "" then name else directory ++ "/" ++ name

/-- `trim_end_matches('/')`. -/
def trimmed (directory : String) : String :=
  String.ofList (directory.toList.rdropWhile (· = '/'))

/-- What is wrong with a component. -/
def refusedComponent (component : List Char) : Option String :=
  if component = [] then some "it has an empty component"
  else if component = ['.'] ∨ component = ['.', '.'] then
    some ("it has a \x60.\x60 or \x60..\x60 component; this source reads one blob out of " ++
      "one tree and cannot leave the repository")
  else none

/-- Refuses a path that is not a path inside the repository. `debug` is how a text is displayed in
quotes. -/
def checkPath (debug : String → String) (path : String) : Except Error Unit :=
  let refuse (why : String) : Except Error Unit :=
    .error (.remote ("git: " ++ debug path ++ " is not a file inside the repository: " ++ why))
  if path = "" then refuse "it is empty"
  else if path.toList.head? = some '/' then
    refuse "it is absolute; paths are relative to the repository root"
  else
    match (path.toList.splitOn '/').findSome? refusedComponent with
    | some why => refuse why
    | none => .ok ()

theorem ne_empty_of_checkPath {debug : String → String} {path : String}
    (h : checkPath debug path = .ok ()) : path ≠ "" := by
  rintro rfl
  cases h

/-! ### Components -/

theorem as_bytes_injective : Function.Injective as_bytes := by
  intro a b h
  have hencode : Utf8.encode a.toList = Utf8.encode b.toList := by
    rw [← Utf8.toList_toUTF8, ← Utf8.toList_toUTF8]
    exact h
  exact String.toList_injective (Utf8.encode_injective hencode)

theorem as_bytes_of_from_utf8 {bytes : List UInt8} {text : String} (h : from_utf8 bytes = some text) :
    as_bytes text = bytes := by
  have hbytes : text.toUTF8 = ⟨bytes.toArray⟩ := by
    rw [from_utf8, String.fromUTF8?] at h
    split at h
    · rw [← Option.some.inj h]
      rfl
    · cases h
  rw [as_bytes, hbytes]

/-- **No two paths have the same components.** -/
theorem components_injective : Function.Injective components := by
  intro a b h
  have hinj : Function.Injective fun component ↦ as_bytes (String.ofList component) :=
    fun _ _ heq ↦ String.ofList_injective (as_bytes_injective heq)
  have hsplit : a.toList.splitOn '/' = b.toList.splitOn '/' := List.map_injective_iff.2 hinj h
  have hjoin (cs : List Char) : ['/'].intercalate (cs.splitOn '/') = cs := List.intercalate_splitOn '/'
  have hlist : a.toList = b.toList := by rw [← hjoin a.toList, hsplit, hjoin]
  exact String.toList_injective hlist

theorem components_of_notMem {name : String} (h : '/' ∉ name.toList) :
    components name = [as_bytes name] := by
  rw [components, List.splitOn_eq_singleton h, List.map_singleton, String.ofList_toList]

theorem slash_mem_as_bytes {text : String} (h : '/' ∈ text.toList) : slash ∈ as_bytes text := by
  rw [as_bytes, Utf8.toList_toUTF8]
  exact List.mem_flatMap.2 ⟨'/', h, by decide⟩

/-- A name behind the path of its directory is one more component. -/
theorem components_join {directory name : String} (h : '/' ∉ name.toList) :
    components (join directory name) = base directory ++ [as_bytes name] := by
  rw [join, base]
  split_ifs with hroot
  · exact components_of_notMem h
  · have hlist : (directory ++ "/" ++ name).toList = directory.toList ++ '/' :: name.toList := by
      rw [String.toList_append, String.toList_append, List.append_assoc]
      rfl
    rw [components, hlist, List.splitOn_append_cons_self, List.map_append,
      List.splitOn_eq_singleton h, List.map_singleton, String.ofList_toList]
    rfl

end DynamicConfig.Git
