import DynamicConfig.Git.Walk

/-!
# Reading out of one commit

`read_documents` lists the paths its keys name and reads each out of the commit's tree. A walk found
the paths below a prefix, but their files are looked up again, by path, and that has to come to the
entry the walk met. Every read takes the size its header gives off the budget before the object is
read, and that subtraction is the one place where a number could go below zero, so it is the one that
has no result there.

A read comes to a result, and where that is not a refusal it is what the keys name, each file once and
with its text, in no more bytes than it was given (`readDocuments_exact`).
-/

namespace DynamicConfig.Git

open Etcd (MOST_KEYS from_utf8 as_bytes)
open Transition (Reaches)

/-- What a source reads: one file, several named ones, or a directory. -/
inductive Keys where
  | one (path : String)
  | several (paths : List String)
  | prefixed (directory : String)

/-- The keys in an error. -/
def Keys.describe (debug : String → String) : Keys → String
  | .one path => path
  | .several paths => "paths " ++ ", ".intercalate paths
  | .prefixed directory => "everything under " ++ debug directory

/-- A commit, as the object database answers for it. -/
inductive Commit where
  | unreadable (error : String)
  | treeless (error : String)
  | tree (tree : Tree)

/-- Its tree is one that git keeps. -/
def Commit.Proper : Commit → Prop
  | .tree listing => listing.Proper
  | _ => True

/-- How many bytes one read may take. -/
structure Budget where
  maxBytes : ℕ
  left : ℕ

/-- `self.left -= size`, which has no result below zero. -/
def Budget.spend (budget : Budget) (size : ℕ) : Option Budget :=
  if size ≤ budget.left then some { budget with left := budget.left - size } else none

/-- The text of a file: the header first, and then the object. `refuse` is an error that names the
path. -/
def readText (blob : Blob) (budget : Budget) (refuse : String → Error) :
    Option (Except Error (String × Budget)) :=
  match blob.header with
  | .error error => some (.error (refuse ("the blob is not readable: " ++ error)))
  | .ok size =>
    if budget.maxBytes < size then
      some (.error (refuse ("the file is " ++ toString size ++ " bytes, over the " ++
        toString budget.maxBytes ++
        "-byte limit; raise it with \x60max_bytes\x60 if that is really a configuration file")))
    else if budget.left < size then
      some (.error (refuse ("the files read so far and this one come to more than the " ++
        toString budget.maxBytes ++ "-byte limit, which is what one read may cost in " ++
        "total; name fewer files, or raise \x60max_bytes\x60")))
    else
      (budget.spend size).map fun budget ↦
        match blob.object with
        | .error error => .error (refuse ("the blob is not readable: " ++ error))
        | .ok data =>
          match from_utf8 data with
          | none => .error (refuse "the file is not valid UTF-8")
          | some text => .ok (text, budget)

/-- Reads one file out of a tree. -/
def readBlob (lookup : Lookup) (tree : Tree) (path : String) (budget : Budget)
    (refuse : String → Error) : Option (Except Error (String × Budget)) :=
  match lookup tree (components path) with
  | .error error => some (.error (refuse ("the tree is not readable: " ++ error)))
  | .ok none => some (.error (refuse "there is no such file at this commit"))
  | .ok (some (.blob blob)) | .ok (some (.blobExecutable blob)) => readText blob budget refuse
  | .ok (some (.tree _)) | .ok (some (.missing _)) | .ok (some (.mistyped _)) =>
    some (.error (refuse ("that is a directory; a source reads a document, and a whole " ++
      "directory of them is \x60Keys::prefix\x60")))
  | .ok (some .link) =>
    some (.error (refuse ("that is a symbolic link; this crate will not follow one, " ++
      "because where it points is the remote repository's choice and not this program's")))
  | .ok (some .commit) =>
    some (.error (refuse "that is a submodule; its objects are in another repository"))

/-- Reads files one after the other, out of one budget. -/
def readEach (lookup : Lookup) (tree : Tree) (refuse : String → String → Error) :
    List String → Budget → Option (Except Error (List (String × String)))
  | [], _ => some (.ok [])
  | path :: paths, budget =>
    match readBlob lookup tree path budget (refuse path) with
    | none => none
    | some (.error error) => some (.error error)
    | some (.ok (text, budget)) =>
      (readEach lookup tree refuse paths budget).map fun rest ↦ rest.map ((path, text) :: ·)

/-- The paths the keys name. -/
def pathsOf (lookup : Lookup) (debug : String → String) (tree : Tree) (described : String) :
    Keys → Option (Except Error (List String))
  | .one path => some (.ok [path])
  | .several paths => some (.ok paths)
  | .prefixed directory => under lookup debug tree directory described

/-- Everything a source asks for, out of one commit's tree. `described` is the repository and the
commit, as errors name them. -/
def readDocuments (lookup : Lookup) (debug : String → String) (commit : Commit) (keys : Keys)
    (maxBytes : ℕ) (described : String) : Option (Except Error (List (String × String))) :=
  let refuse (path what : String) : Error := .remote (described ++ ":" ++ path ++ ": " ++ what)
  match commit with
  | .unreadable error => some (.error (refuse "" ("the commit is not readable: " ++ error)))
  | .treeless error => some (.error (refuse "" ("the commit has no tree: " ++ error)))
  | .tree tree =>
    match pathsOf lookup debug tree described keys with
    | none => none
    | some (.error error) => some (.error error)
    | some (.ok []) =>
      some (.error (refuse (keys.describe debug)
        "nothing is there at this commit, so there is nothing to load"))
    | some (.ok (path :: paths)) =>
      readEach lookup tree refuse (path :: paths) ⟨maxBytes, maxBytes⟩

/-! ### What a read is for -/

/-- The names lead to a file, and the file is this text. -/
def TextAt (tree : Tree) (names : List Name) (text : String) : Prop :=
  ∃ blob data, (Finds tree names (.blob blob) ∨ Finds tree names (.blobExecutable blob)) ∧
    blob.object = .ok data ∧ from_utf8 data = some text

/-- Names lead from the root of a prefix to something that is not a directory. -/
def FileBelow (tree : Tree) (directory : String) (names : List Name) : Prop :=
  ∃ more entry, names = base (trimmed directory) ++ more ∧ more ≠ [] ∧ Finds tree names entry ∧
    entry.isTree = false

/-- The paths that keys name: those that were named, or everything below the directory, once and in
order. -/
def Keys.Names (tree : Tree) (paths : List String) : Keys → Prop
  | .one path => paths = [path]
  | .several named => paths = named
  | .prefixed directory =>
    paths.Pairwise (· < ·) ∧ paths.length ≤ MOST_KEYS ∧
      (∀ names, FileBelow tree directory names → (paths.map components).count names = 1) ∧
      ∀ path ∈ paths, FileBelow tree directory (components path)

/-- The bytes of documents, all together. -/
def bytesOf : List (String × String) → ℕ
  | [] => 0
  | (_, text) :: documents => (as_bytes text).length + bytesOf documents

/-- Documents are the files that keys name, with their texts, in so many bytes. -/
structure Answers (tree : Tree) (keys : Keys) (maxBytes : ℕ) (documents : List (String × String)) :
    Prop where
  paths : keys.Names tree (documents.map Prod.fst)
  texts : ∀ document ∈ documents, TextAt tree (components document.1) document.2
  total : bytesOf documents ≤ maxBytes

/-- The states of the walk a read makes, which only a read of a prefix does. -/
def Walks (lookup : Lookup) (debug : String → String) (commit : Commit) (keys : Keys)
    (described : String) (w : Walk) : Prop :=
  ∃ tree directory start, commit = .tree tree ∧ keys = .prefixed directory ∧
    openRoot lookup tree (trimmed directory) described = .ok start ∧
    Reaches (next debug (trimmed directory) described) (.start (trimmed directory) start) w

/-! ### What a read does -/

/-- It comes to a result, and one that is not a refusal is as it should be. -/
def Settles {α : Type} (outcome : Option (Except Error α)) (P : α → Prop) : Prop :=
  ∃ result, outcome = some result ∧ ∀ a, result = .ok a → P a

theorem settles_error {α : Type} {P : α → Prop} (error : Error) :
    Settles (some (.error error)) P :=
  ⟨_, rfl, fun _ h ↦ (by cases h)⟩

/-- The text came out of the object, and its bytes out of the budget. -/
theorem readText_settles (blob : Blob) (budget : Budget) (refuse : String → Error) :
    Settles (readText blob budget refuse) fun r ↦
      (∃ data, blob.object = .ok data ∧ from_utf8 data = some r.1) ∧
        (as_bytes r.1).length + r.2.left = budget.left := by
  rw [readText]
  rcases hheader : blob.header with error | size
  · exact settles_error _
  · show Settles (if _ then _ else if _ then _ else _) _
    split_ifs with hmost hleft
    · exact settles_error _
    · exact settles_error _
    · rw [Budget.spend, if_pos (Nat.le_of_not_lt hleft), Option.map_some]
      rcases hobject : blob.object with error | data
      · exact settles_error _
      · show Settles (some (match from_utf8 data with | none => _ | some text => _)) _
        rcases htext : from_utf8 data with - | text
        · exact settles_error _
        · refine ⟨_, rfl, fun r hr ↦ ?_⟩
          obtain rfl := Except.ok.inj hr
          refine ⟨⟨data, rfl, htext⟩, ?_⟩
          -- The header gave the size of what was read.
          have hsize := blob.agrees size data hheader hobject
          have hbytes := as_bytes_of_from_utf8 htext
          show (as_bytes text).length + (budget.left - size) = budget.left
          rw [hbytes, ← hsize]
          omega

/-- What the names lead to is read as its text. -/
theorem readText_textAt {tree : Tree} {names : List Name} {blob : Blob}
    (hfinds : Finds tree names (.blob blob) ∨ Finds tree names (.blobExecutable blob)) (budget : Budget)
    (refuse : String → Error) :
    Settles (readText blob budget refuse) fun r ↦
      TextAt tree names r.1 ∧ (as_bytes r.1).length + r.2.left = budget.left := by
  obtain ⟨result, hresult, hok⟩ := readText_settles blob budget refuse
  refine ⟨result, hresult, fun r hr ↦ ?_⟩
  obtain ⟨⟨data, hobject, htext⟩, hleft⟩ := hok r hr
  exact ⟨⟨blob, data, hfinds, hobject, htext⟩, hleft⟩

theorem readBlob_settles {lookup : Lookup} (hlookup : lookup.Sound) (tree : Tree) (path : String)
    (budget : Budget) (refuse : String → Error) :
    Settles (readBlob lookup tree path budget refuse) fun r ↦
      TextAt tree (components path) r.1 ∧ (as_bytes r.1).length + r.2.left = budget.left := by
  rw [readBlob]
  rcases hfound : lookup tree (components path) with error | - | entry
  · exact settles_error _
  · exact settles_error _
  · have hfinds := hlookup _ _ _ hfound
    cases entry with
    | blob blob => exact readText_textAt (.inl hfinds) budget refuse
    | blobExecutable blob => exact readText_textAt (.inr hfinds) budget refuse
    | link | commit | missing _ | mistyped _ | tree _ => exact settles_error _

/-- Each path with its text, in order, and all of it out of the budget. -/
theorem readEach_settles {lookup : Lookup} (hlookup : lookup.Sound) (tree : Tree)
    (refuse : String → String → Error) (paths : List String) (budget : Budget) :
    Settles (readEach lookup tree refuse paths budget) fun documents ↦
      documents.map Prod.fst = paths ∧
        (∀ document ∈ documents, TextAt tree (components document.1) document.2) ∧
        bytesOf documents ≤ budget.left := by
  induction paths generalizing budget with
  | nil =>
    refine ⟨_, rfl, fun documents hdocuments ↦ ?_⟩
    obtain rfl := Except.ok.inj hdocuments
    exact ⟨rfl, fun _ h ↦ absurd h List.not_mem_nil, Nat.zero_le _⟩
  | cons path paths ih =>
    obtain ⟨first, hfirst, hread⟩ := readBlob_settles hlookup tree path budget (refuse path)
    rw [readEach, hfirst]
    rcases first with error | ⟨text, left⟩
    · exact settles_error _
    · obtain ⟨htext, hspent : (as_bytes text).length + left.left = budget.left⟩ := hread _ rfl
      obtain ⟨rest, hrest, hall⟩ := ih left
      show Settles ((readEach lookup tree refuse paths left).map _) _
      rw [hrest]
      refine ⟨_, rfl, fun documents hdocuments ↦ ?_⟩
      rcases rest with error | others
      · cases hdocuments
      · obtain rfl := Except.ok.inj hdocuments
        obtain ⟨hpaths, htexts, htotal⟩ := hall _ rfl
        refine ⟨?_, List.forall_mem_cons.2 ⟨htext, htexts⟩, ?_⟩
        · rw [List.map_cons, hpaths]
        · show (as_bytes text).length + bytesOf others ≤ budget.left
          have hrest : bytesOf others ≤ left.left := htotal
          omega

/-- The paths are those the keys name. -/
theorem pathsOf_settles {lookup : Lookup} (hlookup : lookup.Sound) (debug : String → String)
    {tree : Tree} (hproper : tree.Proper) (described : String) (keys : Keys) :
    Settles (pathsOf lookup debug tree described keys) fun paths ↦ keys.Names tree paths := by
  cases keys with
  | one path | several named => exact ⟨_, rfl, fun paths h ↦ (Except.ok.inj h).symm⟩
  | prefixed directory =>
    obtain ⟨result, hresult⟩ :=
      Option.isSome_iff_exists.1 (isSome_under lookup debug tree directory described)
    refine ⟨result, hresult, fun paths hpaths ↦ ?_⟩
    obtain ⟨hsorted, hlength, hmem⟩ := under_eq_ok hlookup hproper (hpaths ▸ hresult)
    refine ⟨hsorted, hlength, fun names hbelow ↦ ?_, fun path hpath ↦ ?_⟩
    · have hdistinct : paths.Nodup := hsorted.imp fun h ↦ ne_of_lt h
      have hnodup : (paths.map components).Nodup := hdistinct.map components_injective
      exact List.count_eq_one_of_mem hnodup ((hmem names).2 hbelow)
    · exact (hmem _).1 (List.mem_map_of_mem hpath)

/-- **A read is the files that its keys name, out of one tree and within its budgets.** -/
theorem readDocuments_exact (lookup : Lookup) (hlookup : lookup.Sound) (debug : String → String)
    (commit : Commit) (hproper : commit.Proper) (keys : Keys) (maxBytes : ℕ) (described : String) :
    (∃ result, readDocuments lookup debug commit keys maxBytes described = some result ∧
      ∀ documents, result = .ok documents →
        ∃ tree, commit = .tree tree ∧ Answers tree keys maxBytes documents) ∧
    ∀ w, Walks lookup debug commit keys described w →
      w.found.length ≤ MOST_KEYS ∧ w.descended ≤ MOST_KEYS ∧ w.listed.length ≤ MOST_KEYS + 1 := by
  constructor
  · cases commit with
    | unreadable error | treeless error => exact settles_error _
    | tree tree =>
      rw [readDocuments]
      obtain ⟨result, hresult, hnames⟩ := pathsOf_settles hlookup debug hproper described keys
      rw [hresult]
      rcases result with error | - | ⟨path, paths⟩
      · exact settles_error _
      · exact settles_error _
      · obtain ⟨read, hread, hall⟩ := readEach_settles hlookup tree
          (fun path what ↦ .remote (described ++ ":" ++ path ++ ": " ++ what)) (path :: paths)
          ⟨maxBytes, maxBytes⟩
        refine ⟨read, hread, fun documents hdocuments ↦ ⟨tree, rfl, ?_⟩⟩
        obtain ⟨hpaths, htexts, htotal⟩ := hall documents hdocuments
        exact ⟨hpaths ▸ hnames _ rfl, htexts, htotal⟩
  · rintro w ⟨tree, directory, start, -, -, -, hreach⟩
    obtain ⟨hfound, hdescended, hlisted⟩ : w.Within :=
      Transition.reaches_invariant (fun _ _ ↦ within_turn) hreach (Walk.within_start _ _)
    exact ⟨hfound, hdescended, by omega⟩

/-! ### A lookup by first match -/

/-- The first entry of each name, down through directories. -/
def lookupEntry : Tree → List Name → Except String (Option Entry)
  | _, [] => .ok none
  | tree, [name] => .ok (tree.entries.lookup name)
  | tree, name :: second :: names =>
    match tree.entries.lookup name with
    | some (.tree sub) => lookupEntry sub (second :: names)
    | some (.missing error) => .error error
    | _ => .ok none

theorem mem_of_lookup {entries : List (Name × Entry)} {name : Name} {entry : Entry}
    (h : entries.lookup name = some entry) : (name, entry) ∈ entries := by
  induction entries with
  | nil => cases h
  | cons first entries ih =>
    obtain ⟨key, value⟩ := first
    rw [List.lookup_cons] at h
    rcases hkey : name == key with - | - <;> rw [hkey] at h
    · exact List.mem_cons_of_mem _ (ih h)
    · obtain rfl := beq_iff_eq.1 hkey
      obtain rfl := Option.some.inj h
      exact List.mem_cons_self

theorem lookupEntry_sound : Lookup.Sound lookupEntry := by
  intro tree names entry h
  induction names generalizing tree with
  | nil => cases h
  | cons name names ih =>
    rcases names with - | ⟨second, names⟩
    · exact .here (mem_of_lookup (Except.ok.inj h))
    · rw [lookupEntry] at h
      rcases hfound : tree.entries.lookup name with - | found <;> rw [hfound] at h
      · cases h
      · cases found with
        | tree sub => exact .down (mem_of_lookup hfound) (ih sub h)
        | blob _ | blobExecutable _ | link | commit | missing _ | mistyped _ => cases h

/-- A file with a short text. -/
def Blob.of (data : List UInt8) : Blob where
  header := .ok data.length
  object := .ok data
  agrees := by
    rintro _ _ ⟨⟩ ⟨⟩
    rfl

/-- `app` is a file, and `db` a directory with a file `url`. -/
def sample : Tree :=
  .cons [97, 112, 112] (.blob (.of [49]))
    (.cons [100, 98] (.tree (.cons [117, 114, 108] (.blob (.of [50, 51])) .nil)) .nil)

theorem sample_proper : sample.Proper := by
  simp [sample, Tree.Proper, Entry.Proper, Tree.entries, slash]

/-- Two of its files, in the order they are named. -/
theorem readDocuments_sample :
    ∃ documents, readDocuments lookupEntry id (.tree sample) (.several ["db/url", "app"]) 3 "git r c" =
        some (.ok documents) ∧ documents = [("db/url", "23"), ("app", "1")] ∧
      Answers sample (.several ["db/url", "app"]) 3 documents := by
  have hread : readDocuments lookupEntry id (.tree sample) (.several ["db/url", "app"]) 3 "git r c" =
      some (.ok [("db/url", "23"), ("app", "1")]) := by rfl
  obtain ⟨⟨result, hresult, hok⟩, -⟩ := readDocuments_exact lookupEntry lookupEntry_sound id
    (.tree sample) sample_proper (.several ["db/url", "app"]) 3 "git r c"
  obtain rfl := Option.some.inj (hread.symm.trans hresult)
  obtain ⟨tree, htree, hanswers⟩ := hok _ rfl
  obtain rfl := Commit.tree.inj htree
  exact ⟨_, hread, rfl, hanswers⟩

end DynamicConfig.Git
