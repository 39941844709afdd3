import DynamicConfig.Git.Path
import DynamicConfig.Transition.Loop
import Mathlib.Data.String.Basic

/-!
# The walk below a prefix

A prefix is a directory of the commit's tree, and `under` lists the files below it. The walk keeps the
directories it has met and not yet listed on a stack, and takes one entry at a time: a directory goes
on the stack, anything else is a file. Names that are not text, paths that are not inside the
repository, and one more file or directory than the budget end it.

What is found, with what is left of the listing and of the stack, is at every turn all there is below
the root (`Complete`), so a walk that is done has found it all. Every turn takes something off what
there is to walk, so a walk is done or refused in the end (`isSome_under`).
-/

namespace DynamicConfig.Git

open Etcd (MOST_KEYS from_utf8 as_bytes)
open Transition (Turn Reaches loop)

/-- `documents::within_key_budget`. -/
def withinKeyBudget (matched : ℕ) (described : String) : Except Error Unit :=
  if matched ≤ MOST_KEYS then .ok ()
  else .error (.remote (described ++ ": the prefix matches " ++ toString matched ++
    " keys, above the " ++ toString MOST_KEYS ++
    " one document is folded from; narrow the prefix"))

/-- `documents::under_prefix`. -/
def underPrefix (key root described : String) : Except Error Unit :=
  if root.toList.isPrefixOf key.toList then .ok ()
  else .error (.remote (described ++ ": the store answered with \x60" ++ key ++
    "\x60, which is not under the prefix that was asked for"))

/-- Looking a path up in a tree: `lookup_entry`. -/
abbrev Lookup := Tree → List Name → Except String (Option Entry)

/-- It answers with what the names lead to. -/
def Lookup.Sound (lookup : Lookup) : Prop :=
  ∀ tree names entry, lookup tree names = .ok (some entry) → Finds tree names entry

/-! ### The walk -/

/-- How far a walk has come. -/
structure Walk where
  /-- The directory that is being listed, and what is left of it. -/
  directory : String
  listing : Tree
  /-- The directories met and not yet listed, the next one first. -/
  pending : List (String × Tree)
  found : List String
  descended : ℕ
  /-- The directories that were listed, the last one first. No turn reads them. -/
  listed : List String

/-- Nothing is listed yet. -/
def Walk.start (root : String) (tree : Tree) : Walk := ⟨"", .nil, [(root, tree)], [], 0, []⟩

/-- The text of a name. -/
def nameOf (described directory : String) (filename : Name) : Except Error String :=
  match from_utf8 filename with
  | some name => .ok name
  | none => .error (.remote (described ++ ": " ++ directory ++
      ": a file here has a name that is not valid UTF-8"))

/-- The two checks on a path that was met. -/
def checkFound (debug : String → String) (root described path : String) : Except Error Unit := do
  -- The error has no path and no origin, so it is displayed as its message.
  (checkPath debug path).mapError fun error ↦ .remote (described ++ ": " ++ error.message)
  if root = "" then .ok () else underPrefix path (root ++ "/") described

/-- One entry: a directory goes on the stack, anything else is a file. -/
def Walk.admit (w : Walk) (described path : String) : Entry → Except Error Walk
  | .tree sub => do
    withinKeyBudget (w.descended + 1) described
    return { w with descended := w.descended + 1, pending := (path, sub) :: w.pending }
  | .missing error | .mistyped error => do
    withinKeyBudget (w.descended + 1) described
    .error (.remote (described ++ ": the tree is not readable: " ++ error))
  | _ => do
    withinKeyBudget (w.found.length + 1) described
    return { w with found := w.found ++ [path] }

/-- One turn: the next entry of the listing, or the next directory. -/
def next (debug : String → String) (root described : String) (w : Walk) :
    Except Error (Option Walk) :=
  match w.listing with
  | .nil =>
    match w.pending with
    | [] => .ok none
    | (directory, listing) :: pending =>
      .ok (some { w with directory, listing, pending, listed := directory :: w.listed })
  | .garbled error =>
    .error (.remote (described ++ ": " ++ w.directory ++ ": the tree is not readable: " ++ error))
  | .cons filename entry rest => do
    let name ← nameOf described w.directory filename
    let path := join w.directory name
    checkFound debug root described path
    let w ← w.admit described path entry
    return some { w with listing := rest }

/-- The directory that a prefix names. -/
def openRoot (lookup : Lookup) (tree : Tree) (root described : String) : Except Error Tree :=
  let refuse (why : String) : Except Error Tree :=
    .error (.remote (described ++ ": " ++ root ++ ": " ++ why))
  if root = "" then .ok tree
  else
    match lookup tree (components root) with
    | .error error => refuse ("the tree is not readable: " ++ error)
    | .ok none => refuse "there is no such directory at this commit"
    | .ok (some (.missing error)) => refuse ("it is not readable: " ++ error)
    | .ok (some (.mistyped error)) => refuse ("it is not a directory: " ++ error)
    | .ok (some (.tree sub)) => .ok sub
    | .ok (some _) =>
      refuse ("that is a file rather than a directory; name it as one path instead of as a prefix")

/-- Every file below a directory, sorted. It is given more turns than there is to walk. -/
def under (lookup : Lookup) (debug : String → String) (tree : Tree) (directory described : String) :
    Option (Except Error (List String)) :=
  let root := trimmed directory
  match openRoot lookup tree root described with
  | .error error => some (.error error)
  | .ok start =>
    (loop (next debug root described) (start.weight + 2) (.start root start)).map fun result ↦
      result.map fun w ↦ w.found.mergeSort fun a b ↦ decide (a ≤ b)

/-! ### What a turn does -/

theorem withinKeyBudget_eq_ok_iff {matched : ℕ} {described : String} {u : Unit} :
    withinKeyBudget matched described = .ok u ↔ matched ≤ MOST_KEYS := by
  rw [withinKeyBudget]
  split_ifs with hle
  · exact iff_of_true rfl hle
  · exact iff_of_false (fun h ↦ (by cases h)) hle

theorem nameOf_eq_ok {described directory name : String} {filename : Name}
    (h : nameOf described directory filename = .ok name) : from_utf8 filename = some name := by
  rw [nameOf] at h
  rcases hname : from_utf8 filename with - | text <;> rw [hname] at h
  · cases h
  · rw [Except.ok.inj h]

theorem ne_empty_of_checkFound {debug : String → String} {root described path : String} {u : Unit}
    (h : checkFound debug root described path = .ok u) : path ≠ "" := by
  obtain ⟨_, hcheck, -⟩ := exists_of_bind_eq_ok h
  exact ne_empty_of_checkPath (Documents.mapError_eq_ok_iff.1 hcheck)

namespace Walk

/-- What admitting an entry does. -/
theorem admit_eq_ok {w w' : Walk} {described path : String} {entry : Entry}
    (h : w.admit described path entry = .ok w') :
    (∃ sub, entry = .tree sub ∧ w.descended + 1 ≤ MOST_KEYS ∧
      w' = { w with descended := w.descended + 1, pending := (path, sub) :: w.pending }) ∨
    (entry.isTree = false ∧ w.found.length + 1 ≤ MOST_KEYS ∧
      w' = { w with found := w.found ++ [path] }) := by
  cases entry with
  | tree sub =>
    obtain ⟨_, hbudget, hw⟩ := exists_of_bind_eq_ok h
    exact .inl ⟨sub, rfl, withinKeyBudget_eq_ok_iff.1 hbudget, (Except.ok.inj hw).symm⟩
  | missing error | mistyped error =>
    obtain ⟨_, -, hw⟩ := exists_of_bind_eq_ok h
    cases hw
  | blob _ | blobExecutable _ | link | commit =>
    obtain ⟨_, hbudget, hw⟩ := exists_of_bind_eq_ok h
    exact .inr ⟨rfl, withinKeyBudget_eq_ok_iff.1 hbudget, (Except.ok.inj hw).symm⟩

end Walk

variable {debug : String → String} {root described : String}

/-- **A turn takes up a directory, puts one on the stack, or finds a file.** -/
theorem turn_cases {w w' : Walk} (h : Turn (next debug root described) w w') :
    (∃ directory listing pending, w.listing = .nil ∧ w.pending = (directory, listing) :: pending ∧
      w' = { w with directory, listing, pending, listed := directory :: w.listed }) ∨
    (∃ filename entry rest name, w.listing = .cons filename entry rest ∧
      from_utf8 filename = some name ∧ join w.directory name ≠ "" ∧
      ((∃ sub, entry = .tree sub ∧ w.descended + 1 ≤ MOST_KEYS ∧
        w' = { w with listing := rest, descended := w.descended + 1,
                      pending := (join w.directory name, sub) :: w.pending }) ∨
      (entry.isTree = false ∧ w.found.length + 1 ≤ MOST_KEYS ∧
        w' = { w with listing := rest, found := w.found ++ [join w.directory name] }))) := by
  rw [Turn, next] at h
  rcases hlisting : w.listing with - | error | ⟨filename, entry, rest⟩ <;> rw [hlisting] at h
  · rcases hpending : w.pending with - | ⟨⟨directory, listing⟩, pending⟩ <;> rw [hpending] at h
    · cases h
    · exact .inl ⟨directory, listing, pending, rfl, rfl, (Option.some.inj (Except.ok.inj h)).symm⟩
  · cases h
  · obtain ⟨name, hname, h⟩ := exists_of_bind_eq_ok h
    obtain ⟨_, hcheck, h⟩ := exists_of_bind_eq_ok h
    obtain ⟨admitted, hadmit, h⟩ := exists_of_bind_eq_ok h
    obtain rfl := Option.some.inj (Except.ok.inj h)
    refine .inr ⟨filename, entry, rest, name, rfl, nameOf_eq_ok hname, ne_empty_of_checkFound hcheck, ?_⟩
    rcases Walk.admit_eq_ok hadmit with ⟨sub, rfl, hbudget, rfl⟩ | ⟨hentry, hbudget, rfl⟩
    · exact .inl ⟨sub, rfl, hbudget, rfl⟩
    · exact .inr ⟨hentry, hbudget, rfl⟩

/-! ### Nothing is lost and nothing is found twice -/

/-- The ways from the root of the repository to what is below a directory. -/
def below (directory : String) (tree : Tree) : List (List Name) :=
  tree.leaves.map (base directory ++ ·)

theorem below_cons_of_not_isTree {directory : String} {filename : Name} {entry : Entry} {rest : Tree}
    (h : entry.isTree = false) :
    below directory (.cons filename entry rest) =
      (base directory ++ [filename]) :: below directory rest := by
  rw [below, Tree.leaves, Entry.leaves_of_not_isTree h]
  rfl

theorem below_cons_tree {directory path : String} {filename : Name} {sub rest : Tree}
    (hpath : base path = base directory ++ [filename]) :
    below directory (.cons filename (.tree sub) rest) = below path sub ++ below directory rest := by
  have hsub : (sub.leaves.map (filename :: ·)).map (base directory ++ ·) = below path sub := by
    rw [below, List.map_map, hpath]
    refine List.map_congr_left fun names _ ↦ ?_
    show base directory ++ filename :: names = base directory ++ [filename] ++ names
    rw [List.append_assoc]
    rfl
  rw [below, Tree.leaves, Entry.leaves, List.map_append, hsub]
  rfl

/-- What a walk still has before it. -/
def Walk.remaining (w : Walk) : List (List Name) :=
  below w.directory w.listing ++ w.pending.flatMap fun p ↦ below p.1 p.2

/-- What is found and what is before the walk are all there is. -/
structure Walk.Complete (all : List (List Name)) (w : Walk) : Prop where
  listing : w.listing.Proper
  pending : ∀ p ∈ w.pending, p.2.Proper
  perm : (w.found.map components ++ w.remaining).Perm all

/-- The budgets hold, and every directory that was met has been listed or is on the stack. -/
structure Walk.Within (w : Walk) : Prop where
  found : w.found.length ≤ MOST_KEYS
  descended : w.descended ≤ MOST_KEYS
  listed : w.listed.length + w.pending.length = w.descended + 1

theorem Walk.complete_start {tree : Tree} (h : tree.Proper) (root : String) :
    (start root tree).Complete (below root tree) where
  listing := by
    rw [start, Tree.Proper]
    trivial
  pending := List.forall_mem_singleton.2 h
  perm := by
    have hremaining : (start root tree).remaining = below root tree := List.append_nil _
    rw [hremaining]
    exact List.Perm.refl _

theorem Walk.within_start (tree : Tree) (root : String) : (start root tree).Within :=
  ⟨Nat.zero_le _, Nat.zero_le _, rfl⟩

/-- The components of a path that was met. -/
theorem components_met {directory name : String} {filename : Name}
    (hname : from_utf8 filename = some name) (hslash : slash ∉ filename) :
    components (join directory name) = base directory ++ [filename] := by
  have hbytes : as_bytes name = filename := as_bytes_of_from_utf8 hname
  have hnot : '/' ∉ name.toList := fun hmem ↦ hslash (hbytes ▸ slash_mem_as_bytes hmem)
  rw [components_join hnot, hbytes]

/-- **A turn loses nothing and finds nothing twice.** -/
theorem complete_turn {all : List (List Name)} {w w' : Walk} (h : Turn (next debug root described) w w')
    (hw : w.Complete all) : w'.Complete all := by
  obtain ⟨hlisting, hpending, hperm⟩ := hw
  rw [Walk.remaining] at hperm
  rcases turn_cases h with ⟨directory, listing, pending, hnil, hstack, rfl⟩ |
    ⟨filename, entry, rest, name, hcons, hname, hne, hentry⟩
  · rw [hstack] at hpending
    obtain ⟨hfirst, hrest⟩ := List.forall_mem_cons.1 hpending
    refine ⟨hfirst, hrest, ?_⟩
    -- The listing was at its end, so what it held is what was left of it.
    rw [hnil, hstack, List.flatMap_cons] at hperm
    exact hperm
  · rw [hcons, Tree.Proper] at hlisting
    obtain ⟨hslash, -, hproper, hrest⟩ := hlisting
    have hpath : components (join w.directory name) = base w.directory ++ [filename] :=
      components_met hname hslash
    rw [hcons] at hperm
    rcases hentry with ⟨sub, rfl, -, rfl⟩ | ⟨hfile, -, rfl⟩
    · rw [Entry.Proper] at hproper
      refine ⟨hrest, List.forall_mem_cons.2 ⟨hproper, hpending⟩, .trans ?_ hperm⟩
      have hbase : base (join w.directory name) = base w.directory ++ [filename] := by
        rw [base, if_neg hne, hpath]
      rw [Walk.remaining, List.flatMap_cons, below_cons_tree hbase]
      -- The directory went behind the rest of the listing.
      refine List.Perm.append_left _ ?_
      rw [← List.append_assoc]
      exact List.Perm.append_right _ List.perm_append_comm
    · refine ⟨hrest, hpending, .trans (.of_eq ?_) hperm⟩
      rw [Walk.remaining, List.map_append, List.map_singleton, hpath, below_cons_of_not_isTree hfile,
        List.append_assoc]
      rfl

/-- **A turn keeps to the budgets.** -/
theorem within_turn {w w' : Walk} (h : Turn (next debug root described) w w') (hw : w.Within) :
    w'.Within := by
  obtain ⟨hfound, hdescended, hlisted⟩ := hw
  rcases turn_cases h with ⟨directory, listing, pending, -, hstack, rfl⟩ |
    ⟨filename, entry, rest, name, -, -, -, ⟨sub, -, hbudget, rfl⟩ | ⟨-, hbudget, rfl⟩⟩
  · refine ⟨hfound, hdescended, ?_⟩
    rw [hstack, List.length_cons] at hlisted
    show w.listed.length + 1 + pending.length = w.descended + 1
    omega
  · refine ⟨hfound, hbudget, ?_⟩
    show w.listed.length + (w.pending.length + 1) = w.descended + 1 + 1
    omega
  · refine ⟨?_, hdescended, hlisted⟩
    show (w.found ++ [join w.directory name]).length ≤ MOST_KEYS
    rw [List.length_append]
    exact hbudget

/-! ### The walk ends -/

/-- The turns it takes to list what is on a stack. -/
def stacked : List (String × Tree) → ℕ
  | [] => 0
  | (_, tree) :: pending => tree.weight + 1 + stacked pending

theorem stacked_cons (directory : String) (tree : Tree) (pending : List (String × Tree)) :
    stacked ((directory, tree) :: pending) = tree.weight + 1 + stacked pending := rfl

/-- The turns a walk has before it. -/
def Walk.weight (w : Walk) : ℕ := w.listing.weight + stacked w.pending

theorem weight_turn {w w' : Walk} (h : Turn (next debug root described) w w') :
    w'.weight < w.weight := by
  show _ < w.listing.weight + stacked w.pending
  rcases turn_cases h with ⟨directory, listing, pending, hnil, hstack, rfl⟩ |
    ⟨filename, entry, rest, name, hcons, -, -, ⟨sub, rfl, -, rfl⟩ | ⟨hfile, -, rfl⟩⟩
  · rw [hnil, hstack, stacked_cons, Tree.weight]
    show listing.weight + stacked pending < _
    omega
  · rw [hcons, Tree.weight, Entry.weight]
    show rest.weight + (sub.weight + 1 + stacked w.pending) < _
    omega
  · have hentry : entry.weight = 1 := by
      cases entry with
      | tree _ | missing _ | mistyped _ => cases hfile
      | blob _ | blobExecutable _ | link | commit => rfl
    rw [hcons, Tree.weight, hentry]
    show rest.weight + stacked w.pending < _
    omega

/-- **The walk ends.** -/
theorem isSome_under (lookup : Lookup) (debug : String → String) (tree : Tree)
    (directory described : String) : (under lookup debug tree directory described).isSome := by
  rw [under]
  rcases openRoot lookup tree (trimmed directory) described with error | start
  · rfl
  · have hweight : (Walk.start (trimmed directory) start).weight < start.weight + 2 := by
      show 0 + (start.weight + 1 + 0) < start.weight + 2
      omega
    show (Option.map _ (loop _ _ _)).isSome = true
    rw [Option.isSome_map]
    exact Transition.isSome_loop Walk.weight (fun _ _ ↦ weight_turn) hweight

/-! ### What it comes to -/

theorem openRoot_eq_ok {lookup : Lookup} (hlookup : lookup.Sound) {tree sub : Tree}
    (h : openRoot lookup tree root described = .ok sub) :
    root = "" ∧ sub = tree ∨ root ≠ "" ∧ Finds tree (components root) (.tree sub) := by
  rw [openRoot] at h
  split_ifs at h with hroot
  · exact .inl ⟨hroot, (Except.ok.inj h).symm⟩
  · rcases hfound : lookup tree (components root) with error | - | entry <;> rw [hfound] at h
    · cases h
    · cases h
    · cases entry with
      | tree other =>
        obtain rfl := Except.ok.inj h
        exact .inr ⟨hroot, hlookup _ _ _ hfound⟩
      | blob _ | blobExecutable _ | link | commit | missing _ | mistyped _ => cases h

/-- What is below the directory a prefix names is what the tree has behind the directory's names. -/
theorem finds_iff_of_openRoot {lookup : Lookup} (hlookup : lookup.Sound) {tree sub : Tree}
    (hproper : tree.Proper) (h : openRoot lookup tree root described = .ok sub) {names : List Name}
    {entry : Entry} (hnames : names ≠ []) :
    Finds sub names entry ↔ Finds tree (base root ++ names) entry := by
  rw [base]
  rcases openRoot_eq_ok hlookup h with ⟨hroot, rfl⟩ | ⟨hroot, hfinds⟩
  · rw [if_pos hroot]
    rfl
  · rw [if_neg hroot]
    exact ⟨hfinds.append, fun hall ↦ hfinds.of_append hall hnames hproper⟩

theorem proper_of_openRoot {lookup : Lookup} (hlookup : lookup.Sound) {tree sub : Tree}
    (hproper : tree.Proper) (h : openRoot lookup tree root described = .ok sub) : sub.Proper := by
  rcases openRoot_eq_ok hlookup h with ⟨-, rfl⟩ | ⟨-, hfinds⟩
  · exact hproper
  · have hentry := hfinds.proper hproper
    rwa [Entry.Proper] at hentry

/-- A walk without a turn has nothing before it. -/
theorem remaining_of_done {w : Walk} (h : next debug root described w = .ok none) :
    w.remaining = [] := by
  rw [next] at h
  rcases hlisting : w.listing with - | error | ⟨filename, entry, rest⟩ <;> rw [hlisting] at h
  · rcases hpending : w.pending with - | ⟨_, pending⟩ <;> rw [hpending] at h
    · rw [Walk.remaining, hlisting, hpending]
      rfl
    · cases h
  · cases h
  · obtain ⟨name, -, h⟩ := exists_of_bind_eq_ok h
    obtain ⟨_, -, h⟩ := exists_of_bind_eq_ok h
    obtain ⟨_, -, h⟩ := exists_of_bind_eq_ok h
    cases h

/-- **A walk that is done has found everything below its root, once, in order.** -/
theorem under_eq_ok {lookup : Lookup} (hlookup : lookup.Sound) {tree : Tree} (hproper : tree.Proper)
    {directory : String} {paths : List String}
    (h : under lookup debug tree directory described = some (.ok paths)) :
    paths.Pairwise (· < ·) ∧ paths.length ≤ MOST_KEYS ∧ ∀ names, names ∈ paths.map components ↔
      ∃ more entry, names = base (trimmed directory) ++ more ∧ more ≠ [] ∧
        Finds tree names entry ∧ entry.isTree = false := by
  rw [under] at h
  rcases hopen : openRoot lookup tree (trimmed directory) described with error | start <;>
    rw [hopen] at h
  · cases h
  · obtain ⟨result, hloop, hresult⟩ := Option.map_eq_some_iff.1 h
    rcases result with error | w
    · cases hresult
    obtain rfl : w.found.mergeSort _ = paths := Except.ok.inj hresult
    have hstart := proper_of_openRoot hlookup hproper hopen
    obtain ⟨hreach, hdone⟩ := Transition.reaches_of_loop hloop
    have hcomplete : w.Complete (below (trimmed directory) start) :=
      Transition.reaches_invariant (fun _ _ ↦ complete_turn) hreach (Walk.complete_start hstart _)
    have hwithin : w.Within :=
      Transition.reaches_invariant (fun _ _ ↦ within_turn) hreach (Walk.within_start _ _)
    have hperm : (w.found.map components).Perm (below (trimmed directory) start) := by
      have hall := hcomplete.perm
      rwa [remaining_of_done hdone, List.append_nil] at hall
    have hsort : (w.found.mergeSort fun a b ↦ decide (a ≤ b)).Perm w.found := List.mergeSort_perm _ _
    have hnodup : w.found.Nodup := by
      refine List.Nodup.of_map components (hperm.nodup_iff.2 ?_)
      exact (Tree.nodup_leaves hstart).map fun _ _ heq ↦ List.append_cancel_left heq
    refine ⟨?_, hsort.length_eq ▸ hwithin.found, fun names ↦ ?_⟩
    · have hle : (w.found.mergeSort fun a b ↦ decide (a ≤ b)).Pairwise fun a b ↦ decide (a ≤ b) :=
        List.pairwise_mergeSort
          (fun a b c hab hbc ↦ decide_eq_true ((of_decide_eq_true hab).trans (of_decide_eq_true hbc)))
          (fun a b ↦ by simpa using le_total a b) w.found
      have hne : (w.found.mergeSort fun a b ↦ decide (a ≤ b)).Pairwise (· ≠ ·) := hsort.nodup_iff.2 hnodup
      exact (hle.and hne).imp fun h ↦ lt_of_le_of_ne (of_decide_eq_true h.1) h.2
    · rw [((hsort.map components).trans hperm).mem_iff, below, List.mem_map]
      constructor
      · rintro ⟨more, hmore, rfl⟩
        obtain ⟨entry, hfinds, hentry⟩ := mem_leaves_iff.1 hmore
        exact ⟨more, entry, rfl, hfinds.ne_nil,
          (finds_iff_of_openRoot hlookup hproper hopen hfinds.ne_nil).1 hfinds, hentry⟩
      · rintro ⟨more, entry, rfl, hmore, hfinds, hentry⟩
        exact ⟨more, mem_leaves_iff.2 ⟨entry,
          (finds_iff_of_openRoot hlookup hproper hopen hmore).2 hfinds, hentry⟩, rfl⟩

end DynamicConfig.Git
