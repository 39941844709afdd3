import DynamicConfig.Etcd.Source

/-!
# The tree of a commit

A tree lists entries, each a name and what it names: a file, a link, a submodule, or a tree again.
Names are bytes, and the other side chose them. git keeps them distinct within a tree and free of
slashes (`Tree.Proper`), which is what makes the names on the way to an entry a path: no two entries
have the same (`Finds.unique`).

`leaves` lists the ways to everything that is not a directory, each once
(`mem_leaves_iff`, `nodup_leaves`). What cannot be read is part of the tree as well: an object that is
missing, one that is of another kind than its entry says, and the rest of a listing that does not
parse.
-/

namespace DynamicConfig.Git

open Etcd (from_utf8 as_bytes)

/-- A name in a tree, or one component of a path. -/
abbrev Name := List UInt8

/-- The byte of `/`. -/
def slash : UInt8 := 47

/-- A file as the object database answers for it. -/
structure Blob where
  /-- The size that the header gives. -/
  header : Except String ℕ
  object : Except String (List UInt8)
  /-- It is the size of the object. -/
  agrees : ∀ size data, header = .ok size → object = .ok data → size = data.length

mutual

/-- What a tree says of one name: its mode, and the object where the mode is one that is read. -/
inductive Entry where
  | blob (blob : Blob)
  | blobExecutable (blob : Blob)
  | link
  | commit
  /-- A directory whose object cannot be had. -/
  | missing (error : String)
  /-- A directory whose object is of another kind. -/
  | mistyped (error : String)
  | tree (tree : Tree)

/-- A listing. -/
inductive Tree where
  | nil
  /-- What follows does not parse. -/
  | garbled (error : String)
  | cons (name : Name) (entry : Entry) (rest : Tree)

end

/-- Whether the mode is that of a directory. -/
def Entry.isTree : Entry → Bool
  | .missing _ | .mistyped _ | .tree _ => true
  | _ => false

/-- The entries of a listing, as far as it parses. -/
def Tree.entries : Tree → List (Name × Entry)
  | .nil | .garbled _ => []
  | .cons name entry rest => (name, entry) :: rest.entries

mutual

/-- Every directory below is proper. -/
def Entry.Proper : Entry → Prop
  | .tree tree => tree.Proper
  | _ => True

/-- Names have no slashes, no two entries of a directory have the same, and so on down. -/
def Tree.Proper : Tree → Prop
  | .nil | .garbled _ => True
  | .cons name entry rest =>
    slash ∉ name ∧ (∀ other ∈ rest.entries, other.1 ≠ name) ∧ entry.Proper ∧ rest.Proper

end

/-- The names that lead from a tree to an entry. -/
inductive Finds : Tree → List Name → Entry → Prop
  | here {tree : Tree} {name : Name} {entry : Entry} (hmem : (name, entry) ∈ tree.entries) :
    Finds tree [name] entry
  | down {tree sub : Tree} {name : Name} {names : List Name} {entry : Entry}
    (hmem : (name, .tree sub) ∈ tree.entries) (hrest : Finds sub names entry) :
    Finds tree (name :: names) entry

/-! ### Proper trees -/

theorem Tree.Proper.of_mem {tree : Tree} (h : tree.Proper) {name : Name} {entry : Entry}
    (hmem : (name, entry) ∈ tree.entries) : slash ∉ name ∧ entry.Proper :=
  match tree, h, hmem with
  | .cons _ _ _, h, hmem => by
    rw [Tree.Proper] at h
    obtain ⟨hslash, -, hentry, hrest⟩ := h
    rcases List.mem_cons.1 hmem with heq | hmem
    · obtain ⟨rfl, rfl⟩ := Prod.mk.inj heq
      exact ⟨hslash, hentry⟩
    · exact hrest.of_mem hmem

theorem Tree.Proper.of_mem_tree {tree sub : Tree} (h : tree.Proper) {name : Name}
    (hmem : (name, .tree sub) ∈ tree.entries) : sub.Proper := by
  have hentry := (h.of_mem hmem).2
  rwa [Entry.Proper] at hentry

/-- One name, one entry. -/
theorem Tree.Proper.eq_of_mem {tree : Tree} (h : tree.Proper) {name : Name} {entry other : Entry}
    (hmem : (name, entry) ∈ tree.entries) (hother : (name, other) ∈ tree.entries) : entry = other :=
  match tree, h, hmem, hother with
  | .cons _ _ _, h, hmem, hother => by
    rw [Tree.Proper] at h
    obtain ⟨-, hnew, -, hrest⟩ := h
    rcases List.mem_cons.1 hmem with heq | hmem <;> rcases List.mem_cons.1 hother with heq' | hother
    · exact (Prod.mk.inj heq).2.trans (Prod.mk.inj heq').2.symm
    · exact absurd (Prod.mk.inj heq).1 (hnew _ hother)
    · exact absurd (Prod.mk.inj heq').1 (hnew _ hmem)
    · exact hrest.eq_of_mem hmem hother

namespace Finds

theorem ne_nil {tree : Tree} {names : List Name} {entry : Entry} (h : Finds tree names entry) :
    names ≠ [] := by
  cases h <;> exact List.cons_ne_nil _ _

/-- What a name leads to is proper. -/
theorem proper {tree : Tree} {names : List Name} {entry : Entry} (h : Finds tree names entry)
    (hproper : tree.Proper) : entry.Proper := by
  induction h with
  | here hmem => exact (hproper.of_mem hmem).2
  | down hmem _ ih => exact ih (hproper.of_mem_tree hmem)

/-- Down to a directory, and down from there. -/
theorem append {tree sub : Tree} {names more : List Name} {entry : Entry}
    (h : Finds tree names (.tree sub)) (hrest : Finds sub more entry) :
    Finds tree (names ++ more) entry := by
  generalize hdir : Entry.tree sub = directory at h
  induction h with
  | here hmem => exact .down (hdir ▸ hmem) hrest
  | down hmem _ ih => exact .down hmem (ih hdir)

/-- **Names lead to one entry, and what is below a directory is below the directory they lead to.** -/
theorem unique {tree : Tree} {names : List Name} {entry other : Entry} (h : Finds tree names entry)
    (hother : Finds tree names other) (hproper : tree.Proper) : entry = other := by
  induction h with
  | here hmem =>
    cases hother with
    | here hmem' => exact hproper.eq_of_mem hmem hmem'
    | down _ hrest => exact absurd rfl hrest.ne_nil
  | down hmem hrest ih =>
    cases hother with
    | here hmem' => exact absurd rfl hrest.ne_nil
    | down hmem' hrest' =>
      obtain rfl := Entry.tree.inj (hproper.eq_of_mem hmem hmem')
      exact ih hrest' (hproper.of_mem_tree hmem)

theorem exists_of_cons {tree : Tree} {name : Name} {names : List Name} {entry : Entry}
    (h : Finds tree (name :: names) entry) (hnames : names ≠ []) :
    ∃ sub, (name, .tree sub) ∈ tree.entries ∧ Finds sub names entry := by
  cases h with
  | here _ => exact absurd rfl hnames
  | down hmem hrest => exact ⟨_, hmem, hrest⟩

theorem of_append {tree sub : Tree} {names more : List Name} {entry : Entry}
    (h : Finds tree names (.tree sub)) (hall : Finds tree (names ++ more) entry) (hmore : more ≠ [])
    (hproper : tree.Proper) : Finds sub more entry := by
  generalize hdir : Entry.tree sub = directory at h
  induction h with
  | here hmem =>
    obtain rfl := hdir
    obtain ⟨other, hmem', hrest⟩ := hall.exists_of_cons hmore
    obtain rfl := Entry.tree.inj (hproper.eq_of_mem hmem hmem')
    exact hrest
  | down hmem _ ih =>
    obtain ⟨other, hmem', hrest⟩ := hall.exists_of_cons (List.append_ne_nil_of_right_ne_nil _ hmore)
    obtain rfl := Entry.tree.inj (hproper.eq_of_mem hmem hmem')
    exact ih hrest (hproper.of_mem_tree hmem) hdir

end Finds

/-! ### What is not a directory -/

mutual

/-- The ways down from an entry. -/
def Entry.leaves : Entry → List (List Name)
  | .tree tree => tree.leaves
  | .missing _ | .mistyped _ => []
  | _ => [[]]

/-- The ways from a tree to everything that is not a directory. -/
def Tree.leaves : Tree → List (List Name)
  | .nil | .garbled _ => []
  | .cons name entry rest => entry.leaves.map (name :: ·) ++ rest.leaves

end

theorem Entry.leaves_of_not_isTree {entry : Entry} (h : entry.isTree = false) : entry.leaves = [[]] := by
  cases entry with
  | blob _ | blobExecutable _ | link | commit => rfl
  | missing _ | mistyped _ | tree _ => cases h

theorem mem_leaves_of_mem {tree : Tree} {name : Name} {entry : Entry} {names : List Name}
    (hmem : (name, entry) ∈ tree.entries) (hnames : names ∈ entry.leaves) :
    name :: names ∈ tree.leaves :=
  match tree, hmem with
  | .cons _ _ _, hmem => by
    rw [Tree.leaves]
    rcases List.mem_cons.1 hmem with heq | hmem
    · obtain ⟨rfl, rfl⟩ := Prod.mk.inj heq
      exact List.mem_append_left _ (List.mem_map_of_mem hnames)
    · exact List.mem_append_right _ (mem_leaves_of_mem hmem hnames)

/-- What is found is listed. -/
theorem Finds.mem_leaves {tree : Tree} {names : List Name} {entry : Entry} (h : Finds tree names entry)
    (hentry : entry.isTree = false) : names ∈ tree.leaves := by
  induction h with
  | here hmem =>
    refine mem_leaves_of_mem hmem ?_
    rw [Entry.leaves_of_not_isTree hentry]
    exact List.mem_singleton_self _
  | down hmem _ ih => exact mem_leaves_of_mem hmem (by rw [Entry.leaves]; exact ih hentry)

mutual

theorem Entry.finds_of_mem_leaves {entry : Entry} {names : List Name} (h : names ∈ entry.leaves) :
    names = [] ∧ entry.isTree = false ∨
      ∃ sub found, entry = .tree sub ∧ Finds sub names found ∧ found.isTree = false :=
  match entry, h with
  | .blob _, h | .blobExecutable _, h | .link, h | .commit, h => .inl ⟨List.mem_singleton.1 h, rfl⟩
  | .tree sub, h => by
    rw [Entry.leaves] at h
    obtain ⟨found, hfinds, hfound⟩ := Tree.finds_of_mem_leaves h
    exact .inr ⟨sub, found, rfl, hfinds, hfound⟩

theorem Tree.finds_of_mem_leaves {tree : Tree} {names : List Name} (h : names ∈ tree.leaves) :
    ∃ entry, Finds tree names entry ∧ entry.isTree = false :=
  match tree, h with
  | .cons name entry rest, h => by
    rw [Tree.leaves] at h
    rcases List.mem_append.1 h with h | h
    · obtain ⟨more, hmore, rfl⟩ := List.mem_map.1 h
      rcases Entry.finds_of_mem_leaves hmore with ⟨rfl, hentry⟩ | ⟨sub, found, rfl, hfinds, hfound⟩
      · exact ⟨entry, .here List.mem_cons_self, hentry⟩
      · exact ⟨found, .down List.mem_cons_self hfinds, hfound⟩
    · obtain ⟨found, hfinds, hfound⟩ := Tree.finds_of_mem_leaves h
      refine ⟨found, ?_, hfound⟩
      cases hfinds with
      | here hmem => exact .here (List.mem_cons_of_mem _ hmem)
      | down hmem hrest => exact .down (List.mem_cons_of_mem _ hmem) hrest

end

/-- **What is listed is what is found and is not a directory.** -/
theorem mem_leaves_iff {tree : Tree} {names : List Name} :
    names ∈ tree.leaves ↔ ∃ entry, Finds tree names entry ∧ entry.isTree = false :=
  ⟨Tree.finds_of_mem_leaves, fun ⟨_, hfinds, hentry⟩ ↦ hfinds.mem_leaves hentry⟩

/-- A way down begins with a name of the listing. -/
theorem exists_of_mem_leaves {tree : Tree} {name : Name} {names : List Name}
    (h : name :: names ∈ tree.leaves) : ∃ entry, (name, entry) ∈ tree.entries := by
  obtain ⟨entry, hfinds, -⟩ := mem_leaves_iff.1 h
  cases hfinds with
  | here hmem => exact ⟨entry, hmem⟩
  | down hmem _ => exact ⟨_, hmem⟩

mutual

theorem Entry.nodup_leaves {entry : Entry} (h : entry.Proper) : entry.leaves.Nodup :=
  match entry, h with
  | .blob _, _ | .blobExecutable _, _ | .link, _ | .commit, _ => List.nodup_singleton []
  | .missing _, _ | .mistyped _, _ => List.nodup_nil
  | .tree _, h => by
    rw [Entry.Proper] at h
    rw [Entry.leaves]
    exact Tree.nodup_leaves h

/-- **Each is listed once.** -/
theorem Tree.nodup_leaves {tree : Tree} (h : tree.Proper) : tree.leaves.Nodup :=
  match tree, h with
  | .nil, _ | .garbled _, _ => List.nodup_nil
  | .cons name entry rest, h => by
    rw [Tree.Proper] at h
    obtain ⟨-, hnew, hentry, hrest⟩ := h
    rw [Tree.leaves]
    have hfirst : (entry.leaves.map (name :: ·)).Nodup :=
      (Entry.nodup_leaves hentry).map fun _ _ heq ↦ (List.cons.inj heq).2
    refine hfirst.append (Tree.nodup_leaves hrest) ?_
    -- A way that is in both begins with the name, and the rest of the listing does not have it.
    intro names hmem hmem'
    obtain ⟨more, -, rfl⟩ := List.mem_map.1 hmem
    obtain ⟨other, hother⟩ := exists_of_mem_leaves hmem'
    exact hnew _ hother rfl

end

/-! ### How much there is to walk -/

mutual

/-- The turns a walk takes for an entry. -/
def Entry.weight : Entry → ℕ
  | .tree tree => tree.weight + 2
  | _ => 1

/-- The turns a walk takes to the end of a listing, with all that is below. -/
def Tree.weight : Tree → ℕ
  | .nil | .garbled _ => 0
  | .cons _ entry rest => entry.weight + rest.weight

end

end DynamicConfig.Git
