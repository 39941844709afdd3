import DynamicConfig.Files.Resolve
import DynamicConfig.Transition.Run
import Mathlib.Data.List.Nodup
import Mathlib.Data.List.Perm.Basic

/-!
# Claimed directories

A directory that a caller names is held by the source that names it, against a second source in the
same process. What is held is an identity, computed once from what stands on the disk at that time:
where the path leads, or else where as much of it as leads anywhere leads, with the missing names put
behind it, or else the path made absolute.

The identities that are held differ (`Process.Held`). So two live claims keep apart as long as each
can only ever lead to its identity. That is so of a path that is plain names from some directory on,
none of which is a link (`Grounded`), until a link is made in the way. It is not so of a missing name
with `..` behind it, since that leads on from somewhere else once the name is there, nor of a link
whose target is missing.
-/

namespace DynamicConfig.Git

open Files (Disk Place Unlinked Grows)
open Transition (run Along)
open UnixPath (Component Path parse absolute)

/-! ### Identities -/

/-- `Path::canonicalize`: where a path leads. The empty path is refused. -/
def canonicalize (disk : Disk Place) (links : ℕ) (cwd : Place) (path : Path) : Option Place :=
  if path = [] then none else disk.resolve links cwd path

/-- The path of a place. -/
def named (place : Place) : Path := .rootDir :: place.map .normal

/-- Canonicalizes a path as far as it goes, from the back, and puts the missing names behind that. -/
def climb (disk : Disk Place) (links : ℕ) (cwd : Place) : Path → List (List Char) → Option Path
  | .normal name :: before, missing =>
    match canonicalize disk links cwd before.reverse with
    | some place => some (named (place ++ name :: missing))
    | none => climb disk links cwd before (name :: missing)
  | _, _ => none

/-- What two spellings of one directory have in common. -/
def identity (disk : Disk Place) (links : ℕ) (cwd : Place) (path : Path) : Path :=
  match canonicalize disk links cwd path with
  | some place => named place
  | none =>
    match climb disk links cwd path.reverse [] with
    | some found => found
    | none => if path = [] then path else absolute cwd path

/-! ### Claims -/

/-- A directory that a live source has named. -/
structure Claimed where
  path : Path
  identity : Path

/-- What is held is what live claims hold, and the disk under it. -/
structure Process where
  disk : Disk Place
  taken : List Path
  live : List Claimed

inductive Act
  | claim (path : List Char)
  /-- A source is dropped, and its claim with it. -/
  | drop (index : ℕ)
  | mkdir (place : Place)
  | symlink (place : Place) (target : List Char)

/-- `Claimed::new`: refused where the identity is taken. -/
def Process.claim (links : ℕ) (cwd : Place) (s : Process) (path : Path) : Process :=
  let identity := identity s.disk links cwd path
  if identity ∈ s.taken then s
  else { s with taken := identity :: s.taken, live := s.live ++ [⟨path, identity⟩] }

/-- `Drop`: the identity is free again. -/
def Process.drop (s : Process) (index : ℕ) : Option Process :=
  s.live[index]?.map fun claimed ↦
    { s with taken := s.taken.filter (· ≠ claimed.identity), live := s.live.eraseIdx index }

/-- One event. -/
def Process.step (links : ℕ) (cwd : Place) (s : Process) : Act → Option Process
  | .claim path => some (s.claim links cwd (parse path))
  | .drop index => s.drop index
  | .mkdir place => (s.disk.create place .directory).map fun disk ↦ { s with disk }
  | .symlink place target => (s.disk.create place (.link target)).map fun disk ↦ { s with disk }

/-- A path names a directory. -/
def Names (disk : Disk Place) (links : ℕ) (cwd : Place) (path : Path) (place : Place) : Prop :=
  canonicalize disk links cwd path = some place ∧ disk.isDirectory place = true

/-- No two live claims name the same directory. -/
def Process.Apart (links : ℕ) (cwd : Place) (s : Process) : Prop :=
  s.live.Pairwise fun a b ↦ ∀ place,
    ¬ (Names s.disk links cwd a.path place ∧ Names s.disk links cwd b.path place)

/-- Nothing is claimed yet. -/
def Process.start (disk : Disk Place) : Process := ⟨disk, [], []⟩

/-! ### Where a claim can lead -/

/-- A path leads to a directory and goes on in plain names, none of which is a link. -/
structure Grounded (disk : Disk Place) (links : ℕ) (cwd : Place) (path front : Path) (place : Place)
    (names : List (List Char)) : Prop where
  path_eq : path = front ++ names.map .normal
  front : disk.resolve links cwd front = some place
  unlinked : Unlinked disk place names

variable {disk disk' : Disk Place} {links : ℕ} {cwd : Place}

namespace Grounded

variable {path front : Path} {place : Place} {names : List (List Char)}

/-- **It can only lead to the place that has those names.** -/
theorem eq_of_canonicalize (h : Grounded disk links cwd path front place names) {found : Place}
    (hfound : canonicalize disk links cwd path = some found) : found = place ++ names := by
  rw [canonicalize] at hfound
  split_ifs at hfound
  obtain ⟨left, hleft⟩ := Files.resolve_append h.front
  rw [h.path_eq, hleft] at hfound
  exact Files.resolve_names h.unlinked hfound

/-- So it is with every path on the way. -/
theorem dropLast {name : List Char} (h : Grounded disk links cwd path front place (names ++ [name])) :
    Grounded disk links cwd (front ++ names.map .normal) front place names where
  path_eq := rfl
  front := h.front
  unlinked := by
    have hunlinked := h.unlinked
    clear h
    induction names generalizing place with
    | nil => trivial
    | cons first names ih => exact ⟨hunlinked.1, ih hunlinked.2⟩

/-- Making a directory, or a link elsewhere, leaves it so. -/
theorem of_create {made : Place} {entry : Files.Entry} (h : Grounded disk links cwd path front place names)
    (hcreate : disk.create made entry = some disk')
    (hmade : (∀ target, entry ≠ .link target) ∨ ¬ made <+: place ++ names) :
    Grounded disk' links cwd path front place names :=
  ⟨h.path_eq, Files.resolve_mono (Files.grows_of_create hcreate) h.front,
    Files.unlinked_of_create hcreate hmade h.unlinked⟩

/-- What climbing comes to: the place that has the names, from wherever the path leads. -/
theorem climb_eq (h : Grounded disk links cwd path front place names) (missing : List (List Char))
    (hnone : canonicalize disk links cwd path = none) :
    climb disk links cwd path.reverse missing = some (named (place ++ (names ++ missing))) ∨
      (climb disk links cwd path.reverse missing = none ∧ front = []) := by
  induction names using List.reverseRecOn generalizing path missing with
  | nil =>
    -- The front leads somewhere, so it is only refused when it is empty.
    obtain rfl : path = front := by rw [h.path_eq]; exact List.append_nil _
    have hfront : path = [] := by
      by_contra hne
      rw [canonicalize, if_neg hne, h.front] at hnone
      cases hnone
    exact .inr ⟨by rw [hfront]; rfl, hfront⟩
  | append_singleton names name ih =>
    have hpath : path.reverse = .normal name :: (front ++ names.map Component.normal).reverse := by
      rw [h.path_eq, List.map_append, ← List.append_assoc, List.reverse_append]
      rfl
    rw [hpath, climb, List.reverse_reverse]
    rcases hbefore : canonicalize disk links cwd (front ++ names.map Component.normal) with - | found
    · have hnext := ih h.dropLast (name :: missing) hbefore
      rw [List.append_assoc]
      exact hnext
    · obtain rfl := h.dropLast.eq_of_canonicalize hbefore
      refine .inl (congrArg some (congrArg named ?_))
      rw [List.append_assoc, List.append_assoc]
      rfl

/-- **Its identity is that place**, however much of it was there. -/
theorem identity_eq (h : Grounded disk links cwd path front place names) (hne : path ≠ []) :
    identity disk links cwd path = named (place ++ names) := by
  rw [identity]
  rcases hfound : canonicalize disk links cwd path with - | found
  · rcases h.climb_eq [] hfound with hclimb | ⟨hclimb, rfl⟩
    · rw [hclimb, List.append_nil]
    · -- Nothing on the path is there, so it is names below the working directory.
      obtain rfl : cwd = place := by
        have hfront := h.front
        rcases links with - | links <;> exact Option.some.inj hfront
      have hpath : path = names.map .normal := h.path_eq
      rw [hclimb]
      show (if path = [] then path else absolute cwd path) = _
      rw [if_neg hne, hpath]
      rcases names with - | ⟨name, names⟩
      · exact absurd hpath hne
      · show absolute cwd (.normal name :: names.map .normal) = _
        rw [absolute, named, List.map_append]
        rfl
  · rw [h.eq_of_canonicalize hfound]

end Grounded

/-- A claim can only lead to its identity. The empty path leads nowhere. -/
def Settled (disk : Disk Place) (links : ℕ) (cwd : Place) (claimed : Claimed) : Prop :=
  claimed.path = [] ∨ ∃ front place names, Grounded disk links cwd claimed.path front place names ∧
    claimed.identity = named (place ++ names)

namespace Settled

variable {claimed : Claimed}

theorem identity_eq (h : Settled disk links cwd claimed) {place : Place}
    (hnames : Names disk links cwd claimed.path place) : claimed.identity = named place := by
  rcases h with hempty | ⟨front, start, names, hgrounded, hidentity⟩
  · have hnone := hnames.1
    rw [canonicalize, if_pos hempty] at hnone
    cases hnone
  · rw [hgrounded.eq_of_canonicalize hnames.1]
    exact hidentity

/-- Making a directory, or a link that is not on the way to it, leaves it so. -/
theorem of_create {made : Place} {entry : Files.Entry} (h : Settled disk links cwd claimed)
    (hcreate : disk.create made entry = some disk')
    (hmade : (∀ target, entry ≠ .link target) ∨ ¬ named made <+: claimed.identity) :
    Settled disk' links cwd claimed := by
  refine h.imp_right fun ⟨front, start, names, hgrounded, hidentity⟩ ↦
    ⟨front, start, names, hgrounded.of_create hcreate (hmade.imp_right fun hnot hprefixed ↦ ?_), hidentity⟩
  rw [hidentity] at hnot
  exact hnot (List.cons_prefix_cons.2 ⟨rfl, hprefixed.map _⟩)

end Settled

/-! ### Runs -/

/-- No two live claims hold the same, and all that they hold is taken. -/
structure Process.Held (s : Process) : Prop where
  nodup : (s.live.map Claimed.identity).Nodup
  taken : ∀ claimed ∈ s.live, claimed.identity ∈ s.taken

/-- The claims hold different identities, and can only lead to them. -/
structure Process.Right (links : ℕ) (cwd : Place) (s : Process) : Prop where
  held : s.Held
  settled : ∀ claimed ∈ s.live, Settled s.disk links cwd claimed

/-- A path that is claimed leads to a directory and goes on in plain names, none of which is a link,
and no link is made on the way to what is held. -/
def Foreseen (links : ℕ) (cwd : Place) (s : Process) : Act → Prop
  | .claim text => parse text = [] ∨
    ∃ front place names, Grounded s.disk links cwd (parse text) front place names
  | .symlink place _ => ∀ claimed ∈ s.live, ¬ named place <+: claimed.identity
  | .drop _ | .mkdir _ => True

theorem Process.Right.apart {s : Process} (h : s.Right links cwd) : s.Apart links cwd := by
  have hpair : s.live.Pairwise fun a b ↦ a.identity ≠ b.identity := List.pairwise_map.1 h.held.nodup
  refine hpair.imp_of_mem fun {a b} ha hb hne place ⟨hnames, hnames'⟩ ↦ hne ?_
  rw [(h.settled a ha).identity_eq hnames, (h.settled b hb).identity_eq hnames']

theorem Process.Held.drop {s s' : Process} (h : s.Held) {index : ℕ} (hdrop : s.drop index = some s') :
    s'.Held ∧ s'.live.Sublist s.live ∧ s'.disk = s.disk := by
  obtain ⟨claimed, hindex, rfl⟩ := Option.map_eq_some_iff.1 hdrop
  have hsub : (s.live.eraseIdx index).Sublist s.live := List.eraseIdx_sublist _ _
  refine ⟨⟨h.nodup.sublist (hsub.map _), fun other hother ↦ ?_⟩, hsub, rfl⟩
  -- No other live claim holds what was freed.
  refine List.mem_filter.2 ⟨h.taken other (hsub.subset hother), decide_eq_true fun heq ↦ ?_⟩
  obtain ⟨hlt, rfl⟩ := List.getElem?_eq_some_iff.1 hindex
  have hperm : (s.live[index] :: s.live.eraseIdx index).Perm s.live :=
    List.getElem_cons_eraseIdx_perm hlt
  have hnodup := (hperm.map Claimed.identity).nodup_iff.2 h.nodup
  exact (List.nodup_cons.1 hnodup).1 (heq ▸ List.mem_map_of_mem hother)

/-- **One event keeps the claims right.** -/
theorem Process.Right.step {s s' : Process} {e : Act} (h : s.Right links cwd)
    (hforeseen : Foreseen links cwd s e) (hstep : s.step links cwd e = some s') : s'.Right links cwd := by
  cases e with
  | claim text =>
    obtain rfl := Option.some.inj hstep
    have hnew : Settled s.disk links cwd ⟨parse text, identity s.disk links cwd (parse text)⟩ := by
      by_cases hempty : parse text = []
      · exact .inl hempty
      · obtain ⟨front, place, names, hgrounded⟩ := hforeseen.resolve_left hempty
        exact .inr ⟨front, place, names, hgrounded, hgrounded.identity_eq hempty⟩
    rw [Process.claim]
    split_ifs with htaken
    · exact h
    · refine ⟨⟨?_, fun claimed hmem ↦ ?_⟩, fun claimed hmem ↦ ?_⟩
      · show (List.map Claimed.identity (s.live ++ [_])).Nodup
        rw [List.map_append]
        refine List.nodup_append.2 ⟨h.held.nodup, List.nodup_singleton _, ?_⟩
        rintro _ hheld _ hlast rfl
        obtain ⟨claimed, hmem, hidentity⟩ := List.mem_map.1 hheld
        have hsame : claimed.identity = identity s.disk links cwd (parse text) :=
          hidentity.trans (List.mem_singleton.1 hlast)
        exact htaken (hsame ▸ h.held.taken claimed hmem)
      · rcases List.mem_append.1 hmem with hmem | hlast
        · exact List.mem_cons_of_mem _ (h.held.taken claimed hmem)
        · rw [List.mem_singleton.1 hlast]
          exact List.mem_cons_self
      · rcases List.mem_append.1 hmem with hmem | hlast
        · exact h.settled claimed hmem
        · rw [List.mem_singleton.1 hlast]
          exact hnew
  | drop index =>
    obtain ⟨hheld, hsub, hdisk⟩ := h.held.drop hstep
    exact ⟨hheld, fun claimed hmem ↦ hdisk ▸ h.settled claimed (hsub.subset hmem)⟩
  | mkdir place =>
    obtain ⟨disk, hcreate, rfl⟩ := Option.map_eq_some_iff.1 hstep
    refine ⟨⟨h.held.nodup, h.held.taken⟩, fun claimed hmem ↦ ?_⟩
    exact (h.settled claimed hmem).of_create hcreate (.inl fun _ heq ↦ by cases heq)
  | symlink place target =>
    obtain ⟨disk, hcreate, rfl⟩ := Option.map_eq_some_iff.1 hstep
    refine ⟨⟨h.held.nodup, h.held.taken⟩, fun claimed hmem ↦ ?_⟩
    exact (h.settled claimed hmem).of_create hcreate (.inr (hforeseen claimed hmem))

/-- **No two live claims name one directory**, in any run that meets the condition. -/
theorem claims_apart (disk : Disk Place) (links : ℕ) (cwd : Place) (events : List Act)
    (hevents : Along (Process.step links cwd) (Foreseen links cwd) (.start disk) events) (s : Process)
    (h : run (Process.step links cwd) (.start disk) events = some s) : s.Apart links cwd := by
  have hright : s.Right links cwd := by
    refine Transition.run_invariant_along (I := fun s ↦ s.Right links cwd)
      (fun _ _ _ hforeseen hstep hs ↦ hs.step hforeseen hstep) hevents h ?_
    exact ⟨⟨List.nodup_nil, fun _ hmem ↦ absurd hmem List.not_mem_nil⟩,
      fun _ hmem ↦ absurd hmem List.not_mem_nil⟩
  exact hright.apart

/-! ### A name that is not there yet -/

/-- A disk with one directory, the one the process works in. -/
def onlySrv : Disk Place := Function.update (fun _ ↦ none) [['s', 'r', 'v']] (some .directory)

/-- Two names below it are claimed, and the first is made. -/
def twoNames : List Act :=
  [.claim "./a".toList, .claim "b".toList, .mkdir [['s', 'r', 'v'], ['a']]]

theorem claims_apart_twoNames :
    ∃ s, run (Process.step 40 [['s', 'r', 'v']]) (.start onlySrv) twoNames = some s ∧
      s.Apart 40 [['s', 'r', 'v']] := by
  have hforeseen : Along (Process.step 40 [['s', 'r', 'v']]) (Foreseen 40 [['s', 'r', 'v']])
      (.start onlySrv) twoNames := by
    refine ⟨.inr ⟨[.curDir], _, [['a']], rfl, rfl, fun _ ↦ by rintro ⟨⟩, trivial⟩, ?_⟩
    rintro _ ⟨⟩
    refine ⟨.inr ⟨[], _, [['b']], rfl, rfl, fun _ ↦ by rintro ⟨⟩, trivial⟩, ?_⟩
    exact fun _ _ ↦ ⟨trivial, fun _ _ ↦ trivial⟩
  exact ⟨_, rfl, claims_apart onlySrv 40 [['s', 'r', 'v']] twoNames hforeseen _ rfl⟩

/-- **A missing name with `..` behind it is put behind nothing**, so the same directory is claimed
twice, and the name and the directory only have to be made. -/
theorem not_claims_apart : ¬ ∀ (disk : Disk Place) (links : ℕ) (cwd : Place) (events : List Act)
    (s : Process), run (Process.step links cwd) (.start disk) events = some s → s.Apart links cwd := by
  intro hclaim
  have hapart := hclaim onlySrv 40 [['s', 'r', 'v']] [.claim "new/../cache".toList,
    .claim "cache".toList, .mkdir [['s', 'r', 'v'], ['n', 'e', 'w']],
    .mkdir [['s', 'r', 'v'], ['c', 'a', 'c', 'h', 'e']]] _ rfl
  refine (List.pairwise_cons.1 hapart).1 _ (List.mem_singleton_self _)
    [['s', 'r', 'v'], ['c', 'a', 'c', 'h', 'e']] ⟨⟨rfl, rfl⟩, ⟨rfl, rfl⟩⟩

end DynamicConfig.Git
