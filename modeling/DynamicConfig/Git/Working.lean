import DynamicConfig.Cache.Write
import DynamicConfig.Stores.Documents
import DynamicConfig.Transition.Run
import DynamicConfig.Transition.Staged
import Mathlib.Data.List.Sort

/-!
# A working directory

A fetch keeps its objects in a directory. It opens the repository there, or makes one where there is
nothing, and stamps what it made with a marker. Once a stamped directory has more packs than it may,
the next fetch empties it first, entry by entry, and makes the repository anew. The process can stop
anywhere in this, and what then stands on disk is all that the next fetch has to go by.

Nothing is ever removed from a directory without the marker, so what was there before the first fetch
stays, unless a file of the marker's name was part of it. But the marker goes with the rest, in the
order the directory is listed in, and what is left half way is neither empty nor a repository: it does
not open, and nothing is made in it either. A fetch works after a stop exactly if what is left opens,
is nothing, or still is due to be emptied (`works_iff`).

Entries are kept flat, by the names that lead to them. A directory that does not exist yet is created
empty, and is not told apart from that.
-/

namespace DynamicConfig.Git

open Transition (Staged run Along)

/-! ### What a directory holds -/

/-- What an entry is. Of a link it matters whether it leads to a file, and what is in the directory
it leads to. -/
inductive Kind where
  | file
  | directory
  | link (toFile : Bool) (behind : List (List String))
  deriving DecidableEq

/-- An entry: the name it has or is below of, the names from there, and what it is. -/
structure Node where
  top : String
  below : List String
  kind : Kind
  deriving DecidableEq

/-- Everything in a directory, at any depth. -/
abbrev Contents := List Node

/-- The file that says this directory is this crate's to empty. -/
def MARKER : String := "dynamic-config-store"

/-- The marker, as it is written. -/
def marker : Node := ⟨MARKER, [], .file⟩

/-- The names that lead somewhere, through links as well. -/
def Node.paths (node : Node) : List (List String) :=
  match node.kind with
  | .link _ behind => (node.top :: node.below) :: behind.map (node.top :: node.below ++ ·)
  | _ => [node.top :: node.below]

/-- Whether it stands where the marker does. -/
def Node.atMarker (node : Node) : Bool := decide (node.top = MARKER ∧ node.below = [])

/-- Whether it is a file, or a link to one. -/
def Kind.isFile : Kind → Bool
  | .file => true
  | .directory => false
  | .link toFile _ => toFile

/-- `directory.join(MARKER).is_file()`. -/
def ours (directory : Contents) : Bool := directory.any fun node ↦ node.atMarker && node.kind.isFile

/-- Whether it is an entry of `objects/pack` whose extension is `pack`. -/
def isPack : List String → Bool
  | ["objects", "pack", name] => (stemAndExtension name.toList).map Prod.snd = some "pack".toList
  | _ => false

/-- How many packs the object database holds. -/
def packs (directory : Contents) : ℕ := (directory.flatMap Node.paths).countP isPack

/-! ### Emptying -/

/-- The orders in which directories are listed. What is below a name is removed from the inside
out. -/
structure Listing where
  names : List String → List String
  names_perm : ∀ tops, (names tops).Perm tops
  inside : List Node → List Node
  inside_perm : ∀ nodes, (inside nodes).Perm nodes
  inside_order : ∀ nodes, (inside nodes).Pairwise fun a b ↦ ¬ (a.below <+: b.below ∧ a.below ≠ b.below)

/-- The entries in the order they are removed in: name by name, and for each all that is below. -/
def removals (listing : Listing) (directory : Contents) : List Node :=
  (listing.names (directory.map Node.top).dedup).flatMap fun top ↦
    listing.inside (directory.filter (·.top = top))

/-- `remove_dir_all`, or `remove_file`: one entry less. -/
def remove (directory : Contents) (node : Node) : Contents := directory.filter (· ≠ node)

/-- One removal after the other. -/
def removing : Contents → List Node → Staged Contents Error
  | directory, [] => .done directory
  | directory, node :: nodes =>
    Staged.andThen ⟨[remove directory node], remove directory node, none⟩ (removing · nodes)

/-- Removes everything in a directory. -/
def empty (listing : Listing) (directory : Contents) : Staged Contents Error :=
  removing directory (removals listing directory)

/-- Whether a directory is this crate's and has more transfers in it than it may. -/
def Due (after : ℕ) (directory : Contents) : Prop :=
  after ≠ 0 ∧ ours directory = true ∧ after < packs directory

instance (after : ℕ) (directory : Contents) : Decidable (Due after directory) :=
  inferInstanceAs (Decidable (_ ∧ _ ∧ _))

/-- Empties a directory when it is due. -/
def compact (listing : Listing) (after : ℕ) (directory : Contents) : Staged Contents Error :=
  if after = 0 ∨ ours directory = false ∨ packs directory ≤ after then .done directory
  else empty listing directory

/-! ### Opening -/

/-- What gix does with a directory. -/
structure Gix where
  /-- Whether it opens as a repository. -/
  opens : Contents → Bool
  /-- What a new repository consists of, in the order it is written. -/
  skeleton : List Node
  /-- Whether a fetch may add this. -/
  adds : List Node → Bool
  notOpen : String
  notEmpty : String

/-- What it is taken to do: a repository that was just made opens, also with the marker in it, and no
entry of the marker's name is ever its own. -/
structure Gix.Lawful (gix : Gix) : Prop where
  opens_marked : gix.opens (gix.skeleton ++ [marker]) = true
  skeleton : ∀ node ∈ gix.skeleton, node.top ≠ MARKER
  adds : ∀ nodes, gix.adds nodes = true → ∀ node ∈ nodes, node.top ≠ MARKER

/-- One entry after the other. -/
def writing : Contents → List Node → Staged Contents Error
  | directory, [] => .done directory
  | directory, node :: nodes =>
    Staged.andThen ⟨[directory ++ [node]], directory ++ [node], none⟩ (writing · nodes)

/-- `gix::init_bare`: a new repository, in an empty directory only. -/
def initBare (gix : Gix) (shown : String) (directory : Contents) : Staged Contents Error :=
  if directory = [] then writing [] gix.skeleton
  else .fail directory (.remote ("git: cannot prepare the working directory " ++ shown ++ ": " ++
    gix.notEmpty))

/-- Records that this crate made the repository. A file or a link of the marker's name is written
through, a directory is in the way. -/
def mark (shown : String) (directory : Contents) : Staged Contents Error :=
  match directory.find? Node.atMarker with
  | none => ⟨[directory ++ [marker]], directory ++ [marker], none⟩
  | some ⟨_, _, .directory⟩ => .fail directory (.remote ("git: cannot write " ++ MARKER ++
      " in the working directory " ++ shown ++ ": is a directory"))
  | some _ => .done directory

/-- Opens the repository, making it on the first fetch. -/
def openRepository (gix : Gix) (shown : String) (directory : Contents) : Staged Contents Error :=
  if gix.opens directory then .done directory
  else
    ((initBare gix shown directory).andThen (mark shown)).andThen fun directory ↦
      if gix.opens directory then .done directory
      else .fail directory (.remote ("git: cannot open the working directory " ++ shown ++ ": " ++
        gix.notOpen))

/-! ### A fetch -/

/-- What a fetch adds, or nothing where the host does not answer. It is no stage: a stop inside the
transfer is git's to survive. -/
def transfer (answer : Option (List Node)) (directory : Contents) : Staged Contents Error :=
  match answer with
  | none => .fail directory (.remote "git: the host does not answer")
  | some nodes => .done (directory ++ nodes)

/-- `GitSource::once`. -/
def once (gix : Gix) (shown : String) (after : ℕ) (listing : Listing) (answer : Option (List Node))
    (directory : Contents) : Staged Contents Error :=
  ((compact listing after directory).andThen (openRepository gix shown)).andThen (transfer answer)

/-- The directory, and whether the process has just stopped inside a fetch. -/
structure Directory where
  contents : Contents
  stopped : Bool

/-- A fetch, or one that the process stopped in, at a point. -/
inductive Event where
  | fetch (listing : Listing) (answer : Option (List Node))
  | stop (listing : Listing) (answer : Option (List Node)) (point : ℕ)

/-- Whether the host answers with what a fetch may add. -/
def answers (gix : Gix) : Option (List Node) → Bool
  | none => true
  | some nodes => gix.adds nodes

/-- One event. -/
def step (gix : Gix) (shown : String) (after : ℕ) (d : Directory) : Event → Option Directory
  | .fetch listing answer =>
    if answers gix answer then some ⟨(once gix shown after listing answer d.contents).final, false⟩
    else none
  | .stop listing answer point =>
    if answers gix answer then
      ((once gix shown after listing answer d.contents).points d.contents)[point]?.map (⟨·, true⟩)
    else none

/-- A fetch works here, whatever the host answers. -/
def Works (gix : Gix) (shown : String) (after : ℕ) (directory : Contents) : Prop :=
  ∀ listing nodes, (once gix shown after listing (some nodes) directory).failed = none

/-- What is left opens, is nothing, or is due to be emptied. -/
def Recoverable (gix : Gix) (after : ℕ) (directory : Contents) : Prop :=
  gix.opens directory = true ∨ directory = [] ∨ Due after directory

/-! ### What emptying and making come to -/

theorem failed_removing (directory : Contents) (nodes : List Node) :
    (removing directory nodes).failed = none := by
  induction nodes generalizing directory with
  | nil => rfl
  | cons node nodes ih =>
    rw [removing, Staged.failed_andThen rfl]
    exact ih _

theorem mem_final_removing {directory : Contents} {nodes : List Node} {node : Node} :
    node ∈ (removing directory nodes).final ↔ node ∈ directory ∧ node ∉ nodes := by
  induction nodes generalizing directory with
  | nil => exact ⟨fun h ↦ ⟨h, List.not_mem_nil⟩, And.left⟩
  | cons first nodes ih =>
    rw [removing, Staged.final_andThen rfl]
    show node ∈ (removing (remove directory first) nodes).final ↔ _
    rw [ih, remove, List.mem_filter, decide_eq_true_iff, List.mem_cons, not_or, and_assoc]

/-- Every entry is removed. -/
theorem mem_removals {listing : Listing} {directory : Contents} {node : Node} (h : node ∈ directory) :
    node ∈ removals listing directory := by
  refine List.mem_flatMap.2 ⟨node.top, ?_, ?_⟩
  · refine (listing.names_perm _).mem_iff.2 (List.mem_dedup.2 ?_)
    exact List.mem_map_of_mem h
  · exact (listing.inside_perm _).mem_iff.2 (List.mem_filter.2 ⟨h, decide_eq_true rfl⟩)

/-- **Emptying leaves nothing, whatever the order.** -/
theorem final_empty (listing : Listing) (directory : Contents) :
    (empty listing directory).final = [] := by
  refine List.eq_nil_iff_forall_not_mem.2 fun node hmem ↦ ?_
  obtain ⟨hnode, hnot⟩ := mem_final_removing.1 hmem
  exact hnot (mem_removals hnode)

theorem writing_eq (directory : Contents) (nodes : List Node) :
    (writing directory nodes).failed = none ∧
      (writing directory nodes).final = directory ++ nodes := by
  induction nodes generalizing directory with
  | nil => exact ⟨rfl, (List.append_nil _).symm⟩
  | cons node nodes ih =>
    obtain ⟨hfailed, hfinal⟩ := ih (directory ++ [node])
    rw [writing, Staged.failed_andThen rfl, Staged.final_andThen rfl]
    refine ⟨hfailed, hfinal.trans ?_⟩
    rw [List.append_assoc]
    rfl

variable {gix : Gix} {shown : String} {after : ℕ}

/-- In an empty directory a repository is made, stamped and opened. -/
theorem failed_openRepository_nil (hgix : gix.Lawful) :
    (openRepository gix shown []).failed = none := by
  rw [openRepository]
  split_ifs with hopens
  · rfl
  · obtain ⟨hfailed, hfinal⟩ := writing_eq [] gix.skeleton
    have hmade : (initBare gix shown []).failed = none := hfailed
    have hskeleton : (initBare gix shown []).final = gix.skeleton := hfinal
    -- Nothing in a new repository has the marker's name.
    have hnone : gix.skeleton.find? Node.atMarker = none :=
      List.find?_eq_none.2 fun node hnode hmarker ↦
        hgix.skeleton node hnode (of_decide_eq_true hmarker).1
    have hmark : mark shown gix.skeleton =
        ⟨[gix.skeleton ++ [marker]], gix.skeleton ++ [marker], none⟩ := by
      rw [mark, hnone]
    have hstamped : ((initBare gix shown []).andThen (mark shown)).failed = none := by
      rw [Staged.failed_andThen hmade, hskeleton, hmark]
    rw [Staged.failed_andThen hstamped, Staged.final_andThen hmade, hskeleton, hmark]
    show Staged.failed (if gix.opens (gix.skeleton ++ [marker]) then _ else _) = none
    rw [if_pos hgix.opens_marked]
    rfl

/-- It opens what opens, makes a repository in nothing, and refuses anything else. -/
theorem failed_openRepository_iff (hgix : gix.Lawful) {directory : Contents} :
    (openRepository gix shown directory).failed = none ↔
      gix.opens directory = true ∨ directory = [] := by
  by_cases hopens : gix.opens directory = true
  · refine iff_of_true ?_ (.inl hopens)
    rw [openRepository, if_pos hopens]
    rfl
  · by_cases hnil : directory = []
    · subst hnil
      exact iff_of_true (failed_openRepository_nil hgix) (.inr rfl)
    · refine iff_of_false ?_ (not_or.2 ⟨hopens, hnil⟩)
      rw [openRepository, if_neg hopens, initBare, if_neg hnil]
      exact Option.some_ne_none _

theorem compact_of_due (listing : Listing) {directory : Contents} (h : Due after directory) :
    compact listing after directory = empty listing directory := by
  obtain ⟨hafter, hours, hpacks⟩ := h
  rw [compact, if_neg]
  rintro (h | h | h)
  · exact hafter h
  · rw [hours] at h
    cases h
  · omega

theorem compact_of_not_due (listing : Listing) {directory : Contents} (h : ¬ Due after directory) :
    compact listing after directory = .done directory := by
  rw [compact, if_pos]
  by_contra hnot
  obtain ⟨hafter, hours, hpacks⟩ := not_or.1 hnot |>.imp_right not_or.1
  exact h ⟨hafter, eq_true_of_ne_false hours, by omega⟩

/-- What a directory is prepared for: nothing fails before the host is asked. -/
theorem failed_prepare_iff (hgix : gix.Lawful) (listing : Listing) {directory : Contents} :
    ((compact listing after directory).andThen (openRepository gix shown)).failed = none ↔
      Recoverable gix after directory := by
  by_cases hdue : Due after directory
  · refine iff_of_true ?_ (.inr (.inr hdue))
    have hempty : (empty listing directory).failed = none := failed_removing _ _
    rw [compact_of_due listing hdue, Staged.failed_andThen hempty, final_empty]
    exact failed_openRepository_nil hgix
  · rw [compact_of_not_due listing hdue, Staged.failed_andThen rfl]
    show (openRepository gix shown directory).failed = none ↔ _
    rw [failed_openRepository_iff hgix, Recoverable, or_iff_left hdue]

/-- Directories are listed as they are, and emptied by depth. -/
def Listing.asIs : Listing where
  names := id
  names_perm _ := .refl _
  inside nodes := nodes.insertionSort fun a b ↦ b.below.length ≤ a.below.length
  inside_perm nodes := List.perm_insertionSort _ nodes
  inside_order nodes := by
    refine (List.pairwise_insertionSort _ nodes).imp fun {a b} hle h ↦ ?_
    exact h.2 (h.1.eq_of_length_le hle)

/-- **A fetch works exactly on what opens, on nothing, and on what is due to be emptied.** -/
theorem works_iff (hgix : gix.Lawful) {directory : Contents} :
    Works gix shown after directory ↔ Recoverable gix after directory := by
  constructor
  · intro h
    have honce := h .asIs []
    rcases hprepared : ((compact .asIs after directory).andThen (openRepository gix shown)).failed
      with - | error
    · exact (failed_prepare_iff hgix .asIs).1 hprepared
    · rw [once, Staged.andThen_of_failed hprepared, hprepared] at honce
      cases honce
  · intro h listing nodes
    rw [once, Staged.failed_andThen ((failed_prepare_iff hgix listing).2 h)]
    rfl

/-! ### What was there stays -/

/-- What was there is there, and nothing has put a marker to it. -/
def Kept (initial directory : Contents) : Prop :=
  (∀ node ∈ initial, node ∈ directory) ∧ ours directory = false

theorem ours_append {directory : Contents} {nodes : List Node} (hnodes : ∀ node ∈ nodes, node.top ≠ MARKER)
    (h : ours directory = false) : ours (directory ++ nodes) = false := by
  have hnew : ours nodes = false := by
    refine List.any_eq_false.2 fun node hnode hmarker ↦ hnodes node hnode ?_
    exact (of_decide_eq_true (Bool.and_eq_true_iff.1 hmarker).1).1
  rw [ours, List.any_append]
  exact Bool.or_eq_false_iff.2 ⟨h, hnew⟩

/-- Nothing is made where something is. -/
theorem openRepository_keeps {initial directory : Contents} (hinitial : initial ≠ [])
    (h : Kept initial directory) : (openRepository gix shown directory).All (Kept initial) := by
  have hne : directory ≠ [] := by
    rintro rfl
    obtain ⟨node, hnode⟩ := List.exists_mem_of_ne_nil _ hinitial
    exact absurd (h.1 node hnode) List.not_mem_nil
  rw [openRepository]
  split_ifs with hopens
  · exact Staged.all_done h
  · rw [initBare, if_neg hne]
    exact Staged.all_fail h

/-- **A fetch into a directory that is not its own only adds to it.** -/
theorem once_keeps (hgix : gix.Lawful) {initial directory : Contents} (hinitial : initial ≠ [])
    (listing : Listing) {answer : Option (List Node)} (hanswer : answers gix answer = true)
    (h : Kept initial directory) : (once gix shown after listing answer directory).All (Kept initial) := by
  have hnotDue : ¬ Due after directory := fun hdue ↦ Bool.false_ne_true (h.2.symm.trans hdue.2.1)
  rw [once, compact_of_not_due listing hnotDue]
  refine Staged.All.andThen ?_ ?_
  · exact (Staged.all_done h).andThen fun _ ↦ openRepository_keeps hinitial
  · rintro now ⟨hnow, hours⟩
    rcases answer with - | nodes
    · exact Staged.all_fail ⟨hnow, hours⟩
    · refine Staged.all_done ⟨fun node hnode ↦ List.mem_append_left _ (hnow node hnode), ?_⟩
      exact ours_append (hgix.adds nodes hanswer) hours

/-- **What an event can do**: a fetch ends, or the process stops at one of its points. -/
theorem step_cases {d d' : Directory} {e : Event} (h : step gix shown after d e = some d') :
    (∃ listing answer, e = .fetch listing answer ∧ answers gix answer = true ∧
      d' = ⟨(once gix shown after listing answer d.contents).final, false⟩) ∨
    ∃ listing answer point left, e = .stop listing answer point ∧ answers gix answer = true ∧
      ((once gix shown after listing answer d.contents).points d.contents)[point]? = some left ∧
      d' = ⟨left, true⟩ := by
  cases e with
  | fetch listing answer =>
    rw [step] at h
    split_ifs at h with hanswer
    exact .inl ⟨listing, answer, rfl, hanswer, (Option.some.inj h).symm⟩
  | stop listing answer point =>
    rw [step] at h
    split_ifs at h with hanswer
    obtain ⟨left, hleft, hd'⟩ := Option.map_eq_some_iff.1 h
    exact .inr ⟨listing, answer, point, left, rfl, hanswer, hleft, hd'.symm⟩

/-- **What a run keeps.** -/
theorem step_keeps (hgix : gix.Lawful) {initial : Contents} (hinitial : initial ≠ []) {d d' : Directory}
    {e : Event} (h : step gix shown after d e = some d') (hd : Kept initial d.contents) :
    Kept initial d'.contents := by
  obtain ⟨listing, answer, -, hanswer, rfl⟩ | ⟨listing, answer, point, left, -, hanswer, hleft, rfl⟩ :=
    step_cases h
  · exact (once_keeps hgix hinitial listing hanswer hd).2
  · exact (once_keeps hgix hinitial listing hanswer hd).of_mem_points hd (List.mem_of_getElem? hleft)

/-- Where the process stops inside a fetch, the next one can go on from what is left. -/
def Meets (gix : Gix) (shown : String) (after : ℕ) (d : Directory) : Event → Prop
  | .fetch _ _ => True
  | .stop listing answer point => ∀ left,
    ((once gix shown after listing answer d.contents).points d.contents)[point]? = some left →
      Recoverable gix after left

/-- **Compaction deletes only what was fetched, and a fetch works after every stop**, where no file of
the marker's name was there first and every stop leaves what opens, nothing, or what is still due. -/
theorem compaction_safe (gix : Gix) (hgix : gix.Lawful) (shown : String) (after : ℕ)
    (initial : Contents) (hinitial : ours initial = false) (events : List Event)
    (hevents : Along (step gix shown after) (Meets gix shown after) ⟨initial, false⟩ events)
    (d : Directory) (h : run (step gix shown after) ⟨initial, false⟩ events = some d) :
    (∀ node ∈ initial, node ∈ d.contents) ∧
      (d.stopped = true → Works gix shown after d.contents) := by
  constructor
  · by_cases hnil : initial = []
    · subst hnil
      exact fun node hnode ↦ absurd hnode List.not_mem_nil
    · have hkept : Kept initial d.contents := by
        refine Transition.run_invariant (I := fun d ↦ Kept initial d.contents)
          (fun _ _ _ hstep hd ↦ step_keeps hgix hnil hstep hd) h ⟨fun _ hnode ↦ hnode, hinitial⟩
      exact hkept.1
  · have hrecoverable : d.stopped = true → Recoverable gix after d.contents := by
      refine Transition.run_invariant_along
        (I := fun d ↦ d.stopped = true → Recoverable gix after d.contents) ?_ hevents h
        (fun hstopped ↦ (by cases hstopped))
      intro d e d' hmeets hstep _ hstopped
      obtain ⟨listing, answer, -, -, rfl⟩ | ⟨listing, answer, point, left, rfl, -, hleft, rfl⟩ :=
        step_cases hstep
      · cases hstopped
      · exact hmeets left hleft
    exact fun hstopped ↦ (works_iff hgix).2 (hrecoverable hstopped)

/-! ### A repository that is emptied half way -/

/-- A repository is a head, its objects and its references. -/
def bare : Gix where
  opens directory := decide (⟨"HEAD", [], .file⟩ ∈ directory ∧ ⟨"objects", [], .directory⟩ ∈ directory ∧
    ⟨"refs", [], .directory⟩ ∈ directory)
  skeleton := [⟨"HEAD", [], .file⟩, ⟨"objects", [], .directory⟩, ⟨"objects", ["pack"], .directory⟩,
    ⟨"refs", [], .directory⟩]
  adds nodes := nodes.all fun node ↦ decide (node.top ≠ MARKER)
  notOpen := "does not appear to be a git repository"
  notEmpty := "refusing to initialize the non-empty directory"

theorem bare_lawful : bare.Lawful where
  opens_marked := by rfl
  skeleton := by
    have hall : (bare.skeleton.all fun node ↦ decide (node.top ≠ MARKER)) = true := by rfl
    exact fun node hnode ↦ of_decide_eq_true (List.all_eq_true.1 hall node hnode)
  adds nodes h node hnode := of_decide_eq_true (List.all_eq_true.1 h node hnode)

/-- Two fetches of a pack each, over nothing. -/
def twoFetches : List Event :=
  [.fetch .asIs (some [⟨"objects", ["pack", "a.pack"], .file⟩]),
    .fetch .asIs (some [⟨"objects", ["pack", "b.pack"], .file⟩])]

/-- What a stop left of a directory with two packs, the marker among it. -/
def stillMarked : Contents :=
  [⟨"objects", [], .directory⟩, ⟨"objects", ["pack"], .directory⟩, marker,
    ⟨"objects", ["pack", "a.pack"], .file⟩, ⟨"objects", ["pack", "b.pack"], .file⟩]

/-- A stop inside `empty` that leaves the marker leaves a directory the next fetch empties again. -/
theorem works_stillMarked : Works bare "/srv/cache" 1 stillMarked := by
  have hrun : run (step bare "/srv/cache" 1) ⟨[], false⟩ (twoFetches ++ [.stop .asIs none 2]) =
      some ⟨stillMarked, true⟩ := by rfl
  refine (compaction_safe bare bare_lawful "/srv/cache" 1 [] (by rfl) _ ?_ _ hrun).2 rfl
  refine ⟨trivial, fun d hd ↦ ⟨trivial, fun d' hd' ↦ ⟨fun left hleft ↦ ?_, fun _ _ ↦ trivial⟩⟩⟩
  obtain rfl := Option.some.inj hd
  obtain rfl := Option.some.inj hd'
  obtain rfl : stillMarked = left := Option.some.inj hleft
  -- the marker and two packs are still there, and one is allowed
  exact .inr (.inr (by decide))

/-- What a stop left of it one entry later: the marker was removed before the objects. -/
def halfEmpty : Contents :=
  [⟨"objects", [], .directory⟩, ⟨"objects", ["pack"], .directory⟩,
    ⟨"objects", ["pack", "a.pack"], .file⟩, ⟨"objects", ["pack", "b.pack"], .file⟩]

/-- **A stop inside `empty` leaves what no fetch gets past.** -/
theorem not_compaction_safe : ¬ ∀ (gix : Gix) (_ : gix.Lawful) (shown : String) (after : ℕ)
    (initial : Contents) (events : List Event) (d : Directory),
    run (step gix shown after) ⟨initial, false⟩ events = some d →
      (∀ node ∈ initial, node ∈ d.contents) ∧
        (d.stopped = true → Works gix shown after d.contents) := by
  intro hclaim
  have hrun : run (step bare "/srv/cache" 1) ⟨[], false⟩
      (twoFetches ++ [.stop .asIs none 3]) = some ⟨halfEmpty, true⟩ := by rfl
  have hworks := (hclaim bare bare_lawful _ _ _ _ _ hrun).2 rfl
  rcases (works_iff bare_lawful).1 hworks with hopens | hnil | hdue
  · cases hopens
  · cases hnil
  · exact absurd hdue.2.1 (by decide)

end DynamicConfig.Git
