import DynamicConfig.Bindings.Tasks
import Mathlib

/-!
# The Python binding

One slot holds the last validation, whoever made it. A commit whose tree is in the slot publishes it,
unless a validation as late has been published; a commit whose tree is not there validates it again.
So a commit publishes nothing only where nothing has been validated since the last publication and
that was of an equal tree.

This is once per install as long as it is known which commit an install is published by
(`published_once_of_run`): a commit for the install that is published already finds nothing validated
since, and one for the next install does not find an equal tree published last. A candidate load
between an install's two commits is enough for a second publication (`not_published_once`).
-/

namespace DynamicConfig.Bindings.Python

open Transition

/-- One validated tree, waiting to be published. -/
structure Staged (T D : Type) where
  sequence : Nat
  tree : T
  model : D
  deriving DecidableEq

structure Inner (T D : Type) where
  staged : Option (Staged T D)
  next_sequence : Nat
  last_committed : Nat
  cache : Option D
  generation : Nat
  /-- The rounds of hooks that have run: each with the model before and the model published. -/
  hooked : List (Option D × D)
  deriving DecidableEq

namespace Inner

variable {T D : Type} [DecidableEq T]

def new : Inner T D := ⟨none, 0, 0, none, 0, []⟩

/-- What a staging is numbered: `fetch_add` on a `u64`. -/
def sequence (inner : Inner T D) : Nat := (inner.next_sequence + 1) % 2 ^ 64

/-- `Inner::validate`, where the schema has answered. -/
def stage (inner : Inner T D) (tree : T) (model : D) : Inner T D :=
  { inner with next_sequence := inner.sequence, staged := some ⟨inner.sequence, tree, model⟩ }

/-- A model is published, and the hooks run. -/
def publish (inner : Inner T D) (sequence : Nat) (model : D) : Inner T D :=
  { inner with
    last_committed := max inner.last_committed sequence
    cache := some model
    generation := inner.generation + 1
    hooked := inner.hooked ++ [(inner.cache, model)] }

/-- The slot holds another tree, which is validated once more. -/
def republish (validate : T → Except Error D) (inner : Inner T D) (tree : T) : Inner T D :=
  match validate tree with
  | .error _ => inner
  | .ok model => (inner.stage tree model).publish inner.sequence model

/-- `Inner::commit`. -/
def commit (validate : T → Except Error D) (inner : Inner T D) (tree : T) : Inner T D :=
  match inner.staged with
  | some pending =>
    if pending.tree = tree then
      if pending.sequence ≤ inner.last_committed then inner
      else inner.publish pending.sequence pending.model
    else inner.republish validate tree
  | none => inner.republish validate tree

/-- `load`, once the engine has answered a tree. -/
def answer (validate : T → Except Error D) (inner : Inner T D) (tree : T) : Inner T D × Option D :=
  match inner.staged.filter fun pending ↦ pending.tree = tree with
  | some pending => (inner, some pending.model)
  | none =>
    match validate tree with
    | .error _ => (inner, none)
    | .ok model => (inner.stage tree model, some model)

end Inner

section Binding

variable {T D : Type} [DecidableEq T]

/-- The binding over a schema. It does nothing of its own. -/
def binding (validate : T → Except Error D) : Binding T D (Inner T D) Empty where
  validate
  sequence := Inner.sequence
  stage := Inner.stage
  load := Inner.stage
  commit := Inner.commit validate
  answer inner tree _ := inner.answer validate tree
  act _ a := a.elim

/-- Nothing has been validated since the last publication. -/
def settled (inner : Inner T D) : Bool :=
  inner.staged.any fun pending ↦ pending.sequence ≤ inner.last_committed

/-- Nothing has been since, and what was published is of this tree. -/
def published (inner : Inner T D) (tree : T) : Bool :=
  inner.staged.any fun pending ↦
    decide (pending.tree = tree) && decide (pending.sequence ≤ inner.last_committed)

/-- A commit for the so many-th install: it is the last one published and nothing has been validated
since, or it is the next one and is not of the tree published last. -/
def due (inner : Inner T D) (number : Nat) (tree : T) : Bool :=
  if number = inner.generation then settled inner
  else decide (number = inner.generation + 1) && !published inner tree

/-- A step that publishes an install once. The first install is not the watcher's, and an explicit
commit is for the install that is then the last. No sequence wraps. -/
def timely (sys : System T D (Inner T D)) (event : Event T Empty) : Bool :=
  decide (sys.binding.next_sequence + 1 < 2 ^ 64) &&
    match event with
    | .dispatch i =>
      match sys.tasks[i]? with
      | some ⟨what, .installed tree number⟩ =>
        if number = 1 then decide (what ≠ .watched) else due sys.binding number tree
      | _ => true
    | .finish i =>
      match sys.tasks[i]? with
      | some ⟨_, .dispatched _ _⟩ =>
        sys.current.all fun tree ↦ due sys.binding sys.installs.length tree
      | _ => true
    | _ => true

/-- The published model is the validator's answer for what the engine serves, the generation is the
number of the engine's installs, and the hooks have run once for each, with its model. -/
def Published (validate : T → Except Error D) (sys : System T D (Inner T D)) : Prop :=
  sys.binding.cache = sys.current.bind (fun tree ↦ (validate tree).toOption) ∧
    sys.binding.generation = sys.installs.length ∧
      sys.binding.hooked.map (fun round ↦ some round.2) =
        sys.installs.map fun install ↦ (validate install.tree).toOption

instance [DecidableEq D] (validate : T → Except Error D) (sys : System T D (Inner T D)) :
    Decidable (Published validate sys) :=
  inferInstanceAs (Decidable (_ ∧ _ ∧ _))

end Binding

/-! ### Commits -/

section Keeping

variable {T D : Type} [DecidableEq T] {validate : T → Except Error D} {inner : Inner T D}
  {sys sys' : System T D (Inner T D)}

/-- The slot holds the last validation, and its model is the schema's answer. -/
structure Slot (validate : T → Except Error D) (inner : Inner T D) : Prop where
  staged : ∀ p, inner.staged = some p →
    p.sequence = inner.next_sequence ∧ validate p.tree = .ok p.model
  committed : inner.last_committed ≤ inner.next_sequence
  none_of : inner.staged = none → inner.next_sequence = 0

omit [DecidableEq T] in
theorem sequence_eq (h : inner.next_sequence + 1 < 2 ^ 64) :
    inner.sequence = inner.next_sequence + 1 := Nat.mod_eq_of_lt h

omit [DecidableEq T] in
theorem Slot.stage (h : Slot validate inner) (hwrap : inner.next_sequence + 1 < 2 ^ 64) {tree : T}
    {model : D} (hmodel : validate tree = .ok model) : Slot validate (inner.stage tree model) where
  staged p hp := Option.some.inj hp ▸ ⟨rfl, hmodel⟩
  committed := by
    show inner.last_committed ≤ inner.sequence
    rw [sequence_eq hwrap]
    exact Nat.le_succ_of_le h.committed
  none_of hnone := (by cases hnone)

/-- A commit that is not of the tree published last publishes its own, and nothing is validated
after that. -/
theorem commit_of_not_published (h : Slot validate inner)
    (hwrap : inner.next_sequence + 1 < 2 ^ 64) {tree : T} {model : D}
    (hmodel : validate tree = .ok model) (hnot : published inner tree = false) :
    ∃ sequence, inner.commit validate tree =
      { inner with
        staged := some ⟨sequence, tree, model⟩
        next_sequence := sequence
        last_committed := sequence
        cache := some model
        generation := inner.generation + 1
        hooked := inner.hooked ++ [(inner.cache, model)] } := by
  have hagain : inner.republish validate tree =
      { inner with
        staged := some ⟨inner.sequence, tree, model⟩
        next_sequence := inner.sequence
        last_committed := inner.sequence
        cache := some model
        generation := inner.generation + 1
        hooked := inner.hooked ++ [(inner.cache, model)] } := by
    have hle : inner.last_committed ≤ inner.sequence :=
      sequence_eq hwrap ▸ Nat.le_succ_of_le h.committed
    rw [Inner.republish, hmodel]
    simp only [Inner.stage, Inner.publish, Nat.max_eq_right hle]
  rw [Inner.commit]
  split
  · next p hstaged =>
    by_cases htree : p.tree = tree
    · obtain ⟨hsequence, hp⟩ := h.staged p hstaged
      have hlt : inner.last_committed < p.sequence := by
        rw [published, hstaged, Option.any_some, htree, decide_eq_true rfl, Bool.true_and,
          decide_eq_false_iff_not] at hnot
        exact Nat.not_le.1 hnot
      rw [if_pos htree, if_neg (Nat.not_le.2 hlt)]
      obtain ⟨sequence, t, m⟩ := p
      obtain rfl : t = tree := htree
      obtain rfl : m = model := Except.ok.inj (hp.symm.trans hmodel)
      obtain rfl : sequence = inner.next_sequence := hsequence
      refine ⟨inner.next_sequence, ?_⟩
      simp only [Inner.publish, Nat.max_eq_right h.committed, hstaged]
    · rw [if_neg htree]
      exact ⟨_, hagain⟩
  · exact ⟨_, hagain⟩

/-- A commit of the tree published last publishes nothing. -/
theorem commit_of_published {tree : T} (h : published inner tree = true) :
    inner.commit validate tree = inner := by
  rcases hstaged : inner.staged with - | p
  · rw [published, hstaged] at h
    cases h
  · rw [published, hstaged, Option.any_some, Bool.and_eq_true, decide_eq_true_eq,
      decide_eq_true_eq] at h
    rw [Inner.commit, hstaged]
    show (if p.tree = tree then _ else _) = _
    rw [if_pos h.1, if_pos h.2]

/-! ### What timely steps keep -/

/-- The schema's answers for what the engine has been given. -/
def answers (validate : T → Except Error D) (installs : List (Install T)) : List (Option D) :=
  installs.map fun install ↦ (validate install.tree).toOption

/-- The installs have been published one by one, as far as the generation. -/
structure Progress (validate : T → Except Error D) (installs : List (Install T))
    (inner : Inner T D) : Prop where
  slot : Slot validate inner
  generation_le : inner.generation ≤ installs.length
  hooked : inner.hooked.map (fun round ↦ some round.2) =
    (answers validate installs).take inner.generation
  cache : inner.cache = inner.hooked.getLast?.map Prod.snd
  /-- Where nothing has been validated since, the slot holds what was published last. -/
  settled : settled inner = true → ∃ install, 0 < inner.generation ∧
    installs[inner.generation - 1]? = some install ∧ published inner install.tree = true

variable {installs : List (Install T)}

/-- A validation publishes nothing. -/
theorem Progress.stage (h : Progress validate installs inner)
    (hwrap : inner.next_sequence + 1 < 2 ^ 64) {tree : T} {model : D}
    (hmodel : validate tree = .ok model) : Progress validate installs (inner.stage tree model) where
  slot := h.slot.stage hwrap hmodel
  generation_le := h.generation_le
  hooked := h.hooked
  cache := h.cache
  settled hsettled := by
    have hle : inner.sequence ≤ inner.last_committed := decide_eq_true_iff.1 hsettled
    rw [sequence_eq hwrap] at hle
    exact absurd (Nat.le_trans hle h.slot.committed) (Nat.not_succ_le_self _)

/-- An install is yet to be published. -/
theorem Progress.install (h : Progress validate installs inner) (install : Install T) :
    Progress validate (installs ++ [install]) inner where
  slot := h.slot
  generation_le := by
    rw [List.length_append]
    exact Nat.le_add_right_of_le h.generation_le
  hooked := by
    have hanswers : answers validate (installs ++ [install]) =
        answers validate installs ++ answers validate [install] := List.map_append
    rw [hanswers, List.take_append_of_le_length]
    · exact h.hooked
    · rw [answers, List.length_map]
      exact h.generation_le
  cache := h.cache
  settled hsettled := by
    obtain ⟨last, hpos, hlast, hpublished⟩ := h.settled hsettled
    have hlt : inner.generation - 1 < installs.length := by
      have hle := h.generation_le
      omega
    exact ⟨last, hpos, (List.getElem?_append_left hlt).trans hlast, hpublished⟩

/-- **A due commit publishes its install, once.** -/
theorem Progress.commit (h : Progress validate installs inner)
    (hwrap : inner.next_sequence + 1 < 2 ^ 64) {number : Nat} {install : Install T} {model : D}
    (hinstall : installs[number - 1]? = some install)
    (hmodel : validate install.tree = .ok model) (hdue : due inner number install.tree = true) :
    Progress validate installs (inner.commit validate install.tree) ∧
      (inner.commit validate install.tree).generation = number := by
  rw [due] at hdue
  split at hdue
  · next hnumber =>
    obtain ⟨last, -, hlast, hpublished⟩ := h.settled hdue
    rw [← hnumber, hinstall] at hlast
    obtain rfl := Option.some.inj hlast
    rw [commit_of_published hpublished]
    exact ⟨h, hnumber.symm⟩
  · rw [Bool.and_eq_true, decide_eq_true_eq, Bool.not_eq_true'] at hdue
    obtain ⟨hnumber, hnot⟩ := hdue
    obtain ⟨sequence, hcommit⟩ := commit_of_not_published h.slot hwrap hmodel hnot
    have hat : installs[inner.generation]? = some install := by
      rw [hnumber, Nat.add_sub_cancel] at hinstall
      exact hinstall
    rw [hcommit]
    refine ⟨⟨⟨?_, Nat.le_refl _, fun hnone ↦ (by cases hnone)⟩, ?_, ?_, ?_, fun _ ↦ ?_⟩,
      hnumber.symm⟩
    · exact fun p hp ↦ Option.some.inj hp ▸ ⟨rfl, hmodel⟩
    · exact (List.getElem?_eq_some_iff.1 hat).1
    · have hanswer : (answers validate installs)[inner.generation]? = some (some model) := by
        rw [answers, List.getElem?_map, hat, Option.map_some, hmodel]
        rfl
      show (inner.hooked ++ [(inner.cache, model)]).map _ = List.take (inner.generation + 1) _
      rw [List.map_append, h.hooked, List.take_add_one, hanswer]
      rfl
    · show some model = (inner.hooked ++ [(inner.cache, model)]).getLast?.map Prod.snd
      rw [List.getLast?_concat]
      rfl
    · refine ⟨install, Nat.succ_pos _, hat, ?_⟩
      show (decide (install.tree = install.tree) && decide (sequence ≤ sequence)) = true
      rw [decide_eq_true rfl, decide_eq_true (Nat.le_refl _)]
      rfl

/-- The so many-th install has a commit to come: its hook's, or for the first one its own task's. -/
def Awaited (sys : System T D (Inner T D)) (number : Nat) : Prop :=
  ∃ (i : Nat) (task : Task T D) (tree : T), sys.tasks[i]? = some task ∧
    (task.stage = .installed tree number ∨ number = 1 ∧ task.stage = .dispatched tree 1)

omit [DecidableEq T] in
/-- It is not the move of another task that commits it. -/
theorem Awaited.move {number : Nat} (h : Awaited sys number) {i : Nat} {task : Task T D}
    (htask : sys.tasks[i]? = some task) (hinstalled : ∀ tree, task.stage ≠ .installed tree number)
    (hdispatched : ∀ tree, number = 1 → task.stage ≠ .dispatched tree 1) (what : What)
    (stage : Stage T D) : Awaited (sys.move i what stage) number := by
  obtain ⟨j, other, tree, hother, hstage⟩ := h
  refine ⟨j, other, tree, System.getElem?_move htask hother ?_ what stage, hstage⟩
  rintro rfl
  rcases hstage with hstage | ⟨hnumber, hstage⟩
  · exact hinstalled tree hstage
  · exact hdispatched tree hnumber hstage

/-- What timely steps keep. -/
structure Kept (validate : T → Except Error D) (sys : System T D (Inner T D)) : Prop where
  progress : Progress validate sys.installs sys.binding
  /-- What the engine has been given, or is to be given, the schema has answered. -/
  validated : ∀ task ∈ sys.tasks, ∀ tree sequence, task.stage = .validated tree sequence →
    ∃ model, validate tree = .ok model
  models : ∀ install ∈ sys.installs, ∃ model, validate install.tree = .ok model
  /-- A task on its way from an install knows which it was. -/
  numbered : ∀ task ∈ sys.tasks, ∀ tree number, task.stage = .installed tree number →
    ∃ install, sys.installs[number - 1]? = some install ∧ install.tree = tree
  /-- An install that is not published is still to be committed. -/
  waits : ∀ number, sys.binding.generation < number → number ≤ sys.installs.length →
    Awaited sys number

theorem kept_start : Kept validate (System.start Inner.new) where
  progress := {
    slot := ⟨fun p hp ↦ (by cases hp), Nat.le_refl _, fun _ ↦ rfl⟩
    generation_le := Nat.le_refl _
    hooked := rfl
    cache := rfl
    settled := fun hsettled ↦ (by cases hsettled) }
  validated task htask := absurd htask List.not_mem_nil
  models install hinstall := absurd hinstall List.not_mem_nil
  numbered task htask := absurd htask List.not_mem_nil
  waits number hlt hle := absurd (Nat.lt_of_lt_of_le hlt hle) (Nat.lt_irrefl _)

/-- A task that moves without an install, a commit or a validation of its own. -/
theorem Kept.move (h : Kept validate sys) {i : Nat} {task : Task T D}
    (htask : sys.tasks[i]? = some task) {what : What} {stage : Stage T D}
    (hinstalled : ∀ tree number, task.stage ≠ .installed tree number)
    (hdispatched : ∀ tree number, task.stage ≠ .dispatched tree number)
    (hvalidated : ∀ tree sequence, stage = .validated tree sequence → ∃ model, validate tree = .ok model)
    (hnumbered : ∀ tree number, stage ≠ .installed tree number) :
    Kept validate (sys.move i what stage) where
  progress := h.progress
  validated := System.forall_move h.validated hvalidated
  models := h.models
  numbered := System.forall_move h.numbered fun tree number hstage ↦ absurd hstage (hnumbered tree number)
  waits number hlt hle := (h.waits number hlt hle).move htask (fun tree ↦ hinstalled tree number)
    (fun tree _ ↦ hdispatched tree 1) what stage

/-- A validation leaves what is published. -/
theorem Kept.stage (h : Kept validate sys) (hwrap : sys.binding.next_sequence + 1 < 2 ^ 64) {tree : T}
    {model : D} (hmodel : validate tree = .ok model) :
    Kept validate { sys with binding := sys.binding.stage tree model } where
  progress := h.progress.stage hwrap hmodel
  validated := h.validated
  models := h.models
  numbered := h.numbered
  waits := h.waits

/-- An install is one more to commit, and its task has just made it. -/
theorem Kept.swap (h : Kept validate sys) {i : Nat} {what : What} {tree : T} {sequence : Nat}
    (htask : sys.tasks[i]? = some ⟨what, .validated tree sequence⟩) :
    Kept validate
      { sys.move i what (.installed tree (sys.installs.length + 1)) with
        installs := sys.installs ++ [⟨tree, sequence⟩] } where
  progress := h.progress.install _
  validated := System.forall_move h.validated fun _ _ hstage ↦ (by cases hstage)
  models install hinstall := by
    rcases List.mem_append.1 hinstall with hinstall | hinstall
    · exact h.models install hinstall
    · exact List.mem_singleton.1 hinstall ▸
        h.validated _ (List.mem_of_getElem? htask) tree sequence rfl
  numbered := by
    refine System.forall_move (fun task ht t number hstage ↦ ?_) fun t number hstage ↦ ?_
    · obtain ⟨install, hinstall, htree⟩ := h.numbered task ht t number hstage
      have hlt := (List.getElem?_eq_some_iff.1 hinstall).1
      exact ⟨install, (List.getElem?_append_left hlt).trans hinstall, htree⟩
    · obtain ⟨rfl, rfl⟩ := Stage.installed.inj hstage
      exact ⟨_, List.getElem?_concat_length, rfl⟩
  waits number hlt hle := by
    rw [List.length_append, List.length_singleton] at hle
    rcases Nat.lt_or_ge sys.installs.length number with hnew | hold
    · obtain rfl : number = sys.installs.length + 1 := by omega
      exact ⟨i, _, tree, System.getElem?_move_self htask _ _, Or.inl rfl⟩
    · exact (h.waits number hlt hold).move htask (fun _ hstage ↦ (by cases hstage))
        (fun _ _ hstage ↦ (by cases hstage)) _ _

/-- A due commit publishes its install, and the later ones are still to be committed. -/
theorem Kept.commit (h : Kept validate sys) (hwrap : sys.binding.next_sequence + 1 < 2 ^ 64) {i : Nat}
    {what : What} {stage : Stage T D} {number : Nat} {install : Install T}
    (hinstall : sys.installs[number - 1]? = some install)
    (hdue : due sys.binding number install.tree = true)
    (hvalidated : ∀ tree sequence, stage ≠ .validated tree sequence)
    (hnumbered : ∀ tree n, stage ≠ .installed tree n)
    (hwaits : ∀ n, number < n → n ≤ sys.installs.length → Awaited sys n →
      Awaited (sys.move i what stage) n) :
    Kept validate
      { sys.move i what stage with binding := sys.binding.commit validate install.tree } := by
  obtain ⟨model, hmodel⟩ := h.models install (List.mem_of_getElem? hinstall)
  obtain ⟨hprogress, hgeneration⟩ := h.progress.commit hwrap hinstall hmodel hdue
  have hle : sys.binding.generation ≤ number := by
    rw [due] at hdue
    split at hdue
    · next hnumber => exact Nat.le_of_eq hnumber.symm
    · have hnext := decide_eq_true_iff.1 (Bool.and_eq_true_iff.1 hdue).1
      omega
  refine ⟨hprogress, ?_, h.models, ?_, fun n hlt hn ↦ ?_⟩
  · exact System.forall_move h.validated fun tree sequence hstage ↦
      absurd hstage (hvalidated tree sequence)
  · exact System.forall_move h.numbered fun tree n hstage ↦ absurd hstage (hnumbered tree n)
  · have hnumber : number < n := hgeneration ▸ hlt
    exact hwaits n hnumber hn (h.waits n (Nat.lt_of_le_of_lt hle hnumber) hn)

omit [DecidableEq T] in
/-- What is served is the last install. -/
theorem getElem?_of_current {tree : T} (h : sys.current = some tree) :
    ∃ install, sys.installs[sys.installs.length - 1]? = some install ∧ install.tree = tree := by
  obtain ⟨install, hlast, htree⟩ := Option.map_eq_some_iff.1 h
  rw [List.getLast?_eq_getElem?] at hlast
  exact ⟨install, hlast, htree⟩

/-- A candidate answers what waits in the slot, or validates again. -/
theorem answer_cases (hslot : ∀ p, inner.staged = some p → validate p.tree = .ok p.model) {tree : T}
    {model : D} (hmodel : validate tree = .ok model) :
    inner.answer validate tree = (inner, some model) ∨
      inner.answer validate tree = (inner.stage tree model, some model) := by
  rw [Inner.answer]
  split
  · next p hp =>
    obtain ⟨hstaged, htree⟩ := Option.filter_eq_some_iff.1 hp
    have hanswer := hslot p hstaged
    rw [decide_eq_true_iff.1 htree, hmodel] at hanswer
    exact Or.inl (Except.ok.inj hanswer ▸ rfl)
  · rw [hmodel]
    exact Or.inr rfl

/-! ### Candidates -/

/-- The slot's model is the schema's answer for the slot's tree, and a candidate's for its own. -/
structure Right (validate : T → Except Error D) (sys : System T D (Inner T D)) : Prop where
  candidates : sys.Candidates
  slot : ∀ p, sys.binding.staged = some p → validate p.tree = .ok p.model
  loaded : ∀ task ∈ sys.tasks, ∀ tree model, task.stage = .loaded tree model →
    validate tree = .ok model

omit [DecidableEq T] in
theorem right_start : Right validate (System.start Inner.new) where
  candidates := System.candidates_start _
  slot p hp := (by cases hp)
  loaded task htask := absurd htask List.not_mem_nil

omit [DecidableEq T] in
/-- The slot after a validation. -/
theorem staged_stage (inner : Inner T D) {tree : T} {model : D} (hmodel : validate tree = .ok model) :
    ∀ p, (inner.stage tree model).staged = some p → validate p.tree = .ok p.model :=
  fun _ hp ↦ Option.some.inj hp ▸ hmodel

/-- The slot after a commit is as it was, or has been validated again. -/
theorem Right.commit (h : Right validate sys) (tree : T) :
    ∀ p, (sys.binding.commit validate tree).staged = some p → validate p.tree = .ok p.model := by
  have hagain : ∀ p, (sys.binding.republish validate tree).staged = some p →
      validate p.tree = .ok p.model := by
    intro p hp
    rw [Inner.republish] at hp
    split at hp
    · exact h.slot p hp
    · next model hmodel => exact staged_stage _ hmodel p hp
  rw [Inner.commit]
  split
  · split
    · split
      · exact h.slot
      · exact h.slot
    · exact hagain
  · exact hagain

/-- The slot after a candidate's answer. -/
theorem Right.answer (h : Right validate sys) {tree : T} {model : D}
    (hmodel : validate tree = .ok model) :
    ∀ p, (sys.binding.answer validate tree).1.staged = some p → validate p.tree = .ok p.model := by
  rcases answer_cases h.slot hmodel with hanswer | hanswer
  · rw [hanswer]
    exact h.slot
  · rw [hanswer]
    exact staged_stage _ hmodel

/-- Every step keeps it. -/
theorem Right.step {event : Event T Empty} (h : Right validate sys)
    (hstep : sys.step (binding validate) event = some sys') : Right validate sys' := by
  refine ⟨h.candidates.step hstep, ?_, ?_⟩
  · rcases System.step_effect hstep with what | ⟨_, i, what, htask⟩ |
      ⟨i, what, tree, model, htask, hmodel, hwhat⟩ | ⟨i, tree, model, htask, hmodel⟩ |
      ⟨i, what, tree, sequence, htask⟩ | ⟨i, what, tree, number, htask⟩ |
      ⟨i, what, tree, number, htask⟩ | ⟨i, what, tree, model, htask⟩ | ⟨a, _, _⟩
    · exact h.slot
    · exact h.slot
    · exact staged_stage _ hmodel
    · exact staged_stage _ hmodel
    · exact h.slot
    · rw [System.dispatched]
      by_cases hnumber : number = 1
      · rw [if_pos hnumber]
        exact h.slot
      · rw [if_neg hnumber]
        exact h.commit tree
    · rw [System.finished]
      rcases sys.current with - | served
      · exact h.slot
      · exact h.commit served
    · exact h.answer (h.loaded _ (List.mem_of_getElem? htask) tree model rfl)
    · exact a.elim
  · rcases System.step_effect hstep with what | ⟨_, i, what, htask⟩ |
      ⟨i, what, tree, model, htask, hmodel, hwhat⟩ | ⟨i, tree, model, htask, hmodel⟩ |
      ⟨i, what, tree, sequence, htask⟩ | ⟨i, what, tree, number, htask⟩ |
      ⟨i, what, tree, number, htask⟩ | ⟨i, what, tree, model, htask⟩ | ⟨a, _, _⟩
    · intro task htask
      rcases List.mem_append.1 htask with htask | htask
      · exact h.loaded task htask
      · rw [List.mem_singleton.1 htask]
        exact fun _ _ hstage ↦ (by cases hstage)
    · exact System.forall_move h.loaded fun _ _ hstage ↦ (by cases hstage)
    · exact System.forall_move h.loaded fun _ _ hstage ↦ (by cases hstage)
    · refine System.forall_move h.loaded fun t d hstage ↦ ?_
      obtain ⟨rfl, rfl⟩ := Stage.loaded.inj hstage
      exact hmodel
    · exact System.forall_move h.loaded fun _ _ hstage ↦ (by cases hstage)
    · refine System.forall_move h.loaded fun t d hstage ↦ ?_
      have hstage : (if what = .watched then .returned none else .dispatched tree number) =
        Stage.loaded t d := hstage
      split at hstage <;> cases hstage
    · exact System.forall_move h.loaded fun _ _ hstage ↦ (by cases hstage)
    · exact System.forall_move h.loaded fun _ _ hstage ↦ (by cases hstage)
    · exact a.elim

/-- A load publishes nothing, and answers the model of the tree it resolved. -/
structure Loads (validate : T → Except Error D) (sys : System T D (Inner T D)) : Prop where
  publishes : ∀ i stage event sys', sys.tasks[i]? = some ⟨.candidate, stage⟩ →
    event.task = some i → sys.step (binding validate) event = some sys' →
      sys'.installs = sys.installs ∧ sys'.binding.cache = sys.binding.cache ∧
        sys'.binding.generation = sys.binding.generation ∧ sys'.binding.hooked = sys.binding.hooked
  answers : ∀ i tree model sys', sys.tasks[i]? = some ⟨.candidate, .loaded tree model⟩ →
    sys.step (binding validate) (.finish i) = some sys' →
      validate tree = .ok model ∧ sys'.tasks[i]? = some ⟨.candidate, .returned (some (tree, model))⟩

theorem Right.loads (h : Right validate sys) : Loads validate sys where
  publishes i stage event sys' htask hevent hstep := by
    obtain ⟨hinstalls, hbinding⟩ := h.candidates.frame hevent htask hstep
    refine ⟨hinstalls, ?_⟩
    rcases hbinding with hsame | ⟨tree, model, hload | hanswer⟩
    · rw [hsame]
      exact ⟨rfl, rfl, rfl⟩
    · rw [hload]
      exact ⟨rfl, rfl, rfl⟩
    · have hanswered : sys'.binding = (sys.binding.answer validate tree).1 := hanswer
      rw [Inner.answer] at hanswered
      split at hanswered
      · rw [hanswered]
        exact ⟨rfl, rfl, rfl⟩
      · split at hanswered
        · rw [hanswered]
          exact ⟨rfl, rfl, rfl⟩
        · rw [hanswered]
          exact ⟨rfl, rfl, rfl⟩
  answers i tree model sys' htask hstep := by
    have hmodel := h.loaded _ (List.mem_of_getElem? htask) tree model rfl
    have hreturned : ((sys.binding.answer validate tree).2.map fun d ↦ (tree, d)) =
        some (tree, model) := by
      rcases answer_cases h.slot hmodel with hanswer | hanswer
      · rw [hanswer]
        rfl
      · rw [hanswer]
        rfl
    simp only [System.step, htask, Option.some.injEq] at hstep
    refine ⟨hmodel, ?_⟩
    rw [← hstep, ← hreturned]
    exact System.getElem?_move_self htask _ _

/-- **A timely step keeps it.** -/
theorem Kept.step {event : Event T Empty} (h : Kept validate sys) (hright : Right validate sys)
    (htimely : timely sys event = true)
    (hstep : sys.step (binding validate) event = some sys') : Kept validate sys' := by
  obtain ⟨hwrap, htimely⟩ := Bool.and_eq_true_iff.1 htimely
  rw [decide_eq_true_eq] at hwrap
  rcases System.step_effect hstep with what | ⟨_, i, what, htask⟩ |
    ⟨i, what, tree, model, htask, hmodel, hwhat⟩ | ⟨i, tree, model, htask, hmodel⟩ |
    ⟨i, what, tree, sequence, htask⟩ | ⟨i, what, tree, number, htask⟩ |
    ⟨i, what, tree, number, htask⟩ | ⟨i, what, tree, model, htask⟩ | ⟨a, _, _⟩
  · have hnew : ∀ task ∈ sys.tasks ++ [(⟨what, .ready⟩ : Task T D)],
        task ∈ sys.tasks ∨ task = ⟨what, .ready⟩ := fun task htask ↦
      (List.mem_append.1 htask).imp_right List.mem_singleton.1
    refine ⟨h.progress, fun task htask ↦ ?_, h.models, fun task htask ↦ ?_, fun n hlt hle ↦ ?_⟩
    · rcases hnew task htask with htask | rfl
      · exact h.validated task htask
      · exact fun _ _ hstage ↦ (by cases hstage)
    · rcases hnew task htask with htask | rfl
      · exact h.numbered task htask
      · exact fun _ _ hstage ↦ (by cases hstage)
    · obtain ⟨j, task, tree, htask, hstage⟩ := h.waits n hlt hle
      have hj := (List.getElem?_eq_some_iff.1 htask).1
      exact ⟨j, task, tree, (List.getElem?_append_left hj).trans htask, hstage⟩
  · exact h.move htask (fun _ _ hstage ↦ (by cases hstage)) (fun _ _ hstage ↦ (by cases hstage))
      (fun _ _ hstage ↦ (by cases hstage)) fun _ _ hstage ↦ (by cases hstage)
  · have hmoved : Kept validate (sys.move i what (.validated tree sys.binding.sequence)) := by
      refine h.move htask (fun _ _ hstage ↦ (by cases hstage)) (fun _ _ hstage ↦ (by cases hstage))
        (fun t n hstage ↦ ?_) fun _ _ hstage ↦ (by cases hstage)
      obtain ⟨rfl, rfl⟩ := Stage.validated.inj hstage
      exact ⟨model, hmodel⟩
    exact hmoved.stage hwrap hmodel
  · have hmoved : Kept validate (sys.move i .candidate (.loaded tree model)) :=
      h.move htask (fun _ _ hstage ↦ (by cases hstage)) (fun _ _ hstage ↦ (by cases hstage))
        (fun _ _ hstage ↦ (by cases hstage)) fun _ _ hstage ↦ (by cases hstage)
    exact hmoved.stage hwrap hmodel
  · exact h.swap htask
  · simp only [htask] at htimely
    by_cases hnumber : number = 1
    · -- The hook does not fire: the commit is left to the task itself.
      rw [if_pos hnumber, decide_eq_true_eq] at htimely
      have hleft : sys.dispatched (binding validate) i what tree number =
          sys.move i what (.dispatched tree number) := by
        rw [System.dispatched, if_neg htimely, if_pos hnumber]
        rfl
      rw [hleft]
      refine ⟨h.progress, ?_, h.models, ?_, fun n hlt hle ↦ ?_⟩
      · exact System.forall_move h.validated fun _ _ hstage ↦ (by cases hstage)
      · exact System.forall_move h.numbered fun _ _ hstage ↦ (by cases hstage)
      · by_cases hfirst : n = 1
        · exact ⟨i, _, tree, System.getElem?_move_self htask _ _, Or.inr ⟨hfirst, hnumber ▸ rfl⟩⟩
        · refine (h.waits n hlt hle).move htask (fun t hstage ↦ ?_)
            (fun _ hone ↦ absurd hone hfirst) _ _
          exact hfirst ((Stage.installed.inj hstage).2.symm.trans hnumber)
    · rw [if_neg hnumber] at htimely
      obtain ⟨install, hinstall, rfl⟩ :=
        h.numbered _ (List.mem_of_getElem? htask) tree number rfl
      rw [System.dispatched, if_neg hnumber]
      refine h.commit hwrap hinstall htimely (fun t n hstage ↦ ?_) (fun t n hstage ↦ ?_)
        fun n hlt _ hawaited ↦ ?_
      · split at hstage <;> cases hstage
      · split at hstage <;> cases hstage
      · refine hawaited.move htask (fun t hstage ↦ ?_) (fun t _ hstage ↦ (by cases hstage)) _ _
        exact Nat.ne_of_lt hlt (Stage.installed.inj hstage).2
  · simp only [htask] at htimely
    rw [System.finished]
    rcases hcurrent : sys.current with - | served
    · have hnone : sys.installs = [] :=
        List.getLast?_eq_none_iff.1 (Option.map_eq_none_iff.1 hcurrent)
      refine ⟨h.progress, ?_, h.models, ?_, fun n hlt hle ↦ ?_⟩
      · exact System.forall_move h.validated fun _ _ hstage ↦ (by cases hstage)
      · exact System.forall_move h.numbered fun _ _ hstage ↦ (by cases hstage)
      · have hle : n ≤ sys.installs.length := hle
        rw [hnone] at hle
        exact absurd (Nat.lt_of_lt_of_le hlt hle) (Nat.not_lt_zero _)
    · rw [hcurrent, Option.all_some] at htimely
      obtain ⟨install, hinstall, rfl⟩ := getElem?_of_current hcurrent
      exact h.commit hwrap hinstall htimely (fun _ _ hstage ↦ (by cases hstage))
        (fun _ _ hstage ↦ (by cases hstage)) fun n hlt hle _ ↦ absurd hle (Nat.not_le.2 hlt)
  · have hmoved : ∀ answer, Kept validate (sys.move i what (.returned answer)) := fun answer ↦
      h.move htask (fun _ _ hstage ↦ (by cases hstage)) (fun _ _ hstage ↦ (by cases hstage))
        (fun _ _ hstage ↦ (by cases hstage)) fun _ _ hstage ↦ (by cases hstage)
    have hmodel := hright.loaded _ (List.mem_of_getElem? htask) tree model rfl
    have hanswered : sys.answered (binding validate) i what tree model =
        { sys.move i what (.returned ((sys.binding.answer validate tree).2.map fun d ↦ (tree, d))) with
          binding := (sys.binding.answer validate tree).1 } := rfl
    rw [hanswered]
    rcases answer_cases hright.slot hmodel with hanswer | hanswer
    · rw [hanswer]
      exact hmoved _
    · rw [hanswer]
      exact (hmoved _).stage hwrap hmodel
  · exact a.elim

/-- Once every task has returned, every install is published. -/
theorem Kept.published (h : Kept validate sys) (hquiet : sys.Quiet) : Published validate sys := by
  have hgeneration : sys.binding.generation = sys.installs.length := by
    refine Nat.le_antisymm h.progress.generation_le (Nat.not_lt.1 fun hlt ↦ ?_)
    obtain ⟨i, ⟨what, stage⟩, tree, htask, hstage⟩ := h.waits _ hlt (Nat.le_refl _)
    obtain ⟨answer, rfl⟩ := Stage.exists_of_isReturned (hquiet _ (List.mem_of_getElem? htask))
    rcases hstage with hstage | ⟨-, hstage⟩ <;> cases hstage
  have hhooked : sys.binding.hooked.map (fun round ↦ some round.2) =
      answers validate sys.installs := by
    rw [h.progress.hooked, hgeneration]
    exact List.take_of_length_le (Nat.le_of_eq (List.length_map _))
  refine ⟨?_, hgeneration, hhooked⟩
  have hlast := congrArg List.getLast? hhooked
  rw [answers, List.getLast?_map, List.getLast?_map] at hlast
  rw [h.progress.cache, System.current]
  rcases hround : sys.binding.hooked.getLast? with - | round
  · rw [hround] at hlast
    rcases hinstall : sys.installs.getLast? with - | install
    · rfl
    · rw [hinstall] at hlast
      cases hlast
  · rw [hround] at hlast
    rcases hinstall : sys.installs.getLast? with - | install
    · rw [hinstall] at hlast
      cases hlast
    · rw [hinstall] at hlast
      exact Option.some.inj hlast

end Keeping

/-- **Python publishes what the engine serves, once per install**, in every run whose steps are all
timely. A load publishes nothing in any run, and answers its own tree's model. -/
theorem published_once_of_run {T D : Type} [DecidableEq T] (validate : T → Except Error D)
    {events : List (Event T Empty)} {sys : System T D (Inner T D)}
    (hrun : run (System.step (binding validate)) (System.start .new) events = some sys) :
    Loads validate sys ∧
      (Along (System.step (binding validate)) (fun sys event ↦ timely sys event = true)
        (System.start .new) events → sys.Quiet → Published validate sys) := by
  have hright : Right validate sys :=
    run_invariant (fun _ _ _ hstep h ↦ Right.step h hstep) hrun right_start
  refine ⟨hright.loads, fun htimely hquiet ↦ ?_⟩
  have hkept : Right validate sys ∧ Kept validate sys :=
    run_invariant_along (fun s _ _ htimely hstep (h : Right validate s ∧ Kept validate s) ↦
      ⟨h.1.step hstep, h.2.step h.1 htimely hstep⟩) htimely hrun ⟨right_start, kept_start⟩
  exact hkept.2.published hquiet

/-- The first install, as far as its explicit commit. -/
def initialized : List (Event String Empty) :=
  [.start .init, .validate 0 "A", .swap 0, .dispatch 0, .finish 0]

/-- A load comes to another tree while a reload is on its way, up to the reload's hook. -/
def loading : List (Event String Empty) :=
  [.start .reload, .start .candidate, .validate 1 "B", .validate 2 "C", .swap 1, .dispatch 1]

/-- The load answers after the reload's own commit. -/
theorem published_once_of_loading :
    ∃ sys, run (System.step (binding .ok)) (System.start .new)
        (initialized ++ loading ++ [.finish 1, .finish 2]) = some sys ∧
      sys.binding.cache = some "B" ∧ Published .ok sys := by
  have hruns : (run (System.step (binding .ok)) (System.start .new)
      (initialized ++ loading ++ [.finish 1, .finish 2])).map (fun sys ↦
        (decide sys.Quiet, sys.binding.cache)) = some (true, some "B") := by
    decide +kernel
  obtain ⟨sys, hrun, hread⟩ := Option.map_eq_some_iff.1 hruns
  obtain ⟨hquiet, hcache⟩ := Prod.mk.inj hread
  exact ⟨sys, hrun, hcache, (published_once_of_run .ok hrun).2 (by decide +kernel)
    (decide_eq_true_iff.1 hquiet)⟩

/-- **A load that answers between a reload's two commits has the reload published twice**: the slot is
the load's by then, so the second commit validates once more and runs the hooks again. -/
theorem not_published_once : ¬ ∀ (events : List (Event String Empty)) (sys : System String String (Inner String String)),
    run (System.step (binding .ok)) (System.start .new) events = some sys → sys.Quiet →
      Published .ok sys := by
  intro hall
  have hruns : (run (System.step (binding .ok)) (System.start .new)
      (initialized ++ loading ++ [.finish 2, .finish 1])).map (fun sys ↦
        (decide sys.Quiet, decide (Published .ok sys))) = some (true, false) := by
    decide +kernel
  obtain ⟨sys, hrun, hread⟩ := Option.map_eq_some_iff.1 hruns
  obtain ⟨hquiet, hpublished⟩ := Prod.mk.inj hread
  exact decide_eq_false_iff_not.1 hpublished (hall _ sys hrun (decide_eq_true_iff.1 hquiet))

end DynamicConfig.Bindings.Python
