import DynamicConfig.Bindings.Tasks
import Mathlib

/-!
# The Node binding

Validations wait in a list of at most four, and each commit claims the oldest one of an equal tree. A
commit that claims one validated before the last one published drops it; a commit that finds none has
nothing to publish, since the other commit of the same install has claimed it.

What is published is what the engine serves, once per install, as long as nothing that is to be
claimed is dropped (`published_of_run`): no validation is evicted, installs and commits come in the
order of the validations, and the first install is committed by the task that made it. Two reloads are
enough for the older of them to stay in the engine and the newer one to stay published
(`not_published`).

A document is JSON, and `null` is the document of which the facade's `#pull` makes `undefined`.
-/

namespace DynamicConfig.Bindings.Node

open Transition

/-- One validated document, waiting to be published. -/
structure Staged (J : Type) where
  sequence : Nat
  tree : J
  model : J
  deriving DecidableEq

/-- `pending.tree == *tree`. -/
def Staged.isOf {J : Type} [DecidableEq J] (tree : J) (pending : Staged J) : Bool :=
  pending.tree = tree

@[simp] theorem Staged.isOf_iff {J : Type} [DecidableEq J] {tree : J} {pending : Staged J} :
    pending.isOf tree = true ↔ pending.tree = tree := decide_eq_true_iff

/-- The binding, and the facade over it. -/
structure Inner (J : Type) where
  /-- Validations waiting to be claimed, oldest first. -/
  staged : List (Staged J)
  next_sequence : Nat
  last_committed : Nat
  cache : Option J
  generation : Nat
  /-- The facade's hook, called and yet to run on the loop. -/
  queued : List J
  /-- The facade's `#cached`. -/
  cached : Option J
  /-- The facade's `#generation`. -/
  seen : Nat
  deriving DecidableEq

/-- What the loop does of its own. -/
inductive Turn where
  /-- The next queued hook runs. -/
  | hook
  /-- `#pull`, after an install of its own or where the generation has moved. -/
  | pull
  deriving DecidableEq

/-- `fetch_add` on a `u64`. -/
def succ (n : Nat) : Nat := (n + 1) % 2 ^ 64

namespace Inner

variable {J : Type} [DecidableEq J]

def new : Inner J := ⟨[], 0, 0, none, 0, [], none, 0⟩

/-- The most validations that wait. -/
def bounded (staged : List (Staged J)) : List (Staged J) := staged.drop (staged.length - 4)

/-- `Inner::validate`, of a task that installs. -/
def validate (inner : Inner J) (tree model : J) : Inner J :=
  { inner with
    next_sequence := succ inner.next_sequence
    staged := bounded (inner.staged ++ [⟨succ inner.next_sequence, tree, model⟩]) }

/-- The document a load's own validation produced. -/
def pending (inner : Inner J) (tree : J) : Option (Staged J) :=
  inner.staged.find? (Staged.isOf tree)

/-- A document is published, and the hook is called. -/
def publish (inner : Inner J) (model : J) : Inner J :=
  { inner with
    cache := some model
    generation := succ inner.generation
    queued := inner.queued ++ [model] }

/-- A validation is claimed. -/
def claim (inner : Inner J) (tree : J) (sequence : Nat) : Inner J :=
  { inner with
    staged := inner.staged.eraseP (Staged.isOf tree)
    last_committed := max inner.last_committed sequence }

/-- `Inner::commit`. -/
def commit (inner : Inner J) (tree : J) : Inner J :=
  match inner.pending tree with
  | none => inner
  | some pending =>
    if pending.sequence ≤ inner.last_committed then inner.claim tree pending.sequence
    else (inner.claim tree pending.sequence).publish pending.model

/-- The generation as JavaScript has it. -/
def shown (inner : Inner J) : Nat := inner.generation % 2 ^ 32

/-- The published document, of which `null` is none. -/
def pulled (null : J) (inner : Inner J) : Option J := inner.cache.filter fun document ↦ document ≠ null

/-- One turn of the loop. -/
def turn (null : J) (inner : Inner J) : Turn → Option (Inner J)
  | .hook =>
    match inner.queued with
    | [] => none
    | document :: rest =>
      some { inner with queued := rest, cached := some document, seen := inner.shown }
  | .pull => some { inner with cached := inner.pulled null, seen := inner.shown }

/-- `tryCurrent`: what `current` returns. -/
def tryCurrent (null : J) (inner : Inner J) : Option J :=
  if inner.seen = inner.shown then inner.cached else inner.pulled null

end Inner

section Binding

variable {J : Type} [DecidableEq J]

/-- The binding over a schema. A candidate's validation goes nowhere else, and `null` is what a
configuration with no validator leaves of it. -/
def binding (null : J) (validate : J → Except Error J) : Binding J J (Inner J) Turn where
  validate
  sequence inner := succ inner.next_sequence
  stage := Inner.validate
  load inner _ _ := inner
  commit := Inner.commit
  answer inner tree model := (inner, some (if model = null then tree else model))
  act := Inner.turn null

/-- A commit drops what it claims. -/
def late (inner : Inner J) (tree : J) : Bool :=
  (inner.pending tree).any fun pending ↦ pending.sequence ≤ inner.last_committed

/-- A step after which everything validated is still to be published, or has been.

* A validation evicts none, its document is not `null`, and the sequence does not wrap.
* Of the installs so far, none of another tree was validated later.
* A commit drops nothing. The first install is not the watcher's, and is what the engine serves when
  its task commits. -/
def timely (null : J) (validate : J → Except Error J) (sys : System J J (Inner J)) :
    Event J Turn → Bool
  | .validate i tree =>
    match sys.tasks[i]?, validate tree with
    | some ⟨what, _⟩, .ok model => what = .candidate ||
        decide (model ≠ null ∧ sys.binding.staged.length < 4 ∧
          sys.binding.next_sequence + 1 < 2 ^ 64)
    | _, _ => true
  | .swap i =>
    match sys.tasks[i]? with
    | some ⟨_, .validated tree sequence⟩ =>
      sys.installs.all fun install ↦ install.sequence ≤ sequence || decide (install.tree = tree)
    | _ => true
  | .dispatch i =>
    match sys.tasks[i]? with
    | some ⟨what, .installed tree number⟩ =>
      if number = 1 then decide (what ≠ .watched) else !late sys.binding tree
    | _ => true
  | .finish i =>
    match sys.tasks[i]? with
    | some ⟨_, .dispatched tree number⟩ =>
      sys.current.all (fun current ↦ !late sys.binding current) &&
        (decide (number ≠ 1) || decide (sys.current = some tree))
    | _ => true
  | _ => true

/-- The published document, and what `current` returns, are the validator's answer for what the engine
serves, and the generation is the number of the engine's installs. -/
def Published (null : J) (validate : J → Except Error J) (sys : System J J (Inner J)) : Prop :=
  sys.binding.cache = sys.current.bind (fun tree ↦ (validate tree).toOption) ∧
    sys.binding.tryCurrent null = sys.binding.cache ∧
      sys.binding.generation = sys.installs.length

instance (null : J) (validate : J → Except Error J) (sys : System J J (Inner J)) :
    Decidable (Published null validate sys) :=
  inferInstanceAs (Decidable (_ ∧ _ ∧ _))

end Binding

/-! ### Commits -/

section Commit

variable {J : Type} [DecidableEq J] {null : J} {inner : Inner J} {tree : J}

/-- A commit takes one validation of its tree, if there is one. -/
theorem countP_commit (inner : Inner J) (tree other : J) :
    (inner.commit tree).staged.countP (Staged.isOf other) =
      inner.staged.countP (Staged.isOf other) - if tree = other then 1 else 0 := by
  have herase : ∀ staged : List (Staged J),
      (staged.eraseP (Staged.isOf tree)).countP (Staged.isOf other) =
        staged.countP (Staged.isOf other) - if tree = other then 1 else 0 := by
    intro staged
    induction staged with
    | nil => exact (Nat.zero_sub _).symm
    | cons first rest ih =>
      by_cases hfirst : first.tree = tree
      · have hpos : first.isOf tree = true := Staged.isOf_iff.2 hfirst
        rw [List.eraseP_cons_of_pos hpos, List.countP_cons]
        by_cases hother : tree = other
        · rw [if_pos hother, if_pos (Staged.isOf_iff.2 (hfirst.trans hother)), Nat.add_sub_cancel]
        · rw [if_neg hother, if_neg fun h ↦ hother (hfirst.symm.trans (Staged.isOf_iff.1 h))]
          omega
      · have hneg : ¬ first.isOf tree = true := fun h ↦ hfirst (Staged.isOf_iff.1 h)
        rw [List.eraseP_cons_of_neg hneg, List.countP_cons, List.countP_cons, ih]
        by_cases hother : tree = other
        · rw [if_neg fun h ↦ hfirst ((Staged.isOf_iff.1 h).trans hother.symm), if_pos hother]
          omega
        · rw [if_neg hother]
          omega
  rw [Inner.commit, Inner.pending]
  split
  · next hnone =>
    by_cases hother : tree = other
    · have hzero : inner.staged.countP (Staged.isOf other) = 0 :=
        List.countP_eq_zero.2 (hother ▸ List.find?_eq_none.1 hnone)
      rw [hzero, Nat.zero_sub]
    · rw [if_neg hother, Nat.sub_zero]
  · split
    · exact herase _
    · exact herase _

/-- A commit that drops nothing finds nothing, or publishes what it finds. -/
theorem commit_cases (h : late inner tree = false) :
    inner.commit tree = inner ∨
      ∃ before p after, inner.staged = before ++ p :: after ∧ inner.last_committed < p.sequence ∧
        inner.commit tree =
          { inner with staged := before ++ after, last_committed := p.sequence }.publish p.model := by
  rw [late] at h
  rcases hpending : inner.pending tree with - | p
  · refine Or.inl ?_
    rw [Inner.commit, hpending]
  · rw [hpending, Option.any_some, decide_eq_false_iff_not, Nat.not_le] at h
    obtain ⟨hp, before, after, hstaged, hbefore⟩ := List.find?_eq_some_iff_append.1 hpending
    have herase : inner.staged.eraseP (Staged.isOf tree) = before ++ after := by
      have hnot : ∀ b ∈ before, ¬ Staged.isOf tree b = true := fun b hb ↦
        Bool.eq_false_iff.1 (Bool.not_eq_true' _ ▸ hbefore b hb)
      rw [hstaged, List.eraseP_append_right _ hnot, List.eraseP_cons_of_pos hp]
    refine Or.inr ⟨before, p, after, hstaged, h, ?_⟩
    rw [Inner.commit, hpending]
    show (if p.sequence ≤ inner.last_committed then _ else _) = _
    rw [if_neg (Nat.not_le.2 h), Inner.claim, herase, Nat.max_eq_right (Nat.le_of_lt h)]

end Commit

/-! ### What timely steps keep -/

/-- A task whose validation is staged and whose tree is not installed. -/
def waits {J : Type} (task : Task J J) : Bool :=
  match task.stage with
  | .validated _ _ => true
  | _ => false

/-- A task that is still to commit a tree. After its hook only the first install is. -/
def owes {J : Type} [DecidableEq J] (tree : J) (task : Task J J) : Bool :=
  match task.stage with
  | .validated t _ | .installed t _ => t = tree
  | .dispatched t number => number = 1 && decide (t = tree)
  | _ => false

/-- A validation that has been staged: of an install, or of a task that waits to make one. -/
def Push {J : Type} (sys : System J J (Inner J)) (sequence : Nat) (tree : J) : Prop :=
  (⟨tree, sequence⟩ : Install J) ∈ sys.installs ∨
    ∃ (i : Nat) (what : What), sys.tasks[i]? = some ⟨what, .validated tree sequence⟩

section Keeping

variable {J : Type} [DecidableEq J] {null : J} {validate : J → Except Error J}
  {sys sys' : System J J (Inner J)} {inner : Inner J}

/-- Every staging is published or waits, and every one that waits is still to be claimed. -/
structure Counted (sys : System J J (Inner J)) : Prop where
  staged : sys.binding.generation + sys.binding.staged.length = sys.binding.next_sequence
  installed : sys.installs.length + sys.tasks.countP waits = sys.binding.next_sequence
  bound : sys.binding.next_sequence < 2 ^ 64
  owed : ∀ tree, sys.binding.staged.countP (Staged.isOf tree) ≤ sys.tasks.countP (owes tree)

/-- A validation waits, or one as late has been published. -/
def Held (validate : J → Except Error J) (inner : Inner J) (sequence : Nat) (tree : J) : Prop :=
  (∃ p ∈ inner.staged, p.sequence = sequence ∧ p.tree = tree) ∨ sequence < inner.last_committed ∨
    sequence = inner.last_committed ∧ ∃ model, validate tree = .ok model ∧ inner.cache = some model

/-- Where the documents come from. -/
structure Traced (null : J) (validate : J → Except Error J) (sys : System J J (Inner J)) : Prop where
  models : ∀ p ∈ sys.binding.staged,
    Push sys p.sequence p.tree ∧ validate p.tree = .ok p.model ∧ p.model ≠ null
  held : ∀ sequence tree, Push sys sequence tree → Held validate sys.binding sequence tree
  last : sys.binding.last_committed = 0 ∧ sys.binding.cache = none ∨
    ∃ tree model, Push sys sys.binding.last_committed tree ∧ validate tree = .ok model ∧
      model ≠ null ∧ sys.binding.cache = some model
  /-- Installs come in the order of their validations, those of one tree apart. -/
  ordered : sys.installs.Pairwise fun x y ↦ y.sequence < x.sequence → x.tree = y.tree

/-- The facade shows what is published, once its hook has run. -/
structure Shown (inner : Inner J) : Prop where
  ran : inner.queued = [] → inner.cached = inner.cache
  queued : ∀ document, inner.queued.getLast? = some document → inner.cache = some document

theorem succ_eq {n : Nat} (h : n + 1 < 2 ^ 64) : succ n = n + 1 := Nat.mod_eq_of_lt h

omit [DecidableEq J] in
theorem shown_publish (inner : Inner J) (model : J) : Shown (inner.publish model) where
  ran hnone := absurd hnone (List.append_ne_nil_of_right_ne_nil _ (List.cons_ne_nil _ _))
  queued document hlast := by
    rw [Inner.publish, List.getLast?_concat] at hlast
    exact hlast

theorem Shown.commit (h : Shown inner) (tree : J) : Shown (inner.commit tree) := by
  rw [Inner.commit]
  split
  · exact h
  · next p _ =>
    have hclaim : Shown (inner.claim tree p.sequence) := ⟨h.ran, h.queued⟩
    split
    · exact hclaim
    · exact shown_publish _ _

/-- A document that is not `null` is pulled as it is. -/
theorem pulled_eq (hnull : inner.cache ≠ some null) : inner.pulled null = inner.cache := by
  rw [Inner.pulled]
  rcases hcache : inner.cache with - | document
  · rfl
  · have hdocument : document ≠ null := fun heq ↦ hnull (heq ▸ hcache)
    rw [Option.filter_some, if_pos (decide_eq_true hdocument)]

theorem Shown.turn (h : Shown inner) (hnull : inner.cache ≠ some null) {turn : Turn}
    {inner' : Inner J} (hturn : inner.turn null turn = some inner') : Shown inner' := by
  rcases turn with - | -
  · rw [Inner.turn] at hturn
    split at hturn
    · cases hturn
    · next document rest hqueued =>
      obtain rfl := Option.some.inj hturn
      refine ⟨fun hrest ↦ ?_, fun other hlast ↦ ?_⟩
      · obtain rfl : rest = [] := hrest
        exact (h.queued document (by rw [hqueued]; rfl)).symm
      · refine h.queued other ?_
        have hrest : rest ≠ [] := by
          rintro rfl
          cases hlast
        rw [hqueued, List.getLast?_cons_of_ne_nil hrest]
        exact hlast
  · obtain rfl := Option.some.inj hturn
    exact ⟨fun _ ↦ pulled_eq hnull, h.queued⟩

/-- The loop's own turns are the facade's. -/
theorem turn_frame {turn : Turn} {inner' : Inner J} (h : inner.turn null turn = some inner') :
    ∃ queued cached seen, inner' = { inner with queued, cached, seen } := by
  rcases turn with - | -
  · rw [Inner.turn] at h
    split at h
    · cases h
    · exact ⟨_, _, _, (Option.some.inj h).symm⟩
  · exact ⟨_, _, _, (Option.some.inj h).symm⟩

/-- A commit that drops nothing publishes each validation it takes. -/
theorem staged_commit {tree : J} (hlate : late inner tree = false)
    (hstaged : inner.generation + inner.staged.length = inner.next_sequence)
    (hbound : inner.next_sequence < 2 ^ 64) :
    (inner.commit tree).generation + (inner.commit tree).staged.length = inner.next_sequence ∧
      (inner.commit tree).next_sequence = inner.next_sequence := by
  rcases commit_cases hlate with hsame | ⟨before, p, after, hsplit, -, hcommit⟩
  · rw [hsame]
    exact ⟨hstaged, rfl⟩
  · rw [hsplit, List.length_append, List.length_cons] at hstaged
    rw [hcommit]
    refine ⟨?_, rfl⟩
    show succ inner.generation + (before ++ after).length = inner.next_sequence
    rw [succ_eq (by omega), List.length_append]
    omega

/-- And leaves each other one as it is. -/
theorem Held.commit {tree t : J} {sequence : Nat} (h : Held validate inner sequence t)
    (hmodels : ∀ p ∈ inner.staged, validate p.tree = .ok p.model)
    (hlate : late inner tree = false) : Held validate (inner.commit tree) sequence t := by
  rcases commit_cases hlate with hsame | ⟨before, p, after, hsplit, hlt, hcommit⟩
  · rw [hsame]
    exact h
  · rw [hcommit]
    rcases h with ⟨q, hq, rfl, rfl⟩ | hbefore | ⟨rfl, -⟩
    · rw [hsplit] at hq
      rcases List.mem_append.1 hq with hq | hq
      · exact Or.inl ⟨q, List.mem_append_left _ hq, rfl, rfl⟩
      · rcases List.mem_cons.1 hq with rfl | hq
        · refine Or.inr (Or.inr ⟨rfl, q.model, hmodels q ?_, rfl⟩)
          exact hsplit ▸ List.mem_append_right _ List.mem_cons_self
        · exact Or.inl ⟨q, List.mem_append_right _ hq, rfl, rfl⟩
    · exact Or.inr (Or.inl (Nat.lt_trans hbefore hlt))
    · exact Or.inr (Or.inl hlt)

/-! #### The validations that have been staged -/

omit [DecidableEq J] in
/-- A staging waits in one of the tasks or in another. -/
theorem exists_waiting_iff {tasks : List (Task J J)} {i : Nat} {task : Task J J}
    (htask : tasks[i]? = some task) {sequence : Nat} {tree : J} :
    (∃ (j : Nat) (what : What), tasks[j]? = some ⟨what, .validated tree sequence⟩) ↔
      task.stage = .validated tree sequence ∨
        ∃ (j : Nat) (what : What), j ≠ i ∧ tasks[j]? = some ⟨what, .validated tree sequence⟩ := by
  constructor
  · rintro ⟨j, what, hj⟩
    by_cases hij : j = i
    · rw [hij, htask] at hj
      exact Or.inl (congrArg Task.stage (Option.some.inj hj))
    · exact Or.inr ⟨j, what, hij, hj⟩
  · rintro (hstage | ⟨j, what, -, hj⟩)
    · obtain ⟨what, stage⟩ := task
      obtain rfl : stage = _ := hstage
      exact ⟨i, what, htask⟩
    · exact ⟨j, what, hj⟩

omit [DecidableEq J] in
/-- What a task that moves does to the stagings of the tasks. -/
theorem exists_waiting_move {i : Nat} {task : Task J J} (htask : sys.tasks[i]? = some task)
    (what : What) (stage : Stage J J) {sequence : Nat} {tree : J} :
    (∃ (j : Nat) (what' : What), (sys.move i what stage).tasks[j]? = some ⟨what', .validated tree sequence⟩) ↔
      stage = .validated tree sequence ∨
        ∃ (j : Nat) (what : What), j ≠ i ∧ sys.tasks[j]? = some ⟨what, .validated tree sequence⟩ := by
  obtain ⟨hi, -⟩ := List.getElem?_eq_some_iff.1 htask
  have hself : (sys.move i what stage).tasks[i]? = some ⟨what, stage⟩ := List.getElem?_set_self hi
  rw [exists_waiting_iff hself]
  refine or_congr_right (exists_congr fun j ↦ exists_congr fun what' ↦ and_congr_right fun hij ↦ ?_)
  show (sys.tasks.set i ⟨what, stage⟩)[j]? = _ ↔ _
  rw [List.getElem?_set_ne (Ne.symm hij)]

omit [DecidableEq J] in
/-- A task that neither waits nor comes to wait leaves them. -/
theorem push_move {i : Nat} {task : Task J J} (htask : sys.tasks[i]? = some task)
    (hbefore : waits task = false) {what : What} {stage : Stage J J}
    (hafter : waits ⟨what, stage⟩ = false) (binding : Inner J) {sequence : Nat} {tree : J} :
    Push { sys.move i what stage with binding } sequence tree ↔ Push sys sequence tree := by
  have hnot : ∀ {task : Task J J}, waits task = false → task.stage ≠ .validated tree sequence := by
    intro task hwaits hstage
    rw [waits, hstage] at hwaits
    cases hwaits
  refine or_congr_right ((exists_waiting_move htask what stage).trans ?_)
  rw [exists_waiting_iff htask, or_iff_right (hnot hafter), or_iff_right (hnot hbefore)]

omit [DecidableEq J] in
/-- An install is what its task has waited to make. -/
theorem push_swap {i : Nat} {what : What} {t : J} {s number : Nat}
    (htask : sys.tasks[i]? = some ⟨what, .validated t s⟩) {sequence : Nat} {tree : J} :
    Push { sys.move i what (.installed t number) with installs := sys.installs ++ [⟨t, s⟩] }
      sequence tree ↔ Push sys sequence tree := by
  have hinstalls : (⟨tree, sequence⟩ : Install J) ∈ sys.installs ++ [⟨t, s⟩] ↔
      (⟨tree, sequence⟩ : Install J) ∈ sys.installs ∨
        (.validated t s : Stage J J) = .validated tree sequence := by
    rw [List.mem_append, List.mem_singleton, Install.mk.injEq, Stage.validated.injEq, eq_comm,
      @eq_comm _ sequence]
  have hmoved : (.installed t number : Stage J J) ≠ .validated tree sequence := fun h ↦ (by cases h)
  rw [Push, Push, exists_waiting_iff htask, ← or_assoc, ← hinstalls]
  exact or_congr_right ((exists_waiting_move htask what _).trans (or_iff_right hmoved))

omit [DecidableEq J] in
/-- A validation is one more. -/
theorem push_stage {i : Nat} {what : What} (htask : sys.tasks[i]? = some ⟨what, .ready⟩) {t : J}
    {s : Nat} (binding : Inner J) {sequence : Nat} {tree : J} :
    Push { sys.move i what (.validated t s) with binding } sequence tree ↔
      Push sys sequence tree ∨ sequence = s ∧ tree = t := by
  have hready : (.ready : Stage J J) ≠ .validated tree sequence := fun h ↦ (by cases h)
  have hstage : (.validated t s : Stage J J) = .validated tree sequence ↔ sequence = s ∧ tree = t := by
    rw [Stage.validated.injEq, eq_comm, @eq_comm _ s, and_comm]
  rw [Push, Push, exists_waiting_iff htask, or_iff_right hready, ← hstage, or_assoc,
    or_comm (b := _ = _)]
  exact or_congr_right (exists_waiting_move htask what _)

omit [DecidableEq J] in
/-- A new task waits for nothing. -/
theorem push_start (what : What) {sequence : Nat} {tree : J} :
    Push { sys with tasks := sys.tasks ++ [⟨what, .ready⟩] } sequence tree ↔
      Push sys sequence tree := by
  refine or_congr_right (exists_congr fun j ↦ exists_congr fun what' ↦ ?_)
  show (sys.tasks ++ [⟨what, .ready⟩])[j]? = _ ↔ _
  rcases Nat.lt_or_ge j sys.tasks.length with hlt | hge
  · rw [List.getElem?_append_left hlt]
  · rw [List.getElem?_append_right hge, List.getElem?_eq_none hge]
    refine iff_of_false (fun h ↦ ?_) (fun h ↦ (by cases h))
    have hmem := List.mem_singleton.1 (List.mem_of_getElem? h)
    cases hmem

omit [DecidableEq J] in
/-- What is published is not `null`. -/
theorem Traced.cache_ne (h : Traced null validate sys) : sys.binding.cache ≠ some null := by
  intro hcache
  rcases h.last with ⟨-, hnone⟩ | ⟨tree, model, -, -, hmodel, hsome⟩
  · exact absurd (hcache.symm.trans hnone) (Option.some_ne_none null)
  · exact hmodel (Option.some.inj (hsome.symm.trans hcache))

/-! #### One step -/

omit [DecidableEq J] in
/-- Where nothing is committed, the documents come from where they came from. -/
theorem Traced.same (h : Traced null validate sys)
    (hpush : ∀ sequence tree, Push sys' sequence tree ↔ Push sys sequence tree)
    (hbinding : sys'.binding = sys.binding)
    (hordered : sys'.installs.Pairwise fun x y ↦ y.sequence < x.sequence → x.tree = y.tree) :
    Traced null validate sys' where
  models p hp := by
    obtain ⟨hp, hmodel⟩ := h.models p (hbinding ▸ hp)
    exact ⟨(hpush _ _).2 hp, hmodel⟩
  held sequence tree hp := hbinding ▸ h.held sequence tree ((hpush _ _).1 hp)
  last := by
    rw [hbinding]
    exact h.last.imp_right fun ⟨tree, model, hp, hmodel⟩ ↦ ⟨tree, model, (hpush _ _).2 hp, hmodel⟩
  ordered := hordered

/-- Where a commit drops nothing, what it publishes comes from a staging. -/
theorem Traced.commit {tree : J} (h : Traced null validate sys)
    (hpush : ∀ sequence tree, Push sys' sequence tree ↔ Push sys sequence tree)
    (hbinding : sys'.binding = sys.binding.commit tree) (hlate : late sys.binding tree = false)
    (hordered : sys'.installs.Pairwise fun x y ↦ y.sequence < x.sequence → x.tree = y.tree) :
    Traced null validate sys' := by
  have hheld : ∀ sequence t, Push sys' sequence t → Held validate sys'.binding sequence t := by
    intro sequence t hp
    rw [hbinding]
    exact (h.held sequence t ((hpush _ _).1 hp)).commit (fun p hp ↦ (h.models p hp).2.1) hlate
  rcases commit_cases hlate with hsame | ⟨before, p, after, hsplit, -, hcommit⟩
  · exact h.same hpush (hbinding.trans hsame) hordered
  · have hstaged : sys'.binding.staged = before ++ after := by
      rw [hbinding, hcommit]
      rfl
    refine ⟨fun q hq ↦ ?_, hheld, Or.inr ?_, hordered⟩
    · have hmem : q ∈ sys.binding.staged := by
        rw [hsplit]
        rcases List.mem_append.1 (hstaged ▸ hq) with hq | hq
        · exact List.mem_append_left _ hq
        · exact List.mem_append_right _ (List.mem_cons_of_mem _ hq)
      obtain ⟨hp, hmodel⟩ := h.models q hmem
      exact ⟨(hpush _ _).2 hp, hmodel⟩
    · obtain ⟨hp, hmodel, hnull⟩ :=
        h.models p (hsplit ▸ List.mem_append_right _ List.mem_cons_self)
      rw [hbinding, hcommit]
      exact ⟨p.tree, p.model, (hpush _ _).2 hp, hmodel, hnull, rfl⟩

omit [DecidableEq J] in
/-- A staging evicts nothing where there is room. -/
theorem staged_validate (hroom : inner.staged.length < 4) (tree model : J) :
    (inner.validate tree model).staged =
      inner.staged ++ [⟨succ inner.next_sequence, tree, model⟩] := by
  show List.drop _ _ = _
  rw [Nat.sub_eq_zero_of_le, List.drop_zero]
  rw [List.length_append, List.length_singleton]
  omega

omit [DecidableEq J] in
theorem Traced.stage (h : Traced null validate sys) {i : Nat} {what : What} {tree model : J}
    (htask : sys.tasks[i]? = some ⟨what, .ready⟩) (hmodel : validate tree = .ok model)
    (hnull : model ≠ null) (hroom : sys.binding.staged.length < 4) :
    Traced null validate
      { sys.move i what (.validated tree (succ sys.binding.next_sequence)) with
        binding := sys.binding.validate tree model } where
  models p hp := by
    rw [push_stage htask]
    rw [staged_validate hroom] at hp
    rcases List.mem_append.1 hp with hp | hp
    · obtain ⟨hp, hmodel⟩ := h.models p hp
      exact ⟨Or.inl hp, hmodel⟩
    · obtain rfl := List.mem_singleton.1 hp
      exact ⟨Or.inr ⟨rfl, rfl⟩, hmodel, hnull⟩
  held sequence t hp := by
    rw [Held, staged_validate hroom]
    rcases (push_stage htask _).1 hp with hp | ⟨rfl, rfl⟩
    · rcases h.held sequence t hp with ⟨p, hp, hpush⟩ | hpast
      · exact Or.inl ⟨p, List.mem_append_left _ hp, hpush⟩
      · exact Or.inr hpast
    · exact Or.inl ⟨_, List.mem_append_right _ (List.mem_singleton_self _), rfl, rfl⟩
  last := h.last.imp_right fun ⟨t, m, hp, hlast⟩ ↦ ⟨t, m, (push_stage htask _).2 (Or.inl hp), hlast⟩
  ordered := h.ordered

/-- What timely steps keep. -/
structure Kept (null : J) (validate : J → Except Error J) (sys : System J J (Inner J)) : Prop where
  counted : Counted sys
  traced : Traced null validate sys
  shown : Shown sys.binding

/-- Before anything is asked for there is nothing to keep. -/
theorem kept_start : Kept null validate (System.start Inner.new) where
  counted := ⟨rfl, rfl, (by decide : 0 < 2 ^ 64), fun _ ↦ Nat.le_refl _⟩
  traced := by
    have hnone : ∀ sequence tree, ¬ Push (System.start (Inner.new : Inner J)) sequence tree := by
      rintro sequence tree (hin | ⟨i, what, htask⟩)
      · exact absurd hin List.not_mem_nil
      · cases htask
    exact {
      models := fun p hp ↦ absurd hp List.not_mem_nil
      held := fun sequence tree hp ↦ absurd hp (hnone sequence tree)
      last := Or.inl ⟨rfl, rfl⟩
      ordered := .nil }
  shown := ⟨fun _ ↦ rfl, fun document hlast ↦ (by cases hlast)⟩

/-- A task that moves without a commit leaves what is owed as it is, or less. -/
theorem Counted.move (h : Counted sys) {i : Nat} {task : Task J J}
    (htask : sys.tasks[i]? = some task) {what : What} {stage : Stage J J}
    (hbefore : waits task = false) (hafter : waits ⟨what, stage⟩ = false)
    (howes : ∀ tree, owes tree task = true → owes tree ⟨what, stage⟩ = true) :
    Counted (sys.move i what stage) where
  staged := h.staged
  installed := by
    have hcount := System.countP_move htask waits what stage
    rw [hbefore, hafter] at hcount
    exact (Nat.add_right_cancel hcount) ▸ h.installed
  bound := h.bound
  owed tree := by
    refine Nat.le_trans (h.owed tree) ?_
    have hcount := System.countP_move htask (owes tree) what stage
    have hle : (if owes tree task = true then 1 else 0) ≤
        (if owes tree ⟨what, stage⟩ = true then 1 else 0) := by
      split
      · next hbefore => exact Nat.le_of_eq (if_pos (howes tree hbefore)).symm
      · exact Nat.zero_le _
    omega

/-- A commit takes what its task owes. -/
theorem Counted.commit (h : Counted sys) {i : Nat} {task : Task J J}
    (htask : sys.tasks[i]? = some task) {what : What} {stage : Stage J J} {tree : J}
    (hbefore : waits task = false) (hafter : waits ⟨what, stage⟩ = false)
    (howes : ∀ t, owes t task = true → t = tree) (hlate : late sys.binding tree = false) :
    Counted { sys.move i what stage with binding := sys.binding.commit tree } := by
  obtain ⟨hstaged, hnext⟩ := staged_commit hlate h.staged h.bound
  refine ⟨hstaged.trans hnext.symm, ?_, hnext ▸ h.bound, fun t ↦ ?_⟩
  · have hcount := System.countP_move htask waits what stage
    rw [hbefore, hafter] at hcount
    show sys.installs.length + (sys.move i what stage).tasks.countP waits = _
    rw [Nat.add_right_cancel hcount, h.installed]
    exact hnext.symm
  · have howed := h.owed t
    have hcount := System.countP_move htask (owes t) what stage
    show (sys.binding.commit tree).staged.countP (Staged.isOf t) ≤
      (sys.move i what stage).tasks.countP (owes t)
    rw [countP_commit]
    by_cases hsame : tree = t
    · rw [if_pos hsame]
      split at hcount <;> omega
    · rw [if_neg fun hbefore ↦ hsame (howes t hbefore).symm] at hcount
      rw [if_neg hsame]
      omega

/-- A new task owes nothing. -/
theorem Counted.start (h : Counted sys) (what : What) :
    Counted { sys with tasks := sys.tasks ++ [⟨what, .ready⟩] } where
  staged := h.staged
  installed := by
    show sys.installs.length + (sys.tasks ++ [(⟨what, .ready⟩ : Task J J)]).countP waits = _
    rw [List.countP_append]
    exact h.installed
  bound := h.bound
  owed tree := by
    show _ ≤ (sys.tasks ++ [(⟨what, .ready⟩ : Task J J)]).countP (owes tree)
    rw [List.countP_append]
    exact Nat.le_add_right_of_le (h.owed tree)

/-- A validation waits, and is owed. -/
theorem Counted.stage (h : Counted sys) {i : Nat} {what : What} {tree model : J}
    (htask : sys.tasks[i]? = some ⟨what, .ready⟩) (hroom : sys.binding.staged.length < 4)
    (hwrap : sys.binding.next_sequence + 1 < 2 ^ 64) :
    Counted
      { sys.move i what (.validated tree (succ sys.binding.next_sequence)) with
        binding := sys.binding.validate tree model } where
  staged := by
    show sys.binding.generation + (sys.binding.validate tree model).staged.length =
      succ sys.binding.next_sequence
    rw [staged_validate hroom, List.length_append, List.length_singleton, succ_eq hwrap,
      ← h.staged]
    rfl
  installed := by
    have hcount : (sys.move i what (.validated tree (succ sys.binding.next_sequence))).tasks.countP
        waits = sys.tasks.countP waits + 1 := System.countP_move htask waits what _
    show sys.installs.length + List.countP waits _ = succ sys.binding.next_sequence
    rw [hcount, succ_eq hwrap, ← h.installed]
    rfl
  bound := by
    show succ sys.binding.next_sequence < _
    rwa [succ_eq hwrap]
  owed t := by
    have howed := h.owed t
    have hcount : (sys.move i what (.validated tree (succ sys.binding.next_sequence))).tasks.countP
        (owes t) = sys.tasks.countP (owes t) + (if decide (tree = t) = true then 1 else 0) :=
      System.countP_move htask (owes t) what _
    show (sys.binding.validate tree model).staged.countP (Staged.isOf t) ≤ List.countP (owes t) _
    rw [staged_validate hroom, List.countP_append, List.countP_singleton, hcount]
    exact Nat.add_le_add_right howed _

/-- An install was waited for. -/
theorem Counted.swap (h : Counted sys) {i : Nat} {what : What} {tree : J} {sequence : Nat}
    (htask : sys.tasks[i]? = some ⟨what, .validated tree sequence⟩) (number : Nat) :
    Counted
      { sys.move i what (.installed tree number) with
        installs := sys.installs ++ [⟨tree, sequence⟩] } where
  staged := h.staged
  installed := by
    have hcount : (sys.move i what (.installed tree number)).tasks.countP waits + 1 =
        sys.tasks.countP waits := System.countP_move htask waits what _
    show (sys.installs ++ [_]).length +
      (sys.move i what (.installed tree number)).tasks.countP waits = sys.binding.next_sequence
    rw [← h.installed, ← hcount, List.length_append, List.length_singleton]
    omega
  bound := h.bound
  owed t := by
    have hcount := System.countP_move htask (owes t) what (.installed tree number)
    exact Nat.le_trans (h.owed t) (Nat.le_of_eq (Nat.add_right_cancel hcount).symm)

/-- **A timely step keeps it.** -/
theorem Kept.step {event : Event J Turn} (h : Kept null validate sys)
    (htimely : timely null validate sys event = true)
    (hstep : sys.step (binding null validate) event = some sys') : Kept null validate sys' := by
  rcases System.step_effect hstep with what | ⟨_, i, what, htask⟩ |
    ⟨i, what, tree, model, htask, hmodel, hwhat⟩ | ⟨i, tree, model, htask, hmodel⟩ |
    ⟨i, what, tree, sequence, htask⟩ | ⟨i, what, tree, number, htask⟩ |
    ⟨i, what, tree, number, htask⟩ | ⟨i, what, tree, model, htask⟩ | ⟨turn, inner, hturn⟩
  · exact ⟨h.counted.start what,
      h.traced.same (fun _ _ ↦ push_start what) rfl h.traced.ordered, h.shown⟩
  · exact ⟨h.counted.move htask rfl rfl fun _ howes ↦ (by cases howes),
      h.traced.same (fun _ _ ↦ push_move htask rfl rfl _) rfl h.traced.ordered, h.shown⟩
  · have hvalidate : validate tree = .ok model := hmodel
    simp only [timely, htask, hvalidate, Bool.or_eq_true, decide_eq_true_eq] at htimely
    obtain ⟨hnull, hroom, hwrap⟩ := htimely.resolve_left hwhat
    exact ⟨h.counted.stage htask hroom hwrap, h.traced.stage htask hvalidate hnull hroom,
      h.shown.ran, h.shown.queued⟩
  · exact ⟨h.counted.move htask rfl rfl fun _ howes ↦ (by cases howes),
      h.traced.same (fun _ _ ↦ push_move htask rfl rfl _) rfl h.traced.ordered, h.shown⟩
  · simp only [timely, htask, List.all_eq_true, Bool.or_eq_true, decide_eq_true_eq] at htimely
    refine ⟨h.counted.swap htask _, h.traced.same (fun _ _ ↦ push_swap htask) rfl ?_, h.shown⟩
    refine List.pairwise_append.2 ⟨h.traced.ordered, List.pairwise_singleton _ _, ?_⟩
    intro x hx y hy hlt
    obtain rfl := List.mem_singleton.1 hy
    exact (htimely x hx).resolve_left (Nat.not_le.2 hlt)
  · simp only [timely, htask] at htimely
    by_cases hnumber : number = 1
    · rw [if_pos hnumber, decide_eq_true_eq] at htimely
      have hleft : sys.dispatched (binding null validate) i what tree number =
          sys.move i what (.dispatched tree number) := by
        rw [System.dispatched, if_neg htimely, if_pos hnumber]
        rfl
      rw [hleft]
      refine ⟨h.counted.move htask rfl rfl fun t howes ↦ ?_,
        h.traced.same (fun _ _ ↦ push_move htask rfl rfl _) rfl h.traced.ordered, h.shown⟩
      exact Bool.and_eq_true_iff.2 ⟨decide_eq_true hnumber, howes⟩
    · rw [if_neg hnumber, Bool.not_eq_true'] at htimely
      rw [System.dispatched, if_neg hnumber]
      have hafter : ∀ stage, stage = (if what = .watched then .returned none else
          .dispatched tree number : Stage J J) → waits ⟨what, stage⟩ = false := by
        rintro _ rfl
        split <;> rfl
      refine ⟨h.counted.commit htask rfl (hafter _ rfl) (fun t howes ↦ ?_) htimely,
        h.traced.commit (fun _ _ ↦ push_move htask rfl (hafter _ rfl) _) rfl htimely
          h.traced.ordered, h.shown.commit _⟩
      exact (decide_eq_true_iff.1 howes).symm
  · simp only [timely, htask, Bool.and_eq_true, Bool.or_eq_true, decide_eq_true_eq] at htimely
    obtain ⟨hlate, hfirst⟩ := htimely
    rw [System.finished]
    rcases hcurrent : sys.current with - | served
    · refine ⟨h.counted.move htask rfl rfl fun t howes ↦ ?_,
        h.traced.same (fun _ _ ↦ push_move htask rfl rfl _) rfl h.traced.ordered, h.shown⟩
      rcases hfirst with hfirst | hfirst
      · exact absurd (decide_eq_true_iff.1 (Bool.and_eq_true_iff.1 howes).1) hfirst
      · rw [hcurrent] at hfirst
        cases hfirst
    · rw [hcurrent, Option.all_some, Bool.not_eq_true'] at hlate
      refine ⟨h.counted.commit htask rfl rfl (fun t howes ↦ ?_) hlate,
        h.traced.commit (fun _ _ ↦ push_move htask rfl rfl _) rfl hlate h.traced.ordered,
        h.shown.commit _⟩
      obtain ⟨hnumber, htree⟩ := Bool.and_eq_true_iff.1 howes
      rcases hfirst with hfirst | hfirst
      · exact absurd (decide_eq_true_iff.1 hnumber) hfirst
      · rw [hcurrent] at hfirst
        exact (decide_eq_true_iff.1 htree).symm.trans (Option.some.inj hfirst).symm
  · exact ⟨h.counted.move htask rfl rfl fun _ howes ↦ (by cases howes),
      h.traced.same (fun _ _ ↦ push_move htask rfl rfl _) rfl h.traced.ordered, h.shown⟩
  · have hshown : Shown inner := h.shown.turn h.traced.cache_ne hturn
    obtain ⟨queued, cached, seen, rfl⟩ := turn_frame hturn
    exact ⟨⟨h.counted.staged, h.counted.installed, h.counted.bound, h.counted.owed⟩,
      ⟨h.traced.models, h.traced.held, h.traced.last, h.traced.ordered⟩, hshown⟩

/-- Once every task has returned and the hooks have run, nothing is left to publish. -/
theorem Kept.published (h : Kept null validate sys) (hquiet : sys.Quiet)
    (hran : sys.binding.queued = []) : Published null validate sys := by
  have hwaits : sys.tasks.countP waits = 0 := hquiet.countP_eq_zero fun _ _ ↦ rfl
  have hstaged : sys.binding.staged = [] := by
    refine List.eq_nil_iff_forall_not_mem.2 fun p hp ↦ ?_
    have howed := h.counted.owed p.tree
    rw [hquiet.countP_eq_zero fun _ _ ↦ rfl] at howed
    have hpos := List.countP_pos_iff.2 ⟨p, hp, Staged.isOf_iff.2 rfl⟩
    omega
  have hpushes : ∀ sequence tree, Push sys sequence tree →
      (⟨tree, sequence⟩ : Install J) ∈ sys.installs := by
    rintro sequence tree (hinstall | ⟨i, what, htask⟩)
    · exact hinstall
    · exact absurd rfl (List.countP_eq_zero.1 hwaits _ (List.mem_of_getElem? htask))
  refine ⟨?_, ?_, ?_⟩
  · rw [System.current]
    rcases hlast : sys.installs.getLast? with - | ⟨tree, sequence⟩
    · have hnone : sys.installs = [] := List.getLast?_eq_none_iff.1 hlast
      rcases h.traced.last with ⟨-, hcache⟩ | ⟨tree, model, hpush, -⟩
      · rw [hcache]
        rfl
      · exact absurd (hpushes _ _ hpush) (hnone ▸ List.not_mem_nil)
    · show sys.binding.cache = (validate tree).toOption
      have hinstall : (⟨tree, sequence⟩ : Install J) ∈ sys.installs := List.mem_of_getLast? hlast
      rcases h.traced.held sequence tree (Or.inl hinstall) with
        ⟨p, hp, -⟩ | hlater | ⟨-, model, hmodel, hcache⟩
      · exact absurd (hstaged ▸ hp) List.not_mem_nil
      · -- What is published was validated later and installed before, so it is of the same tree.
        rcases h.traced.last with ⟨hzero, -⟩ | ⟨other, model, hpush, hmodel, -, hcache⟩
        · exact absurd (hzero ▸ hlater) (Nat.not_lt_zero _)
        · obtain ⟨before, hinstalls⟩ := List.getLast?_eq_some_iff.1 hlast
          have hordered := h.traced.ordered
          have hmem := hpushes _ _ hpush
          rw [hinstalls] at hordered hmem
          have hbefore : (⟨other, sys.binding.last_committed⟩ : Install J) ∈ before := by
            refine (List.mem_append.1 hmem).resolve_right fun hsame ↦ ?_
            obtain ⟨-, rfl⟩ := Install.mk.inj (List.mem_singleton.1 hsame)
            exact Nat.lt_irrefl _ hlater
          have hsame : other = tree := (List.pairwise_append.1 hordered).2.2 _ hbefore _
            (List.mem_singleton_self _) hlater
          rw [hcache, ← hsame, hmodel]
          rfl
      · rw [hcache, hmodel]
        rfl
  · rw [Inner.tryCurrent, h.shown.ran hran, pulled_eq h.traced.cache_ne, ite_self]
  · have hinstalled := h.counted.installed
    have hgeneration := h.counted.staged
    rw [hstaged, List.length_nil] at hgeneration
    omega

end Keeping

/-- **Node publishes what the engine serves, once per install**, in every run whose steps are all
timely. -/
theorem published_of_run {J : Type} [DecidableEq J] (null : J) (validate : J → Except Error J)
    {events : List (Event J Turn)} {sys : System J J (Inner J)}
    (htimely : Along (System.step (binding null validate))
      (fun sys event ↦ timely null validate sys event = true) (System.start .new) events)
    (hrun : run (System.step (binding null validate)) (System.start .new) events = some sys)
    (hquiet : sys.Quiet) (hran : sys.binding.queued = []) : Published null validate sys := by
  have hkept : Kept null validate sys :=
    run_invariant_along (fun _ _ _ htimely hstep h ↦ Kept.step h htimely hstep) htimely hrun kept_start
  exact hkept.published hquiet hran

/-- The first install, as far as its explicit commit. -/
def initialized : List (Event String Turn) :=
  [.start .init, .validate 0 "A", .swap 0, .dispatch 0, .finish 0]

/-- A candidate is validated while the watcher reloads. -/
def reloaded : List (Event String Turn) :=
  [.start .watched, .start .candidate, .validate 1 "B", .validate 2 "B", .swap 1, .dispatch 1,
    .finish 2, .act .hook, .act .hook]

/-- The watcher's reload is published, and the candidate is not. -/
theorem published_of_reloaded :
    ∃ sys, run (System.step (binding "null" .ok)) (System.start .new) (initialized ++ reloaded) =
      some sys ∧ sys.binding.cache = some "B" ∧ Published "null" .ok sys := by
  have hruns : (run (System.step (binding "null" .ok)) (System.start .new)
      (initialized ++ reloaded)).map (fun sys ↦
        (decide sys.Quiet, sys.binding.queued, sys.binding.cache)) = some (true, [], some "B") := by
    decide +kernel
  obtain ⟨sys, hrun, hread⟩ := Option.map_eq_some_iff.1 hruns
  obtain ⟨hquiet, hread⟩ := Prod.mk.inj hread
  obtain ⟨hran, hcache⟩ := Prod.mk.inj hread
  exact ⟨sys, hrun, hcache, published_of_run "null" .ok (by decide +kernel) hrun
    (decide_eq_true_iff.1 hquiet) hran⟩

/-- Two reloads. The one that is validated last is swapped in first. -/
def overtaken : List (Event String Turn) :=
  [.start .reload, .start .reload, .validate 1 "B", .validate 2 "C", .swap 2, .swap 1, .dispatch 2,
    .dispatch 1, .finish 2, .finish 1, .act .hook, .act .hook]

/-- **The later validation stays published where the earlier one is what the engine serves**, and the
generation is one behind. -/
theorem not_published : ¬ ∀ (events : List (Event String Turn)) (sys : System String String (Inner String)),
    run (System.step (binding "null" .ok)) (System.start .new) events = some sys → sys.Quiet →
      sys.binding.queued = [] → Published "null" .ok sys := by
  intro hall
  have hruns : (run (System.step (binding "null" .ok)) (System.start .new)
      (initialized ++ overtaken)).map (fun sys ↦
        (decide sys.Quiet, sys.binding.queued, decide (Published "null" .ok sys))) =
      some (true, [], false) := by
    decide +kernel
  obtain ⟨sys, hrun, hread⟩ := Option.map_eq_some_iff.1 hruns
  obtain ⟨hquiet, hread⟩ := Prod.mk.inj hread
  obtain ⟨hran, hpublished⟩ := Prod.mk.inj hread
  exact decide_eq_false_iff_not.1 hpublished
    (hall _ sys hrun (decide_eq_true_iff.1 hquiet) hran)

end DynamicConfig.Bindings.Node
