import DynamicConfig.Config.Value
import DynamicConfig.Transition.Run

/-!
# Tasks on one configuration

What the Node and the Python binding share: tasks that load through one engine, on threads of their
own. A task that installs goes through its load, whose validation the binding stages; the swap of the
engine; the dispatch of the engine's reload hook, which is the first commit; and, unless the watcher
drives it, an explicit commit of what the engine then serves. The hook does not fire for the very
first install. A candidate load is validated like the others and installs nothing.

A binding is what differs: how a validation is staged and how a tree is committed. The engine is the
list of its installs, so what it serves is the last of them, and their number is its generation.
-/

namespace DynamicConfig.Bindings

/-- What a task was asked for. -/
inductive What where
  | init
  | reload
  /-- Loads and validates, installing nothing. -/
  | candidate
  /-- A reload of the watcher's. -/
  | watched
  deriving DecidableEq

/-- How far a task has come. -/
inductive Stage (T D : Type) where
  | ready
  /-- The load has come to a tree. Its sequence is the staging's, and no step reads it. -/
  | validated (tree : T) (sequence : Nat)
  /-- The engine has been swapped, and this was so many-th install. -/
  | installed (tree : T) (number : Nat)
  /-- The reload hook has been dispatched. -/
  | dispatched (tree : T) (number : Nat)
  /-- A candidate has come to a tree and its model. -/
  | loaded (tree : T) (model : D)
  /-- A candidate answers a model, for the tree it resolved. -/
  | returned (answer : Option (T × D))
  deriving DecidableEq

/-- Whether the task has returned. -/
def Stage.isReturned {T D : Type} : Stage T D → Bool
  | .returned _ => true
  | _ => false

/-- Whether it has come no further than a candidate comes. -/
def Stage.isLoad {T D : Type} : Stage T D → Bool
  | .ready | .loaded _ _ | .returned _ => true
  | _ => false

theorem Stage.exists_of_isReturned {T D : Type} {stage : Stage T D}
    (h : stage.isReturned = true) : ∃ answer, stage = .returned answer := by
  rw [isReturned.eq_def] at h
  split at h
  · exact ⟨_, rfl⟩
  · cases h

structure Task (T D : Type) where
  what : What
  stage : Stage T D
  deriving DecidableEq

/-- A tree the engine was given, and the sequence of its validation. -/
structure Install (T : Type) where
  tree : T
  sequence : Nat
  deriving DecidableEq

/-- How a binding stages and publishes. -/
structure Binding (T D β A : Type) where
  /-- The schema's answer. -/
  validate : T → Except Error D
  /-- What the next staging is numbered. -/
  sequence : β → Nat
  /-- A validation of a task that installs. -/
  stage : β → T → D → β
  /-- A validation of a candidate. -/
  load : β → T → D → β
  commit : β → T → β
  /-- What a candidate returns, once it has been validated. -/
  answer : β → T → D → β × Option D
  /-- What the binding does of its own. -/
  act : β → A → Option β

/-- Every task there has been, what the engine has been given, and the binding. -/
structure System (T D β : Type) where
  tasks : List (Task T D)
  installs : List (Install T)
  binding : β

/-- One step of some task, or of the binding. -/
inductive Event (T A : Type) where
  | start (what : What)
  /-- The load fails. -/
  | fail (i : Nat)
  /-- The load resolves a tree, and validates it. -/
  | validate (i : Nat) (tree : T)
  | swap (i : Nat)
  | dispatch (i : Nat)
  /-- The explicit commit, or the answer of a candidate. -/
  | finish (i : Nat)
  | act (a : A)

/-- Whose step it is. -/
def Event.task {T A : Type} : Event T A → Option Nat
  | .fail i | .validate i _ | .swap i | .dispatch i | .finish i => some i
  | .start _ | .act _ => none

namespace System

variable {T D β A : Type}

/-- What the engine serves. -/
def current (sys : System T D β) : Option T := sys.installs.getLast?.map Install.tree

/-- A task comes to a stage. -/
def move (sys : System T D β) (i : Nat) (what : What) (stage : Stage T D) : System T D β :=
  { sys with tasks := sys.tasks.set i ⟨what, stage⟩ }

/-- Every task has returned. -/
def Quiet (sys : System T D β) : Prop := ∀ task ∈ sys.tasks, task.stage.isReturned = true

instance (sys : System T D β) : Decidable sys.Quiet :=
  inferInstanceAs (Decidable (∀ task ∈ sys.tasks, task.stage.isReturned = true))

/-- A validation that came to a model is staged. -/
def validated (b : Binding T D β A) (sys : System T D β) (i : Nat) (what : What) (tree : T)
    (model : D) : System T D β :=
  if what = .candidate then
    { sys.move i what (.loaded tree model) with binding := b.load sys.binding tree model }
  else
    { sys.move i what (.validated tree (b.sequence sys.binding)) with
      binding := b.stage sys.binding tree model }

/-- The engine's own hook, which there is nothing to call for at the first install. -/
def dispatched (b : Binding T D β A) (sys : System T D β) (i : Nat) (what : What) (tree : T)
    (number : Nat) : System T D β :=
  { sys.move i what (if what = .watched then .returned none else .dispatched tree number) with
    binding := if number = 1 then sys.binding else b.commit sys.binding tree }

/-- Whatever is installed is committed. -/
def finished (b : Binding T D β A) (sys : System T D β) (i : Nat) (what : What) : System T D β :=
  { sys.move i what (.returned none) with
    binding := match sys.current with
      | some tree => b.commit sys.binding tree
      | none => sys.binding }

/-- A candidate returns. -/
def answered (b : Binding T D β A) (sys : System T D β) (i : Nat) (what : What) (tree : T)
    (model : D) : System T D β :=
  { sys.move i what (.returned ((b.answer sys.binding tree model).2.map fun d ↦ (tree, d))) with
    binding := (b.answer sys.binding tree model).1 }

/-- What one step does. -/
def step (b : Binding T D β A) (sys : System T D β) : Event T A → Option (System T D β)
  | .start what => some { sys with tasks := sys.tasks ++ [⟨what, .ready⟩] }
  | .fail i =>
    match sys.tasks[i]? with
    | some ⟨what, .ready⟩ => some (sys.move i what (.returned none))
    | _ => none
  | .validate i tree =>
    match sys.tasks[i]? with
    | some ⟨what, .ready⟩ =>
      match b.validate tree with
      | .error _ => some (sys.move i what (.returned none))
      | .ok model => some (sys.validated b i what tree model)
    | _ => none
  | .swap i =>
    match sys.tasks[i]? with
    | some ⟨what, .validated tree sequence⟩ =>
      some { sys.move i what (.installed tree (sys.installs.length + 1)) with
        installs := sys.installs ++ [⟨tree, sequence⟩] }
    | _ => none
  | .dispatch i =>
    match sys.tasks[i]? with
    | some ⟨what, .installed tree number⟩ => some (sys.dispatched b i what tree number)
    | _ => none
  | .finish i =>
    match sys.tasks[i]? with
    | some ⟨what, .dispatched _ _⟩ => some (sys.finished b i what)
    | some ⟨what, .loaded tree model⟩ => some (sys.answered b i what tree model)
    | _ => none
  | .act a => (b.act sys.binding a).map fun binding ↦ { sys with binding }

/-- No task, and an engine that has nothing. -/
def start (binding : β) : System T D β := ⟨[], [], binding⟩

/-! ### What one step can do -/

/-- What a step leaves behind. -/
inductive Effect (b : Binding T D β A) (sys : System T D β) : Event T A → System T D β → Prop where
  | started (what : What) :
      Effect b sys (.start what) { sys with tasks := sys.tasks ++ [⟨what, .ready⟩] }
  | gaveUp (event : Event T A) (i : Nat) (what : What) (htask : sys.tasks[i]? = some ⟨what, .ready⟩) :
      Effect b sys event (sys.move i what (.returned none))
  | staged (i : Nat) (what : What) (tree : T) (model : D)
      (htask : sys.tasks[i]? = some ⟨what, .ready⟩) (hmodel : b.validate tree = .ok model)
      (hwhat : what ≠ .candidate) :
      Effect b sys (.validate i tree)
        { sys.move i what (.validated tree (b.sequence sys.binding)) with
          binding := b.stage sys.binding tree model }
  | loaded (i : Nat) (tree : T) (model : D) (htask : sys.tasks[i]? = some ⟨.candidate, .ready⟩)
      (hmodel : b.validate tree = .ok model) :
      Effect b sys (.validate i tree)
        { sys.move i .candidate (.loaded tree model) with
          binding := b.load sys.binding tree model }
  | swapped (i : Nat) (what : What) (tree : T) (sequence : Nat)
      (htask : sys.tasks[i]? = some ⟨what, .validated tree sequence⟩) :
      Effect b sys (.swap i)
        { sys.move i what (.installed tree (sys.installs.length + 1)) with
          installs := sys.installs ++ [⟨tree, sequence⟩] }
  | dispatched (i : Nat) (what : What) (tree : T) (number : Nat)
      (htask : sys.tasks[i]? = some ⟨what, .installed tree number⟩) :
      Effect b sys (.dispatch i) (sys.dispatched b i what tree number)
  | finished (i : Nat) (what : What) (tree : T) (number : Nat)
      (htask : sys.tasks[i]? = some ⟨what, .dispatched tree number⟩) :
      Effect b sys (.finish i) (sys.finished b i what)
  | answered (i : Nat) (what : What) (tree : T) (model : D)
      (htask : sys.tasks[i]? = some ⟨what, .loaded tree model⟩) :
      Effect b sys (.finish i) (sys.answered b i what tree model)
  | acted (a : A) (binding : β) (hact : b.act sys.binding a = some binding) :
      Effect b sys (.act a) { sys with binding }

/-- A step does one of these. -/
theorem step_effect {b : Binding T D β A} {sys sys' : System T D β} {event : Event T A}
    (h : sys.step b event = some sys') : Effect b sys event sys' := by
  rcases event with what | i | ⟨i, tree⟩ | i | i | i | a
  · exact Option.some.inj h ▸ .started what
  · simp only [step] at h
    split at h
    · next htask => exact Option.some.inj h ▸ .gaveUp _ i _ htask
    · cases h
  · simp only [step] at h
    split at h
    · next what htask =>
      split at h
      · exact Option.some.inj h ▸ .gaveUp _ i what htask
      · next model hmodel =>
        rw [validated] at h
        split at h
        · next hwhat => exact Option.some.inj h ▸ hwhat ▸ .loaded i tree model (hwhat ▸ htask) hmodel
        · next hwhat => exact Option.some.inj h ▸ .staged i what tree model htask hmodel hwhat
    · cases h
  · simp only [step] at h
    split at h
    · next htask => exact Option.some.inj h ▸ .swapped i _ _ _ htask
    · cases h
  · simp only [step] at h
    split at h
    · next htask => exact Option.some.inj h ▸ .dispatched i _ _ _ htask
    · cases h
  · simp only [step] at h
    split at h
    · next htask => exact Option.some.inj h ▸ .finished i _ _ _ htask
    · next htask => exact Option.some.inj h ▸ .answered i _ _ _ htask
    · cases h
  · obtain ⟨binding, hact, rfl⟩ := Option.map_eq_some_iff.1 h
    exact .acted a binding hact

/-! ### Candidates -/

/-- A candidate is never on its way to an install. -/
def Candidates (sys : System T D β) : Prop :=
  ∀ task ∈ sys.tasks, task.what = .candidate → task.stage.isLoad = true

/-- What holds of every task, and of the one that moves, holds of every task. -/
theorem forall_move {sys : System T D β} {P : Task T D → Prop} (h : ∀ task ∈ sys.tasks, P task)
    {i : Nat} {what : What} {stage : Stage T D} (hmoved : P ⟨what, stage⟩) :
    ∀ task ∈ (sys.move i what stage).tasks, P task := by
  intro task htask
  rcases List.mem_or_eq_of_mem_set htask with htask | rfl
  · exact h task htask
  · exact hmoved

/-- A task that is another than the one that moves stays. -/
theorem getElem?_move {sys : System T D β} {i j : Nat} {task other : Task T D}
    (htask : sys.tasks[i]? = some task) (hother : sys.tasks[j]? = some other) (hne : other ≠ task)
    (what : What) (stage : Stage T D) : (sys.move i what stage).tasks[j]? = some other := by
  have hij : i ≠ j := by
    rintro rfl
    exact hne (Option.some.inj (hother.symm.trans htask))
  exact (List.getElem?_set_ne hij).trans hother

/-- A task that moves is where it was. -/
theorem getElem?_move_self {sys : System T D β} {i : Nat} {task : Task T D}
    (htask : sys.tasks[i]? = some task) (what : What) (stage : Stage T D) :
    (sys.move i what stage).tasks[i]? = some ⟨what, stage⟩ :=
  List.getElem?_set_self (List.getElem?_eq_some_iff.1 htask).1

theorem candidates_start (binding : β) : (start binding : System T D β).Candidates :=
  fun _ htask ↦ absurd htask List.not_mem_nil

theorem Candidates.move {sys : System T D β} (h : sys.Candidates) {i : Nat} {what : What}
    {stage : Stage T D} (hstage : what = .candidate → stage.isLoad = true) :
    (sys.move i what stage).Candidates :=
  forall_move h hstage

theorem Candidates.ne {sys : System T D β} (h : sys.Candidates) {i : Nat} {task : Task T D}
    (htask : sys.tasks[i]? = some task) (hstage : task.stage.isLoad = false) :
    task.what ≠ .candidate := by
  intro hwhat
  rw [h task (List.mem_of_getElem? htask) hwhat] at hstage
  cases hstage

theorem Candidates.step {b : Binding T D β A} {sys sys' : System T D β} {event : Event T A}
    (hstep : sys.step b event = some sys') (h : sys.Candidates) : sys'.Candidates := by
  rcases step_effect hstep with what | ⟨_, i, what, htask⟩ |
    ⟨i, what, tree, model, htask, hmodel, hwhat⟩ | ⟨i, tree, model, htask, hmodel⟩ |
    ⟨i, what, tree, sequence, htask⟩ | ⟨i, what, tree, number, htask⟩ |
    ⟨i, what, tree, number, htask⟩ | ⟨i, what, tree, model, htask⟩ | ⟨a, binding, hact⟩
  · intro task htask hwhat
    rcases List.mem_append.1 htask with htask | htask
    · exact h task htask hwhat
    · exact List.mem_singleton.1 htask ▸ rfl
  · exact h.move fun _ ↦ rfl
  · exact h.move fun hcandidate ↦ absurd hcandidate hwhat
  · exact h.move fun _ ↦ rfl
  · exact h.move fun hcandidate ↦ absurd hcandidate (h.ne htask rfl)
  · exact h.move fun hcandidate ↦ absurd hcandidate (h.ne htask rfl)
  · exact h.move fun _ ↦ rfl
  · exact h.move fun _ ↦ rfl
  · exact h

/-- A candidate installs nothing, and touches the binding by its own two steps only. -/
theorem Candidates.frame {b : Binding T D β A} {sys sys' : System T D β} {event : Event T A}
    (h : sys.Candidates) {i : Nat} {stage : Stage T D} (hevent : event.task = some i)
    (htask : sys.tasks[i]? = some ⟨.candidate, stage⟩) (hstep : sys.step b event = some sys') :
    sys'.installs = sys.installs ∧ (sys'.binding = sys.binding ∨
      ∃ tree model, sys'.binding = b.load sys.binding tree model ∨
        sys'.binding = (b.answer sys.binding tree model).1) := by
  rcases step_effect hstep with what | ⟨_, j, what, hj⟩ |
    ⟨j, what, tree, model, hj, hmodel, hwhat⟩ | ⟨j, tree, model, hj, hmodel⟩ |
    ⟨j, what, tree, sequence, hj⟩ | ⟨j, what, tree, number, hj⟩ |
    ⟨j, what, tree, number, hj⟩ | ⟨j, what, tree, model, hj⟩ | ⟨a, binding, hact⟩
  · cases hevent
  · exact ⟨rfl, Or.inl rfl⟩
  · obtain rfl : j = i := Option.some.inj hevent
    exact absurd (Task.mk.inj (Option.some.inj (hj.symm.trans htask))).1 hwhat
  · exact ⟨rfl, Or.inr ⟨tree, model, Or.inl rfl⟩⟩
  · obtain rfl : j = i := Option.some.inj hevent
    exact absurd (Task.mk.inj (Option.some.inj (hj.symm.trans htask))).1 (h.ne hj rfl)
  · obtain rfl : j = i := Option.some.inj hevent
    exact absurd (Task.mk.inj (Option.some.inj (hj.symm.trans htask))).1 (h.ne hj rfl)
  · obtain rfl : j = i := Option.some.inj hevent
    exact absurd (Task.mk.inj (Option.some.inj (hj.symm.trans htask))).1 (h.ne hj rfl)
  · exact ⟨rfl, Or.inr ⟨tree, model, Or.inr rfl⟩⟩
  · cases hevent

/-! ### The tasks after a step -/

/-- How many tasks there are of a kind changes with the one that moves. -/
theorem countP_move {sys : System T D β} {i : Nat} {task : Task T D} (htask : sys.tasks[i]? = some task)
    (p : Task T D → Bool) (what : What) (stage : Stage T D) :
    (sys.move i what stage).tasks.countP p + (if p task then 1 else 0) =
      sys.tasks.countP p + (if p ⟨what, stage⟩ then 1 else 0) := by
  obtain ⟨hi, rfl⟩ := List.getElem?_eq_some_iff.1 htask
  have hle : (if p sys.tasks[i] then 1 else 0) ≤ sys.tasks.countP p := by
    split
    · next hp => exact List.countP_pos_iff.2 ⟨_, List.getElem_mem hi, hp⟩
    · exact Nat.zero_le _
  rw [move, List.countP_set hi]
  omega

/-- Of a kind no returned task is of, there is none where every task has returned. -/
theorem Quiet.countP_eq_zero {sys : System T D β} (h : sys.Quiet) {p : Task T D → Bool}
    (hp : ∀ what answer, p ⟨what, .returned answer⟩ = false) : sys.tasks.countP p = 0 := by
  refine List.countP_eq_zero.2 fun ⟨what, stage⟩ htask ↦ ?_
  obtain ⟨answer, rfl⟩ := Stage.exists_of_isReturned (h _ htask)
  rw [hp]
  exact Bool.false_ne_true

end System

end DynamicConfig.Bindings
