import Mathlib.Logic.Function.Basic
import DynamicConfig.Transition.Parties
import DynamicConfig.Transition.Run

/-!
# The registry of watchers

One watcher for a type, or for one `Dynamic` instance. A spawn inserts the key before it has anything to
watch with, so that of two spawns at once one is refused; from there a guard removes the key again on
every way out with an error, until the handle is built and removes it when it is dropped. A detached
handle is forgotten and never removes anything.

The steps are those between which another thread can run. In every reachable state a key is registered
exactly when one attempt owns it (`Owned.registered_iff`), and no two attempts own the same one
(`Owned.unique`). The attempts that own a key while nobody is inside `spawn` or `drop` for it are the live
and the detached handles.
-/

namespace DynamicConfig.Registry

open Function (update)

/-! ### The registry -/

/-- What a watcher is watched as: one for a type, or one for an instance. -/
inductive WatchKey (TypeId : Type*) where
  | ofType (id : TypeId)
  | ofInstance (id : UInt64)
deriving DecidableEq

/-- How far an attempt to watch has come. -/
inductive Phase where
  /-- Its key is inserted, and the guard is armed. -/
  | registered
  /-- The notification backend exists. -/
  | created
  /-- A directory is watched. -/
  | watching
  /-- An error is on its way out, with the guard still armed. -/
  | failing
  /-- The guard has removed the key. -/
  | failed
  /-- The key was taken: no guard was made. -/
  | refused
  /-- The handle is out, and the guard defused. -/
  | live
  /-- The handle is being dropped: its backend is gone. -/
  | closing
  /-- The dropped handle has removed the key. -/
  | stopped
  /-- The handle was forgotten. -/
  | detached
deriving DecidableEq

namespace Phase

/-- Whether the guard, or the handle, will still remove the key, or never does. -/
def holds : Phase → Bool
  | registered | created | watching | failing | live | closing | detached => true
  | failed | refused | stopped => false

/-- Whether somebody is inside of `spawn_with` or `drop`. -/
def underWay : Phase → Bool
  | registered | created | watching | failing | closing => true
  | failed | refused | live | stopped | detached => false

/-- Whether a watcher exists: its handle is live, or was detached. -/
def watches : Phase → Bool
  | live | detached => true
  | _ => false

theorem holds_eq (phase : Phase) : phase.holds = (phase.underWay || phase.watches) := by
  cases phase <;> rfl

end Phase

variable {TypeId : Type*}

/-- An attempt to watch, and what became of it. -/
structure Watcher (TypeId : Type*) where
  key : WatchKey TypeId
  name : String
  phase : Phase
deriving DecidableEq

/-- The static map, and every attempt that was made so far. -/
structure System (TypeId : Type*) where
  started : WatchKey TypeId → Option String
  watchers : List (Watcher TypeId)

/-- A process that has not watched anything yet. -/
def System.new : System TypeId := ⟨fun _ ↦ none, []⟩

/-- What a thread does next. An attempt is named by its place. -/
inductive Event (TypeId : Type*) where
  /-- `spawn_with` inserts its key. -/
  | spawn (key : WatchKey TypeId) (name : String)
  /-- The backend is created, or cannot be. -/
  | create (i : ℕ) (ok : Bool)
  /-- Some directory is watched, or none can be. -/
  | watch (i : ℕ) (ok : Bool)
  /-- The thread starts and the handle is returned, or the thread cannot be started. -/
  | start (i : ℕ) (ok : Bool)
  /-- `Registered::drop`, with the guard armed. -/
  | rollback (i : ℕ)
  /-- `WatchHandle::drop`, from a drop or a `stop`, takes the backend out and drops it. -/
  | close (i : ℕ)
  /-- `WatchHandle::drop` removes the key. -/
  | release (i : ℕ)
  /-- `WatchHandle::detach`. -/
  | detach (i : ℕ)

/-- Whose step it is. -/
def Event.subject : Event TypeId → Option ℕ
  | .spawn _ _ => none
  | .create i _ | .watch i _ | .start i _ | .rollback i | .close i | .release i | .detach i => some i

namespace System

/-- A key that is in the map. -/
def Registered (s : System TypeId) (key : WatchKey TypeId) : Prop := (s.started key).isSome

/-- The `i`-th attempt is one for the key, and of some kind. -/
def Is (s : System TypeId) (p : Phase → Bool) (key : WatchKey TypeId) (i : ℕ) : Prop :=
  ∃ w, s.watchers[i]? = some w ∧ w.key = key ∧ p w.phase = true

/-- A live or a detached watcher for the key exists. -/
def Watched (s : System TypeId) (key : WatchKey TypeId) : Prop := ∃ i, s.Is Phase.watches key i

/-- Nobody is inside of `spawn_with` or `drop` for the key. -/
def Idle (s : System TypeId) (key : WatchKey TypeId) : Prop := ¬ ∃ i, s.Is Phase.underWay key i

/-- The `i`-th attempt is one for the key, and has come to the phase. -/
def At (s : System TypeId) (phase : Phase) (key : WatchKey TypeId) (i : ℕ) : Prop :=
  ∃ w, s.watchers[i]? = some w ∧ w.key = key ∧ w.phase = phase

/-- The `i`-th attempt goes from one phase to the next. -/
def move (s : System TypeId) (i : ℕ) (source target : Phase) : Option (System TypeId) :=
  match s.watchers[i]? with
  | some w => if w.phase = source then
      some { s with watchers := s.watchers.set i { w with phase := target } } else none
  | none => none

variable [DecidableEq TypeId]

/-- The `i`-th attempt removes its key from the map on its way. -/
def remove (s : System TypeId) (i : ℕ) (source target : Phase) : Option (System TypeId) :=
  match s.watchers[i]? with
  | some w => if w.phase = source then
      some ⟨update s.started w.key none, s.watchers.set i { w with phase := target }⟩ else none
  | none => none

/-- `STARTED.insert(key, name)`: the name is written also where the key was there. -/
def insert (s : System TypeId) (key : WatchKey TypeId) (name : String) : System TypeId :=
  let phase := if (s.started key).isSome then Phase.refused else Phase.registered
  ⟨update s.started key (some name), s.watchers ++ [⟨key, name, phase⟩]⟩

/-- One step. -/
def step (s : System TypeId) : Event TypeId → Option (System TypeId)
  | .spawn key name => some (s.insert key name)
  | .create i ok => s.move i .registered (if ok then .created else .failing)
  | .watch i ok => s.move i .created (if ok then .watching else .failing)
  | .start i ok => s.move i .watching (if ok then .live else .failing)
  | .rollback i => s.remove i .failing .failed
  | .close i => s.move i .live .closing
  | .release i => s.remove i .closing .stopped
  | .detach i => s.move i .live .detached

/-- A key that can be watched: it is not registered, and the next attempt for it goes ahead. -/
def Free (s : System TypeId) (key : WatchKey TypeId) : Prop :=
  ¬ s.Registered key ∧ ∀ name, (s.insert key name).At .registered key s.watchers.length

end System

/-! ### What a step does -/

namespace System

variable {s t : System TypeId} {i j : ℕ} {key : WatchKey TypeId} {w : Watcher TypeId}
  {p : Phase → Bool} {source target : Phase}

theorem Is.exists_watcher (h : s.watchers[i]? = some w) (hi : s.Is p key i) :
    w.key = key ∧ p w.phase = true := by
  obtain ⟨v, hv, hkey, hp⟩ := hi
  rw [h] at hv
  obtain rfl := Option.some_inj.1 hv
  exact ⟨hkey, hp⟩

/-- An attempt goes on only from the phase it is in. -/
theorem exists_of_goes {next : Watcher TypeId → System TypeId}
    (h : (match s.watchers[i]? with
      | some w => if w.phase = source then some (next w) else none
      | none => none) = some t) :
    ∃ w, s.watchers[i]? = some w ∧ w.phase = source ∧ t = next w := by
  split at h
  · next w hw =>
    by_cases hphase : w.phase = source
    · rw [if_pos hphase] at h
      exact ⟨w, hw, hphase, (Option.some_inj.1 h).symm⟩
    · rw [if_neg hphase] at h
      exact absurd h.symm (Option.some_ne_none t)
  · exact absurd h.symm (Option.some_ne_none t)

theorem move_eq_some (h : s.move i source target = some t) :
    ∃ w, s.watchers[i]? = some w ∧ w.phase = source ∧
      t = { s with watchers := s.watchers.set i { w with phase := target } } :=
  exists_of_goes h

/-- After the `i`-th attempt moved, it is of the new phase, and every other one is what it was. -/
theorem is_set (h : s.watchers[i]? = some w) {started : WatchKey TypeId → Option String} :
    Is ⟨started, s.watchers.set i { w with phase := target }⟩ p key j ↔
      (j = i ∧ w.key = key ∧ p target = true) ∨ (j ≠ i ∧ s.Is p key j) := by
  constructor
  · rintro ⟨v, hv, hkey, hp⟩
    rcases Transition.getElem?_of_set hv with ⟨rfl, rfl⟩ | ⟨hne, hv⟩
    · exact .inl ⟨rfl, hkey, hp⟩
    · exact .inr ⟨hne, v, hv, hkey, hp⟩
  · rintro (⟨rfl, hkey, hp⟩ | ⟨hne, v, hv, hkey, hp⟩)
    · exact ⟨_, Transition.getElem?_set_moved h _, hkey, hp⟩
    · exact ⟨v, by rw [List.getElem?_set_ne (Ne.symm hne)]; exact hv, hkey, hp⟩

variable [DecidableEq TypeId] {e : Event TypeId}

theorem remove_eq_some (h : s.remove i source target = some t) :
    ∃ w, s.watchers[i]? = some w ∧ w.phase = source ∧
      t = ⟨update s.started w.key none, s.watchers.set i { w with phase := target }⟩ :=
  exists_of_goes h

/-- What an attempt does with the key it owns: it goes on owning it, or it removes it. -/
inductive Stepped (s : System TypeId) : Event TypeId → System TypeId → Prop where
  | spawned (key : WatchKey TypeId) (name : String) : Stepped s (.spawn key name) (s.insert key name)
  | kept {e : Event TypeId} {i : ℕ} {w : Watcher TypeId} {target : Phase} (hi : e.subject = some i)
      (hw : s.watchers[i]? = some w) (hholds : w.phase.holds = true) (htarget : target.holds = true) :
      Stepped s e { s with watchers := s.watchers.set i { w with phase := target } }
  | freed {e : Event TypeId} {i : ℕ} {w : Watcher TypeId} {target : Phase} (hi : e.subject = some i)
      (hw : s.watchers[i]? = some w) (hholds : w.phase.holds = true) (htarget : target.holds = false) :
      Stepped s e ⟨update s.started w.key none, s.watchers.set i { w with phase := target }⟩

theorem stepped_of_move (hi : e.subject = some i) (hsource : source.holds = true)
    (htarget : target.holds = true) (h : s.move i source target = some t) : s.Stepped e t := by
  obtain ⟨w, hw, rfl, rfl⟩ := move_eq_some h
  exact .kept hi hw hsource htarget

theorem stepped_of_remove (hi : e.subject = some i) (hsource : source.holds = true)
    (htarget : target.holds = false) (h : s.remove i source target = some t) : s.Stepped e t := by
  obtain ⟨w, hw, rfl, rfl⟩ := remove_eq_some h
  exact .freed hi hw hsource htarget

/-- Every step is one of the three. -/
theorem stepped (h : s.step e = some t) : s.Stepped e t := by
  cases e with
  | spawn key name =>
    obtain rfl := Option.some_inj.1 h
    exact .spawned key name
  | create i ok => exact stepped_of_move rfl rfl (by cases ok <;> rfl) h
  | watch i ok => exact stepped_of_move rfl rfl (by cases ok <;> rfl) h
  | start i ok => exact stepped_of_move rfl rfl (by cases ok <;> rfl) h
  | rollback i => exact stepped_of_remove rfl rfl rfl h
  | close i => exact stepped_of_move rfl rfl rfl h
  | release i => exact stepped_of_remove rfl rfl rfl h
  | detach i => exact stepped_of_move rfl rfl rfl h

end System

/-! ### Who owns a key -/

/-- Every registered key has an owner, and only one. -/
structure Owned (s : System TypeId) : Prop where
  registered_iff : ∀ key, s.Registered key ↔ ∃ i, s.Is Phase.holds key i
  unique : ∀ {key i j}, s.Is Phase.holds key i → s.Is Phase.holds key j → i = j

theorem owned_new : Owned (System.new : System TypeId) := by
  have hnone : ∀ key i, ¬ (System.new : System TypeId).Is Phase.holds key i := by
    rintro key i ⟨w, hw, -⟩
    exact Option.some_ne_none w hw.symm
  refine ⟨fun key ↦ ⟨fun h ↦ absurd h Bool.false_ne_true, ?_⟩, ?_⟩
  · rintro ⟨i, hi⟩
    exact absurd hi (hnone key i)
  · intro key i j hi
    exact absurd hi (hnone key i)

section Steps

variable [DecidableEq TypeId] {s t : System TypeId} {e : Event TypeId} {i j : ℕ}
  {key : WatchKey TypeId} {w : Watcher TypeId} {target : Phase}

/-- A new attempt owns its key if nobody did. -/
theorem is_holds_insert {key' : WatchKey TypeId} {name : String} :
    (s.insert key name).Is Phase.holds key' j ↔
      s.Is Phase.holds key' j ∨ (j = s.watchers.length ∧ key = key' ∧ ¬ s.Registered key) := by
  constructor
  · rintro ⟨v, hv, hkey, hp⟩
    rcases Transition.getElem?_of_append hv with ⟨rfl, rfl⟩ | hv
    · refine .inr ⟨rfl, hkey, fun hsome ↦ ?_⟩
      -- an attempt that found the key is refused
      rw [if_pos (show (s.started key).isSome = true from hsome)] at hp
      exact Bool.false_ne_true hp
    · exact .inl ⟨v, hv, hkey, hp⟩
  · rintro (⟨v, hv, hkey, hp⟩ | ⟨rfl, rfl, hfree⟩)
    · have hlt := Transition.lt_length_of_getElem? hv
      exact ⟨v, (List.getElem?_append_left hlt).trans hv, hkey, hp⟩
    · refine ⟨_, List.getElem?_concat_length, rfl, ?_⟩
      rw [if_neg (show ¬ (s.started key).isSome = true from hfree)]
      rfl

omit [DecidableEq TypeId] in
/-- A phase that goes on owning the key changes no owner. -/
theorem is_holds_kept (hw : s.watchers[i]? = some w) (hholds : w.phase.holds = true)
    (htarget : target.holds = true) :
    System.Is { s with watchers := s.watchers.set i { w with phase := target } } Phase.holds key j ↔
      s.Is Phase.holds key j := by
  rw [System.is_set hw]
  constructor
  · rintro (⟨rfl, hkey, -⟩ | ⟨-, hj⟩)
    · exact ⟨w, hw, hkey, hholds⟩
    · exact hj
  · intro hj
    by_cases hji : j = i
    · subst hji
      exact .inl ⟨rfl, (hj.exists_watcher hw).1, htarget⟩
    · exact .inr ⟨hji, hj⟩

omit [DecidableEq TypeId] in
/-- One that gives it up is an owner no more. -/
theorem is_holds_freed (hw : s.watchers[i]? = some w) (htarget : target.holds = false)
    {started : WatchKey TypeId → Option String} :
    System.Is ⟨started, s.watchers.set i { w with phase := target }⟩ Phase.holds key j ↔
      j ≠ i ∧ s.Is Phase.holds key j := by
  rw [System.is_set hw, htarget]
  constructor
  · rintro (⟨-, -, hfalse⟩ | hj)
    · exact absurd hfalse Bool.false_ne_true
    · exact hj
  · exact Or.inr

theorem Owned.spawned (hs : Owned s) (key : WatchKey TypeId) (name : String) :
    Owned (s.insert key name) := by
  refine ⟨fun key' ↦ ?_, fun {key' i j} hi hj ↦ ?_⟩
  · simp only [is_holds_insert, exists_or, exists_eq_left]
    rw [← hs.registered_iff key']
    by_cases hkey : key = key'
    · subst hkey
      have hin : (s.insert key name).Registered key := by
        show (update s.started key (some name) key).isSome
        rw [Function.update_self]
        rfl
      refine ⟨fun _ ↦ ?_, fun _ ↦ hin⟩
      by_cases hkey : s.Registered key
      · exact .inl hkey
      · exact .inr ⟨rfl, hkey⟩
    · have hother : (s.insert key name).Registered key' ↔ s.Registered key' := by
        show (update s.started key (some name) key').isSome ↔ _
        rw [Function.update_of_ne (Ne.symm hkey)]
        rfl
      rw [hother]
      exact ⟨.inl, fun h ↦ h.resolve_right fun ⟨heq, _⟩ ↦ hkey heq⟩
  · -- an owner of the key there was would have been registered
    rcases is_holds_insert.1 hi with hi | ⟨rfl, hi, hfree⟩ <;>
      rcases is_holds_insert.1 hj with hj | ⟨rfl, hj, hfree'⟩
    · exact hs.unique hi hj
    · subst hj
      exact absurd ((hs.registered_iff key).2 ⟨i, hi⟩) hfree'
    · subst hi
      exact absurd ((hs.registered_iff key).2 ⟨j, hj⟩) hfree
    · rfl

omit [DecidableEq TypeId] in
theorem Owned.kept (hs : Owned s) (hw : s.watchers[i]? = some w) (hholds : w.phase.holds = true)
    (htarget : target.holds = true) :
    Owned { s with watchers := s.watchers.set i { w with phase := target } } := by
  refine ⟨fun key ↦ ?_, fun {key j k} hj hk ↦ ?_⟩
  · simp only [is_holds_kept hw hholds htarget]
    exact hs.registered_iff key
  · rw [is_holds_kept hw hholds htarget] at hj hk
    exact hs.unique hj hk

theorem Owned.freed (hs : Owned s) (hw : s.watchers[i]? = some w) (hholds : w.phase.holds = true)
    (htarget : target.holds = false) :
    Owned ⟨update s.started w.key none, s.watchers.set i { w with phase := target }⟩ := by
  have hi : s.Is Phase.holds w.key i := ⟨w, hw, rfl, hholds⟩
  refine ⟨fun key ↦ ?_, fun {key j k} hj hk ↦ ?_⟩
  · simp only [is_holds_freed hw htarget]
    by_cases hkey : key = w.key
    · subst hkey
      have hout : ¬ System.Registered ⟨update s.started w.key none, s.watchers.set i
          { w with phase := target }⟩ w.key := by
        show ¬ (update s.started w.key none w.key).isSome
        rw [Function.update_self]
        exact Bool.false_ne_true
      refine ⟨fun h ↦ absurd h hout, ?_⟩
      -- the one that removed it was the only owner
      rintro ⟨j, hne, hj⟩
      exact absurd (hs.unique hj hi) hne
    · show (update s.started w.key none key).isSome ↔ _
      rw [Function.update_of_ne hkey]
      refine (hs.registered_iff key).trans (exists_congr fun j ↦ ⟨fun hj ↦ ⟨?_, hj⟩, And.right⟩)
      rintro rfl
      exact hkey (hj.exists_watcher hw).1.symm
  · rw [is_holds_freed hw htarget] at hj hk
    exact hs.unique hj.2 hk.2

/-- **A step keeps one owner for each registered key.** -/
theorem Owned.step (hs : Owned s) (h : s.step e = some t) : Owned t := by
  cases System.stepped h with
  | spawned key name => exact hs.spawned key name
  | kept hi hw hholds htarget => exact hs.kept hw hholds htarget
  | freed hi hw hholds htarget => exact hs.freed hw hholds htarget

/-- One owner for each registered key in every reachable state. -/
theorem owned_of_run {es : List (Event TypeId)}
    (h : Transition.run System.step System.new es = some s) : Owned s :=
  Transition.run_invariant (fun _ _ _ hstep hs ↦ hs.step hstep) h owned_new

omit [DecidableEq TypeId] in
/-- Between the operations for a key, its owner is a live handle or a detached one. -/
theorem Owned.registered_iff_watched (hs : Owned s) (hidle : s.Idle key) :
    s.Registered key ↔ s.Watched key := by
  refine (hs.registered_iff key).trans (exists_congr fun i ↦ ⟨?_, ?_⟩)
  · rintro ⟨w, hw, hkey, hholds⟩
    have hnot : w.phase.underWay = false := by
      by_contra hway
      exact hidle ⟨i, w, hw, hkey, by simpa using hway⟩
    rw [Phase.holds_eq, hnot, Bool.false_or] at hholds
    exact ⟨w, hw, hkey, hholds⟩
  · rintro ⟨w, hw, hkey, hwatches⟩
    refine ⟨w, hw, hkey, ?_⟩
    rw [Phase.holds_eq, hwatches, Bool.or_true]

/-- **Only its one owner frees a key.** -/
theorem Owned.owner_of_freed (hs : Owned s) (h : s.step e = some t) (hin : s.Registered key)
    (hout : ¬ t.Registered key) :
    ∃ i, e.subject = some i ∧ s.Is Phase.holds key i ∧ ∀ j, s.Is Phase.holds key j → j = i := by
  cases System.stepped h with
  | spawned key' name =>
    refine absurd ?_ hout
    show (update s.started key' (some name) key).isSome
    by_cases hkey : key = key'
    · rw [hkey, Function.update_self]
      rfl
    · rw [Function.update_of_ne hkey]
      exact hin
  | kept => exact absurd hin hout
  | @freed _ i w target hi hw hholds htarget =>
    have hkey : w.key = key := by
      by_contra hne
      refine hout ?_
      show (update s.started w.key none key).isSome
      rw [Function.update_of_ne (Ne.symm hne)]
      exact hin
    have howns : s.Is Phase.holds key i := ⟨w, hw, hkey, hholds⟩
    exact ⟨i, hi, howns, fun j hj ↦ hs.unique hj howns⟩

/-- What is removed can be watched again. -/
theorem free_of_remove {source : Phase} (hat : s.At source key i) :
    ∃ t, s.remove i source target = some t ∧ t.Free key := by
  obtain ⟨w, hw, rfl, rfl⟩ := hat
  refine ⟨_, by rw [System.remove, hw]; exact if_pos rfl, ?_, fun name ↦ ?_⟩
  · show ¬ (update s.started w.key none w.key).isSome
    rw [Function.update_self]
    exact Bool.false_ne_true
  · refine ⟨_, List.getElem?_concat_length, rfl, ?_⟩
    show (if (update s.started w.key none w.key).isSome then Phase.refused else Phase.registered) = _
    rw [Function.update_self]
    rfl

omit [DecidableEq TypeId] in
/-- An attempt that is in a phase goes on from it. -/
theorem at_of_move {source : Phase} (hat : s.At source key i) :
    ∃ t, s.move i source target = some t ∧ t.At target key i := by
  obtain ⟨w, hw, rfl, rfl⟩ := hat
  refine ⟨{ s with watchers := s.watchers.set i { w with phase := target } }, ?_, _,
    Transition.getElem?_set_moved hw _, rfl, rfl⟩
  rw [System.move, hw]
  exact if_pos rfl

omit [DecidableEq TypeId] in
/-- No attempt for a key is of a kind that none in the list is of. -/
theorem not_is_of_forall {p : Phase → Bool}
    (h : ∀ w ∈ s.watchers, w.key = key → p w.phase = false) : ¬ ∃ i, s.Is p key i := by
  rintro ⟨i, w, hw, hkey, hp⟩
  rw [h w (List.mem_of_getElem? hw) hkey] at hp
  exact Bool.false_ne_true hp

/-- **The registry matches the watchers** in every reachable state: a key that nobody is spawning or
dropping for is registered exactly if there is a live or a detached watcher for it; a spawn fails at
each of its three steps, and its rollback leaves the key free; a live handle is dropped or stopped, and
leaves the key free, or is detached; and nothing but its only owner frees a key. -/
theorem registry_matches {es : List (Event TypeId)}
    (h : Transition.run System.step System.new es = some s) :
    (∀ key, s.Idle key → (s.Registered key ↔ s.Watched key)) ∧
      (∀ key i, (s.At .registered key i → ∃ t, s.step (.create i false) = some t ∧ t.At .failing key i) ∧
        (s.At .created key i → ∃ t, s.step (.watch i false) = some t ∧ t.At .failing key i) ∧
          (s.At .watching key i → ∃ t, s.step (.start i false) = some t ∧ t.At .failing key i)) ∧
      (∀ key i, s.At .failing key i → ∃ t, s.step (.rollback i) = some t ∧ t.Free key) ∧
      (∀ key i, s.At .live key i → (∃ t, s.step (.close i) = some t ∧ t.At .closing key i) ∧
        ∃ t, s.step (.detach i) = some t ∧ t.At .detached key i) ∧
      (∀ key i, s.At .closing key i → ∃ t, s.step (.release i) = some t ∧ t.Free key) ∧
      ∀ e t key, s.step e = some t → s.Registered key → ¬ t.Registered key →
        ∃ i, e.subject = some i ∧ s.Is Phase.holds key i ∧ ∀ j, s.Is Phase.holds key j → j = i := by
  have howned := owned_of_run h
  exact ⟨fun key hidle ↦ howned.registered_iff_watched hidle,
    fun key i ↦ ⟨at_of_move, at_of_move, at_of_move⟩, fun key i hat ↦ free_of_remove hat,
    fun key i hat ↦ ⟨at_of_move hat, at_of_move hat⟩, fun key i hat ↦ free_of_remove hat,
    fun e t key hstep hin hout ↦ howned.owner_of_freed hstep hin hout⟩

end Steps

/-- A type is watched, stopped, watched again and detached; another one's spawn can watch no directory;
and the handle of an instance is being dropped. -/
def stoppedAndDetached : List (Event ℕ) :=
  [.spawn (.ofType 0) "App", .create 0 true, .spawn (.ofType 1) "Db", .watch 0 true, .create 1 true,
    .spawn (.ofType 0) "App", .start 0 true, .watch 1 false, .close 0, .rollback 1, .release 0,
    .spawn (.ofType 0) "App", .spawn (.ofInstance 7) "Cache", .create 3 true, .watch 3 true,
    .create 4 true, .watch 4 true, .start 3 true, .start 4 true, .detach 3, .close 4]

theorem registry_matches_stoppedAndDetached :
    ∃ s, Transition.run System.step System.new stoppedAndDetached = some s ∧
      s.Registered (.ofType 0) ∧ ¬ s.Registered (.ofType 1) ∧ s.Registered (.ofInstance 7) ∧
        ∃ t, s.step (.release 4) = some t ∧ t.Free (.ofInstance 7) := by
  obtain ⟨hmatches, -, -, -, hclosing, -⟩ := registry_matches
    (show Transition.run System.step System.new stoppedAndDetached = some _ from rfl)
  refine ⟨_, rfl, (hmatches _ (not_is_of_forall ?_)).2 ⟨3, _, rfl, rfl, rfl⟩,
    mt (hmatches _ (not_is_of_forall ?_)).1 (not_is_of_forall ?_), rfl,
    hclosing _ 4 ⟨_, rfl, rfl, rfl⟩⟩
  · decide
  · decide
  · decide

end DynamicConfig.Registry
