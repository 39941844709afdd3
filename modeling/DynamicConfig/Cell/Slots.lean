import DynamicConfig.Transition.Parties
import DynamicConfig.Transition.Run
import DynamicConfig.Transition.Versioned
import Mathlib.Logic.Function.Basic

/-!
# One slot for a type

A generic configuration type has its snapshot in a slot of a registry, under its type. The first call for
a type finds none, allocates a slot and puts it into a copy of the table, which replaces the table if no
other copy has done so before. A copy that comes too late is made again, of the table that is there, and
keeps the slot it finds in it.

The steps are those between which another thread can run: the load of the table, the allocation, the
load an update begins with, and each attempt of the update. What is kept by all of them is `Sound`: a
slot in the table was allocated for its type, and a call that has returned has returned the slot of the
table. A replacement only ever adds to the table that is there (`extends_orInsert`), because the copy it
was made of is that table.
-/

namespace DynamicConfig.Slots

open Transition (run run_invariant run_trans getElem?_of_set getElem?_of_append forall_set forall_append
  lt_length_of_getElem? Versioned)
open Transition.Versioned (Loaded)

variable {TypeId : Type*} [DecidableEq TypeId]

/-- Which slot each type has: `Slots`. A slot is the number of its allocation. -/
abbrev Table (TypeId : Type*) := TypeId → Option ℕ

/-- What the update puts under the key, and keeps in `installed`: the slot that is there, or else the one
that was allocated. -/
def installed (table : Table TypeId) (key : TypeId) (leaked : ℕ) : ℕ := (table key).getD leaked

/-- `or_insert`, into a copy of the table. -/
def orInsert (key : TypeId) (leaked : ℕ) (table : Table TypeId) : Table TypeId :=
  Function.update table key (some (installed table key leaked))

/-- How far a call of `entry` has come. -/
inductive Phase (TypeId : Type*) where
  /-- The table is not loaded. -/
  | called
  /-- The table that was loaded has no slot for the key. -/
  | missing
  /-- The slot is allocated. -/
  | allocated (leaked : ℕ)
  /-- The update holds the table it is going to copy. -/
  | updating (leaked : ℕ) (current : Versioned (Table TypeId))
  | returned (slot : ℕ)

/-- A registry and the calls of `entry` on it. The table is made once, whoever comes first, and with
nothing in it. -/
structure State (TypeId : Type*) where
  entries : Versioned (Table TypeId)
  /-- What each slot was allocated for. -/
  allocations : List TypeId
  calls : List (TypeId × Phase TypeId)

/-- A registry nobody has called. -/
def State.start : State TypeId := ⟨⟨0, fun _ ↦ none⟩, [], []⟩

/-- What can happen: a call begins, or takes its next step. -/
inductive Event (TypeId : Type*) where
  | call (key : TypeId)
  | turn (i : ℕ)

/-- The next step of a call. A call that has returned takes none. -/
def State.advance (s : State TypeId) (i : ℕ) (key : TypeId) : Phase TypeId → Option (State TypeId)
  | .called =>
    match s.entries.value key with
    | some found => some { s with calls := s.calls.set i (key, .returned found) }
    | none => some { s with calls := s.calls.set i (key, .missing) }
  | .missing =>
    some { s with
      allocations := s.allocations ++ [key]
      calls := s.calls.set i (key, .allocated s.allocations.length) }
  | .allocated leaked => some { s with calls := s.calls.set i (key, .updating leaked s.entries) }
  | .updating leaked current =>
    match s.entries.swap current (orInsert key leaked) with
    | .ok next =>
      some { s with
        entries := next
        calls := s.calls.set i (key, .returned (installed current.value key leaked)) }
    -- Another call was first: the copy is made again.
    | .error found => some { s with calls := s.calls.set i (key, .updating leaked found) }
  | .returned _ => none

/-- One step. -/
def step (s : State TypeId) : Event TypeId → Option (State TypeId)
  | .call key => some { s with calls := s.calls ++ [(key, .called)] }
  | .turn i =>
    match s.calls[i]? with
    | none => none
    | some (key, phase) => s.advance i key phase

/-! ### What is kept -/

/-- One table has all that another has. -/
def Extends (table table' : Table TypeId) : Prop :=
  ∀ key slot, table key = some slot → table' key = some slot

instance : Std.Refl (@Extends TypeId) := ⟨fun _ _ _ h ↦ h⟩

instance : IsTrans (Table TypeId) Extends := ⟨fun _ _ _ h h' key slot hslot ↦ h' key slot (h key slot hslot)⟩

/-- **An update drops nothing.** -/
theorem extends_orInsert (table : Table TypeId) (key : TypeId) (leaked : ℕ) :
    Extends table (orInsert key leaked table) := by
  intro k slot hslot
  by_cases hk : k = key
  · subst hk
    rw [orInsert, Function.update_self, installed, hslot]
    rfl
  · rw [orInsert, Function.update_of_ne hk]
    exact hslot

/-- What is known of a call in its phase. -/
def Knows (s : State TypeId) (key : TypeId) : Phase TypeId → Prop
  | .called | .missing => True
  | .allocated leaked => s.allocations[leaked]? = some key
  | .updating leaked current =>
    s.allocations[leaked]? = some key ∧ Loaded Extends current s.entries
  | .returned slot => s.entries.value key = some slot

/-- A slot of the table was allocated for its type, and every call knows what its phase says. -/
structure Sound (s : State TypeId) : Prop where
  owner : ∀ key slot, s.entries.value key = some slot → s.allocations[slot]? = some key
  knows : ∀ (i : ℕ) (call : TypeId × Phase TypeId), s.calls[i]? = some call → Knows s call.1 call.2

/-- What a step may do to the registry: allocate, and add to the table. -/
structure Grows (s s' : State TypeId) : Prop where
  allocations : s.allocations <+: s'.allocations
  copies : ∀ current, Loaded Extends current s.entries → Loaded Extends current s'.entries
  table : Extends s.entries.value s'.entries.value

omit [DecidableEq TypeId] in
/-- What a call knows is true of a registry that has grown. -/
theorem Knows.of_grows {s s' : State TypeId} (h : Grows s s') {key : TypeId} {phase : Phase TypeId}
    (hknows : Knows s key phase) : Knows s' key phase := by
  have hslot {slot : ℕ} (hslot : s.allocations[slot]? = some key) :
      s'.allocations[slot]? = some key := by
    obtain ⟨more, hmore⟩ := h.allocations
    rw [← hmore, List.getElem?_append_left (lt_length_of_getElem? hslot)]
    exact hslot
  match phase with
  | .called | .missing => exact trivial
  | .allocated leaked => exact hslot hknows
  | .updating leaked current => exact ⟨hslot hknows.1, h.copies current hknows.2⟩
  | .returned slot => exact h.table key slot hknows

omit [DecidableEq TypeId] in
theorem Grows.refl (s : State TypeId) (calls : List (TypeId × Phase TypeId)) :
    Grows s { s with calls := calls } :=
  ⟨List.prefix_rfl, fun _ h ↦ h, fun _ _ h ↦ h⟩

omit [DecidableEq TypeId] in
/-- The registry with a slot more. -/
theorem Grows.allocate (s : State TypeId) (key : TypeId) (calls : List (TypeId × Phase TypeId)) :
    Grows s { s with allocations := s.allocations ++ [key], calls := calls } :=
  ⟨List.prefix_append _ _, fun _ h ↦ h, fun _ _ h ↦ h⟩

/-- The registry with a table in place of the one it was copied from. -/
theorem Grows.install (s : State TypeId) (key : TypeId) (leaked : ℕ)
    (calls : List (TypeId × Phase TypeId)) :
    Grows s { s with
      entries := s.entries.install (orInsert key leaked s.entries.value)
      calls := calls } :=
  ⟨List.prefix_rfl, fun _ h ↦ h.install (extends_orInsert _ key leaked), extends_orInsert _ key leaked⟩

/-- What was inserted was allocated for the key it is under. -/
theorem owner_orInsert {table : Table TypeId} {allocations : List TypeId} {key : TypeId} {leaked : ℕ}
    (howner : ∀ k slot, table k = some slot → allocations[slot]? = some k)
    (hleaked : allocations[leaked]? = some key) :
    ∀ k slot, orInsert key leaked table k = some slot → allocations[slot]? = some k := by
  intro k slot hslot
  by_cases hk : k = key
  · subst hk
    rw [orInsert, Function.update_self, installed] at hslot
    obtain rfl := Option.some.inj hslot
    rcases hthere : table k with - | there
    · exact hleaked
    · exact howner k there hthere
  · rw [orInsert, Function.update_of_ne hk] at hslot
    exact howner k slot hslot

/-- **What a step of a call does**: it moves that call, adds to the registry, and the call knows what its
new phase says. -/
theorem advance_spec {s s' : State TypeId} {i : ℕ} {key : TypeId} {phase : Phase TypeId}
    (howner : ∀ k slot, s.entries.value k = some slot → s.allocations[slot]? = some k)
    (hknows : Knows s key phase) (h : s.advance i key phase = some s') :
    Grows s s' ∧ (∃ phase', s'.calls = s.calls.set i (key, phase') ∧ Knows s' key phase') ∧
      ∀ k slot, s'.entries.value k = some slot → s'.allocations[slot]? = some k := by
  match phase with
  | .called =>
    rw [State.advance] at h
    rcases hfound : s.entries.value key with - | found <;> rw [hfound] at h <;>
      obtain rfl := Option.some.inj h
    · exact ⟨.refl s _, ⟨_, rfl, trivial⟩, howner⟩
    · exact ⟨.refl s _, ⟨_, rfl, hfound⟩, howner⟩
  | .missing =>
    obtain rfl := Option.some.inj h
    refine ⟨.allocate s key _, ⟨_, rfl, List.getElem?_concat_length⟩, fun k slot hslot ↦ ?_⟩
    have hold := howner k slot hslot
    show (s.allocations ++ [key])[slot]? = some k
    rw [List.getElem?_append_left (lt_length_of_getElem? hold)]
    exact hold
  | .allocated leaked =>
    obtain rfl := Option.some.inj h
    exact ⟨.refl s _, ⟨_, rfl, hknows, Loaded.refl s.entries⟩, howner⟩
  | .updating leaked current =>
    obtain ⟨hleaked, hloaded⟩ := hknows
    rw [State.advance] at h
    rcases hswap : s.entries.swap current (orInsert key leaked) with found | next <;> rw [hswap] at h <;>
      obtain rfl := Option.some.inj h
    · -- The copy that comes too late is made again, of the table that is there.
      obtain rfl := Transition.Versioned.swap_eq_error hswap
      exact ⟨.refl s _, ⟨_, rfl, hleaked, Loaded.refl s.entries⟩, howner⟩
    · obtain ⟨hversion, rfl⟩ := hloaded.swap_eq_ok_iff.1 hswap
      refine ⟨.install s key leaked _, ⟨_, rfl, ?_⟩, owner_orInsert howner hleaked⟩
      -- What it has returned is what it has put into the table.
      show orInsert key leaked s.entries.value key = some (installed current.value key leaked)
      rw [orInsert, Function.update_self, hloaded.same hversion]
  | .returned slot =>
    rw [State.advance] at h
    exact absurd h.symm (Option.some_ne_none s')

omit [DecidableEq TypeId] in
theorem sound_start : Sound (State.start : State TypeId) :=
  ⟨fun _ _ h ↦ absurd h.symm (Option.some_ne_none _), fun _ _ h ↦ absurd h.symm (Option.some_ne_none _)⟩

theorem Sound.grows_step {s s' : State TypeId} {e : Event TypeId} (hs : Sound s)
    (h : step s e = some s') : Sound s' ∧ Grows s s' := by
  match e with
  | .call key =>
    obtain rfl := Option.some.inj h
    have hgrows := Grows.refl s (s.calls ++ [(key, .called)])
    have hnew : ∀ i (call : TypeId × Phase TypeId), (s.calls ++ [(key, .called)])[i]? = some call →
        Knows { s with calls := s.calls ++ [(key, Phase.called)] } call.1 call.2 :=
      forall_append (P := fun _ call ↦ Knows _ call.1 call.2) (y := (key, Phase.called))
        (fun i call hcall ↦ (hs.knows i call hcall).of_grows hgrows) trivial
    exact ⟨⟨hs.owner, hnew⟩, hgrows⟩
  | .turn i =>
    rw [step] at h
    rcases hcall : s.calls[i]? with - | ⟨key, phase⟩ <;> rw [hcall] at h
    · exact absurd h.symm (Option.some_ne_none _)
    · obtain ⟨hgrows, ⟨phase', hcalls, hknows⟩, howner⟩ :=
        advance_spec hs.owner (hs.knows i _ hcall) h
      refine ⟨⟨howner, ?_⟩, hgrows⟩
      rw [hcalls]
      exact forall_set (P := fun _ call ↦ Knows s' call.1 call.2) (y := (key, phase'))
        (fun j call hj ↦ (hs.knows j call hj).of_grows hgrows) hknows

/-- A call for a type has returned a slot. -/
def State.Returned (s : State TypeId) (i : ℕ) (key : TypeId) (slot : ℕ) : Prop :=
  s.calls[i]? = some (key, .returned slot)

/-- A call that has returned stays as it is. -/
theorem returned_step {s s' : State TypeId} {e : Event TypeId} (hs : Sound s)
    (h : step s e = some s') {i : ℕ} {key : TypeId} {slot : ℕ}
    (hi : s.Returned i key slot) : s'.Returned i key slot := by
  match e with
  | .call k =>
    obtain rfl := Option.some.inj h
    show (s.calls ++ [(k, Phase.called)])[i]? = _
    rw [List.getElem?_append_left (lt_length_of_getElem? hi)]
    exact hi
  | .turn j =>
    rw [step] at h
    rcases hcall : s.calls[j]? with - | ⟨k, phase⟩ <;> rw [hcall] at h
    · exact absurd h.symm (Option.some_ne_none _)
    · by_cases hij : j = i
      · -- It would be a step of the call that has returned.
        subst hij
        obtain ⟨rfl, rfl⟩ := Prod.mk.inj (Option.some.inj (hcall.symm.trans hi))
        exact absurd h.symm (Option.some_ne_none s')
      · obtain ⟨-, ⟨phase', hcalls, -⟩, -⟩ := advance_spec hs.owner (hs.knows j _ hcall) h
        rw [State.Returned, hcalls, List.getElem?_set_ne hij]
        exact hi

theorem sound_of_run {s : State TypeId} {events : List (Event TypeId)}
    (h : run step .start events = some s) : Sound s :=
  run_invariant (fun _ _ _ hstep hs ↦ (hs.grows_step hstep).1) h sound_start

/-- What a call has returned stays what it has returned, and stays in the table. -/
theorem returned_of_run {s s' : State TypeId} {events : List (Event TypeId)} (hs : Sound s)
    (h : run step s events = some s') {i : ℕ} {key : TypeId} {slot : ℕ}
    (hi : s.Returned i key slot) : s'.Returned i key slot ∧ s'.entries.value key = some slot := by
  have hkept : Sound s' ∧ s'.Returned i key slot :=
    run_invariant (I := fun t ↦ Sound t ∧ t.Returned i key slot)
      (fun _ _ _ hstep ht ↦ ⟨(ht.1.grows_step hstep).1, returned_step ht.1 hstep ht.2⟩) h ⟨hs, hi⟩
  exact ⟨hkept.2, hkept.1.knows i _ hkept.2⟩

/-- A type has one slot, of what was returned so far and of what there is to come. -/
structure OneSlot (s : State TypeId) : Prop where
  /-- Calls for one type have returned one slot. -/
  same : ∀ i j key slot slot', s.Returned i key slot → s.Returned j key slot' → slot = slot'
  /-- Calls for different types have returned different slots. -/
  different : ∀ i j key key' slot slot', key ≠ key' → s.Returned i key slot →
    s.Returned j key' slot' → slot ≠ slot'
  /-- Whatever the calls do from here, no update drops a slot that was returned. -/
  kept : ∀ events s', run step s events = some s' → ∀ i key slot, s.Returned i key slot →
    s'.Returned i key slot ∧ s'.entries.value key = some slot

/-- **A type never has two slots**, in whatever order the calls of `entry` take their steps. -/
theorem oneSlot_of_run {s : State TypeId} {events : List (Event TypeId)}
    (h : run step .start events = some s) : OneSlot s := by
  have hs := sound_of_run h
  refine ⟨fun i j key slot slot' hi hj ↦ ?_, fun i j key key' slot slot' hne hi hj heq ↦ ?_,
    fun events' s' hrun i key slot hi ↦ returned_of_run hs hrun hi⟩
  · have hslot : s.entries.value key = some slot := hs.knows i _ hi
    have hslot' : s.entries.value key = some slot' := hs.knows j _ hj
    exact Option.some.inj (hslot.symm.trans hslot')
  · -- A slot was allocated for one type.
    have hfor := hs.owner key slot (hs.knows i _ hi)
    have hfor' := hs.owner key' slot' (hs.knows j _ hj)
    rw [← heq] at hfor'
    exact hne (Option.some.inj (hfor.symm.trans hfor'))

/-- Two calls for one type at once, of which one has to copy the table again, and a call for another. -/
def contended : List (Event Bool) :=
  [.call true, .call true, .call false, .turn 0, .turn 1, .turn 0, .turn 1, .turn 0, .turn 1,
    .turn 0, .turn 1, .turn 1, .turn 2, .turn 2, .turn 2, .turn 2]

theorem oneSlot_contended :
    ∃ s, run step State.start contended = some s ∧ s.Returned 0 true 0 ∧ s.Returned 1 true 0 ∧
      s.Returned 2 false 2 ∧ OneSlot s :=
  ⟨_, rfl, rfl, rfl, rfl, oneSlot_of_run (show run step State.start contended = some _ from rfl)⟩

end DynamicConfig.Slots
