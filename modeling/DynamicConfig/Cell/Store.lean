import DynamicConfig.Remote.Slot
import DynamicConfig.Transition.Run

/-!
# The configuration cell

A cell holds the current snapshot, and next to it, each in an atomic of its own, the metadata of the
last install, its reason, the failures since, a counter of changes and the tasks waiting for one.
`store_with` writes them one after the other, and wakes those who wait one by one. Stores are not
serialised against each other, so a run is an interleaving of the atomic steps of any number of
`store_with` calls, of tasks polling `Changes::changed`, and of readers that read the generation and
then the snapshot.

Each party has a program point, the atomic step it takes next, and the locals of the function it is
in. `System.log` is what has happened, in order, and nothing reads it.

An `Arc` is known by the call that allocated it: a call allocates one snapshot, publishes one
metadata and stores one reason. Addresses of live allocations differ, and `rcu` holds on to what it
read, so comparing pointers is comparing these.
-/

namespace DynamicConfig.Cell

open Remote (wrappingSucc saturatingSucc)

/-! ### The cell -/

/-- A shared value, and the `store_with` call that allocated it. -/
structure Arc (α : Type) where
  owner : Nat
  value : α
  deriving DecidableEq, Repr

/-- What is true of the snapshot currently installed. -/
structure SnapshotMeta where
  generation : Nat
  loadedAt : Nat
  deriving DecidableEq, Repr

/-- `ConfigCell`: snapshots of type `T`, reasons of type `R`, wakers of type `W`. -/
structure ConfigCell (T R W : Type) where
  inner : Option (Arc T)
  meta_ : Option (Arc SnapshotMeta)
  lastReason : Option (Arc R)
  consecutiveFailures : Nat
  /-- `Notify`: bumped on every store. -/
  generation : Nat
  /-- `Notify`: the parked wakers. -/
  waiting : List W

/-- An empty cell. -/
def ConfigCell.new {T R W : Type} : ConfigCell T R W := ⟨none, none, none, 0, 0, []⟩

/-- `ReloadEvent`: what the hooks are told. -/
structure ReloadEvent (T R : Type) where
  previous : Option (Arc T)
  current : Arc T
  reason : R
  meta_ : SnapshotMeta

/-! ### Storing -/

/-- The atomic step a `store_with` call takes next. -/
inductive StorePoint where
  | initialise | swap | read | publish | explain | reset | advance | take | wake | dispatch | returned
  deriving DecidableEq, Repr

/-- How far a call at a point has come. -/
def StorePoint.taken : StorePoint → Nat
  | initialise => 0
  | swap => 1
  | read => 2
  | publish => 3
  | explain => 4
  | reset => 5
  | advance => 6
  | take => 7
  | wake => 8
  | dispatch => 9
  | returned => 10

/-- A `store_with` call: its arguments, where it is, and its locals. -/
structure StoreCall (T R W : Type) where
  value : T
  reason : R
  point : StorePoint
  /-- What its swap displaced. -/
  previous : Option (Arc T)
  /-- What `rcu` compares with. -/
  before : Option (Arc SnapshotMeta)
  /-- The metadata of this install. -/
  installed : Option SnapshotMeta
  /-- The wakers its `bump` has taken and has yet to wake. -/
  woken : List W
  /-- What it dispatched. -/
  event : Option (ReloadEvent T R)

section Steps

variable {T R W : Type}

/-- A call that has just been made. -/
def StoreCall.new (value : T) (reason : R) : StoreCall T R W :=
  ⟨value, reason, .initialise, none, none, none, [], none⟩

/-- The snapshot of a call. -/
def StoreCall.arc (i : Nat) (c : StoreCall T R W) : Arc T := ⟨i, c.value⟩

/-- A call with these wakers left to wake. -/
def StoreCall.waking (c : StoreCall T R W) (woken : List W) : StoreCall T R W :=
  { c with point := if woken.isEmpty then .dispatch else .wake, woken }

/-- The metadata the closure of `rcu` makes of what is there. -/
def nextMeta (before : Option (Arc SnapshotMeta)) (now : Nat) : SnapshotMeta where
  generation := wrappingSucc ((before.map fun m ↦ m.value.generation).getD 0)
  loadedAt := now

/-- Whether two loads of the metadata are the same allocation. -/
def sameMeta (a b : Option (Arc SnapshotMeta)) : Bool :=
  decide (a.map Arc.owner = b.map Arc.owner)

/-- The next atomic step of the `i`-th call. -/
def StoreCall.step (i now : Nat) (cell : ConfigCell T R W) (c : StoreCall T R W) :
    Option (ConfigCell T R W × StoreCall T R W) :=
  match c.point with
  | .initialise =>
    some ({ cell with inner := cell.inner.or (some (c.arc i)) }, { c with point := .swap })
  | .swap =>
    some ({ cell with inner := some (c.arc i) }, { c with point := .read, previous := cell.inner })
  | .read => some (cell, { c with point := .publish, before := cell.meta_ })
  | .publish =>
    let installed := nextMeta c.before now
    -- A neighbour's update in between: the closure runs again on what it left.
    if sameMeta c.before cell.meta_ then
      some ({ cell with meta_ := some ⟨i, installed⟩ },
        { c with point := .explain, installed := some installed })
    else some (cell, { c with before := cell.meta_, installed := some installed })
  | .explain => some ({ cell with lastReason := some ⟨i, c.reason⟩ }, { c with point := .reset })
  | .reset => some ({ cell with consecutiveFailures := 0 }, { c with point := .advance })
  | .advance =>
    some ({ cell with generation := wrappingSucc cell.generation }, { c with point := .take })
  -- The list is taken under its lock, and its wakers are woken outside of it.
  | .take => some ({ cell with waiting := [] }, c.waking cell.waiting)
  | .wake => some (cell, c.waking c.woken.tail)
  | .dispatch =>
    c.installed.bind fun installed ↦ some (cell,
      { c with
        point := .returned
        event := some
          { previous := c.previous.filter fun p ↦ !decide (p.owner = i)
            current := c.arc i, reason := c.reason, meta_ := installed } })
  | .returned => none

/-! ### Waiting for a change -/

/-- Where a handle's last poll is, or how it ended. -/
inductive TaskPoint (T : Type) where
  | idle | check | load | register | checkAgain | loadAgain | pending
  | ready (snapshot : Arc T)

/-- A `Changes` handle, and the task that polls it. -/
structure Task (T W : Type) where
  seen : Nat
  point : TaskPoint T
  /-- The waker of the last poll. -/
  waker : Option W
  /-- Whether that waker has been woken since it was registered. -/
  woken : Bool

/-- A task whose load found what its check implies, or nothing. -/
def Task.resolve (t : Task T W) (found : Option (Arc T)) (otherwise : TaskPoint T) : Task T W :=
  { t with point := (found.map TaskPoint.ready).getD otherwise }

/-- The next atomic step of a poll. -/
def Task.step [DecidableEq W] (cell : ConfigCell T R W) (t : Task T W) :
    Option (ConfigCell T R W × Task T W) :=
  match t.point with
  | .check =>
    if cell.generation = t.seen then some (cell, { t with point := .register })
    else some (cell, { t with seen := cell.generation, point := .load })
  | .load => some (cell, t.resolve cell.inner .register)
  | .register =>
    t.waker.map fun waker ↦
      ({ cell with
          waiting := if waker ∈ cell.waiting then cell.waiting else cell.waiting ++ [waker] },
        { t with point := .checkAgain, woken := false })
  | .checkAgain =>
    if cell.generation = t.seen then some (cell, { t with point := .pending })
    else some (cell, { t with seen := cell.generation, point := .loadAgain })
  | .loadAgain => some (cell, t.resolve cell.inner .pending)
  | .idle | .pending | .ready _ => none

/-- Whether a handle's poll has not come back. -/
def TaskPoint.polling : TaskPoint T → Bool
  | .check | .load | .register | .checkAgain | .loadAgain => true
  | .idle | .pending | .ready _ => false

/-- A task whose waker is among those woken. -/
def Task.wake [DecidableEq W] (wakers : List W) (t : Task T W) : Task T W :=
  { t with woken := t.woken || t.waker.any fun waker ↦ decide (waker ∈ wakers) }

/-! ### Everybody -/

/-- A reader that reads the generation and then the snapshot: `Section::installed`. -/
structure Reader (T : Type) where
  generation : Nat
  /-- What it loaded, once it has. -/
  document : Option (Option (Arc T))

/-- What has happened. -/
structure Log (T R : Type) where
  /-- What has been in the cell: what `get_or_init` put there, then what was swapped in, in order. -/
  chain : List (Arc T)
  /-- The metadata published, in order. -/
  issued : List (Arc SnapshotMeta)
  /-- The reasons stored, in order. -/
  explained : List (Arc R)
  /-- The calls that bumped the counter of changes, in order. -/
  bumped : List Nat

/-- The snapshots swapped in, in order. -/
def Log.swaps {T R : Type} (log : Log T R) : List (Arc T) := log.chain.tail

/-- A cell and everybody who uses it. -/
structure System (T R W : Type) where
  cell : ConfigCell T R W
  calls : List (StoreCall T R W)
  tasks : List (Task T W)
  readers : List (Reader T)
  log : Log T R

/-- A fresh cell. -/
def System.new : System T R W := ⟨ConfigCell.new, [], [], [], ⟨[], [], [], []⟩⟩

/-- One turn of somebody. -/
inductive Turn (T R W : Type) where
  | begin_ (value : T) (reason : R)
  /-- A `store_with` call takes its next step. -/
  | store (i now : Nat)
  /-- A reload fails. -/
  | recordFailure
  /-- `changes()`. -/
  | subscribe
  | poll (h : Nat) (waker : W)
  | task (h : Nat)
  | generation
  | current (r : Nat)

/-- What a step of a call adds to what has happened. -/
def Log.after (log : Log T R) (i : Nat) (cell : ConfigCell T R W) (c d : StoreCall T R W) :
    Log T R :=
  match c.point with
  | .initialise =>
    { log with chain := if cell.inner.isSome then log.chain else log.chain ++ [c.arc i] }
  | .swap => { log with chain := log.chain ++ [c.arc i] }
  | .publish =>
    { log with
      issued :=
        if d.point = .explain then log.issued ++ (d.installed.map (⟨i, ·⟩)).toList else log.issued }
  | .explain => { log with explained := log.explained ++ [⟨i, c.reason⟩] }
  | .advance => { log with bumped := log.bumped ++ [i] }
  | .read | .reset | .take | .wake | .dispatch | .returned => log

/-- What one turn does. -/
def System.step [DecidableEq W] (sys : System T R W) : Turn T R W → Option (System T R W)
  | .begin_ value reason => some { sys with calls := sys.calls ++ [StoreCall.new value reason] }
  | .store i now =>
    sys.calls[i]?.bind fun c ↦ (c.step i now sys.cell).map fun e ↦
      { sys with
        cell := e.1
        calls := sys.calls.set i e.2
        tasks := if c.point = .wake then sys.tasks.map (Task.wake (c.woken.take 1)) else sys.tasks
        log := sys.log.after i sys.cell c e.2 }
  | .recordFailure =>
    some { sys with cell := { sys.cell with
      consecutiveFailures := saturatingSucc (2 ^ 32 - 1) sys.cell.consecutiveFailures } }
  | .subscribe =>
    some { sys with tasks := sys.tasks ++ [⟨sys.cell.generation, .idle, none, false⟩] }
  | .poll h waker =>
    sys.tasks[h]?.bind fun t ↦
      if t.point.polling then none
      else some { sys with
        tasks := sys.tasks.set h { t with point := .check, waker := some waker, woken := false } }
  | .task h =>
    sys.tasks[h]?.bind fun t ↦ (t.step sys.cell).map fun e ↦
      { sys with cell := e.1, tasks := sys.tasks.set h e.2 }
  | .generation =>
    some { sys with readers := sys.readers ++
      [⟨(sys.cell.meta_.map fun m ↦ m.value.generation).getD 0, none⟩] }
  | .current r =>
    sys.readers[r]?.bind fun reader ↦
      if reader.document.isSome then none
      else some { sys with readers := sys.readers.set r { reader with document := some sys.cell.inner } }

/-- What a turn comes to, by who takes it. -/
inductive System.Moves [DecidableEq W] (s : System T R W) : Turn T R W → System T R W → Prop where
  | begin_ (value : T) (reason : R) :
    s.Moves (.begin_ value reason) { s with calls := s.calls ++ [StoreCall.new value reason] }
  | store {i now : Nat} {c : StoreCall T R W} {e : ConfigCell T R W × StoreCall T R W}
    (hc : s.calls[i]? = some c) (he : c.step i now s.cell = some e) :
    s.Moves (.store i now)
      { s with
        cell := e.1
        calls := s.calls.set i e.2
        tasks := if c.point = .wake then s.tasks.map (Task.wake (c.woken.take 1)) else s.tasks
        log := s.log.after i s.cell c e.2 }
  | recordFailure :
    s.Moves .recordFailure { s with cell := { s.cell with
      consecutiveFailures := saturatingSucc (2 ^ 32 - 1) s.cell.consecutiveFailures } }
  | subscribe :
    s.Moves .subscribe { s with tasks := s.tasks ++ [⟨s.cell.generation, .idle, none, false⟩] }
  | poll {h : Nat} {t : Task T W} (waker : W) (ht : s.tasks[h]? = some t)
    (hfree : t.point.polling = false) :
    s.Moves (.poll h waker) { s with
      tasks := s.tasks.set h { t with point := .check, waker := some waker, woken := false } }
  | task {h : Nat} {t : Task T W} {e : ConfigCell T R W × Task T W} (ht : s.tasks[h]? = some t)
    (he : t.step s.cell = some e) :
    s.Moves (.task h) { s with cell := e.1, tasks := s.tasks.set h e.2 }
  | generation :
    s.Moves .generation { s with readers := s.readers ++
      [⟨(s.cell.meta_.map fun m ↦ m.value.generation).getD 0, none⟩] }
  | current {r : Nat} {reader : Reader T} (hr : s.readers[r]? = some reader)
    (hfresh : reader.document.isSome = false) :
    s.Moves (.current r)
      { s with readers := s.readers.set r { reader with document := some s.cell.inner } }

/-- **A turn is one of these.** -/
theorem System.moves_of_step [DecidableEq W] {s t : System T R W} {turn : Turn T R W}
    (hstep : s.step turn = some t) : s.Moves turn t := by
  rcases turn with ⟨value, reason⟩ | ⟨i, now⟩ | - | - | ⟨h, waker⟩ | h | - | r
  · exact Option.some.inj hstep ▸ .begin_ value reason
  · obtain ⟨c, hc, hstep⟩ := Option.bind_eq_some_iff.1 hstep
    obtain ⟨e, he, rfl⟩ := Option.map_eq_some_iff.1 hstep
    exact .store hc he
  · exact Option.some.inj hstep ▸ .recordFailure
  · exact Option.some.inj hstep ▸ .subscribe
  · obtain ⟨task, htask, hstep⟩ := Option.bind_eq_some_iff.1 hstep
    split at hstep
    · cases hstep
    · next hfree =>
      exact Option.some.inj hstep ▸ .poll waker htask (Bool.eq_false_iff.2 hfree)
  · obtain ⟨task, htask, hstep⟩ := Option.bind_eq_some_iff.1 hstep
    obtain ⟨e, he, rfl⟩ := Option.map_eq_some_iff.1 hstep
    exact .task htask he
  · exact Option.some.inj hstep ▸ .generation
  · obtain ⟨reader, hr, hstep⟩ := Option.bind_eq_some_iff.1 hstep
    split at hstep
    · cases hstep
    · next hfresh =>
      exact Option.some.inj hstep ▸ .current hr (Bool.eq_false_iff.2 hfresh)

/-- A turn of a call that can take its step. -/
theorem System.step_store [DecidableEq W] {s : System T R W} {i : Nat} {c : StoreCall T R W} (now : Nat)
    {e : ConfigCell T R W × StoreCall T R W} (hc : s.calls[i]? = some c)
    (he : c.step i now s.cell = some e) :
    ∃ t : System T R W, s.step (.store i now) = some t ∧ t.cell = e.1 ∧ t.calls[i]? = some e.2 ∧
      t.log = s.log.after i s.cell c e.2 := by
  obtain ⟨hlt, -⟩ := List.getElem?_eq_some_iff.1 hc
  refine ⟨{ s with
    cell := e.1
    calls := s.calls.set i e.2
    tasks := if c.point = .wake then s.tasks.map (Task.wake (c.woken.take 1)) else s.tasks
    log := s.log.after i s.cell c e.2 }, ?_, rfl, List.getElem?_set_self hlt, rfl⟩
  show (s.calls[i]?.bind fun c ↦ (c.step i now s.cell).map _) = _
  rw [hc, Option.bind_some, he]
  rfl

/-- A call wakes one after the other those it has taken. -/
theorem System.run_waking [DecidableEq W] {s : System T R W} {i : Nat} (now : Nat)
    {c : StoreCall T R W} {woken : List W} (hc : s.calls[i]? = some (c.waking woken)) :
    ∃ t : System T R W,
      Transition.run System.step s (List.replicate woken.length (.store i now)) = some t ∧
        t.cell = s.cell ∧ t.calls[i]? = some (c.waking []) := by
  induction woken generalizing s with
  | nil => exact ⟨s, rfl, rfl, hc⟩
  | cons waker woken ih =>
    have hstep : (c.waking (waker :: woken)).step i now s.cell = some (s.cell, c.waking woken) := rfl
    obtain ⟨t, ht, hcell, hcall, -⟩ := System.step_store now hc hstep
    obtain ⟨u, hu, hcell', hcall'⟩ := ih hcall
    refine ⟨u, ?_, hcell'.trans hcell, hcall'⟩
    rw [List.length_cons, List.replicate_succ, Transition.run_cons_of_step ht, hu]

end Steps

end DynamicConfig.Cell
