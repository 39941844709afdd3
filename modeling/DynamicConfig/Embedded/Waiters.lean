import DynamicConfig.Remote.Slot
import DynamicConfig.Transition.Parties
import DynamicConfig.Transition.Run

/-!
# Waiting for a change on a device

Without an allocator there is a fixed number of slots for the wakers of the tasks that wait. A
registration takes the slot of a waker that wakes the same task, or the first empty one, or, where
there is neither, the first of all, and wakes whom it has displaced; a store empties every slot and
wakes them all. Each critical section is one step, and every wake is one of its own, taken after the
section and before the call goes on.

A run is an interleaving of the sections and the wakes of any number of stores and of polls of any
number of handles, on a table of any size. What a waker does when it is woken is the executor's, and
so any other step may follow. `log` is the wakers that have been registered and woken, by the task
they wake; no step reads it.
-/

namespace DynamicConfig.Waiters

open Remote (saturatingSucc)
open Transition (run)

/-! ### The table -/

/-- The wakers of an executor: the task each wakes, and `Waker::will_wake`, which may say no of two
that wake the same. -/
structure Wakers (W : Type) where
  wakes : W → Nat
  willWake : W → W → Bool
  sound : ∀ existing waker, willWake existing waker = true → wakes existing = wakes waker

section Table

variable {W : Type} (wakers : Wakers W) (waker : W)

/-- The scan of the slots: a waker that wakes the same task is left where it is, and an empty slot
is filled. Nothing, where every slot is another's. -/
def scan : List (Option W) → Option (List (Option W))
  | [] => none
  | none :: slots => some (some waker :: slots)
  | some existing :: slots =>
    if wakers.willWake existing waker then some (some existing :: slots)
    else (scan slots).map (some existing :: ·)

/-- What a registration comes to. -/
inductive Placed (W : Type) where
  | parked (slots : List (Option W))
  | displaced (slots : List (Option W)) (evicted : Option W)
  /-- There is no slot 0. -/
  | outOfBounds

/-- The critical section of `Notify::register`. -/
def place (slots : List (Option W)) : Placed W :=
  match scan wakers waker slots with
  | some slots => .parked slots
  | none =>
    match slots with
    | [] => .outOfBounds
    | first :: rest => .displaced (some waker :: rest) first

variable {wakers waker}

theorem place_of_scan {slots slots' : List (Option W)} (h : scan wakers waker slots = some slots') :
    place wakers waker slots = .parked slots' := by
  rw [place.eq_def, h]

theorem place_of_full {first : Option W} {rest : List (Option W)}
    (h : scan wakers waker (first :: rest) = none) :
    place wakers waker (first :: rest) = .displaced (some waker :: rest) first := by
  rw [place.eq_def, h]

end Table

/-! ### Everybody -/

/-- Where a handle's last poll is, or how it ended. -/
inductive Poll (T W : Type) where
  | idle | check | load | register
  /-- The waker it has displaced is to be woken. -/
  | evicting (evicted : W)
  | checkAgain | loadAgain | pending
  | ready (value : T)

/-- A `Changes` handle. -/
structure Handle (T W : Type) where
  seen : Nat
  point : Poll T W
  /-- The waker of the last poll. -/
  waker : Option W
  /-- When it was last registered. -/
  since : Nat

/-- A `store` call, by the step it takes next, or a handle. -/
inductive Party (T W : Type) where
  | storing (value : T)
  | bumping
  /-- The wakers taken out of the slots that are still to be woken. -/
  | waking (left : List W)
  | stored
  | handle (h : Handle T W)

/-- What happens to a task. -/
inductive Event where
  | registered (task : Nat)
  | woke (task : Nat)
  deriving DecidableEq, Repr

/-- A cell, and everybody who uses it. -/
structure System (T W : Type) where
  inner : Option T
  generation : Nat
  evictions : Nat
  waiting : List (Option W)
  parties : List (Party T W)
  panicked : Bool
  log : List Event

/-- One turn. -/
inductive Turn (T W : Type) where
  | store (value : T)
  /-- `changes()`. -/
  | subscribe
  /-- A handle is polled, where it is not being polled. -/
  | poll (i : Nat) (waker : W)
  /-- The next critical section or wake of a party. -/
  | go (i : Nat)

/-- Whether a handle's poll has not come back. -/
def Poll.polling {T W : Type} : Poll T W → Bool
  | check | load | register | evicting _ | checkAgain | loadAgain => true
  | idle | pending | ready _ => false

namespace System

variable {T W : Type} (wakers : Wakers W)

/-- A party comes to where it is next. -/
def move (sys : System T W) (i : Nat) (party : Party T W) : System T W :=
  { sys with parties := sys.parties.set i party }

/-- A party wakes a waker, and comes to where it is next. -/
def wake (sys : System T W) (i : Nat) (party : Party T W) (waker : W) : System T W :=
  { sys.move i party with log := sys.log ++ [.woke (wakers.wakes waker)] }

/-- The critical section of `Notify::bump`. -/
def bump (sys : System T W) (i : Nat) : System T W :=
  { sys.move i (.waking (sys.waiting.filterMap id)) with
    generation := (sys.generation + 1) % 2 ^ 32
    waiting := sys.waiting.map fun _ ↦ none }

/-- The critical section of `register`, for the handle of a party. -/
def register (sys : System T W) (i : Nat) (h : Handle T W) (waker : W) : System T W :=
  let registered : System T W :=
    { sys with log := sys.log ++ [.registered (wakers.wakes waker)] }
  match place wakers waker sys.waiting with
  | .parked slots =>
    { registered.move i (.handle { h with point := .checkAgain, since := sys.log.length }) with
      waiting := slots }
  | .displaced slots evicted =>
    { registered.move i (.handle
        { h with
          point := (evicted.map Poll.evicting).getD .checkAgain
          since := sys.log.length }) with
      waiting := slots
      evictions := saturatingSucc (2 ^ 32 - 1) sys.evictions }
  | .outOfBounds => { sys.move i (.handle { h with point := .idle }) with panicked := true }

/-- The next critical section of `Changed::poll`, or the wake that `register` owes. -/
def poll (sys : System T W) (i : Nat) (h : Handle T W) : Option (System T W) :=
  match h.point with
  | .check =>
    if h.seen = sys.generation then some (sys.move i (.handle { h with point := .register }))
    else some (sys.move i (.handle { h with seen := sys.generation, point := .load }))
  | .load =>
    some (sys.move i (.handle { h with point := (sys.inner.map Poll.ready).getD .register }))
  | .register => h.waker.map (sys.register wakers i h)
  | .evicting evicted => some (sys.wake wakers i (.handle { h with point := .checkAgain }) evicted)
  | .checkAgain =>
    if h.seen = sys.generation then some (sys.move i (.handle { h with point := .pending }))
    else some (sys.move i (.handle { h with seen := sys.generation, point := .loadAgain }))
  | .loadAgain =>
    some (sys.move i (.handle { h with point := (sys.inner.map Poll.ready).getD .pending }))
  | .idle | .pending | .ready _ => none

/-- The next step of a party. -/
def go (sys : System T W) (i : Nat) : Party T W → Option (System T W)
  | .storing value => some { sys.move i .bumping with inner := some value }
  | .bumping => some (sys.bump i)
  | .waking (waker :: left) => some (sys.wake wakers i (.waking left) waker)
  | .waking [] => some (sys.move i .stored)
  | .stored => none
  | .handle h => sys.poll wakers i h

/-- What one turn does. -/
def step (sys : System T W) : Turn T W → Option (System T W)
  | .store value => some { sys with parties := sys.parties ++ [.storing value] }
  | .subscribe =>
    some { sys with parties := sys.parties ++ [.handle ⟨sys.generation, .idle, none, 0⟩] }
  | .poll i waker =>
    match sys.parties[i]? with
    | some (.handle h) =>
      if h.point.polling then none
      else some (sys.move i (.handle { h with point := .check, waker := some waker }))
    | _ => none
  | .go i => sys.parties[i]?.bind (sys.go wakers i)

/-- An empty cell with a number of slots. -/
def new (waiters : Nat) : System T W :=
  ⟨none, 0, 0, List.replicate waiters none, [], false, []⟩

end System

/-! ### The law -/

/-- The wakers a poll has yet to wake. -/
def Poll.owes {T W : Type} : Poll T W → List W
  | evicting evicted => [evicted]
  | idle | check | load | register | checkAgain | loadAgain | pending | ready _ => []

/-- The wakers a party has yet to wake. -/
def Party.owes {T W : Type} : Party T W → List W
  | waking left => left
  | handle h => h.point.owes
  | storing _ | bumping | stored => []

namespace System

section Law

variable {T W : Type} (wakers : Wakers W)

/-- A slot holds a waker that wakes a task. -/
def Parked (sys : System T W) (task : Nat) : Prop :=
  ∃ waker, some waker ∈ sys.waiting ∧ wakers.wakes waker = task

/-- Somebody past its critical section is about to wake a task. -/
def Owed (sys : System T W) (task : Nat) : Prop :=
  ∃ (i : Nat) (party : Party T W), sys.parties[i]? = some party ∧
    ∃ waker ∈ party.owes, wakers.wakes waker = task

/-- A task has been woken since a moment, or is about to be. -/
def Told (sys : System T W) (since task : Nat) : Prop :=
  Event.woke task ∈ sys.log.drop (since + 1) ∨ sys.Owed wakers task

/-- A handle was registered for a task when it says it was. -/
def Registered (sys : System T W) (h : Handle T W) (task : Nat) : Prop :=
  h.waker.map wakers.wakes = some task ∧ sys.log[h.since]? = some (.registered task)

/-- **The table loses nobody.** -/
structure NobodyLost (sys : System T W) : Prop where
  unharmed : sys.panicked = false
  /-- Whoever was registered is in a slot, or has been told since. -/
  kept : ∀ (k : Nat) task, sys.log[k]? = some (.registered task) →
    sys.Parked wakers task ∨ sys.Told wakers k task
  /-- Whoever was left waiting for a change there has been has been told since it was registered. -/
  told : ∀ (i : Nat) (h : Handle T W), sys.parties[i]? = some (.handle h) → h.point = .pending →
    ∃ task, sys.Registered wakers h task ∧
      (h.seen ≠ sys.generation → sys.Told wakers h.since task)

/-! ### The invariant -/

/-- Where a handle stands. -/
def HandleStands (sys : System T W) (h : Handle T W) : Prop :=
  match h.point with
  | .evicting _ | .checkAgain => ∃ task, sys.Registered wakers h task
  | .loadAgain | .pending =>
    ∃ task, sys.Registered wakers h task ∧ (h.seen ≠ sys.generation → sys.Told wakers h.since task)
  | .idle | .check | .load | .register | .ready _ => True

/-- Where a party stands. -/
def Stands (sys : System T W) : Party T W → Prop
  | .handle h => sys.HandleStands wakers h
  | .storing _ | .bumping | .waking _ | .stored => True

/-- What every turn keeps. -/
structure Kept (sys : System T W) : Prop where
  room : sys.waiting ≠ []
  unharmed : sys.panicked = false
  kept : ∀ (k : Nat) task, sys.log[k]? = some (.registered task) →
    sys.Parked wakers task ∨ sys.Told wakers k task
  stands : ∀ (i : Nat) (party : Party T W), sys.parties[i]? = some party → sys.Stands wakers party

theorem kept_new {waiters : Nat} (h : 0 < waiters) : (new waiters : System T W).Kept wakers where
  room := by
    rw [Ne, new, List.replicate_eq_nil_iff]
    omega
  unharmed := rfl
  kept _ _ h := absurd h (Option.some_ne_none _).symm
  stands _ _ h := absurd h (Option.some_ne_none _).symm

/-- What a turn does to whoever waits. -/
structure Follows (sys t : System T W) : Prop where
  log : sys.log <+: t.log
  told : ∀ since task, since < sys.log.length → sys.Told wakers since task → t.Told wakers since task
  parked : ∀ task, sys.Parked wakers task → t.Parked wakers task ∨ t.Owed wakers task
  /-- A bump leaves nobody in a slot. -/
  drained : t.generation = sys.generation ∨ ∀ task, sys.Parked wakers task → t.Owed wakers task

end Law

section Turns

variable {T W : Type} {wakers : Wakers W} {sys t : System T W} {i : Nat} {x y : Party T W}

theorem getElem?_of_prefix {log log' : List Event} (h : log <+: log') {k : Nat} {e : Event}
    (hk : log[k]? = some e) : log'[k]? = some e := by
  obtain ⟨rest, rfl⟩ := h
  rw [List.getElem?_append_left (Transition.lt_length_of_getElem? hk), hk]

/-- **Where a handle stands is not moved by what others do.** -/
theorem Kept.follow (hkept : sys.Kept wakers) (h : sys.Follows wakers t) {party : Party T W}
    (hstands : sys.Stands wakers party) : t.Stands wakers party := by
  rcases party with value | - | left | - | handle
  case handle =>
    have hregistered : ∀ task, sys.Registered wakers handle task →
        t.Registered wakers handle task :=
      fun task hregistered ↦ ⟨hregistered.1, getElem?_of_prefix h.log hregistered.2⟩
    have htold : ∀ task, sys.Registered wakers handle task →
        (handle.seen ≠ sys.generation → sys.Told wakers handle.since task) →
          handle.seen ≠ t.generation → t.Told wakers handle.since task := by
      intro task hat htold hmoved
      have hlt := Transition.lt_length_of_getElem? hat.2
      rcases h.drained with hsame | hdrained
      · exact h.told handle.since task hlt (htold (hsame ▸ hmoved))
      · -- the generation has moved: it was in a slot that has been emptied, or told before
        rcases hkept.kept handle.since task hat.2 with hparked | htold
        · exact .inr (hdrained task hparked)
        · exact h.told handle.since task hlt htold
    rw [Stands, HandleStands] at hstands ⊢
    rcases hpoint : handle.point with - | - | - | - | evicted | - | - | - | value <;>
      rw [hpoint] at hstands
    case evicting | checkAgain => exact hstands.imp hregistered
    case loadAgain | pending =>
      obtain ⟨task, hat, hpending⟩ := hstands
      exact ⟨task, hregistered task hat, htold task hat hpending⟩
    all_goals exact trivial
  all_goals exact trivial

/-- Whoever was registered before a turn is in a slot after it, or has been told. -/
theorem Kept.kept_follow (hkept : sys.Kept wakers) (h : sys.Follows wakers t) {k task : Nat}
    (hk : sys.log[k]? = some (.registered task)) :
    t.Parked wakers task ∨ t.Told wakers k task := by
  rcases hkept.kept k task hk with hparked | htold
  · exact (h.parked task hparked).imp_right .inr
  · exact .inr (h.told k task (Transition.lt_length_of_getElem? hk) htold)

/-- A party that moves hands on what it owes, or has seen to it. -/
theorem owed_of_set (hx : sys.parties[i]? = some x) (hparties : t.parties = sys.parties.set i y)
    {rest : List Event} (howes : ∀ waker ∈ x.owes, waker ∈ y.owes ∨
      Event.woke (wakers.wakes waker) ∈ rest) {task : Nat} (h : sys.Owed wakers task) :
    Event.woke task ∈ rest ∨ t.Owed wakers task := by
  obtain ⟨j, party, hparty, waker, hmem, rfl⟩ := h
  rcases eq_or_ne i j with rfl | hne
  · obtain rfl := Option.some.inj (hx.symm.trans hparty)
    rcases howes waker hmem with hstill | hwoke
    · refine .inr ⟨i, y, ?_, waker, hstill, rfl⟩
      rw [hparties]
      exact Transition.getElem?_set_moved hx y
    · exact .inl hwoke
  · refine .inr ⟨j, party, ?_, waker, hmem, rfl⟩
    rw [hparties, List.getElem?_set_ne hne]
    exact hparty

/-- What has been told stays told as the log goes on. -/
theorem told_of_append {rest : List Event} (hlog : t.log = sys.log ++ rest)
    (howed : ∀ task, sys.Owed wakers task → Event.woke task ∈ rest ∨ t.Owed wakers task)
    {since task : Nat} (hsince : since < sys.log.length) (h : sys.Told wakers since task) :
    t.Told wakers since task := by
  have hdrop : t.log.drop (since + 1) = sys.log.drop (since + 1) ++ rest := by
    rw [hlog, List.drop_append_of_le_length hsince]
  rw [Told, hdrop, List.mem_append]
  rcases h with hwoke | howes
  · exact .inl (.inl hwoke)
  · exact (howed task howes).imp_left .inr

/-- What the step of a party does to whoever waits. -/
theorem follows_of_set (hx : sys.parties[i]? = some x) (hparties : t.parties = sys.parties.set i y)
    {rest : List Event} (hlog : t.log = sys.log ++ rest)
    (howes : ∀ waker ∈ x.owes, waker ∈ y.owes ∨ Event.woke (wakers.wakes waker) ∈ rest)
    (hparked : ∀ task, sys.Parked wakers task → t.Parked wakers task ∨ t.Owed wakers task)
    (hdrained : t.generation = sys.generation ∨
      ∀ task, sys.Parked wakers task → t.Owed wakers task) : sys.Follows wakers t where
  log := hlog ▸ List.prefix_append _ _
  told _ _ hsince h := told_of_append hlog (fun _ ↦ owed_of_set hx hparties howes) hsince h
  parked := hparked
  drained := hdrained

/-- **What the step of a party keeps.** -/
theorem Kept.set (hkept : sys.Kept wakers) (h : sys.Follows wakers t)
    (hparties : t.parties = sys.parties.set i y) (hroom : t.waiting ≠ [])
    (hunharmed : t.panicked = false)
    (hnew : ∀ (k : Nat) task, sys.log.length ≤ k → t.log[k]? = some (.registered task) →
      t.Parked wakers task ∨ t.Told wakers k task) (hy : t.Stands wakers y) : t.Kept wakers where
  room := hroom
  unharmed := hunharmed
  kept k task hk := by
    rcases Nat.lt_or_ge k sys.log.length with hlt | hge
    · obtain ⟨rest, hrest⟩ := h.log
      rw [← hrest, List.getElem?_append_left hlt] at hk
      exact hkept.kept_follow h hk
    · exact hnew k task hge hk
  stands j party hparty := by
    rw [hparties] at hparty
    rcases Transition.getElem?_of_set hparty with ⟨rfl, rfl⟩ | ⟨-, hparty⟩
    · exact hy
    · exact hkept.follow h (hkept.stands j party hparty)

/-- A step that touches neither the slots nor the log. -/
theorem Kept.move (hkept : sys.Kept wakers) (hx : sys.parties[i]? = some x)
    (howes : ∀ waker ∈ x.owes, waker ∈ y.owes) (hy : sys.Stands wakers y) :
    (sys.move i y).Kept wakers := by
  have hfollows : sys.Follows wakers (sys.move i y) :=
    follows_of_set hx rfl (List.append_nil _).symm (fun waker hmem ↦ .inl (howes waker hmem))
      (fun _ ↦ .inl) (.inl rfl)
  refine hkept.set hfollows rfl hkept.room hkept.unharmed (fun k task hge hk ↦ ?_)
    (hkept.follow hfollows hy)
  exact absurd (Transition.lt_length_of_getElem? hk) (Nat.not_lt.2 hge)

/-- A new party. -/
theorem Kept.enter (hkept : sys.Kept wakers)
    (hy : ({ sys with parties := sys.parties ++ [y] } : System T W).Stands wakers y) :
    Kept wakers { sys with parties := sys.parties ++ [y] } := by
  have howed : ∀ task, sys.Owed wakers task →
      ({ sys with parties := sys.parties ++ [y] } : System T W).Owed wakers task := by
    rintro task ⟨j, party, hparty, howes⟩
    refine ⟨j, party, ?_, howes⟩
    show (sys.parties ++ [y])[j]? = some party
    rw [List.getElem?_append_left (Transition.lt_length_of_getElem? hparty), hparty]
  have hfollows : sys.Follows wakers { sys with parties := sys.parties ++ [y] } :=
    ⟨List.prefix_refl _, fun _ _ _ ↦ .imp_right (howed _), fun _ ↦ .inl, .inl rfl⟩
  refine ⟨hkept.room, hkept.unharmed, fun k task hk ↦ hkept.kept_follow hfollows hk, ?_⟩
  exact Transition.forall_append (fun j party hparty ↦
    hkept.follow hfollows (hkept.stands j party hparty)) hy

/-- **A wake.** -/
theorem Kept.wake (hkept : sys.Kept wakers) {waker : W} (hx : sys.parties[i]? = some x)
    (howes : ∀ waker' ∈ x.owes, waker' ∈ y.owes ∨ waker' = waker) (hy : sys.Stands wakers y) :
    (sys.wake wakers i y waker).Kept wakers := by
  have hfollows : sys.Follows wakers (sys.wake wakers i y waker) := by
    refine follows_of_set hx rfl rfl (fun waker' hmem ↦ ?_) (fun _ ↦ .inl) (.inl rfl)
    refine (howes waker' hmem).imp_right ?_
    rintro rfl
    exact List.mem_singleton.2 rfl
  refine hkept.set hfollows rfl hkept.room hkept.unharmed (fun k task hge hk ↦ ?_)
    (hkept.follow hfollows hy)
  rcases Transition.getElem?_of_append hk with ⟨-, hevent⟩ | hold
  · exact Event.noConfusion hevent
  · exact absurd (Transition.lt_length_of_getElem? hold) (Nat.not_lt.2 hge)

/-- **A bump**: whoever was in a slot is owed a wake. -/
theorem Kept.bump (hkept : sys.Kept wakers) (hx : sys.parties[i]? = some .bumping) :
    (sys.bump i).Kept wakers := by
  have hdrained : ∀ task, sys.Parked wakers task → (sys.bump i).Owed wakers task := by
    rintro task ⟨waker, hmem, htask⟩
    have htaken : waker ∈ sys.waiting.filterMap id := List.mem_filterMap.2 ⟨_, hmem, rfl⟩
    exact ⟨i, _, Transition.getElem?_set_moved hx _, waker, htaken, htask⟩
  have hfollows : sys.Follows wakers (sys.bump i) :=
    follows_of_set hx rfl (List.append_nil _).symm
      (fun waker hmem ↦ absurd hmem List.not_mem_nil)
      (fun task hparked ↦ .inr (hdrained task hparked)) (.inr hdrained)
  refine hkept.set hfollows rfl ?_ hkept.unharmed (fun k task hge hk ↦ ?_) trivial
  · exact fun hnil ↦ hkept.room (List.map_eq_nil_iff.1 hnil)
  · exact absurd (Transition.lt_length_of_getElem? hk) (Nat.not_lt.2 hge)

/-- The scan leaves whoever is there and puts the waker in, or finds one that wakes the same task. -/
theorem scan_spec {waker : W} {slots slots' : List (Option W)}
    (h : scan wakers waker slots = some slots') :
    slots' ≠ [] ∧ (∀ existing, some existing ∈ slots → some existing ∈ slots') ∧
      ∃ existing, some existing ∈ slots' ∧ wakers.wakes existing = wakers.wakes waker := by
  induction slots generalizing slots' with
  | nil => exact absurd h (Option.some_ne_none slots').symm
  | cons slot slots ih =>
    rcases slot with - | existing
    · -- an empty slot is filled
      obtain rfl := Option.some.inj h
      refine ⟨List.cons_ne_nil _ _, fun other hmem ↦ ?_, waker, List.mem_cons_self, rfl⟩
      rcases List.mem_cons.1 hmem with hnone | hmem
      · exact absurd hnone (Option.some_ne_none other)
      · exact List.mem_cons_of_mem _ hmem
    · rw [scan] at h
      split at h
      · next hwill =>
        obtain rfl := Option.some.inj h
        exact ⟨List.cons_ne_nil _ _, fun _ hmem ↦ hmem, existing, List.mem_cons_self,
          wakers.sound existing waker hwill⟩
      · obtain ⟨rest, hrest, rfl⟩ := Option.map_eq_some_iff.1 h
        obtain ⟨-, hkeeps, same, hsame, htask⟩ := ih hrest
        refine ⟨List.cons_ne_nil _ _, fun other hmem ↦ ?_, same, List.mem_cons_of_mem _ hsame, htask⟩
        rcases List.mem_cons.1 hmem with heq | hmem
        · exact heq ▸ List.mem_cons_self
        · exact List.mem_cons_of_mem _ (hkeeps other hmem)

/-- What a registration keeps, wherever it has put the waker. -/
theorem Kept.registered (hkept : sys.Kept wakers) {h : Handle T W} {waker : W} {point : Poll T W}
    (hx : sys.parties[i]? = some (.handle h)) (hpoint : h.point = .register)
    (hwaker : h.waker = some waker) (hnext : point = .checkAgain ∨ ∃ evicted, point = .evicting evicted)
    (hparties : t.parties = sys.parties.set i (.handle { h with point, since := sys.log.length }))
    (hlog : t.log = sys.log ++ [.registered (wakers.wakes waker)])
    (hgeneration : t.generation = sys.generation) (hunharmed : t.panicked = false)
    (hroom : t.waiting ≠ []) (hself : t.Parked wakers (wakers.wakes waker))
    (hparked : ∀ task, sys.Parked wakers task → t.Parked wakers task ∨ t.Owed wakers task) :
    t.Kept wakers := by
  have hfollows : sys.Follows wakers t := by
    refine follows_of_set hx hparties hlog (fun owed hmem ↦ ?_) hparked (.inl hgeneration)
    rw [Party.owes, hpoint] at hmem
    exact absurd hmem List.not_mem_nil
  refine hkept.set hfollows hparties hroom hunharmed (fun k task hge hk ↦ ?_) ?_
  · rw [hlog] at hk
    rcases Transition.getElem?_of_append hk with ⟨-, hevent⟩ | hold
    · obtain rfl := Event.registered.inj hevent
      exact .inl hself
    · exact absurd (Transition.lt_length_of_getElem? hold) (Nat.not_lt.2 hge)
  · have hat : t.Registered wakers { h with point, since := sys.log.length }
        (wakers.wakes waker) := by
      refine ⟨?_, ?_⟩
      · show h.waker.map wakers.wakes = _
        rw [hwaker]
        rfl
      · rw [hlog]
        exact List.getElem?_concat_length
    rcases hnext with rfl | ⟨evicted, rfl⟩
    · exact ⟨_, hat⟩
    · exact ⟨_, hat⟩

/-- **A registration**: the waker is in a slot, and whoever was displaced is owed a wake. -/
theorem Kept.register (hkept : sys.Kept wakers) {h : Handle T W} {waker : W}
    (hx : sys.parties[i]? = some (.handle h)) (hpoint : h.point = .register)
    (hwaker : h.waker = some waker) : (sys.register wakers i h waker).Kept wakers := by
  rw [System.register]
  rcases hscan : scan wakers waker sys.waiting with - | slots
  · rcases hwaiting : sys.waiting with - | ⟨first, rest⟩
    · exact absurd hwaiting hkept.room
    · -- every slot is another's: the first of them is displaced
      rw [place_of_full (hwaiting ▸ hscan)]
      refine hkept.registered hx hpoint hwaker ?_ rfl rfl rfl hkept.unharmed (List.cons_ne_nil _ _)
        ⟨waker, List.mem_cons_self, rfl⟩ ?_
      · rcases first with - | evicted
        · exact .inl rfl
        · exact .inr ⟨evicted, rfl⟩
      · rintro task ⟨existing, hmem, htask⟩
        rw [hwaiting] at hmem
        rcases List.mem_cons.1 hmem with rfl | hmem
        · exact .inr ⟨i, _, Transition.getElem?_set_moved hx _, existing,
            List.mem_singleton.2 rfl, htask⟩
        · exact .inl ⟨existing, List.mem_cons_of_mem _ hmem, htask⟩
  · obtain ⟨hroom, hkeeps, same, hsame, htask⟩ := scan_spec hscan
    rw [place_of_scan hscan]
    refine hkept.registered hx hpoint hwaker (.inl rfl) rfl rfl rfl hkept.unharmed hroom
      ⟨same, hsame, htask⟩ ?_
    rintro task ⟨existing, hmem, htask⟩
    exact .inl ⟨existing, hkeeps existing hmem, htask⟩

/-- A handle that owes nothing moves. -/
theorem Kept.move_handle (hkept : sys.Kept wakers) {h h' : Handle T W}
    (hx : sys.parties[i]? = some (.handle h)) (hnothing : h.point.owes = [])
    (hy : sys.HandleStands wakers h') : (sys.move i (.handle h')).Kept wakers := by
  refine hkept.move hx (fun waker hmem ↦ ?_) hy
  rw [Party.owes, hnothing] at hmem
  exact absurd hmem List.not_mem_nil

/-- **What the next section or wake of a poll keeps.** -/
theorem Kept.poll (hkept : sys.Kept wakers) {h : Handle T W}
    (hx : sys.parties[i]? = some (.handle h)) (hpoll : sys.poll wakers i h = some t) :
    t.Kept wakers := by
  have hstands : sys.HandleStands wakers h := hkept.stands i _ hx
  obtain ⟨seen, point, waker, since⟩ := h
  rcases point with - | - | - | - | evicted | - | - | - | value
  case check =>
    rw [System.poll] at hpoll
    dsimp only at hpoll
    split at hpoll
    · obtain rfl := Option.some.inj hpoll
      exact hkept.move_handle hx rfl trivial
    · obtain rfl := Option.some.inj hpoll
      exact hkept.move_handle hx rfl trivial
  case load =>
    obtain rfl := Option.some.inj hpoll
    refine hkept.move_handle hx rfl ?_
    rcases sys.inner with - | value
    · exact trivial
    · exact trivial
  case register =>
    obtain ⟨waker, hwaker, rfl⟩ := Option.map_eq_some_iff.1 hpoll
    exact hkept.register hx rfl hwaker
  case evicting =>
    obtain rfl := Option.some.inj hpoll
    refine hkept.wake hx (fun waker' hmem ↦ .inr ?_) hstands
    exact List.mem_singleton.1 hmem
  case checkAgain =>
    obtain ⟨task, hat⟩ := hstands
    rw [System.poll] at hpoll
    dsimp only at hpoll
    split at hpoll
    · next hsame =>
      obtain rfl := Option.some.inj hpoll
      exact hkept.move_handle hx rfl ⟨task, hat, fun hmoved ↦ absurd hsame hmoved⟩
    · obtain rfl := Option.some.inj hpoll
      exact hkept.move_handle hx rfl ⟨task, hat, fun hmoved ↦ absurd rfl hmoved⟩
  case loadAgain =>
    obtain rfl := Option.some.inj hpoll
    refine hkept.move_handle hx rfl ?_
    rcases sys.inner with - | value
    · exact hstands
    · exact trivial
  all_goals exact absurd hpoll (Option.some_ne_none t).symm

/-- **What every turn keeps.** -/
theorem Kept.step (hkept : sys.Kept wakers) {turn : Turn T W}
    (hstep : sys.step wakers turn = some t) : t.Kept wakers := by
  rcases turn with value | - | ⟨i, waker⟩ | i
  case store =>
    obtain rfl := Option.some.inj hstep
    exact hkept.enter trivial
  case subscribe =>
    obtain rfl := Option.some.inj hstep
    exact hkept.enter trivial
  case poll =>
    rw [System.step] at hstep
    split at hstep
    · next h hx =>
      split at hstep
      · exact absurd hstep (Option.some_ne_none t).symm
      · next hfree =>
        obtain rfl := Option.some.inj hstep
        refine hkept.move_handle hx ?_ trivial
        -- a poll that has come back owes nothing
        rcases hpoint : h.point with - | - | - | - | evicted | - | - | - | value <;>
          rw [hpoint] at hfree
        case evicting => exact absurd rfl hfree
        all_goals rfl
    · exact absurd hstep (Option.some_ne_none t).symm
  case go =>
    obtain ⟨x, hx, hgo⟩ := Option.bind_eq_some_iff.1 hstep
    rcases x with value | - | (- | ⟨waker, left⟩) | - | h
    · obtain rfl := Option.some.inj hgo
      have hmoved : (sys.move i .bumping).Kept wakers :=
        hkept.move hx (fun waker hmem ↦ absurd hmem List.not_mem_nil) trivial
      exact ⟨hmoved.room, hmoved.unharmed, hmoved.kept, hmoved.stands⟩
    · obtain rfl := Option.some.inj hgo
      exact hkept.bump hx
    · obtain rfl := Option.some.inj hgo
      exact hkept.move hx (fun waker hmem ↦ absurd hmem List.not_mem_nil) trivial
    · obtain rfl := Option.some.inj hgo
      exact hkept.wake hx (fun waker' hmem ↦ (List.mem_cons.1 hmem).symm) trivial
    · exact absurd hgo (Option.some_ne_none t).symm
    · exact hkept.poll hx hgo

end Turns

theorem kept_of_run {T W : Type} {wakers : Wakers W} {waiters : Nat} (hroom : 0 < waiters)
    {turns : List (Turn T W)} {sys : System T W}
    (hrun : run (step wakers) (new waiters) turns = some sys) : sys.Kept wakers :=
  Transition.run_invariant (fun _ _ _ hstep hkept ↦ hkept.step hstep) hrun (kept_new wakers hroom)

/-- **The table loses nobody**, of whatever size it is, if it has a slot at all. -/
theorem nobodyLost_of_run {T W : Type} {wakers : Wakers W} {waiters : Nat} (hroom : 0 < waiters)
    {turns : List (Turn T W)} {sys : System T W}
    (hrun : run (step wakers) (new waiters) turns = some sys) : sys.NobodyLost wakers := by
  have hkept := kept_of_run hroom hrun
  refine ⟨hkept.unharmed, hkept.kept, fun i h hparty hpending ↦ ?_⟩
  have hstands : sys.HandleStands wakers h := hkept.stands i _ hparty
  rw [HandleStands, hpending] at hstands
  exact hstands

/-! ### Two tasks and one slot -/

/-- Wakers that are known by the task they wake. -/
def byTask : Wakers Nat where
  wakes := id
  willWake existing waker := decide (existing = waker)
  sound _ _ := of_decide_eq_true

/-- The first task waits, and the second one's registration displaces it. -/
def displacing : List (Turn Nat Nat) :=
  [.subscribe, .subscribe, .poll 0 0, .go 0, .go 0, .go 0, .poll 1 1, .go 1, .go 1]

/-- An interrupt stores before the first task's waker is woken. -/
def interrupted : List (Turn Nat Nat) :=
  displacing ++ [.store 5, .go 2, .go 2]

theorem nobodyLost_interrupted : ∃ sys : System Nat Nat,
    run (step byTask) (new 1) (interrupted ++ [.go 2, .go 1, .go 1, .go 1]) = some sys ∧
      sys.NobodyLost byTask ∧ sys.log = [.registered 0, .registered 1, .woke 1, .woke 0] := by
  have hrun : run (step byTask) (new 1) (interrupted ++ [.go 2, .go 1, .go 1, .go 1]) =
      some ((run (step byTask) (new 1) (interrupted ++ [.go 2, .go 1, .go 1, .go 1])).get rfl) := rfl
  exact ⟨_, hrun, nobodyLost_of_run Nat.one_pos hrun, rfl⟩

/-- **Whoever is displaced is for a moment neither in a slot nor woken**, and a store in that moment
finds it nowhere; and where there is no slot, the first registration panics. -/
theorem nowhere_interrupted : (∃ sys : System Nat Nat,
    run (step byTask) (new 1) interrupted = some sys ∧
      sys.log = [.registered 0, .registered 1] ∧ ¬sys.Parked byTask 0 ∧
      (∃ h, sys.parties[0]? = some (.handle h) ∧ h.point = .pending ∧ h.waker = some 0 ∧
        h.seen ≠ sys.generation) ∧
      sys.parties[2]? = some (.waking [1])) ∧
    ∃ sys : System Nat Nat, run (step byTask) (new 0) [.subscribe, .poll 0 0, .go 0, .go 0] = some sys ∧
      sys.panicked = true := by
  refine ⟨⟨_, rfl, rfl, ?_, ⟨_, rfl, rfl, rfl, by decide⟩, rfl⟩, _, rfl, rfl⟩
  rintro ⟨waker, hmem, -⟩
  exact absurd (List.mem_singleton.1 hmem) (Option.some_ne_none waker)

end System

end DynamicConfig.Waiters
