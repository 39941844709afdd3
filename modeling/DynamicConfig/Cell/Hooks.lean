import DynamicConfig.Cell.Store
import DynamicConfig.Transition.Parties

/-!
# Reload hooks

The hooks of a cell are a list behind an atomic pointer. To register a hook or to take one off is to
copy the list and exchange the pointers, again and again until nobody else has exchanged them in
between; to dispatch is to read the pointer once and to run what the list holds, one hook after the
other.

A run is an interleaving of the atomic steps of any number of registrations, guard drops and
dispatches. A hook that registers, drops a guard or stores does so between the step that begins it
and the one that ends it, and nothing else is asked of where calls come from. A closure is known by
the registration that brought it, and a list by the number of lists allocated before it: whoever
compares pointers holds on to what it read, so its address is not used again.

`log` is what has happened, and no step reads it. `live` is the list it amounts to.
-/

namespace DynamicConfig.Hooks

open Cell (ReloadEvent)
open Remote (word wrappingSucc)
open Transition (run)

/-! ### The list -/

/-- Whether a hook is told of a pair of snapshots, or of the event. -/
inductive Form where
  | pair
  | event
  deriving DecidableEq, Repr

/-- `Callback`: a form, and the registration that brought the closure. -/
structure Callback where
  form : Form
  hook : Nat
  deriving DecidableEq, Repr

structure Registered where
  token : Nat
  callback : Callback
  deriving DecidableEq, Repr

/-- A list, and how many were allocated before it. -/
structure Published where
  id : Nat
  list : List Registered
  deriving DecidableEq, Repr

/-- Whether a dispatch calls a hook: the pair form has nowhere to put "there was none". -/
def Callback.fires {T R : Type} (callback : Callback) (event : ReloadEvent T R) : Bool :=
  match callback.form with
  | .pair => event.previous.isSome
  | .event => true

/-- The hooks of a list that a dispatch calls. -/
def fired {T R : Type} (event : ReloadEvent T R) (list : List Registered) : List Nat :=
  (list.filter fun r ↦ r.callback.fires event).map fun r ↦ r.callback.hook

theorem fired_cons_of_fires {T R : Type} {event : ReloadEvent T R} {r : Registered}
    (h : r.callback.fires event = true) (list : List Registered) :
    fired event (r :: list) = r.callback.hook :: fired event list := by
  simp [fired, h]

theorem fired_cons_of_silent {T R : Type} {event : ReloadEvent T R} {r : Registered}
    (h : ¬r.callback.fires event = true) (list : List Registered) :
    fired event (r :: list) = fired event list := by
  simp [fired, h]

/-! ### Calls -/

/-- The atomic step a call takes next. -/
inductive Point (T R : Type) where
  /-- `register`: a token is to be taken. -/
  | registering (form : Form)
  /-- There is to be a list. -/
  | numbered (token : Nat) (callback : Callback)
  /-- The list is to be read. -/
  | slotted (token : Nat) (callback : Callback)
  /-- The list read is to be exchanged for one with the hook at its end. -/
  | adding (token : Nat) (callback : Callback) (seen : Published)
  /-- The registration has come back, and its guard is held until it is dropped. -/
  | registered (token : Nat) (held : Bool)
  /-- `unregister`, of the guard of a registration. -/
  | unregistering (guard token : Nat)
  | found (guard token : Nat)
  | removing (guard token : Nat) (seen : Published)
  | unregistered
  /-- `dispatch`, of an event. -/
  | dispatching (event : ReloadEvent T R)
  | reached (event : ReloadEvent T R)
  /-- Between two hooks, with those still to run. -/
  | running (event : ReloadEvent T R) (left : List Registered)
  /-- In a hook. -/
  | inside (event : ReloadEvent T R) (left : List Registered)
  | dispatched (event : ReloadEvent T R)

namespace Point

variable {T R : Type}

/-- The token of a registration that has one. -/
def token : Point T R → Option Nat
  | numbered token _ | slotted token _ | adding token _ _ | registered token _ => some token
  | registering _ | unregistering _ _ | found _ _ | removing _ _ _ | unregistered | dispatching _
  | reached _ | running _ _ | inside _ _ | dispatched _ => none

/-- The list a call compares with. -/
def seen : Point T R → Option Published
  | adding _ _ seen | removing _ _ seen => some seen
  | registering _ | numbered _ _ | slotted _ _ | registered _ _ | unregistering _ _ | found _ _
  | unregistered | dispatching _ | reached _ | running _ _ | inside _ _ | dispatched _ => none

/-- What a dispatch is of. -/
def event : Point T R → Option (ReloadEvent T R)
  | dispatching event | reached event | running event _ | inside event _ | dispatched event =>
    some event
  | registering _ | numbered _ _ | slotted _ _ | adding _ _ _ | registered _ _ | unregistering _ _
  | found _ _ | removing _ _ _ | unregistered => none

end Point

/-- What happens. -/
inductive Event where
  /-- A registration takes its token. -/
  | numbered (i : Nat)
  /-- A registration takes effect. -/
  | took (i : Nat) (registered : Registered)
  /-- The guard of a registration is dropped. -/
  | dropped (i : Nat)
  /-- The drop takes effect. -/
  | removed (i : Nat)
  /-- A dispatch reads the list. -/
  | read (d : Nat) (list : List Registered)
  /-- A dispatch calls a hook. -/
  | ran (d hook : Nat)
  deriving DecidableEq, Repr

/-- `ConfigCell`'s hooks and tokens, the calls on them, and what has happened. -/
structure System (T R : Type) where
  hooks : Option Published
  nextToken : Nat
  /-- How many lists have been allocated. -/
  allocated : Nat
  calls : List (Point T R)
  log : List Event

/-- One turn. -/
inductive Turn (T R : Type) where
  | register (form : Form)
  /-- The guard of a registration is dropped. -/
  | drop (i : Nat)
  | dispatch (event : ReloadEvent T R)
  /-- A call takes its next step. -/
  | go (i : Nat)
  /-- The hook a dispatch is in comes to its end. -/
  | finish (d : Nat) (panicked : Bool)

namespace System

variable {T R : Type}

/-- A call comes to a point. -/
def move (sys : System T R) (i : Nat) (point : Point T R) : System T R :=
  { sys with calls := sys.calls.set i point }

/-- A call comes to a point, and something has happened. -/
def write (sys : System T R) (i : Nat) (point : Point T R) (e : Event) : System T R :=
  { sys.move i point with log := sys.log ++ [e] }

/-- A call's exchange succeeds. -/
def publish (sys : System T R) (i : Nat) (point : Point T R) (e : Event)
    (list : List Registered) : System T R :=
  { sys.write i point e with
    hooks := some ⟨sys.allocated, list⟩, allocated := sys.allocated + 1 }

/-- The next atomic step of a call. -/
def go (sys : System T R) (i : Nat) : Point T R → Option (System T R)
  | .registering form =>
    some { sys.write i (.numbered sys.nextToken ⟨form, i⟩) (.numbered i) with
      nextToken := wrappingSucc sys.nextToken }
  | .numbered token callback =>
    some { sys.move i (.slotted token callback) with
      hooks := sys.hooks.or (some ⟨sys.allocated, []⟩), allocated := sys.allocated + 1 }
  | .slotted token callback => sys.hooks.map fun seen ↦ sys.move i (.adding token callback seen)
  | .adding token callback seen =>
    sys.hooks.map fun current ↦
      if current.id = seen.id then
        sys.publish i (.registered token true) (.took i ⟨token, callback⟩)
          (seen.list ++ [⟨token, callback⟩])
      -- somebody else's exchange in between: once more, on what it left
      else sys.move i (.adding token callback current)
  | .registered _ _ => none
  | .unregistering guard token =>
    match sys.hooks with
    | none => some (sys.move i .unregistered)
    | some _ => some (sys.move i (.found guard token))
  | .found guard token => sys.hooks.map fun seen ↦ sys.move i (.removing guard token seen)
  | .removing guard token seen =>
    sys.hooks.map fun current ↦
      if current.id = seen.id then
        sys.publish i .unregistered (.removed guard) (seen.list.filter fun r ↦ r.token ≠ token)
      else sys.move i (.removing guard token current)
  | .unregistered => none
  | .dispatching event =>
    match sys.hooks with
    | none => some (sys.move i (.dispatched event))
    | some _ => some (sys.move i (.reached event))
  | .reached event =>
    sys.hooks.map fun current ↦
      sys.write i (if current.list.isEmpty then .dispatched event else .running event current.list)
        (.read i current.list)
  | .running event [] => some (sys.move i (.dispatched event))
  | .running event (r :: left) =>
    if r.callback.fires event then
      some (sys.write i (.inside event left) (.ran i r.callback.hook))
    else some (sys.move i (.running event left))
  | .inside _ _ => none
  | .dispatched _ => none

/-- What one turn does. -/
def step (sys : System T R) : Turn T R → Option (System T R)
  | .register form => some { sys with calls := sys.calls ++ [.registering form] }
  | .drop i =>
    match sys.calls[i]? with
    | some (.registered token true) =>
      let dropped := sys.write i (.registered token false) (.dropped i)
      some { dropped with calls := dropped.calls ++ [.unregistering i token] }
    | _ => none
  | .dispatch event => some { sys with calls := sys.calls ++ [.dispatching event] }
  | .go i => sys.calls[i]?.bind (sys.go i)
  | .finish d _ =>
    match sys.calls[d]? with
    -- whatever it came to, the loop goes on
    | some (.inside event left) => some (sys.move d (.running event left))
    | _ => none

/-- A cell nobody has registered with. -/
def new : System T R := ⟨none, 0, 0, [], []⟩

end System

/-! ### What has happened -/

namespace Event

/-- The token's number a registration takes. -/
def number : Event → Option Nat
  | numbered i => some i
  | took _ _ | dropped _ | removed _ | read _ _ | ran _ _ => none

/-- The hook that is there from now on. -/
def taken : Event → Option Nat
  | took _ registered => some registered.callback.hook
  | numbered _ | dropped _ | removed _ | read _ _ | ran _ _ => none

/-- What a dispatch reads. -/
def reading (d : Nat) : Event → Option (List Registered)
  | read d' list => if d' = d then some list else none
  | numbered _ | took _ _ | dropped _ | removed _ | ran _ _ => none

/-- The hook a dispatch calls. -/
def calling (d : Nat) : Event → Option Nat
  | ran d' hook => if d' = d then some hook else none
  | numbered _ | took _ _ | dropped _ | removed _ | read _ _ => none

/-- The call of which an event is a step, or the registration whose guard it drops. -/
def about : Event → Option Nat
  | numbered i | took i _ | dropped i | read i _ | ran i _ => some i
  | removed _ => none

/-- What an event makes of the list. -/
def apply (list : List Registered) : Event → List Registered
  | took _ registered => list ++ [registered]
  | removed i => list.filter fun r ↦ r.callback.hook ≠ i
  | numbered _ | dropped _ | read _ _ | ran _ _ => list

end Event

/-- The registrations that have a token, in the order they took it. -/
def issued (log : List Event) : List Nat := log.filterMap Event.number

/-- The hooks that have been there, in the order their registrations took effect. -/
def effects (log : List Event) : List Nat := log.filterMap Event.taken

/-- What a dispatch has read. -/
def readIn (log : List Event) (d : Nat) : List (List Registered) := log.filterMap (Event.reading d)

/-- The hooks a dispatch has called, in order. -/
def ranIn (log : List Event) (d : Nat) : List Nat := log.filterMap (Event.calling d)

/-- The list a log amounts to. -/
def live (log : List Event) : List Registered := log.foldl Event.apply []

/-- What an event may be, after a log. -/
def Event.Fits (log : List Event) : Event → Prop
  | numbered i => i ∉ issued log
  | took i registered => registered.callback.hook = i ∧ (issued log)[registered.token]? = some i ∧
      i ∉ effects log
  | dropped _ => True
  | removed i => Event.dropped i ∈ log
  | read _ list => list = live log
  | ran _ _ => True

/-- A log of which every event fits what was before it. -/
def Record (log : List Event) : Prop :=
  ∀ before e after, log = before ++ e :: after → e.Fits before

theorem live_append (log : List Event) (e : Event) : live (log ++ [e]) = e.apply (live log) := by
  simp [live]

section Record

variable {log : List Event} {e : Event} {i : Nat} {r : Registered}

theorem record_nil : Record [] :=
  fun _ _ _ h ↦ absurd h (List.append_ne_nil_of_right_ne_nil _ (List.cons_ne_nil _ _)).symm

/-- What fits is added to the record. -/
theorem Record.append (h : Record log) (he : e.Fits log) : Record (log ++ [e]) := by
  intro before e' after heq
  rcases List.eq_nil_or_concat after with rfl | ⟨after', last, rfl⟩
  · obtain ⟨rfl, hlast⟩ := List.append_inj' heq rfl
    obtain rfl := List.singleton_inj.1 hlast
    exact he
  · have hsplit : log ++ [e] = (before ++ e' :: after') ++ [last] := by
      rw [heq, List.append_assoc, List.cons_append, List.concat_eq_append]
    exact h before e' after' (List.append_inj' hsplit rfl).1

/-- A record is one at any time. -/
theorem Record.left {rest : List Event} (h : Record (log ++ rest)) : Record log :=
  fun before e after heq ↦ h before e (after ++ rest) (by rw [heq, List.append_assoc]; rfl)

theorem Record.last (h : Record (log ++ [e])) : e.Fits log :=
  h log e [] rfl

/-- **No call takes two tokens.** -/
theorem Record.nodup_issued (h : Record log) : (issued log).Nodup := by
  induction log using List.reverseRecOn with
  | nil => exact List.nodup_nil
  | append_singleton log e ih =>
    have hbefore := ih h.left
    rw [issued, List.filterMap_append]
    rcases e with j | ⟨j, r⟩ | j | j | ⟨d, list⟩ | ⟨d, hook⟩
    · have hfresh : j ∉ issued log := h.last
      exact List.nodup_append.2 ⟨hbefore, List.nodup_singleton j,
        fun k hk l hl hkl ↦ hfresh (List.mem_singleton.1 hl ▸ hkl ▸ hk)⟩
    all_goals exact (List.append_nil (issued log)).symm ▸ hbefore

/-- **No registration takes effect twice.** -/
theorem Record.nodup_effects (h : Record log) : (effects log).Nodup := by
  induction log using List.reverseRecOn with
  | nil => exact List.nodup_nil
  | append_singleton log e ih =>
    have hbefore := ih h.left
    rw [effects, List.filterMap_append]
    rcases e with j | ⟨j, r⟩ | j | j | ⟨d, list⟩ | ⟨d, hook⟩
    case took =>
      obtain ⟨rfl, -, hfresh⟩ := h.last
      exact List.nodup_append.2 ⟨hbefore, List.nodup_singleton _,
        fun k hk l hl hkl ↦ hfresh (List.mem_singleton.1 hl ▸ hkl ▸ hk)⟩
    all_goals exact (List.append_nil (effects log)).symm ▸ hbefore

/-- A token keeps its registration. -/
theorem issued_append {token : Nat} (h : (issued log)[token]? = some i) (rest : List Event) :
    (issued (log ++ rest))[token]? = some i := by
  rw [issued, List.filterMap_append]
  exact (List.getElem?_append_left (Transition.lt_length_of_getElem? h)).trans h

/-- What a registration that took effect has put there. -/
theorem Record.of_took (h : Record log) (hr : Event.took i r ∈ log) :
    r.callback.hook = i ∧ (issued log)[r.token]? = some i := by
  obtain ⟨before, after, rfl⟩ := List.mem_iff_append.1 hr
  obtain ⟨hhook, htoken, -⟩ := h before _ after rfl
  exact ⟨hhook, issued_append htoken _⟩

/-- A token is of one registration. -/
theorem Record.eq_of_token (h : Record log) {r' : Registered} {j : Nat}
    (hr : Event.took i r ∈ log) (hr' : Event.took j r' ∈ log) : r.token = r'.token ↔ i = j := by
  have htoken := (h.of_took hr).2
  have htoken' := (h.of_took hr').2
  constructor
  · intro heq
    rw [heq, htoken'] at htoken
    exact (Option.some.inj htoken).symm
  · rintro rfl
    exact (List.getElem?_inj (Transition.lt_length_of_getElem? htoken) h.nodup_issued).1
      (htoken.trans htoken'.symm)

/-- What is in effect has its place in the order. -/
theorem mem_effects (h : Record log) (hr : Event.took i r ∈ log) : i ∈ effects log :=
  List.mem_filterMap.2 ⟨_, hr, congrArg some (h.of_took hr).1⟩

/-- **A registration puts one hook there.** -/
theorem Record.took_unique (h : Record log) {r' : Registered} (hr : Event.took i r ∈ log)
    (hr' : Event.took i r' ∈ log) : r = r' := by
  induction log using List.reverseRecOn with
  | nil => exact absurd hr List.not_mem_nil
  | append_singleton log e ih =>
    rcases List.mem_append.1 hr with hold | hnew <;> rcases List.mem_append.1 hr' with hold' | hnew'
    · exact ih h.left hold hold'
    · obtain rfl := List.mem_singleton.1 hnew'
      exact absurd (mem_effects h.left hold) h.last.2.2
    · obtain rfl := List.mem_singleton.1 hnew
      exact absurd (mem_effects h.left hold') h.last.2.2
    · have heq := (List.mem_singleton.1 hnew).trans (List.mem_singleton.1 hnew').symm
      exact (Event.took.inj heq).2

/-- What is there was put there. -/
theorem took_of_mem_live (h : Record log) (hr : r ∈ live log) :
    Event.took r.callback.hook r ∈ log := by
  induction log using List.reverseRecOn with
  | nil => exact absurd hr List.not_mem_nil
  | append_singleton log e ih =>
    rw [live_append] at hr
    have hold : r ∈ live log → Event.took r.callback.hook r ∈ log ++ [e] :=
      fun hr ↦ List.mem_append_left _ (ih h.left hr)
    rcases e with j | ⟨j, r'⟩ | j | j | ⟨d, list⟩ | ⟨d, hook⟩
    case took =>
      rcases List.mem_append.1 hr with hr | hr
      · exact hold hr
      · obtain rfl := List.mem_singleton.1 hr
        rw [h.last.1]
        exact List.mem_append_right _ (List.mem_singleton.2 rfl)
    case removed => exact hold (List.mem_filter.1 hr).1
    all_goals exact hold hr

/-- **What was put there is there until its own guard is dropped.** -/
theorem mem_live_of_took (h : Record log) (hr : Event.took i r ∈ log)
    (hdropped : Event.dropped i ∉ log) : r ∈ live log := by
  induction log using List.reverseRecOn with
  | nil => exact absurd hr List.not_mem_nil
  | append_singleton log e ih =>
    rw [live_append]
    have hkept : Event.dropped i ∉ log := fun hmem ↦ hdropped (List.mem_append_left _ hmem)
    rcases List.mem_append.1 hr with hold | hnew
    · have hmem := ih h.left hold hkept
      rcases e with j | ⟨j, r'⟩ | j | j | ⟨d, list⟩ | ⟨d, hook⟩
      case took => exact List.mem_append_left _ hmem
      case removed =>
        -- it is another's guard
        have hother : r.callback.hook ≠ j := by
          rw [(h.left.of_took hold).1]
          rintro rfl
          exact hkept h.last
        exact List.mem_filter.2 ⟨hmem, decide_eq_true hother⟩
      all_goals exact hmem
    · obtain rfl := List.mem_singleton.1 hnew
      exact List.mem_append_right _ (List.mem_singleton.2 rfl)

/-- **What is there stands in the order in which it took effect.** -/
theorem live_sublist (log : List Event) :
    ((live log).map fun r ↦ r.callback.hook).Sublist (effects log) := by
  induction log using List.reverseRecOn with
  | nil => exact List.Sublist.refl _
  | append_singleton log e ih =>
    rw [live_append, effects, List.filterMap_append]
    rcases e with j | ⟨j, r⟩ | j | j | ⟨d, list⟩ | ⟨d, hook⟩
    case took =>
      rw [Event.apply, List.map_append]
      exact ih.append (List.Sublist.refl _)
    case removed =>
      exact ((List.filter_sublist.map _).trans ih).trans (List.sublist_append_left _ _)
    all_goals exact ih.trans (List.sublist_append_left _ _)

/-- To take off what has a guard's token is to take off the guard's hook. -/
theorem filter_token (h : Record log) {token : Nat} {callback : Callback}
    (hguard : Event.took i ⟨token, callback⟩ ∈ log) :
    ((live log).filter fun r ↦ r.token ≠ token) = Event.apply (live log) (.removed i) := by
  refine List.filter_congr fun r hr ↦ ?_
  have htoken := h.eq_of_token (took_of_mem_live h hr) hguard
  exact decide_eq_decide.2 (not_congr htoken)

end Record

end DynamicConfig.Hooks
