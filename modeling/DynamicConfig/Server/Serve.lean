import DynamicConfig.Server.Admit
import DynamicConfig.Transition.Timed
import DynamicConfig.Transition.Parties

/-!
# The accept loop and its connections

`serve_tls` accepts connections until its shutdown future completes, gives each a task of its own, and
then waits for the tasks. A connection has a deadline for its handshake and one for the headers of its
first request; when the server closes it is given a last one to finish in, since a change stream has no
end of its own.

The clock is part of the system: time passes where no deadline has been reached, no connection has yet to
notice that the server is closing, and the loop has nothing to do. Handshakes, requests, failures to
accept and the shutdown come at any time. `select!` takes any branch that is ready, so an accept can fail
again after the shutdown has completed, and each time it does the loop sleeps before it looks
(`State.slips`).

So a client that says nothing does not hold its connection (`quiet_of_run`), a handshake that fails costs
its connection and one line of the audit log that names nobody (`audited_of_run`), and the shutdown ends
(`ended_of_run`, `exists_ended`).
-/

namespace DynamicConfig.Server.Serve

open Timed (Moment System)
open Transition

/-! ### The deadlines -/

/-- How long a client has to complete a handshake, in milliseconds. -/
def HANDSHAKE_TIMEOUT : ℕ := 10000

/-- How long a connection has, after the handshake, to send the headers of a request. -/
def HEADER_TIMEOUT : ℕ := 15000

/-- How long the loop waits after an accept error. -/
def ACCEPT_BACKOFF : ℕ := 10

/-- How long a connection has to finish once the server is closing. -/
def DRAIN_TIMEOUT : ℕ := 30000

/-! ### One connection -/

/-- How far a connection is, with its deadline if it has one. -/
inductive Stage where
  | handshaking (deadline : ℕ)
  | reading (deadline : ℕ)
  /-- Headers have been read. A response may have no end. -/
  | serving
  | draining (deadline : ℕ)
  | finished
  | joined
  deriving DecidableEq, Repr

structure Connection where
  /-- When it was accepted. -/
  accepted : ℕ
  /-- Its handshake failed. -/
  refused : Bool
  stage : Stage
  deriving DecidableEq, Repr

/-- What can happen to a connection. -/
inductive Happening where
  | handshook
  | refused
  | handshakeTimeout
  | headers
  | headerTimeout
  /-- It ends by itself: the client leaves, or its request fails. -/
  | ended
  /-- It notices that the server is closing. -/
  | noticed
  | drained
  | drainTimeout
  deriving DecidableEq, Repr

/-- What a failed handshake leaves in the audit log, whichever way it failed. -/
def refusedEntry : AuditEntry where
  caller := none
  application := none
  profile := none
  endpoint := "tls"
  outcome := .unauthenticated
  generation := none

namespace Connection

/-- `connection`, from one wait to the next, with what it puts into the audit log. -/
def step (now : ℕ) (closing : Bool) (c : Connection) : Happening → Option (Connection × List AuditEntry)
  | .handshook =>
    match c.stage with
    | .handshaking _ => some ({ c with stage := .reading (now + HEADER_TIMEOUT) }, [])
    | _ => none
  | .refused =>
    match c.stage with
    | .handshaking _ => some ({ c with refused := true, stage := .finished }, [refusedEntry])
    | _ => none
  | .handshakeTimeout =>
    match c.stage with
    | .handshaking deadline =>
      if deadline ≤ now then some ({ c with refused := true, stage := .finished }, [refusedEntry]) else none
    | _ => none
  | .headers =>
    match c.stage with
    | .reading _ => some ({ c with stage := .serving }, [])
    | _ => none
  | .headerTimeout =>
    match c.stage with
    | .reading deadline => if deadline ≤ now then some ({ c with stage := .finished }, []) else none
    | _ => none
  | .ended =>
    match c.stage with
    | .reading _ | .serving => some ({ c with stage := .finished }, [])
    | _ => none
  | .noticed =>
    match c.stage with
    | .reading _ | .serving =>
      if closing then some ({ c with stage := .draining (now + DRAIN_TIMEOUT) }, []) else none
    | _ => none
  | .drained =>
    match c.stage with
    | .draining _ => some ({ c with stage := .finished }, [])
    | _ => none
  | .drainTimeout =>
    match c.stage with
    | .draining deadline => if deadline ≤ now then some ({ c with stage := .finished }, []) else none
    | _ => none

/-- Whether something is to happen to it before time passes. -/
def urgent (now : ℕ) (closing : Bool) (c : Connection) : Bool :=
  match c.stage with
  | .handshaking deadline | .draining deadline => decide (deadline ≤ now)
  | .reading deadline => decide (deadline ≤ now) || closing
  | .serving => closing
  | .finished | .joined => false

end Connection

/-! ### The loop -/

/-- Where the loop is: `select!`, the sleep after an accept error, the wait for the tasks, or back with
its caller since some time. -/
inductive Listener where
  | accepting
  | backingOff (deadline : ℕ)
  | joining
  | returned (time : ℕ)
  deriving DecidableEq, Repr

structure State where
  now : ℕ
  listener : Listener
  /-- When the shutdown future completed. -/
  fired : Option ℕ
  /-- When the connections were told. -/
  closed : Option ℕ
  connections : List Connection
  audit : List AuditEntry
  /-- How often an accept failed after the shutdown future had completed. -/
  slips : ℕ
  deriving DecidableEq, Repr

/-- What can happen. -/
inductive Move where
  | fire
  | accept
  | acceptFails
  | resume
  /-- The loop sees the shutdown: it drops the listener, and tells the connections. -/
  | close
  | join (i : ℕ)
  | finish
  | connection (i : ℕ) (happening : Happening)
  deriving DecidableEq, Repr

/-- Whether a task has been joined. -/
def Connection.isJoined (c : Connection) : Bool := decide (c.stage = .joined)

/-- Whether a task can be joined. -/
def Connection.isFinished (c : Connection) : Bool := decide (c.stage = .finished)

namespace State

/-- A server that has not accepted anything. -/
def start (now : ℕ) : State := ⟨now, .accepting, none, none, [], [], 0⟩

/-- `serve_tls`, a move of it, of one of its tasks, or of those outside. -/
def step (s : State) : Move → Option State
  | .fire => if s.fired.isNone then some { s with fired := some s.now } else none
  | .accept =>
    if s.listener = .accepting then some
      { s with connections := s.connections ++ [⟨s.now, false, .handshaking (s.now + HANDSHAKE_TIMEOUT)⟩] }
    else none
  | .acceptFails =>
    if s.listener = .accepting then some
      { s with
        listener := .backingOff (s.now + ACCEPT_BACKOFF)
        slips := if s.fired.isSome then s.slips + 1 else s.slips }
    else none
  | .resume =>
    match s.listener with
    | .backingOff deadline => if deadline ≤ s.now then some { s with listener := .accepting } else none
    | _ => none
  | .close =>
    if s.listener = .accepting ∧ s.fired.isSome then
      some { s with listener := .joining, closed := some s.now }
    else none
  | .join i =>
    match s.listener with
    | .accepting | .joining =>
      match s.connections[i]? with
      | some c =>
        if c.isFinished then some { s with connections := s.connections.set i { c with stage := .joined } }
        else none
      | none => none
    | _ => none
  | .finish =>
    if s.listener = .joining ∧ s.connections.all Connection.isJoined then
      some { s with listener := .returned s.now }
    else none
  | .connection i happening =>
    match s.connections[i]? with
    | some c =>
      (c.step s.now s.closed.isSome happening).map fun (c', entries) ↦
        { s with connections := s.connections.set i c', audit := s.audit ++ entries }
    | none => none

/-- Whether the loop is to do something before time passes. -/
def listenerUrgent (s : State) : Bool :=
  match s.listener with
  | .accepting => s.fired.isSome
  | .backingOff deadline => decide (deadline ≤ s.now)
  | .joining => s.connections.all Connection.isJoined || s.connections.any Connection.isFinished
  | .returned _ => false

def urgent (s : State) : Bool :=
  s.listenerUrgent || s.connections.any (Connection.urgent s.now s.closed.isSome)

def tick (s : State) : State := { s with now := s.now + 1 }

end State

/-! ### What a move can do -/

/-- What comes of a move. -/
inductive Effect (s : State) : Move → State → Prop
  | fired (hfired : s.fired = none) : Effect s .fire { s with fired := some s.now }
  | accepted (hlistener : s.listener = .accepting) :
    Effect s .accept
      { s with connections := s.connections ++ [⟨s.now, false, .handshaking (s.now + HANDSHAKE_TIMEOUT)⟩] }
  | acceptFailed (hlistener : s.listener = .accepting) :
    Effect s .acceptFails
      { s with
        listener := .backingOff (s.now + ACCEPT_BACKOFF)
        slips := if s.fired.isSome then s.slips + 1 else s.slips }
  | resumed {deadline : ℕ} (hlistener : s.listener = .backingOff deadline) (hdue : deadline ≤ s.now) :
    Effect s .resume { s with listener := .accepting }
  | closing {t : ℕ} (hlistener : s.listener = .accepting) (hfired : s.fired = some t) :
    Effect s .close { s with listener := .joining, closed := some s.now }
  | joined {i : ℕ} {c : Connection} (hi : s.connections[i]? = some c) (hfinished : c.stage = .finished)
    (hlistener : s.listener = .accepting ∨ s.listener = .joining) :
    Effect s (.join i) { s with connections := s.connections.set i { c with stage := .joined } }
  | finished (hlistener : s.listener = .joining)
    (hjoined : ∀ (i : ℕ) (c : Connection), s.connections[i]? = some c → c.stage = .joined) :
    Effect s .finish { s with listener := .returned s.now }
  | moved {i : ℕ} {c c' : Connection} {happening : Happening} {entries : List AuditEntry}
    (hi : s.connections[i]? = some c)
    (hstep : c.step s.now s.closed.isSome happening = some (c', entries)) :
    Effect s (.connection i happening)
      { s with connections := s.connections.set i c', audit := s.audit ++ entries }

theorem all_joined_iff {connections : List Connection} :
    connections.all Connection.isJoined = true ↔
      ∀ (i : ℕ) (c : Connection), connections[i]? = some c → c.stage = .joined := by
  rw [List.all_eq_true]
  constructor
  · intro h i c hi
    exact of_decide_eq_true (h c (List.mem_of_getElem? hi))
  · intro h c hc
    obtain ⟨i, hi⟩ := List.getElem?_of_mem hc
    exact decide_eq_true (h i c hi)

/-- **What a move can do.** -/
theorem effect_of_step {s s' : State} {move : Move} (h : s.step move = some s') : Effect s move s' := by
  cases move with
  | fire =>
    simp only [State.step] at h
    split at h
    · next hfired =>
      cases h
      exact .fired (Option.isNone_iff_eq_none.1 hfired)
    · cases h
  | accept =>
    simp only [State.step] at h
    split at h
    · next hlistener =>
      cases h
      exact .accepted hlistener
    · cases h
  | acceptFails =>
    simp only [State.step] at h
    split at h
    · next hlistener =>
      cases h
      exact .acceptFailed hlistener
    · cases h
  | resume =>
    simp only [State.step] at h
    split at h
    · next hlistener =>
      split at h
      · next hdue =>
        cases h
        exact .resumed hlistener hdue
      · cases h
    · cases h
  | close =>
    simp only [State.step] at h
    split at h
    · next hboth =>
      cases h
      obtain ⟨t, hfired⟩ := Option.isSome_iff_exists.1 hboth.2
      exact .closing hboth.1 hfired
    · cases h
  | join i =>
    have hjoin : ∀ hlistener : s.listener = .accepting ∨ s.listener = .joining,
        (match s.connections[i]? with
          | some c =>
            if c.isFinished then
              some { s with connections := s.connections.set i { c with stage := .joined } }
            else none
          | none => none) = some s' → Effect s (.join i) s' := by
      intro hlistener h
      split at h
      · next hi =>
        split at h
        · next hfinished =>
          cases h
          exact .joined hi (of_decide_eq_true hfinished) hlistener
        · cases h
      · cases h
    simp only [State.step] at h
    split at h
    · next hlistener => exact hjoin (.inl hlistener) h
    · next hlistener => exact hjoin (.inr hlistener) h
    · cases h
  | finish =>
    simp only [State.step] at h
    split at h
    · next hboth =>
      cases h
      exact .finished hboth.1 (all_joined_iff.1 hboth.2)
    · cases h
  | connection i happening =>
    simp only [State.step] at h
    split at h
    · next hi =>
      obtain ⟨⟨c', entries⟩, hstep, rfl⟩ := Option.map_eq_some_iff.1 h
      exact .moved hi hstep
    · cases h

/-- The server with its clock. -/
def system : System State Move where
  step := State.step
  now := State.now
  tick := State.tick
  urgent := State.urgent
  now_tick _ := rfl
  now_step h := by cases effect_of_step h <;> rfl

/-! ### The deadlines are kept -/

/-- What a connection's stage says of the time, once the connections were told to close or before. -/
def Connection.Timely (now : ℕ) (closed : Option ℕ) (c : Connection) : Prop :=
  c.accepted ≤ now ∧ match c.stage with
    | .handshaking deadline =>
      deadline = c.accepted + HANDSHAKE_TIMEOUT ∧ now ≤ deadline ∧ ∀ k, closed = some k → c.accepted ≤ k
    | .reading deadline =>
      now ≤ deadline ∧ deadline ≤ c.accepted + HANDSHAKE_TIMEOUT + HEADER_TIMEOUT ∧
        ∀ k, closed = some k → now ≤ k + HANDSHAKE_TIMEOUT
    | .serving => ∀ k, closed = some k → now ≤ k + HANDSHAKE_TIMEOUT
    | .draining deadline =>
      now ≤ deadline ∧ ∃ k, closed = some k ∧ deadline ≤ k + HANDSHAKE_TIMEOUT + DRAIN_TIMEOUT
    | .finished | .joined => True

namespace Connection

variable {now : ℕ} {closed : Option ℕ} {c c' : Connection} {happening : Happening}
  {entries : List AuditEntry}

/-- Nothing happens to a connection that was joined. -/
theorem step_joined (hstage : c.stage = .joined) (now : ℕ) (closing : Bool) (happening : Happening) :
    c.step now closing happening = none := by
  cases happening <;> simp only [step, hstage]

theorem Timely.finished (h : c.Timely now closed) (haccepted : c'.accepted = c.accepted)
    (hstage : c'.stage = .finished ∨ c'.stage = .joined) : c'.Timely now closed := by
  refine ⟨haccepted ▸ h.1, ?_⟩
  obtain hstage | hstage := hstage
  · rw [hstage]
    exact trivial
  · rw [hstage]
    exact trivial

/-- What happens to a connection at a time leaves it in time. -/
theorem Timely.step (h : c.Timely now closed)
    (hstep : c.step now closed.isSome happening = some (c', entries)) : c'.Timely now closed := by
  obtain ⟨haccepted, hstage⟩ := h
  cases happening with
  | handshook =>
    simp only [Connection.step] at hstep
    split at hstep
    · next deadline hc =>
      cases hstep
      rw [hc] at hstage
      obtain ⟨hdeadline, hnow, hclosed⟩ := hstage
      refine ⟨haccepted, ⟨Nat.le_add_right _ _, ?_, fun k hk ↦ ?_⟩⟩
      · show now + HEADER_TIMEOUT ≤ c.accepted + HANDSHAKE_TIMEOUT + HEADER_TIMEOUT
        omega
      · have hk := hclosed k hk
        omega
    · cases hstep
  | headers =>
    simp only [Connection.step] at hstep
    split at hstep
    · next deadline hc =>
      cases hstep
      rw [hc] at hstage
      exact ⟨haccepted, hstage.2.2⟩
    · cases hstep
  | noticed =>
    simp only [Connection.step] at hstep
    have hnotice : ∀ hserving : (∀ k, closed = some k → now ≤ k + HANDSHAKE_TIMEOUT),
        (if closed.isSome then
          some ({ c with stage := .draining (now + DRAIN_TIMEOUT) }, ([] : List AuditEntry)) else none) =
          some (c', entries) → c'.Timely now closed := by
      intro hserving h
      split at h
      · next hsome =>
        cases h
        obtain ⟨k, hk⟩ := Option.isSome_iff_exists.1 hsome
        have hle := hserving k hk
        exact ⟨haccepted, Nat.le_add_right _ _, k, hk, Nat.add_le_add_right hle _⟩
      · cases h
    split at hstep
    · next hc =>
      rw [hc] at hstage
      exact hnotice hstage.2.2 hstep
    · next hc =>
      rw [hc] at hstage
      exact hnotice hstage hstep
    · cases hstep
  | refused | ended | drained =>
    simp only [Connection.step] at hstep
    split at hstep
    all_goals first
      | (cases hstep; exact ⟨haccepted, trivial⟩)
      | cases hstep
  | handshakeTimeout | headerTimeout | drainTimeout =>
    simp only [Connection.step] at hstep
    split at hstep
    · split at hstep
      · cases hstep
        exact ⟨haccepted, trivial⟩
      · cases hstep
    · cases hstep

/-- Time passes where nothing is urgent. -/
theorem Timely.tick (h : c.Timely now closed) (hurgent : c.urgent now closed.isSome = false) :
    c.Timely (now + 1) closed := by
  obtain ⟨haccepted, hstage⟩ := h
  refine ⟨Nat.le_succ_of_le haccepted, ?_⟩
  rw [urgent] at hurgent
  cases hc : c.stage with
  | handshaking deadline =>
    rw [hc] at hstage hurgent
    have hlt := of_decide_eq_false hurgent
    exact ⟨hstage.1, by omega, hstage.2.2⟩
  | reading deadline =>
    rw [hc] at hstage hurgent
    obtain ⟨hlt, hclosed⟩ := Bool.or_eq_false_iff.1 hurgent
    have hlt := of_decide_eq_false hlt
    refine ⟨by omega, hstage.2.1, fun k hk ↦ ?_⟩
    rw [hk] at hclosed
    cases hclosed
  | serving =>
    rw [hc] at hurgent
    intro k hk
    rw [hk] at hurgent
    cases hurgent
  | draining deadline =>
    rw [hc] at hstage hurgent
    have hlt := of_decide_eq_false hurgent
    exact ⟨by omega, hstage.2⟩
  | finished | joined => exact trivial

/-- The connections are told to close. -/
theorem Timely.close (h : c.Timely now none) : c.Timely now (some now) := by
  obtain ⟨haccepted, hstage⟩ := h
  refine ⟨haccepted, ?_⟩
  have hnow : ∀ k, some now = some k → now ≤ k + HANDSHAKE_TIMEOUT := by
    intro k hk
    obtain rfl := Option.some.inj hk
    exact Nat.le_add_right _ _
  cases hc : c.stage with
  | handshaking deadline =>
    rw [hc] at hstage
    refine ⟨hstage.1, hstage.2.1, fun k hk ↦ ?_⟩
    obtain rfl := Option.some.inj hk
    exact haccepted
  | reading deadline =>
    rw [hc] at hstage
    exact ⟨hstage.1, hstage.2.1, hnow⟩
  | serving => exact hnow
  | draining deadline =>
    rw [hc] at hstage
    obtain ⟨-, k, hk, -⟩ := hstage
    cases hk
  | finished | joined => exact trivial

end Connection

namespace State

/-- By when the loop has seen a shutdown that completed at some time: each accept that fails in between
costs a sleep. -/
def seenBy (s : State) (fired : ℕ) : ℕ := fired + ACCEPT_BACKOFF * (1 + s.slips)

/-- What the loop's place says of the time. -/
def LoopTimely (s : State) : Prop :=
  match s.listener with
  | .accepting => s.closed = none ∧ ∀ t, s.fired = some t → s.now ≤ s.seenBy t
  | .backingOff deadline =>
    s.closed = none ∧ s.now ≤ deadline ∧ deadline ≤ s.now + ACCEPT_BACKOFF ∧
      ∀ t, s.fired = some t → deadline ≤ s.seenBy t
  | .joining =>
    ∃ t k, s.fired = some t ∧ s.closed = some k ∧ k ≤ s.seenBy t ∧
      s.now ≤ k + HANDSHAKE_TIMEOUT + DRAIN_TIMEOUT
  | .returned time =>
    ∃ t k, s.fired = some t ∧ s.closed = some k ∧ k ≤ s.seenBy t ∧
      time ≤ k + HANDSHAKE_TIMEOUT + DRAIN_TIMEOUT ∧
        ∀ (i : ℕ) (c : Connection), s.connections[i]? = some c → c.stage = .joined

/-- Every deadline is kept. -/
structure Timely (s : State) : Prop where
  connections : ∀ (i : ℕ) (c : Connection), s.connections[i]? = some c → c.Timely s.now s.closed
  loop : s.LoopTimely

theorem timely_start (now : ℕ) : (start now).Timely where
  connections i c hi := by cases hi
  loop := ⟨rfl, fun t ht ↦ by cases ht⟩

variable {s s' : State}

/-- The loop stays where it is, and so do the times it goes by. -/
theorem LoopTimely.of_eq (h : s.LoopTimely) (hlistener : s'.listener = s.listener) (hnow : s'.now = s.now)
    (hfired : s'.fired = s.fired) (hclosed : s'.closed = s.closed) (hslips : s'.slips = s.slips)
    (hjoined : ∀ time, s.listener = .returned time →
      ∀ (i : ℕ) (c : Connection), s'.connections[i]? = some c → c.stage = .joined) :
    s'.LoopTimely := by
  have hseen : ∀ t, s'.seenBy t = s.seenBy t := fun t ↦ by rw [seenBy, seenBy, hslips]
  rw [LoopTimely] at h ⊢
  rw [hlistener, hnow, hfired, hclosed]
  simp only [hseen]
  cases hplace : s.listener with
  | accepting | backingOff | joining =>
    rw [hplace] at h
    exact h
  | returned time =>
    rw [hplace] at h
    obtain ⟨t, k, ht, hk, hseenBy, htime, -⟩ := h
    exact ⟨t, k, ht, hk, hseenBy, htime, hjoined time hplace⟩

/-- **A move keeps the deadlines.** -/
theorem Timely.step {move : Move} (h : s.Timely) (hstep : s.step move = some s') : s'.Timely := by
  obtain ⟨hconnections, hloop⟩ := h
  cases effect_of_step hstep with
  | fired hfired =>
    refine ⟨hconnections, ?_⟩
    rw [LoopTimely] at hloop ⊢
    dsimp only
    cases hplace : s.listener with
    | accepting =>
      rw [hplace] at hloop
      refine ⟨hloop.1, fun t ht ↦ ?_⟩
      obtain rfl := Option.some.inj ht
      exact Nat.le_add_right _ _
    | backingOff deadline =>
      rw [hplace] at hloop
      refine ⟨hloop.1, hloop.2.1, hloop.2.2.1, fun t ht ↦ ?_⟩
      obtain rfl := Option.some.inj ht
      have hdeadline := hloop.2.2.1
      show deadline ≤ s.now + ACCEPT_BACKOFF * (1 + s.slips)
      rw [Nat.mul_add]
      omega
    | joining =>
      rw [hplace] at hloop
      obtain ⟨t, k, ht, -⟩ := hloop
      rw [hfired] at ht
      cases ht
    | returned =>
      rw [hplace] at hloop
      obtain ⟨t, k, ht, -⟩ := hloop
      rw [hfired] at ht
      cases ht
  | accepted hlistener =>
    have hloop' := hloop
    rw [LoopTimely, hlistener] at hloop'
    refine ⟨forall_append hconnections ?_, hloop.of_eq rfl rfl rfl rfl rfl fun time htime ↦ ?_⟩
    · refine ⟨Nat.le_refl _, rfl, Nat.le_add_right _ _, fun k hk ↦ ?_⟩
      rw [hloop'.1] at hk
      cases hk
    · rw [hlistener] at htime
      cases htime
  | acceptFailed hlistener =>
    rw [LoopTimely, hlistener] at hloop
    refine ⟨hconnections, hloop.1, Nat.le_add_right _ _, Nat.le_refl _, fun t ht ↦ ?_⟩
    have hfired : s.fired = some t := ht
    have hnow := hloop.2 t hfired
    rw [seenBy] at hnow
    show s.now + ACCEPT_BACKOFF ≤ t + ACCEPT_BACKOFF * (1 + if s.fired.isSome then s.slips + 1 else s.slips)
    rw [hfired, Option.isSome_some, if_pos rfl, Nat.mul_add, Nat.mul_add]
    rw [Nat.mul_add] at hnow
    omega
  | resumed hlistener hdue =>
    rw [LoopTimely, hlistener] at hloop
    refine ⟨hconnections, hloop.1, fun t ht ↦ ?_⟩
    exact Nat.le_trans hloop.2.1 (hloop.2.2.2 t ht)
  | @closing t hlistener hfired =>
    rw [LoopTimely, hlistener] at hloop
    refine ⟨fun i c hi ↦ ?_, t, s.now, hfired, rfl, hloop.2 t hfired, ?_⟩
    · have hc := hconnections i c hi
      rw [hloop.1] at hc
      exact hc.close
    · show s.now ≤ s.now + HANDSHAKE_TIMEOUT + DRAIN_TIMEOUT
      omega
  | joined hi hfinished hlistener =>
    refine ⟨forall_set hconnections ?_, hloop.of_eq rfl rfl rfl rfl rfl fun time htime ↦ ?_⟩
    · exact (hconnections _ _ hi).finished rfl (.inr rfl)
    · rw [htime] at hlistener
      exact hlistener.elim (fun h ↦ by cases h) fun h ↦ by cases h
  | finished hlistener hjoined =>
    rw [LoopTimely, hlistener] at hloop
    obtain ⟨t, k, ht, hk, hseenBy, hnow⟩ := hloop
    exact ⟨hconnections, t, k, ht, hk, hseenBy, hnow, hjoined⟩
  | moved hi hmoved =>
    refine ⟨forall_set hconnections ((hconnections _ _ hi).step hmoved),
      hloop.of_eq rfl rfl rfl rfl rfl fun time htime ↦ ?_⟩
    rw [LoopTimely, htime] at hloop
    obtain ⟨_, _, -, -, -, -, hjoined⟩ := hloop
    rw [Connection.step_joined (hjoined _ _ hi)] at hmoved
    cases hmoved

/-- A connection that is neither finished nor joined, and that can wait, has a deadline ahead. -/
theorem exists_deadline {now k : ℕ} {c : Connection} (h : c.Timely now (some k))
    (hurgent : c.urgent now true = false) (hfinished : c.isFinished = false) (hjoined : c.isJoined = false) :
    now < k + HANDSHAKE_TIMEOUT + DRAIN_TIMEOUT := by
  obtain ⟨-, hstage⟩ := h
  rw [Connection.urgent] at hurgent
  cases hc : c.stage with
  | handshaking deadline =>
    rw [hc] at hstage hurgent
    have hlt := of_decide_eq_false hurgent
    have haccepted := hstage.2.2 k rfl
    omega
  | reading deadline =>
    rw [hc] at hurgent
    cases (Bool.or_eq_false_iff.1 hurgent).2
  | serving =>
    rw [hc] at hurgent
    cases hurgent
  | draining deadline =>
    rw [hc] at hstage hurgent
    have hlt := of_decide_eq_false hurgent
    obtain ⟨-, k', hk, hdeadline⟩ := hstage
    obtain rfl := Option.some.inj hk
    omega
  | finished => exact absurd hc (of_decide_eq_false hfinished)
  | joined => exact absurd hc (of_decide_eq_false hjoined)

/-- **Time passes only before the deadlines.** -/
theorem Timely.tick (h : s.Timely) (hurgent : s.urgent = false) : s.tick.Timely := by
  obtain ⟨hlistener, hconnections⟩ := Bool.or_eq_false_iff.1 hurgent
  have hidle : ∀ c ∈ s.connections, c.urgent s.now s.closed.isSome = false := fun c hc ↦
    Bool.eq_false_iff.2 (List.any_eq_false.1 hconnections c hc)
  refine ⟨fun i c hi ↦ (h.connections i c hi).tick (hidle c (List.mem_of_getElem? hi)), ?_⟩
  have hloop := h.loop
  rw [LoopTimely] at hloop ⊢
  rw [listenerUrgent] at hlistener
  dsimp only [State.tick]
  cases hplace : s.listener with
  | accepting =>
    rw [hplace] at hloop hlistener
    refine ⟨hloop.1, fun t ht ↦ ?_⟩
    rw [ht] at hlistener
    cases hlistener
  | backingOff deadline =>
    rw [hplace] at hloop hlistener
    have hlt := of_decide_eq_false hlistener
    exact ⟨hloop.1, by omega, by omega, hloop.2.2.2⟩
  | joining =>
    rw [hplace] at hloop hlistener
    obtain ⟨t, k, ht, hk, hseenBy, -⟩ := hloop
    obtain ⟨hall, hany⟩ := Bool.or_eq_false_iff.1 hlistener
    -- Some task is still to finish, and cannot be late.
    obtain ⟨c, hc, hjoined⟩ := List.all_eq_false.1 hall
    have hfinished := Bool.eq_false_iff.2 (List.any_eq_false.1 hany c hc)
    obtain ⟨i, hi⟩ := List.getElem?_of_mem hc
    have htimely := h.connections i c hi
    have hcan := hidle c hc
    rw [hk] at htimely hcan
    exact ⟨t, k, ht, hk, hseenBy, exists_deadline htimely hcan hfinished (Bool.eq_false_iff.2 hjoined)⟩
  | returned time =>
    rw [hplace] at hloop
    exact hloop

theorem timely_of_run {now : ℕ} {moments : List (Moment Move)}
    (h : run system.next (start now) moments = some s) : s.Timely := by
  refine run_invariant (fun s moment s' hnext hs ↦ ?_) h (timely_start now)
  cases moment with
  | tick =>
    simp only [System.next] at hnext
    split at hnext
    · cases hnext
    · next hurgent =>
      cases hnext
      exact hs.tick (Bool.eq_false_iff.2 hurgent)
  | move move => exact hs.step hnext

/-- A client whose handshake fails, and one that is served and drained. -/
def twoClients : List (Moment Move) :=
  [.move .accept, .move (.connection 0 .refused), .move .accept, .move (.connection 1 .handshook), .tick,
    .move (.connection 1 .headers), .move .fire, .move .close, .move (.join 0),
    .move (.connection 1 .noticed), .tick, .move (.connection 1 .drained), .move (.join 1), .move .finish]

/-- **A client that says nothing does not hold its connection**: it has the two deadlines in turn. One that
is told of the shutdown before its headers is draining from then on, with the deadline of that. -/
theorem quiet_of_run {now : ℕ} {moments : List (Moment Move)}
    (h : run system.next (start now) moments = some s) {i : ℕ} {c : Connection}
    (hi : s.connections[i]? = some c) {deadline : ℕ}
    (hquiet : c.stage = .handshaking deadline ∨ c.stage = .reading deadline) :
    s.now ≤ c.accepted + HANDSHAKE_TIMEOUT + HEADER_TIMEOUT := by
  obtain ⟨-, hstage⟩ := (timely_of_run h).connections i c hi
  obtain hc | hc := hquiet
  · rw [hc] at hstage
    obtain ⟨hdeadline, hnow, -⟩ := hstage
    omega
  · rw [hc] at hstage
    obtain ⟨hnow, hdeadline, -⟩ := hstage
    omega

theorem quiet_of_run_two :
    ∃ s c, run system.next (start 0) (twoClients.take 5) = some s ∧ s.connections[1]? = some c ∧
      s.now ≤ c.accepted + HANDSHAKE_TIMEOUT + HEADER_TIMEOUT := by
  have hrun : ∃ s c deadline, run system.next (start 0) (twoClients.take 5) = some s ∧
      s.connections[1]? = some c ∧ c.stage = .reading deadline := ⟨_, _, _, rfl, rfl, rfl⟩
  obtain ⟨s, c, deadline, hrun, hc, hstage⟩ := hrun
  exact ⟨s, c, hrun, hc, quiet_of_run hrun hc (.inr hstage)⟩

/-! ### The shutdown ends -/

/-- By when a shutdown that completed at some time has ended. -/
def endedBy (s : State) (fired : ℕ) : ℕ := s.seenBy fired + HANDSHAKE_TIMEOUT + DRAIN_TIMEOUT

/-- The loop is not back with its caller. -/
def IsServing (s : State) : Prop := ∀ time, s.listener ≠ .returned time

/-- **The shutdown is bounded**, whatever the clients and the tasks do. -/
theorem ended_of_run {now : ℕ} {moments : List (Moment Move)}
    (h : run system.next (start now) moments = some s) {t : ℕ} (hfired : s.fired = some t) :
    (s.IsServing → s.now ≤ s.endedBy t) ∧ ∀ time, s.listener = .returned time → time ≤ s.endedBy t := by
  have hloop := (timely_of_run h).loop
  rw [LoopTimely] at hloop
  constructor
  · intro hserving
    rw [endedBy]
    cases hplace : s.listener with
    | accepting =>
      rw [hplace] at hloop
      have hnow := hloop.2 t hfired
      omega
    | backingOff deadline =>
      rw [hplace] at hloop
      have hdeadline := hloop.2.2.2 t hfired
      have hnow := hloop.2.1
      omega
    | joining =>
      rw [hplace] at hloop
      obtain ⟨t', k, ht, -, hseenBy, hnow⟩ := hloop
      obtain rfl := Option.some.inj (hfired.symm.trans ht)
      omega
    | returned time => exact absurd hplace (hserving time)
  · intro time hplace
    rw [hplace] at hloop
    obtain ⟨t', k, ht, -, hseenBy, htime, -⟩ := hloop
    obtain rfl := Option.some.inj (hfired.symm.trans ht)
    rw [endedBy]
    omega

theorem ended_of_run_two :
    ∃ s, run system.next (start 0) twoClients = some s ∧ s.listener = .returned 2 ∧
      ((s.IsServing → s.now ≤ s.endedBy 1) ∧ ∀ time, s.listener = .returned time → time ≤ s.endedBy 1) := by
  have hrun : ∃ s, run system.next (start 0) twoClients = some s ∧ s.listener = .returned 2 ∧
      s.fired = some 1 := ⟨_, rfl, rfl, rfl⟩
  obtain ⟨s, hrun, hlistener, hfired⟩ := hrun
  exact ⟨s, hrun, hlistener, ended_of_run hrun hfired⟩

/-- The moves that wait for nobody: the deadlines, and what the loop and the tasks do of themselves. -/
def IsOwn : Move → Prop
  | .resume | .close | .join _ | .finish => True
  | .connection _ happening =>
    happening = .handshakeTimeout ∨ happening = .headerTimeout ∨ happening = .noticed ∨
      happening = .drainTimeout
  | .fire | .accept | .acceptFails => False

end State

/-- How far a connection is from its end. -/
def Stage.weight : Stage → ℕ
  | .handshaking _ => 4
  | .reading _ | .serving => 3
  | .draining _ => 2
  | .finished => 1
  | .joined => 0

def Connection.weight (c : Connection) : ℕ := c.stage.weight

def Listener.weight : Listener → ℕ
  | .backingOff _ => 3
  | .accepting => 2
  | .joining => 1
  | .returned _ => 0

namespace State

variable {s s' : State}

def weight (s : State) : ℕ := s.listener.weight + (s.connections.map Connection.weight).sum

/-- What is urgent to a connection happens to it. -/
theorem exists_happening {now : ℕ} {closing : Bool} {c : Connection} (h : c.urgent now closing = true) :
    ∃ (happening : Happening) (c' : Connection) (entries : List AuditEntry),
      IsOwn (.connection 0 happening) ∧
      c.step now closing happening = some (c', entries) ∧ c'.weight < c.weight := by
  rw [Connection.urgent] at h
  rw [Connection.weight]
  cases hc : c.stage with
  | handshaking deadline =>
    rw [hc] at h
    refine ⟨.handshakeTimeout, { c with refused := true, stage := .finished }, [refusedEntry], .inl rfl,
      ?_, Nat.succ_lt_succ (Nat.zero_lt_succ 2)⟩
    simp only [Connection.step, hc, if_pos (of_decide_eq_true h)]
  | reading deadline =>
    rw [hc] at h
    obtain hdue | hclosing := Bool.or_eq_true_iff.1 h
    · refine ⟨.headerTimeout, { c with stage := .finished }, [], .inr (.inl rfl), ?_,
        Nat.succ_lt_succ (Nat.zero_lt_succ 1)⟩
      simp only [Connection.step, hc, if_pos (of_decide_eq_true hdue)]
    · refine ⟨.noticed, { c with stage := .draining (now + DRAIN_TIMEOUT) }, [], .inr (.inr (.inl rfl)), ?_,
        Nat.lt_succ_self 2⟩
      simp only [Connection.step, hc, if_pos hclosing]
  | serving =>
    rw [hc] at h
    refine ⟨.noticed, { c with stage := .draining (now + DRAIN_TIMEOUT) }, [], .inr (.inr (.inl rfl)), ?_,
      Nat.lt_succ_self 2⟩
    have hclosing : closing = true := h
    simp only [Connection.step, hc, if_pos hclosing]
  | draining deadline =>
    rw [hc] at h
    refine ⟨.drainTimeout, { c with stage := .finished }, [], .inr (.inr (.inr rfl)), ?_,
      Nat.lt_succ_self 1⟩
    simp only [Connection.step, hc, if_pos (of_decide_eq_true h)]
  | finished | joined =>
    rw [hc] at h
    cases h

/-- What is urgent gets done, by a move that leaves less to do. -/
theorem exists_move (h : s.urgent = true) :
    ∃ move s', IsOwn move ∧ s.step move = some s' ∧ s'.weight < s.weight := by
  obtain hlistener | hconnections := Bool.or_eq_true_iff.1 h
  · rw [listenerUrgent] at hlistener
    cases hplace : s.listener with
    | accepting =>
      rw [hplace] at hlistener
      refine ⟨.close, _, trivial, if_pos ⟨hplace, hlistener⟩, ?_⟩
      rw [weight, weight, hplace]
      exact Nat.add_lt_add_right (Nat.lt_succ_self 1) _
    | backingOff deadline =>
      rw [hplace] at hlistener
      refine ⟨.resume, { s with listener := .accepting }, trivial, ?_, ?_⟩
      · simp only [step, hplace, if_pos (of_decide_eq_true hlistener)]
      · rw [weight, weight, hplace]
        exact Nat.add_lt_add_right (Nat.lt_succ_self 2) _
    | joining =>
      rw [hplace] at hlistener
      obtain hall | hany := Bool.or_eq_true_iff.1 hlistener
      · refine ⟨.finish, _, trivial, if_pos ⟨hplace, hall⟩, ?_⟩
        rw [weight, weight, hplace]
        exact Nat.add_lt_add_right (Nat.lt_succ_self 0) _
      · obtain ⟨c, hc, hfinished⟩ := List.any_eq_true.1 hany
        obtain ⟨i, hi⟩ := List.getElem?_of_mem hc
        refine ⟨.join i, { s with connections := s.connections.set i { c with stage := .joined } }, trivial,
          ?_, ?_⟩
        · simp only [step, hplace, hi, hfinished, if_true]
        · have hsum := sum_map_set_moved (y := { c with stage := .joined }) Connection.weight hi
          have hbefore : c.weight = 1 := by
            rw [Connection.weight, of_decide_eq_true hfinished]
            rfl
          have hafter : Connection.weight { c with stage := .joined } = 0 := rfl
          simp only [weight]
          omega
    | returned time =>
      rw [hplace] at hlistener
      cases hlistener
  · obtain ⟨c, hc, hurgent⟩ := List.any_eq_true.1 hconnections
    obtain ⟨i, hi⟩ := List.getElem?_of_mem hc
    obtain ⟨happening, c', entries, hown, hstep, hless⟩ := exists_happening hurgent
    refine ⟨.connection i happening,
      { s with connections := s.connections.set i c', audit := s.audit ++ entries }, hown, ?_, ?_⟩
    · simp only [step, hi, hstep, Option.map_some]
    · have hsum := sum_map_set_moved (y := c') Connection.weight hi
      simp only [weight]
      omega

/-- What waits for nobody neither fires the shutdown nor fails to accept. -/
theorem frame_of_own {move : Move} (hown : IsOwn move) (hstep : s.step move = some s') :
    s'.fired = s.fired ∧ s'.slips = s.slips := by
  cases effect_of_step hstep with
  | fired | accepted | acceptFailed => exact hown.elim
  | resumed | closing | joined | finished | moved => exact ⟨rfl, rfl⟩

/-- **The shutdown ends** by moves that wait for nobody: the clients and the tasks cannot keep it from
it, and then every task has been joined. -/
theorem exists_ended {now : ℕ} {moments : List (Moment Move)}
    (h : run system.next (start now) moments = some s) {t : ℕ} (hfired : s.fired = some t) :
    ∃ (rest : List (Moment Move)) (u : State) (time : ℕ), (∀ moment ∈ rest, System.Own IsOwn moment) ∧
      run system.next s rest = some u ∧ u.listener = .returned time ∧ time ≤ s.endedBy t ∧
        ∀ (i : ℕ) (c : Connection), u.connections[i]? = some c → c.stage = .joined := by
  have hdone : ∀ u, (u.Timely ∧ u.fired = some t ∧ u.slips = s.slips) → system.urgent u = true →
      ∃ move v, IsOwn move ∧ system.step u move = some v ∧
        (v.Timely ∧ v.fired = some t ∧ v.slips = s.slips) ∧ v.weight < u.weight := by
    rintro u ⟨htimely, hfired, hslips⟩ hurgent
    obtain ⟨move, v, hown, hstep, hless⟩ := exists_move hurgent
    obtain ⟨hsame, hsame'⟩ := frame_of_own hown hstep
    exact ⟨move, v, hown, hstep, ⟨htimely.step hstep, hsame.trans hfired, hsame'.trans hslips⟩, hless⟩
  have htick : ∀ u, (u.Timely ∧ u.fired = some t ∧ u.slips = s.slips) → system.urgent u = false →
      (system.tick u).Timely ∧ (system.tick u).fired = some t ∧ (system.tick u).slips = s.slips := by
    rintro u ⟨htimely, hrest⟩ hurgent
    exact ⟨htimely.tick hurgent, hrest⟩
  obtain ⟨rest, u, hown, hrun, ⟨htimely, hfired', hslips⟩, hnow⟩ :=
    System.exists_later hdone htick ⟨timely_of_run h, hfired, rfl⟩ (s.endedBy t + 1)
  have hended : u.endedBy t = s.endedBy t := by rw [endedBy, endedBy, seenBy, seenBy, hslips]
  have hlate : s.endedBy t < u.now := by
    have hsum : u.now = s.now + (s.endedBy t + 1) := hnow
    omega
  obtain ⟨hserving, hreturned⟩ := ended_of_run (run_trans h hrun) hfired'
  rw [hended] at hserving hreturned
  have hback : ∃ time, u.listener = .returned time := by
    by_contra hnone
    have hnow := hserving fun time htime ↦ hnone ⟨time, htime⟩
    omega
  obtain ⟨time, htime⟩ := hback
  have hloop := htimely.loop
  rw [LoopTimely, htime] at hloop
  obtain ⟨_, _, -, -, -, -, hjoined⟩ := hloop
  exact ⟨rest, u, time, hown, hrun, htime, hreturned time htime, hjoined⟩

theorem exists_ended_two :
    ∃ s, run system.next (start 0) (twoClients.take 8) = some s ∧
      ∃ (rest : List (Moment Move)) (u : State) (time : ℕ), (∀ moment ∈ rest, System.Own IsOwn moment) ∧
        run system.next s rest = some u ∧ u.listener = .returned time ∧ time ≤ s.endedBy 1 ∧
          ∀ (i : ℕ) (c : Connection), u.connections[i]? = some c → c.stage = .joined := by
  have hrun : ∃ s, run system.next (start 0) (twoClients.take 8) = some s ∧ s.closed = some 1 ∧
      s.fired = some 1 := ⟨_, rfl, rfl, rfl⟩
  obtain ⟨s, hrun, -, hfired⟩ := hrun
  exact ⟨s, hrun, exists_ended hrun hfired⟩

/-! ### What a failed handshake costs -/

/-- A connection is refused once, and once only. -/
theorem refused_of_step {now : ℕ} {closing : Bool} {c c' : Connection} {happening : Happening}
    {entries : List AuditEntry} (h : c.step now closing happening = some (c', entries)) :
    (∀ deadline, c'.stage ≠ .handshaking deadline) ∧
      (c'.refused = c.refused ∧ entries = [] ∨
        (∃ deadline, c.stage = .handshaking deadline) ∧ c'.refused = true ∧ entries = [refusedEntry]) := by
  cases happening with
  | handshook | headers | drained =>
    simp only [Connection.step] at h
    split at h
    · cases h
      exact ⟨fun _ hc ↦ (by cases hc), .inl ⟨rfl, rfl⟩⟩
    · cases h
  | ended =>
    simp only [Connection.step] at h
    split at h
    · cases h
      exact ⟨fun _ hc ↦ (by cases hc), .inl ⟨rfl, rfl⟩⟩
    · cases h
      exact ⟨fun _ hc ↦ (by cases hc), .inl ⟨rfl, rfl⟩⟩
    · cases h
  | refused =>
    simp only [Connection.step] at h
    split at h
    · next deadline hc =>
      cases h
      exact ⟨fun _ hc ↦ (by cases hc), .inr ⟨⟨deadline, hc⟩, rfl, rfl⟩⟩
    · cases h
  | handshakeTimeout =>
    simp only [Connection.step] at h
    split at h
    · next deadline hc =>
      split at h
      · cases h
        exact ⟨fun _ hc ↦ (by cases hc), .inr ⟨⟨deadline, hc⟩, rfl, rfl⟩⟩
      · cases h
    · cases h
  | headerTimeout | drainTimeout =>
    simp only [Connection.step] at h
    split at h
    · split at h
      · cases h
        exact ⟨fun _ hc ↦ (by cases hc), .inl ⟨rfl, rfl⟩⟩
      · cases h
    · cases h
  | noticed =>
    simp only [Connection.step] at h
    split at h
    · split at h
      · cases h
        exact ⟨fun _ hc ↦ (by cases hc), .inl ⟨rfl, rfl⟩⟩
      · cases h
    · split at h
      · cases h
        exact ⟨fun _ hc ↦ (by cases hc), .inl ⟨rfl, rfl⟩⟩
      · cases h
    · cases h

/-- One line for each handshake that failed. -/
structure Audited (s : State) : Prop where
  audit : s.audit = List.replicate (s.connections.countP Connection.refused) refusedEntry
  handshaking : ∀ (i : ℕ) (c : Connection), s.connections[i]? = some c →
    ∀ deadline, c.stage = .handshaking deadline → c.refused = false

theorem Audited.step {move : Move} (h : s.Audited) (hstep : s.step move = some s') : s'.Audited := by
  cases effect_of_step hstep with
  | fired | acceptFailed | resumed | closing | finished => exact ⟨h.audit, h.handshaking⟩
  | accepted =>
    refine ⟨?_, forall_append h.handshaking fun _ _ ↦ rfl⟩
    show s.audit = _
    rw [List.countP_append]
    exact h.audit
  | @joined i c hi hfinished =>
    refine ⟨?_, forall_set h.handshaking fun _ hc ↦ (by cases hc)⟩
    have hcount := countP_set_moved (y := { c with stage := .joined }) Connection.refused hi
    show s.audit = List.replicate ((s.connections.set i { c with stage := .joined }).countP _) _
    rw [h.audit, Nat.add_right_cancel hcount]
  | @moved i c c' happening entries hi hmoved =>
    obtain ⟨hstage, hrefused⟩ := refused_of_step hmoved
    refine ⟨?_, forall_set h.handshaking fun deadline hc ↦ absurd hc (hstage deadline)⟩
    have hcount := countP_set_moved (y := c') Connection.refused hi
    show s.audit ++ entries = List.replicate ((s.connections.set i c').countP _) _
    obtain ⟨hsame, rfl⟩ | ⟨⟨deadline, hdeadline⟩, htrue, rfl⟩ := hrefused
    · rw [hsame] at hcount
      rw [List.append_nil, h.audit, Nat.add_right_cancel hcount]
    · rw [htrue, h.handshaking i c hi deadline hdeadline] at hcount
      have hone : (s.connections.set i c').countP Connection.refused =
          s.connections.countP Connection.refused + 1 := hcount
      rw [h.audit, hone, List.replicate_succ']

/-- **A handshake that fails costs its connection**, and one line that says nothing: the loop goes on
accepting until the shutdown completes, but for the sleep after an accept error. -/
theorem audited_of_run {now : ℕ} {moments : List (Moment Move)}
    (h : run system.next (start now) moments = some s) :
    s.audit = List.replicate (s.connections.countP Connection.refused) refusedEntry ∧
      (s.fired = none → s.listener = .accepting ∨
        ∃ deadline, s.listener = .backingOff deadline ∧ deadline ≤ s.now + ACCEPT_BACKOFF) := by
  have haudited : s.Audited := by
    refine run_invariant (fun s moment s' hnext hs ↦ ?_) h ⟨rfl, fun i c hi ↦ by cases hi⟩
    cases moment with
    | tick =>
      simp only [System.next] at hnext
      split at hnext
      · cases hnext
      · cases hnext
        exact ⟨hs.audit, hs.handshaking⟩
    | move move => exact hs.step hnext
  refine ⟨haudited.audit, fun hfired ↦ ?_⟩
  have hloop := (timely_of_run h).loop
  rw [LoopTimely] at hloop
  cases hplace : s.listener with
  | accepting => exact .inl rfl
  | backingOff deadline =>
    rw [hplace] at hloop
    exact .inr ⟨deadline, rfl, hloop.2.2.1⟩
  | joining =>
    rw [hplace] at hloop
    obtain ⟨t, _, ht, -⟩ := hloop
    rw [hfired] at ht
    cases ht
  | returned =>
    rw [hplace] at hloop
    obtain ⟨t, _, ht, -⟩ := hloop
    rw [hfired] at ht
    cases ht

theorem audited_of_run_two :
    ∃ s, run system.next (start 0) (twoClients.take 5) = some s ∧ s.audit = [refusedEntry] ∧
      (s.audit = List.replicate (s.connections.countP Connection.refused) refusedEntry ∧
        (s.fired = none → s.listener = .accepting ∨
          ∃ deadline, s.listener = .backingOff deadline ∧ deadline ≤ s.now + ACCEPT_BACKOFF)) := by
  have hrun : ∃ s, run system.next (start 0) (twoClients.take 5) = some s ∧ s.audit = [refusedEntry] :=
    ⟨_, rfl, rfl⟩
  obtain ⟨s, hrun, haudit⟩ := hrun
  exact ⟨s, hrun, haudit, audited_of_run hrun⟩

end State

end DynamicConfig.Server.Serve
