import DynamicConfig.Config.Value
import DynamicConfig.Transition.Parties
import DynamicConfig.Transition.Run

/-!
# Reloading several types as one step

A reload of a group prepares every member, then runs every commit. Preparing does all that can fail;
a commit only swaps a snapshot in, and ends in hooks, which may panic. Reloads of one group are
serialised by a lock, poisoned or not, and each commit's panic is caught.

Any number of reloads of one group interleave, one prepare, one begin or one end of a commit at a
time. What a prepare or a commit comes to is the event's to say. `log` is what the commits have done,
and no step reads it; `Kept` says where each reload stands in it, and that only the reload that holds
the lock writes it.
-/

namespace DynamicConfig.Group

open Transition (run)

/-- What preparing a member comes to. -/
inductive Prepared (V : Type) where
  | ok (value : V)
  | error (e : Error)
  | panic

/-- The second half of a member's reload: whose it is, and what it installs. -/
structure Commit (V : Type) where
  member : Nat
  value : V
  deriving DecidableEq

/-- Where a `reload` is. -/
inductive Point (V : Type) where
  | entered
  /-- In the lock, with the commits collected so far. -/
  | preparing (commits : List (Commit V))
  /-- Between two commits, with those still to run. -/
  | committing (left : List (Commit V))
  /-- In a commit. -/
  | running (commit : Commit V) (left : List (Commit V))
  | returned (outcome : Except Error Unit)
  /-- A prepare panicked, and the reload with it. -/
  | unwound

/-- What commits do. -/
inductive Event (V : Type) where
  | began (call : Nat) (commit : Commit V)
  | ended (call : Nat) (commit : Commit V) (panicked : Bool)
  deriving DecidableEq

namespace Event

variable {V : Type}

/-- The reload an event belongs to. -/
def call : Event V → Nat
  | began call _ | ended call _ _ => call

/-- The commit a reload begins in an event. -/
def beginning (i : Nat) : Event V → Option (Commit V)
  | began call commit => if call = i then some commit else none
  | ended _ _ _ => none

/-- The commit a reload comes to the end of in an event. -/
def ending (i : Nat) : Event V → Option (Commit V)
  | began _ _ => none
  | ended call commit _ => if call = i then some commit else none

end Event

/-- Whether a reload is in the lock. -/
def Point.isInside {V : Type} : Point V → Bool
  | preparing _ | committing _ | running _ _ => true
  | entered | returned _ | unwound => false

/-- What a reload that runs commits has not begun. -/
def Point.left {V : Type} : Point V → Option (List (Commit V))
  | committing left | running _ left => some left
  | entered | preparing _ | returned _ | unwound => none

/-- `ReloadGroup`, the calls of `reload` on it, and what their commits have done. -/
structure System (V : Type) where
  /-- The members' names, in the order they were added. -/
  members : List String
  /-- The call that holds the lock. -/
  holder : Option Nat
  poisoned : Bool
  calls : List (Point V)
  log : List (Event V)

/-- One turn. -/
inductive Turn (V : Type) where
  | reload
  | lock (i : Nat)
  | prepare (i : Nat) (prepared : Prepared V)
  /-- Every member is prepared. -/
  | collected (i : Nat)
  | begin (i : Nat)
  | finish (i : Nat) (panicked : Bool)
  | unlock (i : Nat)

namespace System

variable {V : Type}

/-- A call comes to a point. -/
def move (sys : System V) (i : Nat) (point : Point V) : System V :=
  { sys with calls := sys.calls.set i point }

/-- A call leaves the lock. -/
def leave (sys : System V) (i : Nat) (point : Point V) : System V :=
  { sys.move i point with holder := none }

/-- The next member is prepared. A failure drops the commits collected so far. -/
def prepared (sys : System V) (i : Nat) (name : String) (commits : List (Commit V)) :
    Prepared V → System V
  | .ok value => sys.move i (.preparing (commits ++ [⟨commits.length, value⟩]))
  | .error e => sys.leave i (.returned (.error (e.prependKey name)))
  | .panic => { sys.leave i .unwound with poisoned := true }

/-- What one turn does. -/
def step (sys : System V) : Turn V → Option (System V)
  | .reload => some { sys with calls := sys.calls ++ [.entered] }
  | .lock i =>
    -- a poisoned lock is taken like any other
    match sys.calls[i]?, sys.holder with
    | some .entered, none => some { sys.move i (.preparing []) with holder := some i }
    | _, _ => none
  | .prepare i outcome =>
    match sys.calls[i]? with
    | some (.preparing commits) =>
      (sys.members[commits.length]?).map fun name ↦ sys.prepared i name commits outcome
    | _ => none
  | .collected i =>
    match sys.calls[i]? with
    | some (.preparing commits) =>
      if commits.length = sys.members.length then some (sys.move i (.committing commits)) else none
    | _ => none
  | .begin i =>
    match sys.calls[i]? with
    | some (.committing (commit :: left)) =>
      some { sys.move i (.running commit left) with log := sys.log ++ [.began i commit] }
    | _ => none
  | .finish i panicked =>
    match sys.calls[i]? with
    | some (.running commit left) =>
      -- whatever it came to, the loop goes on
      some { sys.move i (.committing left) with log := sys.log ++ [.ended i commit panicked] }
    | _ => none
  | .unlock i =>
    match sys.calls[i]? with
    | some (.committing []) => some (sys.leave i (.returned (.ok ())))
    | _ => none

/-- A group that nobody has reloaded. -/
def start (members : List String) : System V := ⟨members, none, false, [], []⟩

/-! ### The law -/

/-- The commits a reload has begun, in order. -/
def begun (log : List (Event V)) (i : Nat) : List (Commit V) :=
  log.filterMap (Event.beginning i)

/-- The commits a reload has come to the end of. -/
def ended (log : List (Event V)) (i : Nat) : List (Commit V) :=
  log.filterMap (Event.ending i)

/-- Every member's commit, once, in the order of the members. -/
def Each (members : List String) (commits : List (Commit V)) : Prop :=
  commits.map Commit.member = List.range members.length

/-- Between two events of one reload there is none of another. -/
def Apart (log : List (Event V)) : Prop :=
  ∀ (a b c : Nat) (first middle last : Event V), a ≤ b → b ≤ c → log[a]? = some first →
    log[b]? = some middle → log[c]? = some last → first.call = last.call → middle.call = first.call

/-- The turns that take a reload through the rest of its commits, whatever each comes to. -/
def through (i : Nat) : List Bool → List (Turn V)
  | [] => [.unlock i]
  | panicked :: rest => .begin i :: .finish i panicked :: through i rest

/-- **A reload is all or nothing.** -/
structure AllOrNothing (sys : System V) : Prop where
  /-- A reload that failed to prepare has installed nothing. -/
  nothing : ∀ (i : Nat), (∃ e, sys.calls[i]? = some (.returned (.error e))) ∨
    sys.calls[i]? = some .unwound → ∀ e ∈ sys.log, e.call ≠ i
  apart : Apart sys.log
  /-- A reload that has begun to commit has every commit behind it or before it, and no other. -/
  all : ∀ (i : Nat) (point : Point V) left, sys.calls[i]? = some point → point.left = some left →
    Each sys.members (begun sys.log i ++ left)
  /-- And it comes through them, whatever each comes to. -/
  goesThrough : ∀ (i : Nat) left, sys.calls[i]? = some (.committing left) →
    ∀ panics : List Bool, panics.length = left.length →
      ∃ t, run step sys (through i panics) = some t ∧
        t.calls[i]? = some (.returned (.ok ())) ∧ begun t.log i = begun sys.log i ++ left
  /-- A reload that succeeded has run every member's commit exactly once, to its end. -/
  done : ∀ (i : Nat), sys.calls[i]? = some (.returned (.ok ())) →
    Each sys.members (begun sys.log i) ∧ ended sys.log i = begun sys.log i

/-! ### The invariant -/

/-- A reload none of whose commits has begun. -/
def Untouched (log : List (Event V)) (i : Nat) : Prop :=
  ∀ e ∈ log, e.call ≠ i

/-- A reload that may go on writing: it has not begun, or the last to write was it. -/
def Latest (log : List (Event V)) (i : Nat) : Prop :=
  Untouched log i ∨ ∃ e, log.getLast? = some e ∧ e.call = i

/-- Where a reload stands in the log. -/
def Stands (members : List String) (log : List (Event V)) (i : Nat) : Point V → Prop
  | .entered | .unwound | .returned (.error _) => Untouched log i
  | .preparing commits =>
    Untouched log i ∧ commits.map Commit.member = List.range commits.length ∧
      commits.length ≤ members.length
  | .committing left =>
    Each members (begun log i ++ left) ∧ ended log i = begun log i ∧ Latest log i
  | .running commit left =>
    Each members (begun log i ++ left) ∧ begun log i = ended log i ++ [commit] ∧ Latest log i
  | .returned (.ok ()) => Each members (begun log i) ∧ ended log i = begun log i

/-- What every turn keeps. -/
structure Kept (sys : System V) : Prop where
  holds : ∀ (i : Nat) (point : Point V), sys.calls[i]? = some point →
    (point.isInside = true ↔ sys.holder = some i)
  there : ∀ (i : Nat), sys.holder = some i → i < sys.calls.length
  known : ∀ e ∈ sys.log, e.call < sys.calls.length
  apart : Apart sys.log
  stands : ∀ (i : Nat) (point : Point V), sys.calls[i]? = some point →
    Stands sys.members sys.log i point

theorem kept_start (members : List String) : (start members : System V).Kept where
  holds _ _ h := absurd h (Option.some_ne_none _).symm
  there _ h := absurd h (Option.some_ne_none _).symm
  known _ h := absurd h List.not_mem_nil
  apart _ _ _ _ _ _ _ _ h := absurd h (Option.some_ne_none _).symm
  stands _ _ h := absurd h (Option.some_ne_none _).symm

/-! ### Writing the log -/

theorem begun_began (log : List (Event V)) (i : Nat) (commit : Commit V) :
    begun (log ++ [.began i commit]) i = begun log i ++ [commit] := by
  simp [begun, Event.beginning]

theorem begun_ended (log : List (Event V)) (i : Nat) (commit : Commit V) (panicked : Bool) :
    begun (log ++ [.ended i commit panicked]) i = begun log i := by
  simp [begun, Event.beginning]

theorem ended_began (log : List (Event V)) (i : Nat) (commit : Commit V) :
    ended (log ++ [.began i commit]) i = ended log i := by
  simp [ended, Event.ending]

theorem ended_ended (log : List (Event V)) (i : Nat) (commit : Commit V) (panicked : Bool) :
    ended (log ++ [.ended i commit panicked]) i = ended log i ++ [commit] := by
  simp [ended, Event.ending]

/-- Another reload's event begins and ends nothing of this one. -/
theorem nothing_of_ne {e : Event V} {i : Nat} (h : e.call ≠ i) :
    e.beginning i = none ∧ e.ending i = none := by
  rcases e with ⟨call, commit⟩ | ⟨call, commit, panicked⟩
  · exact ⟨if_neg h, rfl⟩
  · exact ⟨rfl, if_neg h⟩

theorem untouched_iff {log : List (Event V)} {e : Event V} {i : Nat} :
    Untouched (log ++ [e]) i ↔ Untouched log i ∧ e.call ≠ i := by
  simp only [Untouched, List.mem_append, List.mem_singleton]
  constructor
  · exact fun h ↦ ⟨fun e he ↦ h e (.inl he), h e (.inr rfl)⟩
  · rintro ⟨h, hlast⟩ e (he | rfl)
    · exact h e he
    · exact hlast

theorem latest_append (log : List (Event V)) (e : Event V) : Latest (log ++ [e]) e.call :=
  .inr ⟨e, List.getLast?_concat, rfl⟩

/-- What stands outside the lock stands when another reload writes. -/
theorem Stands.frame {members : List String} {log : List (Event V)} {e : Event V} {i : Nat}
    {point : Point V} (h : Stands members log i point) (houtside : point.isInside = false)
    (hne : e.call ≠ i) : Stands members (log ++ [e]) i point := by
  obtain ⟨hbegins, hends⟩ := nothing_of_ne hne
  have hbegun : begun (log ++ [e]) i = begun log i := by
    rw [begun, List.filterMap_append, List.filterMap_cons_none hbegins]
    exact List.append_nil _
  have hended : ended (log ++ [e]) i = ended log i := by
    rw [ended, List.filterMap_append, List.filterMap_cons_none hends]
    exact List.append_nil _
  rcases point with - | commits | left | ⟨commit, left⟩ | (e' | ⟨⟨⟩⟩) | -
  · exact untouched_iff.2 ⟨h, hne⟩
  · exact absurd houtside Bool.noConfusion
  · exact absurd houtside Bool.noConfusion
  · exact absurd houtside Bool.noConfusion
  · exact untouched_iff.2 ⟨h, hne⟩
  · rw [Stands, hbegun, hended]
    exact h
  · exact untouched_iff.2 ⟨h, hne⟩

/-- **A reload that may go on writing leaves the reloads apart.** -/
theorem Apart.append {log : List (Event V)} (h : Apart log) {e : Event V}
    (hlatest : Latest log e.call) : Apart (log ++ [e]) := by
  intro a b c first middle last hab hbc hfirst hmiddle hlast hcall
  rcases Transition.getElem?_of_append hmiddle with ⟨hb, rfl⟩ | hmiddle'
  · -- the middle one is the new one, and so is the last
    rcases Transition.getElem?_of_append hlast with ⟨-, rfl⟩ | hlast'
    · exact hcall.symm
    · have hlt := Transition.lt_length_of_getElem? hlast'
      omega
  · rcases Transition.getElem?_of_append hfirst with ⟨ha, rfl⟩ | hfirst'
    · have hlt := Transition.lt_length_of_getElem? hmiddle'
      omega
    · rcases Transition.getElem?_of_append hlast with ⟨hc, rfl⟩ | hlast'
      · -- it has written before, so the last to write was it
        rcases hlatest with hnone | ⟨e', hlast', he'⟩
        · exact absurd hcall (hnone first (List.mem_of_getElem? hfirst'))
        · rw [List.getLast?_eq_getElem?] at hlast'
          have hlt := Transition.lt_length_of_getElem? hmiddle'
          exact h a b (log.length - 1) first middle e' hab (by omega) hfirst' hmiddle' hlast'
            (hcall.trans he'.symm)
      · exact h a b c first middle last hab hbc hfirst' hmiddle' hlast' hcall

/-! ### What every turn keeps -/

/-- A call that stays on its side of the lock and writes nothing keeps what is kept. -/
theorem Kept.move {sys : System V} (h : sys.Kept) {i : Nat} {x y : Point V}
    (hx : sys.calls[i]? = some x) (hside : y.isInside = x.isInside)
    (hy : Stands sys.members sys.log i y) : (sys.move i y).Kept where
  holds := Transition.forall_set h.holds (by rw [hside]; exact h.holds i x hx)
  there j hj := Transition.lt_length_set (h.there j hj)
  known e he := Transition.lt_length_set (h.known e he)
  apart := h.apart
  stands := Transition.forall_set h.stands hy

/-- The call that holds the lock leaves it. -/
theorem Kept.leave {sys : System V} (h : sys.Kept) {i : Nat} {x y : Point V}
    (hx : sys.calls[i]? = some x) (hinside : x.isInside = true) (houtside : y.isInside = false)
    (hy : Stands sys.members sys.log i y) : (sys.leave i y).Kept where
  holds := by
    have hholds : sys.holder = some i := (h.holds i x hx).1 hinside
    intro j z hz
    show z.isInside = true ↔ none = some j
    rcases Transition.getElem?_of_set hz with ⟨rfl, rfl⟩ | ⟨hne, hz⟩
    · simp [houtside]
    · -- nobody else held it
      have hfalse : ¬z.isInside = true := by
        rw [h.holds j z hz, hholds]
        exact fun hij ↦ hne (Option.some.inj hij).symm
      simp [hfalse]
  there j hj := absurd hj (Option.some_ne_none j).symm
  known e he := Transition.lt_length_set (h.known e he)
  apart := h.apart
  stands := Transition.forall_set h.stands hy

/-- **The call that holds the lock is the one that writes.** -/
theorem Kept.write {sys : System V} (h : sys.Kept) {i : Nat} {x y : Point V} {e : Event V}
    (hx : sys.calls[i]? = some x) (hinside : x.isInside = true) (hinside' : y.isInside = true)
    (hcall : e.call = i) (hlatest : Latest sys.log i)
    (hy : Stands sys.members (sys.log ++ [e]) i y) :
    Kept { sys.move i y with log := sys.log ++ [e] } where
  holds := by
    have hholds : sys.holder = some i := (h.holds i x hx).1 hinside
    exact Transition.forall_set h.holds (iff_of_true hinside' hholds)
  there j hj := Transition.lt_length_set (h.there j hj)
  known e' he := by
    refine Transition.lt_length_set ?_
    rcases List.mem_append.1 he with hold | hnew
    · exact h.known e' hold
    · rw [List.mem_singleton.1 hnew, hcall]
      exact Transition.lt_length_of_getElem? hx
  apart := h.apart.append (hcall ▸ hlatest)
  stands := by
    have hholds : sys.holder = some i := (h.holds i x hx).1 hinside
    intro j z hz
    rcases Transition.getElem?_of_set hz with ⟨rfl, rfl⟩ | ⟨hne, hz⟩
    · exact hy
    · have houtside : z.isInside = false := by
        rw [Bool.eq_false_iff, Ne, h.holds j z hz, hholds]
        exact fun hij ↦ hne (Option.some.inj hij).symm
      exact (h.stands j z hz).frame houtside (hcall ▸ Ne.symm hne)

/-- One more commit is collected. -/
theorem collects {commits : List (Commit V)}
    (h : commits.map Commit.member = List.range commits.length) (value : V) :
    (commits ++ [(⟨commits.length, value⟩ : Commit V)]).map Commit.member =
      List.range (commits ++ [(⟨commits.length, value⟩ : Commit V)]).length := by
  rw [List.map_append, h, List.length_append, List.length_singleton, List.range_succ]
  rfl

/-- A reload that has begun nothing stands with nothing begun and nothing ended. -/
theorem Untouched.begun {log : List (Event V)} {i : Nat} (h : Untouched log i) :
    begun log i = [] ∧ ended log i = [] :=
  ⟨List.filterMap_eq_nil_iff.2 fun e he ↦ (nothing_of_ne (h e he)).1,
    List.filterMap_eq_nil_iff.2 fun e he ↦ (nothing_of_ne (h e he)).2⟩

/-- Poison is nothing a reload stands on. -/
theorem Kept.poison {sys : System V} (h : sys.Kept) : Kept { sys with poisoned := true } :=
  ⟨h.holds, h.there, h.known, h.apart, h.stands⟩

theorem Kept.prepared {sys : System V} (h : sys.Kept) {i : Nat} {name : String}
    {commits : List (Commit V)} (hpoint : sys.calls[i]? = some (.preparing commits))
    (hlt : commits.length < sys.members.length) (outcome : Prepared V) :
    (sys.prepared i name commits outcome).Kept := by
  obtain ⟨huntouched, hcommits, -⟩ := h.stands i _ hpoint
  rcases outcome with value | e | -
  · have hlength : (commits ++ [(⟨commits.length, value⟩ : Commit V)]).length ≤
        sys.members.length := by
      rw [List.length_append, List.length_singleton]
      omega
    exact h.move hpoint rfl ⟨huntouched, collects hcommits value, hlength⟩
  · exact h.leave hpoint rfl rfl huntouched
  · have hleft : (sys.leave i .unwound).Kept := h.leave hpoint rfl rfl huntouched
    exact hleft.poison

/-- A call that enters has written nothing. -/
theorem Kept.enter {sys : System V} (h : sys.Kept) :
    Kept { sys with calls := sys.calls ++ [.entered] } where
  holds := by
    have hout : (Point.entered : Point V).isInside = true ↔ sys.holder = some sys.calls.length := by
      simp only [Point.isInside, Bool.false_eq_true, false_iff]
      exact fun hholds ↦ absurd (h.there _ hholds) (Nat.lt_irrefl _)
    exact Transition.forall_append h.holds hout
  there j hj := Transition.lt_length_append (h.there j hj)
  known e he := Transition.lt_length_append (h.known e he)
  apart := h.apart
  stands := Transition.forall_append h.stands fun e he ↦ Nat.ne_of_lt (h.known e he)

/-- A call takes the lock that nobody holds. -/
theorem Kept.lock {sys : System V} (h : sys.Kept) {i : Nat}
    (hpoint : sys.calls[i]? = some .entered) (hfree : sys.holder = none) :
    Kept { sys.move i (.preparing []) with holder := some i } where
  holds := by
    intro j z hz
    show z.isInside = true ↔ some i = some j
    rcases Transition.getElem?_of_set hz with ⟨rfl, rfl⟩ | ⟨hne, hz⟩
    · simp [Point.isInside]
    · rw [h.holds j z hz, hfree]
      simp [Ne.symm hne]
  there j hj := by
    obtain rfl := Option.some.inj hj
    exact Transition.lt_length_set (Transition.lt_length_of_getElem? hpoint)
  known e he := Transition.lt_length_set (h.known e he)
  apart := h.apart
  stands := by
    have huntouched : Untouched sys.log i := h.stands i _ hpoint
    exact Transition.forall_set h.stands ⟨huntouched, rfl, Nat.zero_le _⟩

/-- Every member is prepared, and nothing has begun. -/
theorem Kept.collected {sys : System V} (h : sys.Kept) {i : Nat} {commits : List (Commit V)}
    (hpoint : sys.calls[i]? = some (.preparing commits))
    (hall : commits.length = sys.members.length) : (sys.move i (.committing commits)).Kept := by
  obtain ⟨huntouched, hcommits, -⟩ := h.stands i _ hpoint
  obtain ⟨hbegun, hended⟩ := huntouched.begun
  refine h.move hpoint rfl ⟨?_, hended.trans hbegun.symm, .inl huntouched⟩
  rw [hbegun, List.nil_append, Each, hcommits, hall]

/-- **A commit begins.** -/
theorem Kept.begin {sys : System V} (h : sys.Kept) {i : Nat} {commit : Commit V}
    {left : List (Commit V)} (hpoint : sys.calls[i]? = some (.committing (commit :: left))) :
    Kept { sys.move i (.running commit left) with log := sys.log ++ [.began i commit] } := by
  obtain ⟨heach, hended, hlatest⟩ := h.stands i _ hpoint
  refine h.write hpoint rfl rfl rfl hlatest ⟨?_, ?_, latest_append sys.log (.began i commit)⟩
  · rw [begun_began, List.append_assoc]
    exact heach
  · rw [begun_began, ended_began, hended]

/-- **A commit ends**, whatever it came to. -/
theorem Kept.finish {sys : System V} (h : sys.Kept) {i : Nat} {commit : Commit V}
    {left : List (Commit V)} (hpoint : sys.calls[i]? = some (.running commit left))
    (panicked : Bool) :
    Kept { sys.move i (.committing left) with
      log := sys.log ++ [.ended i commit panicked] } := by
  obtain ⟨heach, hbegun, hlatest⟩ := h.stands i _ hpoint
  refine h.write hpoint rfl rfl rfl hlatest ⟨?_, ?_, latest_append sys.log (.ended i commit panicked)⟩
  · rw [begun_ended]
    exact heach
  · rw [begun_ended, ended_ended, hbegun]

/-- The last commit has ended. -/
theorem Kept.unlock {sys : System V} (h : sys.Kept) {i : Nat}
    (hpoint : sys.calls[i]? = some (.committing [])) :
    (sys.leave i (.returned (.ok ()))).Kept := by
  obtain ⟨heach, hended, -⟩ := h.stands i _ hpoint
  rw [List.append_nil] at heach
  exact h.leave hpoint rfl rfl ⟨heach, hended⟩

/-- **What every turn keeps.** -/
theorem Kept.step {sys t : System V} {turn : Turn V} (h : sys.Kept)
    (hstep : sys.step turn = some t) : t.Kept := by
  rcases turn with - | i | ⟨i, outcome⟩ | i | i | ⟨i, panicked⟩ | i <;>
    simp only [System.step] at hstep
  · cases hstep
    exact h.enter
  · split at hstep
    · rename_i hpoint hfree
      cases hstep
      exact h.lock hpoint hfree
    · cases hstep
  · split at hstep
    · rename_i commits hpoint
      obtain ⟨name, hname, rfl⟩ := Option.map_eq_some_iff.1 hstep
      exact h.prepared hpoint (Transition.lt_length_of_getElem? hname) outcome
    · cases hstep
  · split at hstep
    · rename_i commits hpoint
      split at hstep
      · rename_i hall
        cases hstep
        exact h.collected hpoint hall
      · cases hstep
    · cases hstep
  · split at hstep
    · rename_i commit left hpoint
      cases hstep
      exact h.begin hpoint
    · cases hstep
  · split at hstep
    · rename_i commit left hpoint
      cases hstep
      exact h.finish hpoint panicked
    · cases hstep
  · split at hstep
    · rename_i hpoint
      cases hstep
      exact h.unlock hpoint
    · cases hstep

theorem kept_of_run {members : List String} {turns : List (Turn V)} {sys : System V}
    (hrun : run step (start members) turns = some sys) : sys.Kept :=
  Transition.run_invariant (fun _ _ _ hstep hkept ↦ hkept.step hstep) hrun (kept_start members)

/-! ### All or nothing -/

/-- **The rest of the commits run, whatever each comes to.** -/
theorem goesThrough_of_committing (i : Nat) (left : List (Commit V)) :
    ∀ (sys : System V), sys.calls[i]? = some (.committing left) →
      ∀ panics : List Bool, panics.length = left.length →
        ∃ t, run step sys (through i panics) = some t ∧
          t.calls[i]? = some (.returned (.ok ())) ∧ begun t.log i = begun sys.log i ++ left := by
  induction left with
  | nil =>
    intro sys hpoint panics hlength
    obtain rfl := List.length_eq_zero_iff.1 hlength
    have hstep : sys.step (.unlock i) = some (sys.leave i (.returned (.ok ()))) := by
      simp only [System.step, hpoint]
    refine ⟨sys.leave i (.returned (.ok ())), ?_, Transition.getElem?_set_moved hpoint _,
      (List.append_nil _).symm⟩
    rw [through, Transition.run_cons_of_step hstep]
    rfl
  | cons commit left ih =>
    intro sys hpoint panics hlength
    obtain ⟨panicked, rest, rfl⟩ := List.exists_cons_of_length_eq_add_one hlength
    -- it begins and ends, and the others are still to come
    let during : System V :=
      { sys.move i (.running commit left) with log := sys.log ++ [.began i commit] }
    let after : System V :=
      { during.move i (.committing left) with log := during.log ++ [.ended i commit panicked] }
    have hbegin : sys.step (.begin i) = some during := by
      simp only [System.step, hpoint]
      rfl
    have hduring : during.calls[i]? = some (.running commit left) :=
      Transition.getElem?_set_moved hpoint _
    have hfinish : during.step (.finish i panicked) = some after := by
      simp only [System.step, hduring]
      rfl
    obtain ⟨t, hrun, hdone, hbegun⟩ := ih after (Transition.getElem?_set_moved hduring _) rest
      (Nat.succ.inj hlength)
    refine ⟨t, ?_, hdone, ?_⟩
    · rw [through, Transition.run_cons_of_step hbegin, Transition.run_cons_of_step hfinish]
      exact hrun
    · have hafter : begun after.log i = begun sys.log i ++ [commit] := by
        show begun (sys.log ++ [.began i commit] ++ [.ended i commit panicked]) i = _
        rw [begun_ended, begun_began]
      rw [hbegun, hafter, List.append_assoc]
      rfl

/-- **A reload of a group is all or nothing**, however many interleave and whatever the members'
prepares and commits come to. -/
theorem allOrNothing_of_run {members : List String} {turns : List (Turn V)} {sys : System V}
    (hrun : run step (start members) turns = some sys) : sys.AllOrNothing := by
  have hkept := kept_of_run hrun
  refine ⟨?_, hkept.apart, ?_, fun i left hpoint ↦ goesThrough_of_committing i left sys hpoint,
    fun i hpoint ↦ hkept.stands i _ hpoint⟩
  · rintro i (⟨e, hpoint⟩ | hpoint)
    · exact hkept.stands i _ hpoint
    · exact hkept.stands i _ hpoint
  · intro i point left hpoint hleft
    have hstands := hkept.stands i point hpoint
    rcases point with - | commits | left' | ⟨commit, left'⟩ | outcome | -
    · exact absurd hleft.symm (Option.some_ne_none left)
    · exact absurd hleft.symm (Option.some_ne_none left)
    · obtain rfl := Option.some.inj hleft
      exact hstands.1
    · obtain rfl := Option.some.inj hleft
      exact hstands.1
    · exact absurd hleft.symm (Option.some_ne_none left)
    · exact absurd hleft.symm (Option.some_ne_none left)

/-- Two reloads of two members. The first one's first commit panics; the second waits for the lock,
and panics preparing the second member. -/
def twoReloads : List (Turn Nat) :=
  [.reload, .reload, .lock 0, .prepare 0 (.ok 10), .prepare 0 (.ok 11), .collected 0, .begin 0,
    .finish 0 true, .begin 0, .finish 0 false, .unlock 0, .lock 1, .prepare 1 (.ok 20),
    .prepare 1 .panic]

/-- What is left of the two. -/
def afterTwo : System Nat where
  members := ["server", "db"]
  holder := none
  poisoned := true
  calls := [.returned (.ok ()), .unwound]
  log := [.began 0 ⟨0, 10⟩, .ended 0 ⟨0, 10⟩ true, .began 0 ⟨1, 11⟩, .ended 0 ⟨1, 11⟩ false]

theorem allOrNothing_twoReloads :
    run step (start ["server", "db"]) twoReloads = some afterTwo ∧ afterTwo.AllOrNothing := by
  have hrun : run step (start ["server", "db"]) twoReloads = some afterTwo := rfl
  exact ⟨hrun, allOrNothing_of_run hrun⟩

end System

end DynamicConfig.Group
