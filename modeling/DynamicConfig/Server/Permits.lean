import DynamicConfig.Server.State
import DynamicConfig.Transition.Parties

/-!
# The ceiling on open streams

The places of the ceiling are counted in one atomic. An attempt loads it, gives up where the count
has reached the maximum, and else tries to exchange what it saw for one more: the exchange fails
where the count has moved meanwhile, or for no reason, and the attempt goes round with what is
there. A permit takes its place back when it is dropped.

Any number of attempts and drops interleave, one access of the counter at a time. The counter is a
machine word, and nothing in a step keeps it from wrapping; that it never does is part of what is
shown. `history` holds the values the counter has had, so that a moment is an index into it, and
nothing reads it.
-/

namespace DynamicConfig.Server.Permits

open Transition (run)

/-- Where an attempt to open a stream is. -/
inductive Point (w : Nat) where
  | entered
  /-- The count it has seen last. -/
  | observed (open_ : BitVec w)
  /-- It holds a permit. -/
  | permitted
  /-- It was refused at a moment. -/
  | refused (ended : Nat)
  /-- Its permit has been dropped. -/
  | dropped
  deriving DecidableEq

/-- Whether a permit is live. -/
def Point.isLive {w : Nat} : Point w → Bool
  | permitted => true
  | _ => false

/-- An attempt, and the moment it began. -/
structure Attempt (w : Nat) where
  began : Nat
  point : Point w
  deriving DecidableEq

/-- The counter of open streams, the attempts made so far, and the values the counter has had. -/
structure Streams (w : Nat) where
  maxStreams : BitVec w
  streams : BitVec w
  attempts : List (Attempt w)
  history : List (BitVec w)
  deriving DecidableEq

/-- One access of the counter, or the begin of an attempt. -/
inductive Turn where
  | begin
  | load (i : Nat)
  /-- One round of the loop, whose exchange may fail spuriously. -/
  | exchange (i : Nat) (spurious : Bool)
  /-- The permit of an attempt is dropped. -/
  | drop (i : Nat)
  deriving DecidableEq

namespace Streams

variable {w : Nat}

/-- The present moment. -/
def now (s : Streams w) : Nat := s.history.length - 1

/-- An attempt comes to a point. -/
def move (s : Streams w) (i : Nat) (a : Attempt w) (point : Point w) : Streams w :=
  { s with attempts := s.attempts.set i { a with point } }

/-- The counter is written. -/
def write (s : Streams w) (streams : BitVec w) : Streams w :=
  { s with streams, history := s.history ++ [streams] }

/-- One round of `open_stream`: refused, exchanged, or told what is there. -/
def round (s : Streams w) (i : Nat) (a : Attempt w) (open_ : BitVec w) (spurious : Bool) :
    Streams w :=
  if s.maxStreams ≤ open_ then s.move i a (.refused s.now)
  else if s.streams = open_ ∧ !spurious then (s.move i a .permitted).write (open_ + 1)
  else s.move i a (.observed s.streams)

/-- What one turn does. -/
def step (s : Streams w) : Turn → Option (Streams w)
  | .begin => some { s with attempts := s.attempts ++ [⟨s.now, .entered⟩] }
  | .load i =>
    match s.attempts[i]? with
    | some ⟨began, .entered⟩ => some (s.move i ⟨began, .entered⟩ (.observed s.streams))
    | _ => none
  | .exchange i spurious =>
    match s.attempts[i]? with
    | some ⟨began, .observed open_⟩ => some (s.round i ⟨began, .observed open_⟩ open_ spurious)
    | _ => none
  | .drop i =>
    match s.attempts[i]? with
    | some ⟨began, .permitted⟩ =>
      some ((s.move i ⟨began, .permitted⟩ .dropped).write (s.streams - 1))
    | _ => none

/-- No stream is open. -/
def start (maxStreams : BitVec w) : Streams w := ⟨maxStreams, 0, [], [0]⟩

/-- How many permits are live. -/
def live (s : Streams w) : Nat := s.attempts.countP fun a ↦ a.point.isLive

/-- Between two moments the counter was at the maximum. -/
def Reached (s : Streams w) (first last : Nat) : Prop :=
  ∃ m, first ≤ m ∧ m ≤ last ∧ s.history[m]? = some s.maxStreams

/-- **The ceiling holds**: the counter is the number of live permits and at most the maximum, it can
always be taken one from for a permit, and who was refused was refused for a reason. -/
structure Ceiling (s : Streams w) : Prop where
  counted : s.streams.toNat = s.live
  bounded : s.live ≤ s.maxStreams.toNat
  noUnderflow : ∀ (i : Nat) (a : Attempt w), s.attempts[i]? = some a → a.point = .permitted → 0 < s.streams.toNat
  refused : ∀ (i : Nat) (a : Attempt w) ended, s.attempts[i]? = some a → a.point = .refused ended →
    s.Reached a.began ended

/-! ### The invariant -/

/-- What is remembered of an attempt: what it saw was there since it began, and if it was refused
the maximum was. -/
structure Sound (s : Streams w) (a : Attempt w) : Prop where
  began : a.began ≤ s.now
  seen : ∀ open_, a.point = .observed open_ →
    ∃ m, a.began ≤ m ∧ m ≤ s.now ∧ s.history[m]? = some open_
  refused : ∀ ended, a.point = .refused ended → s.Reached a.began ended

/-- What every turn keeps. -/
structure Kept (s : Streams w) : Prop where
  counted : s.streams.toNat = s.live
  bounded : s.live ≤ s.maxStreams.toNat
  latest : s.history[s.now]? = some s.streams
  past : ∀ v ∈ s.history, v.toNat ≤ s.maxStreams.toNat
  sound : ∀ (i : Nat) (a : Attempt w), s.attempts[i]? = some a → s.Sound a

theorem kept_start (maxStreams : BitVec w) : (start maxStreams).Kept where
  counted := BitVec.toNat_zero
  bounded := Nat.zero_le _
  latest := rfl
  past v hv := by
    rw [List.mem_singleton.1 hv]
    exact Nat.zero_le _
  sound _ _ h := absurd h (Option.some_ne_none _).symm

/-- A value of the past is a value of the longer past. -/
theorem getElem?_write {s : Streams w} {m : Nat} {v : BitVec w} (h : s.history[m]? = some v)
    (streams : BitVec w) : (s.write streams).history[m]? = some v := by
  rw [write, List.getElem?_append_left (Transition.lt_length_of_getElem? h)]
  exact h

theorem now_write {s : Streams w} (h : s.Kept) (streams : BitVec w) :
    (s.write streams).now = s.now + 1 := by
  have hlt := Transition.lt_length_of_getElem? h.latest
  simp only [now, write, List.length_append, List.length_singleton] at *
  omega

/-- What is remembered is about the past of the counter only. -/
theorem Sound.of_eq {s t : Streams w} {a : Attempt w} (h : s.Sound a)
    (hmax : t.maxStreams = s.maxStreams) (hhistory : t.history = s.history) : t.Sound a := by
  have hnow : t.now = s.now := by rw [now, now, hhistory]
  refine ⟨hnow ▸ h.began, fun open_ hpoint ↦ ?_, fun ended hpoint ↦ ?_⟩
  · rw [hnow, hhistory]
    exact h.seen open_ hpoint
  · rw [Reached, hhistory, hmax]
    exact h.refused ended hpoint

/-- Writing the counter keeps what is remembered. -/
theorem Sound.write {s : Streams w} {a : Attempt w} (ha : s.Sound a) (h : s.Kept)
    (streams : BitVec w) : (s.write streams).Sound a := by
  have hnow := now_write h streams
  refine ⟨by have := ha.began; omega, fun open_ hpoint ↦ ?_, fun ended hpoint ↦ ?_⟩
  · obtain ⟨m, hfirst, hlast, hm⟩ := ha.seen open_ hpoint
    exact ⟨m, hfirst, by omega, getElem?_write hm streams⟩
  · obtain ⟨m, hfirst, hlast, hm⟩ := ha.refused ended hpoint
    exact ⟨m, hfirst, hlast, getElem?_write hm streams⟩

/-- An attempt that comes to a permit, or loses it, remembers nothing. -/
theorem Sound.of_point {s : Streams w} {a : Attempt w} (h : s.Sound a) {point : Point w}
    (hobserved : ∀ open_, point ≠ .observed open_) (hrefused : ∀ ended, point ≠ .refused ended) :
    s.Sound { a with point } :=
  ⟨h.began, fun open_ hpoint ↦ absurd hpoint (hobserved open_),
    fun ended hpoint ↦ absurd hpoint (hrefused ended)⟩

/-- An attempt that saw the counter as it is. -/
theorem Sound.look {s : Streams w} {a : Attempt w} (h : s.Sound a) (hs : s.Kept) :
    s.Sound { a with point := .observed s.streams } where
  began := h.began
  seen _ hpoint := ⟨s.now, h.began, le_rfl, Point.observed.inj hpoint ▸ hs.latest⟩
  refused _ hpoint := absurd hpoint (by simp)

/-- What was seen at the maximum was the maximum. -/
theorem Sound.refuse {s : Streams w} {a : Attempt w} (h : s.Sound a) (hs : s.Kept)
    {open_ : BitVec w} (hpoint : a.point = .observed open_) (hfull : s.maxStreams ≤ open_) :
    s.Sound { a with point := .refused s.now } where
  began := h.began
  seen _ hpoint' := absurd hpoint' (by simp)
  refused ended hpoint' := by
    obtain ⟨m, hfirst, hlast, hm⟩ := h.seen open_ hpoint
    have hbound := hs.past open_ (List.mem_of_getElem? hm)
    have hmax : open_ = s.maxStreams := BitVec.eq_of_toNat_eq (le_antisymm hbound hfull)
    exact ⟨m, hfirst, Point.refused.inj hpoint' ▸ hlast, hmax ▸ hm⟩

/-- How many permits are live after a move. -/
theorem live_move {s : Streams w} {i : Nat} {a : Attempt w} (h : s.attempts[i]? = some a)
    (point : Point w) :
    (s.move i a point).live + (if a.point.isLive then 1 else 0) =
      s.live + (if point.isLive then 1 else 0) :=
  Transition.countP_set_moved (fun b : Attempt w ↦ b.point.isLive) h

/-- A move that takes and gives back no permit. -/
theorem Kept.move {s : Streams w} (h : s.Kept) {i : Nat} {a : Attempt w}
    (ha : s.attempts[i]? = some a) {point : Point w} (hlive : point.isLive = a.point.isLive)
    (hsound : s.Sound { a with point }) : (s.move i a point).Kept := by
  have hcount := live_move ha point
  rw [hlive] at hcount
  have hsame : (s.move i a point).live = s.live := by omega
  refine ⟨hsame ▸ h.counted, hsame ▸ h.bounded, h.latest, h.past, ?_⟩
  exact Transition.forall_set (fun j b hb ↦ (h.sound j b hb).of_eq rfl rfl)
    (hsound.of_eq rfl rfl)

/-- A move that writes the number of permits it leaves. -/
theorem Kept.write {s : Streams w} (h : s.Kept) {i : Nat} {a : Attempt w}
    (ha : s.attempts[i]? = some a) {point : Point w} {streams : BitVec w}
    (hobserved : ∀ open_, point ≠ .observed open_) (hrefused : ∀ ended, point ≠ .refused ended)
    (hcount : streams.toNat = (s.move i a point).live)
    (hbound : streams.toNat ≤ s.maxStreams.toNat) : ((s.move i a point).write streams).Kept where
  counted := hcount
  bounded := hcount ▸ hbound
  latest := by
    have hnow : ((s.move i a point).write streams).now = s.history.length := by
      simp only [now, Streams.write, List.length_append, List.length_singleton, Streams.move]
      omega
    rw [hnow]
    exact List.getElem?_concat_length
  past v hv := by
    rcases List.mem_append.1 hv with hv | hv
    · exact h.past v hv
    · exact List.mem_singleton.1 hv ▸ hbound
  sound := by
    have hmoved := (h.sound i a ha).of_point hobserved hrefused
    exact Transition.forall_set
      (fun j b hb ↦ ((h.sound j b hb).write h streams).of_eq rfl rfl)
      ((hmoved.write h streams).of_eq rfl rfl)

/-- **What a turn keeps.** -/
theorem Kept.step {s t : Streams w} (h : s.Kept) {turn : Turn} (hstep : s.step turn = some t) :
    t.Kept := by
  cases turn with
  | begin =>
    obtain rfl := Option.some_inj.1 hstep
    refine ⟨?_, ?_, h.latest, h.past, ?_⟩
    · rw [live, List.countP_append]
      exact h.counted
    · rw [live, List.countP_append]
      exact h.bounded
    · exact Transition.forall_append (fun j b hb ↦ (h.sound j b hb).of_eq rfl rfl)
        ⟨le_rfl, fun _ hp ↦ absurd hp (by simp), fun _ hp ↦ absurd hp (by simp)⟩
  | load i =>
    rw [Streams.step] at hstep
    split at hstep
    · next began ha =>
      obtain rfl := Option.some_inj.1 hstep
      exact h.move ha rfl ((h.sound i _ ha).look h)
    · cases hstep
  | exchange i spurious =>
    rw [Streams.step] at hstep
    split at hstep
    · next began open_ ha =>
      obtain rfl := Option.some_inj.1 hstep
      have hsound := h.sound i _ ha
      rw [round]
      split_ifs with hfull hexchanged
      · exact h.move ha rfl (hsound.refuse h rfl hfull)
      · -- what it saw is there, and is below the maximum
        have hbelow : open_.toNat < s.maxStreams.toNat := not_le.1 hfull
        have hword : open_.toNat + 1 < 2 ^ w :=
          lt_of_le_of_lt hbelow s.maxStreams.isLt
        have hone : (1 : BitVec w).toNat = 1 := by
          have hpos : 0 < w := Nat.pos_of_ne_zero fun hw ↦ by subst hw; omega
          exact BitVec.toNat_one hpos
        have hsucc : (open_ + 1).toNat = open_.toNat + 1 := by
          rw [BitVec.toNat_add_of_lt (by omega), hone]
        have hcount := live_move ha .permitted
        have hcounted := h.counted
        rw [hexchanged.1] at hcounted
        simp only [Point.isLive, Bool.false_eq_true, if_false, if_true] at hcount
        exact h.write ha (fun _ ↦ by simp) (fun _ ↦ by simp) (by omega) (by omega)
      · exact h.move ha rfl (hsound.look h)
    · cases hstep
  | drop i =>
    rw [Streams.step] at hstep
    split at hstep
    · next began ha =>
      obtain rfl := Option.some_inj.1 hstep
      -- a permit is live, so there is one to take from
      have hpos : 0 < s.live := Transition.countP_pos_of_getElem? ha rfl
      have hone : (1 : BitVec w).toNat = 1 := by
        have hw : 0 < w := Nat.pos_of_ne_zero fun hw ↦ by
          subst hw
          have := s.streams.isLt
          have := h.counted
          omega
        exact BitVec.toNat_one hw
      have hle : (1 : BitVec w) ≤ s.streams := by
        rw [BitVec.le_def, hone, h.counted]
        omega
      have hpred : (s.streams - 1).toNat = s.streams.toNat - 1 := by
        rw [BitVec.toNat_sub_of_le hle, hone]
      have hcount := live_move ha .dropped
      have hcounted := h.counted
      have hbounded := h.bounded
      simp only [Point.isLive, Bool.false_eq_true, if_false, if_true] at hcount
      exact h.write ha (fun _ ↦ by simp) (fun _ ↦ by simp) (by omega) (by omega)
    · cases hstep

theorem kept_of_run {maxStreams : BitVec w} {turns : List Turn} {s : Streams w}
    (h : run step (start maxStreams) turns = some s) : s.Kept :=
  Transition.run_invariant (fun _ _ _ hstep hs ↦ hs.step hstep) h (kept_start maxStreams)

/-- **The ceiling holds in every interleaving** of attempts and drops. -/
theorem ceiling_of_run {maxStreams : BitVec w} {turns : List Turn} {s : Streams w}
    (h : run step (start maxStreams) turns = some s) : s.Ceiling := by
  have hkept := kept_of_run h
  refine ⟨hkept.counted, hkept.bounded, fun i a ha hpoint ↦ ?_, fun i a ended ha ↦ ?_⟩
  · rw [hkept.counted]
    refine Transition.countP_pos_of_getElem? ha ?_
    rw [hpoint]
    rfl
  · exact (hkept.sound i a ha).refused ended

/-- Two attempts at one place: the second sees it free, fails to take it, sees it taken and is
refused; then the first gives it back. -/
def contended : List Turn :=
  [.begin, .begin, .load 0, .load 1, .exchange 0 false, .exchange 1 false, .exchange 1 false, .drop 0]

theorem ceiling_contended :
    ∃ s, run step (start (1 : BitVec 64)) contended = some s ∧ s.Ceiling := by
  have hrun : (run step (start (1 : BitVec 64)) contended).isSome = true := by decide
  obtain ⟨s, hs⟩ := Option.isSome_iff_exists.1 hrun
  exact ⟨s, hs, ceiling_of_run hs⟩

/-- **An attempt that nobody interrupts is `Server.openStream`.** -/
theorem openStream_alone {server : Server} {s : Streams w}
    (hmax : server.maxStreams = s.maxStreams.toNat) (hstreams : server.streams = s.streams.toNat) :
    ∃ t a, run step s [.begin, .load s.attempts.length, .exchange s.attempts.length false] = some t ∧
      t.attempts[s.attempts.length]? = some a ∧ server.openStream.isSome = a.point.isLive := by
  set n := s.attempts.length with hn
  set begun : Streams w := { s with attempts := s.attempts ++ [⟨s.now, .entered⟩] } with hbegun
  have hentered : begun.attempts[n]? = some ⟨s.now, .entered⟩ := List.getElem?_concat_length
  set looked := begun.move n ⟨s.now, .entered⟩ (.observed s.streams) with hlooked
  have hobserved : looked.attempts[n]? = some ⟨s.now, .observed s.streams⟩ :=
    Transition.getElem?_set_moved hentered _
  have hload : begun.step (.load n) = some looked := by
    rw [step, hentered]
  have hexchange : looked.step (.exchange n false) =
      some (looked.round n ⟨s.now, .observed s.streams⟩ s.streams false) := by
    rw [step, hobserved]
  have hrun : run step s [.begin, .load n, .exchange n false] =
      some (looked.round n ⟨s.now, .observed s.streams⟩ s.streams false) := by
    rw [Transition.run_cons_of_step (t := begun) rfl, Transition.run_cons_of_step hload,
      Transition.run_cons_of_step hexchange]
    rfl
  rw [Server.openStream, hmax, hstreams]
  by_cases hfull : s.maxStreams.toNat ≤ s.streams.toNat
  · have hround : looked.round n ⟨s.now, .observed s.streams⟩ s.streams false =
        looked.move n ⟨s.now, .observed s.streams⟩ (.refused looked.now) := if_pos hfull
    rw [hround] at hrun
    refine ⟨_, _, hrun, Transition.getElem?_set_moved hobserved _, ?_⟩
    rw [if_pos hfull]
    rfl
  · have hround : looked.round n ⟨s.now, .observed s.streams⟩ s.streams false =
        (looked.move n ⟨s.now, .observed s.streams⟩ .permitted).write (s.streams + 1) :=
      (if_neg hfull).trans (if_pos ⟨rfl, rfl⟩)
    rw [hround] at hrun
    refine ⟨_, _, hrun, Transition.getElem?_set_moved hobserved _, ?_⟩
    rw [if_neg hfull]
    rfl

end Streams

end DynamicConfig.Server.Permits
