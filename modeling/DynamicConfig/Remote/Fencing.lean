import DynamicConfig.Remote.Slot
import DynamicConfig.Transition.Run
import Mathlib.Order.Nat

/-!
# What the fences keep out

Any number of callers share one slot. Each of them takes the lock for one operation at a time, so
what they do together is a run of events: a source is installed, the document is cleared, a fetch
takes its fence, commits, records; a sink is taken, delivers, reports. Between the events of one
fetch, or of one sink, anything may happen.

The system carries what the code does not: every installed source has a number, every document the
source it came from and the number of clears when its fetch started or its push was accepted, every
attempt its source. Nothing of this is read by an operation, since a slot looks into neither its
source nor its document. `Fenced` says what the fences are for in these terms.

**The counters wrap.** `generation` returns to a value after as many replacements as a word has
values, `cleared` after as many clears, and a fence taken that long ago fits again
(`not_fenced_of_clears`). Below both bounds nothing late gets in (`fenced_of_run`).
-/

namespace DynamicConfig.Remote

open Transition (run)

/-! ### The parties -/

/-- A source that was installed: the how-manieth, and how it describes itself. -/
structure Installed where
  number : Nat
  description : String
  deriving DecidableEq, Repr

/-- Whatever source is installed, if any. -/
abbrev Holder := Option (Kind Installed)

/-- The number of the installed source, `0` before the first. -/
def Holder.number (holder : Holder) : Nat :=
  (holder.map fun kind ↦ kind.source.number).getD 0

/-- A document on its way to the slot. -/
structure Stamped (D : Type) where
  document : D
  /-- The source that produced it: the one a sink was taken under, where it was pushed. -/
  producer : Holder
  /-- The number of clears when its fetch started, or when its push was accepted. -/
  clears : Nat

/-- How far a fetch has come. -/
inductive Phase where
  | asking | committed | done
  deriving DecidableEq, Repr

/-- A fetch in flight. -/
structure Flight where
  source : Kind Installed
  fence : Fence
  /-- The number of clears when it started. -/
  clears : Nat
  phase : Phase

/-- A sink: the generation it carries, and the source it was taken under. -/
structure Sink where
  generation : Nat
  source : Holder

/-- What an attempt to reach a store came to. -/
inductive Outcome where
  | arrived (elapsed : Option Nat) (now : Nat)
  | missed (failure : FailureStatus)

/-- An outcome, as a status records it. -/
def Outcome.apply (status : RemoteStatus) : Outcome → RemoteStatus
  | arrived elapsed now => status.arrived elapsed now
  | missed failure => status.missed failure

/-- One attempt that came to its end, of one source. -/
structure Attempt where
  source : Holder
  outcome : Outcome

/-- The status a list of attempts leaves. -/
def replay (attempts : List Attempt) : RemoteStatus :=
  attempts.foldl (fun status a ↦ a.outcome.apply status) RemoteStatus.empty

/-- The slot, and everybody who uses it. -/
structure System (D : Type) where
  slot : State Installed (Stamped D)
  flights : List Flight
  sinks : List Sink
  /-- How often a source has been installed. -/
  replaced : Nat
  /-- How often the document has been cleared. -/
  clears : Nat
  /-- Every attempt that has ended, whatever became of it. -/
  attempts : List Attempt

/-- Nobody has done anything yet. -/
def System.new {D : Type} : System D := ⟨State.new, [], [], 0, 0, []⟩

/-- One turn at the lock. -/
inductive Event (D : Type) where
  | set (asynchronous : Bool) (description : String)
  | clear
  /-- `refresh` takes its fence, or `refresh_async` where `awaited`. -/
  | capture (awaited : Bool)
  | commit (flight : Nat) (document : D)
  | record (flight elapsed now : Nat)
  | fail (flight : Nat) (error : Error) (now : Nat)
  | takeSink
  | deliver (sink : Nat) (document : D) (now : Nat)
  | report (sink : Nat) (error : Error) (now : Nat)

/-- Whether an event replaces the source. -/
def Event.replaces {D : Type} : Event D → Bool
  | set _ _ => true
  | _ => false

/-- Whether an event is a failed attempt. -/
def Event.failed {D : Type} : Event D → Bool
  | fail _ _ _ | report _ _ _ => true
  | _ => false

section Steps

variable {D : Type}

/-- The fetch at an index, if it has come to some phase. -/
def System.flight (sys : System D) (i : Nat) (phase : Phase) : Option Flight :=
  sys.flights[i]?.filter fun f ↦ decide (f.phase = phase)

/-- What one turn at the lock does. An event of a fetch or a sink there is none of cannot happen. -/
def System.step (sys : System D) : Event D → Option (System D)
  | .set asynchronous description =>
    let source : Installed := ⟨sys.replaced + 1, description⟩
    some
      { sys with
        slot := sys.slot.set (if asynchronous then .asynchronous source else .blocking source)
        replaced := sys.replaced + 1 }
  | .clear => some { sys with slot := sys.slot.clear, clears := sys.clears + 1 }
  | .capture awaited =>
    match sys.slot.capture Installed.description awaited with
    | .ok (source, fence) =>
      some { sys with flights := sys.flights ++ [⟨source, fence, sys.clears, .asking⟩] }
    | .error _ => some sys
  | .commit i document =>
    (sys.flight i .asking).map fun f ↦
      { sys with
        slot := sys.slot.commit ⟨document, some f.source, f.clears⟩ f.fence
        flights := sys.flights.set i { f with phase := .committed } }
  | .record i elapsed now =>
    (sys.flight i .committed).map fun f ↦
      { sys with
        slot := sys.slot.recordFetch (some elapsed) f.fence.generation now
        flights := sys.flights.set i { f with phase := .done }
        attempts := sys.attempts ++ [⟨some f.source, .arrived (some elapsed) now⟩] }
  | .fail i error now =>
    (sys.flight i .asking).map fun f ↦
      { sys with
        slot := sys.slot.recordFetchFailure error f.fence.generation now
        flights := sys.flights.set i { f with phase := .done }
        attempts := sys.attempts ++ [⟨some f.source, .missed (FailureStatus.of now error)⟩] }
  | .takeSink =>
    some { sys with sinks := sys.sinks ++ [⟨sys.slot.generation, sys.slot.source⟩] }
  | .deliver j document now =>
    sys.sinks[j]?.map fun k ↦
      let attempts := sys.attempts ++ [⟨k.source, .arrived none now⟩]
      match sys.slot.installIf k.generation ⟨document, k.source, sys.clears⟩ now with
      | .ok slot => { sys with slot, attempts }
      | .error _ => { sys with attempts }
  | .report j error now =>
    sys.sinks[j]?.map fun k ↦
      { sys with
        slot := sys.slot.recordFetchFailure error k.generation now
        attempts := sys.attempts ++ [⟨k.source, .missed (FailureStatus.of now error)⟩] }

end Steps

/-! ### What the fences are for -/

/-- A slot nothing late has got into. -/
structure Fenced {D : Type} (sys : System D) : Prop where
  /-- The document is the installed source's, from a fetch started, or a push accepted, after the
  last clear. -/
  document : ∀ d, sys.slot.fetched = some d →
    d.producer = sys.slot.source ∧ d.clears = sys.clears
  /-- The status counts the attempts of the installed source and no others. -/
  status : sys.slot.status =
    replay (sys.attempts.filter fun a ↦ decide (a.source = sys.slot.source))
  /-- A failed attempt leaves the document alone. -/
  failed : ∀ event next, event.failed = true → sys.step event = some next →
    next.slot.fetched = sys.slot.fetched
  /-- A sink of the installed source delivers, whatever happens in between short of another
  source. -/
  live : ∀ k ∈ sys.sinks, k.source = sys.slot.source → ∀ events later,
    run System.step sys events = some later → (∀ e ∈ events, e.replaces = false) →
      ∀ document now, ∃ slot, later.slot.installIf k.generation document now = .ok slot

/-! ### The invariant -/

section Invariant

variable {D : Type} {s t : System D}

/-- A holder as it was when a generation was read. -/
structure Dated (s : System D) (holder : Holder) (generation : Nat) : Prop where
  past : holder.number ≤ s.replaced
  read : generation = holder.number % word
  current : holder.number = s.replaced → holder = s.slot.source

/-- A fetch in flight, as its fence was taken. -/
structure InFlight (s : System D) (f : Flight) : Prop where
  dated : Dated s (some f.source) f.fence.generation
  past : f.clears ≤ s.clears
  read : f.fence.cleared = f.clears % word

/-- What holds between turns at the lock. -/
structure Inv (s : System D) : Prop where
  generation : s.slot.generation = s.replaced % word
  cleared : s.slot.cleared = s.clears % word
  source : Holder.number s.slot.source = s.replaced
  flights : ∀ f ∈ s.flights, InFlight s f
  sinks : ∀ k ∈ s.sinks, Dated s k.source k.generation
  attempts : ∀ a ∈ s.attempts, a.source.number ≤ s.replaced
  document : ∀ d, s.slot.fetched = some d → d.producer = s.slot.source ∧ d.clears = s.clears
  status : s.slot.status = replay (s.attempts.filter fun a ↦ decide (a.source = s.slot.source))

/-- Neither counter has wrapped. -/
structure Below (s : System D) : Prop where
  replaced : s.replaced < word
  clears : s.clears < word

theorem inv_new : Inv (System.new : System D) where
  generation := rfl
  cleared := rfl
  source := rfl
  flights _ h := absurd h List.not_mem_nil
  sinks _ h := absurd h List.not_mem_nil
  attempts _ h := absurd h List.not_mem_nil
  document _ h := absurd h (Option.some_ne_none _).symm
  status := rfl

/-- **A generation tells the source**, below the bound. -/
theorem Dated.generation_eq_iff {holder : Holder} {generation : Nat}
    (h : Dated s holder generation) (hinv : Inv s) (hbelow : Below s) :
    s.slot.generation = generation ↔ holder = s.slot.source := by
  have hpast := h.past
  have hbound := hbelow.replaced
  have hnow : s.slot.generation = s.replaced := by
    rw [hinv.generation, Nat.mod_eq_of_lt hbound]
  have hthen : generation = holder.number := by
    rw [h.read, Nat.mod_eq_of_lt (by omega)]
  rw [hnow, hthen]
  constructor
  · intro heq
    exact h.current heq.symm
  · rintro rfl
    exact hinv.source.symm

theorem Dated.of_same {holder : Holder} {generation : Nat} (h : Dated s holder generation)
    (hreplaced : t.replaced = s.replaced) (hsource : t.slot.source = s.slot.source) :
    Dated t holder generation where
  past := hreplaced ▸ h.past
  read := h.read
  current hnow := hsource ▸ h.current (hreplaced ▸ hnow)

/-- Once the source is replaced, nothing dated is current. -/
theorem Dated.of_replaced {holder : Holder} {generation : Nat} (h : Dated s holder generation)
    (hreplaced : t.replaced = s.replaced + 1) : Dated t holder generation where
  past := by
    have hpast := h.past
    omega
  read := h.read
  current hnow := by
    have hpast := h.past
    omega

theorem InFlight.of_same {f : Flight} (h : InFlight s f) (hreplaced : t.replaced = s.replaced)
    (hsource : t.slot.source = s.slot.source) (hclears : s.clears ≤ t.clears) : InFlight t f where
  dated := h.dated.of_same hreplaced hsource
  past := h.past.trans hclears
  read := h.read

/-- A turn that neither replaces the source nor clears keeps the dates. -/
theorem Inv.of_same (h : Inv s) (hgeneration : t.slot.generation = s.slot.generation)
    (hcleared : t.slot.cleared = s.slot.cleared) (hsource : t.slot.source = s.slot.source)
    (hreplaced : t.replaced = s.replaced) (hclears : t.clears = s.clears)
    (hflights : ∀ f ∈ t.flights, InFlight s f)
    (hsinks : ∀ k ∈ t.sinks, Dated s k.source k.generation)
    (hattempts : ∀ a ∈ t.attempts, a.source.number ≤ s.replaced)
    (hdocument : ∀ d, t.slot.fetched = some d → d.producer = s.slot.source ∧ d.clears = s.clears)
    (hstatus : t.slot.status =
      replay (t.attempts.filter fun a ↦ decide (a.source = s.slot.source))) : Inv t where
  generation := by rw [hgeneration, hreplaced, h.generation]
  cleared := by rw [hcleared, hclears, h.cleared]
  source := by rw [hsource, hreplaced, h.source]
  flights f hf := (hflights f hf).of_same hreplaced hsource hclears.ge
  sinks k hk := (hsinks k hk).of_same hreplaced hsource
  attempts a ha := hreplaced ▸ hattempts a ha
  document d hd := by rw [hsource, hclears]; exact hdocument d hd
  status := by rw [hsource]; exact hstatus

/-! ### One turn at the lock -/

theorem mem_flights_of_flight {i : Nat} {phase : Phase} {f : Flight}
    (h : s.flight i phase = some f) : f ∈ s.flights := by
  rw [System.flight, Option.filter_eq_some_iff] at h
  exact List.mem_of_getElem? h.1

/-- Moving a fetch to its next phase moves nothing its fence says. -/
theorem Inv.inFlight_set (h : Inv s) {i : Nat} {phase next : Phase} {f : Flight}
    (hf : s.flight i phase = some f) :
    ∀ g ∈ s.flights.set i { f with phase := next }, InFlight s g := by
  intro g hg
  rcases List.mem_or_eq_of_mem_set hg with hg | rfl
  · exact h.flights g hg
  · have hflight := h.flights f (mem_flights_of_flight hf)
    exact ⟨hflight.dated, hflight.past, hflight.read⟩

/-- An attempt is recorded exactly where it is one of the installed source's. -/
theorem Inv.status_append (h : Inv s) (hbelow : Below s) {holder : Holder} {generation : Nat}
    (hdated : Dated s holder generation) (outcome : Outcome) :
    (if s.slot.generation ≠ generation then s.slot.status else outcome.apply s.slot.status) =
      replay ((s.attempts ++ [(⟨holder, outcome⟩ : Attempt)]).filter fun a ↦
        decide (a.source = s.slot.source)) := by
  have hiff := hdated.generation_eq_iff h hbelow
  rw [List.filter_append, List.filter_singleton]
  by_cases hcurrent : holder = s.slot.source
  · rw [if_neg (not_not.2 (hiff.2 hcurrent)), decide_eq_true hcurrent, cond_true, replay,
      List.foldl_append, h.status]
    rfl
  · rw [if_pos (fun heq ↦ hcurrent (hiff.1 heq)), decide_eq_false hcurrent, cond_false,
      List.append_nil]
    exact h.status

/-- The attempts after one more. -/
theorem Inv.attempts_append (h : Inv s) {holder : Holder} {generation : Nat}
    (hdated : Dated s holder generation) (outcome : Outcome) :
    ∀ a ∈ s.attempts ++ [(⟨holder, outcome⟩ : Attempt)], a.source.number ≤ s.replaced := by
  intro a ha
  rcases List.mem_append.1 ha with ha | ha
  · exact h.attempts a ha
  · obtain rfl := List.mem_singleton.1 ha
    exact hdated.past

theorem Inv.set (h : Inv s) (kind : Kind Installed) (hkind : kind.source.number = s.replaced + 1) :
    Inv { s with slot := s.slot.set kind, replaced := s.replaced + 1 } where
  generation := by
    show wrappingSucc s.slot.generation = (s.replaced + 1) % word
    rw [wrappingSucc, h.generation, Nat.mod_add_mod]
  cleared := h.cleared
  source := hkind
  flights f hf :=
    ⟨(h.flights f hf).dated.of_replaced rfl, (h.flights f hf).past, (h.flights f hf).read⟩
  sinks k hk := (h.sinks k hk).of_replaced rfl
  attempts a ha := (h.attempts a ha).trans (Nat.le_succ _)
  document d hd := absurd hd (Option.some_ne_none d).symm
  status := by
    have hnone : s.attempts.filter (fun a ↦ decide (a.source = some kind)) = [] := by
      rw [List.filter_eq_nil_iff]
      intro a ha hsource
      have hpast := h.attempts a ha
      rw [of_decide_eq_true hsource] at hpast
      have hnumber : Holder.number (some kind) = s.replaced + 1 := hkind
      omega
    show RemoteStatus.empty = replay (s.attempts.filter fun a ↦ decide (a.source = some kind))
    rw [hnone]
    rfl

theorem Inv.clear (h : Inv s) :
    Inv { s with slot := s.slot.clear, clears := s.clears + 1 } where
  generation := h.generation
  cleared := by
    show wrappingSucc s.slot.cleared = (s.clears + 1) % word
    rw [wrappingSucc, h.cleared, Nat.mod_add_mod]
  source := h.source
  flights f hf := (h.flights f hf).of_same rfl rfl (Nat.le_succ _)
  sinks k hk := (h.sinks k hk).of_same rfl rfl
  attempts := h.attempts
  document d hd := absurd hd (Option.some_ne_none d).symm
  status := h.status

/-- A fence is taken of the slot as it stands. -/
theorem Inv.capture (h : Inv s) {awaited : Bool} {source : Kind Installed} {fence : Fence}
    (hcapture : s.slot.capture Installed.description awaited = .ok (source, fence)) :
    Inv { s with flights := s.flights ++ [⟨source, fence, s.clears, .asking⟩] } := by
  have htaken : s.slot.source = some source ∧ fence = Fence.of s.slot := by
    rw [State.capture] at hcapture
    split at hcapture
    · next hsource =>
      split at hcapture
      · obtain ⟨rfl, rfl⟩ := Prod.mk.inj (Except.ok.inj hcapture)
        exact ⟨hsource, rfl⟩
      · cases hcapture
    · next hsource =>
      obtain ⟨rfl, rfl⟩ := Prod.mk.inj (Except.ok.inj hcapture)
      exact ⟨hsource, rfl⟩
    · cases hcapture
  obtain ⟨hsource, rfl⟩ := htaken
  refine h.of_same rfl rfl rfl rfl rfl (fun f hf ↦ ?_) h.sinks h.attempts h.document h.status
  rcases List.mem_append.1 hf with hf | hf
  · exact h.flights f hf
  · obtain rfl := List.mem_singleton.1 hf
    have hnumber : Holder.number (some source) = s.replaced := hsource ▸ h.source
    refine ⟨⟨hnumber.le, ?_, fun _ ↦ hsource.symm⟩, Nat.le_refl _, h.cleared⟩
    rw [hnumber]
    exact h.generation

/-- **A fetch commits only what is still wanted.** -/
theorem Inv.commit (h : Inv s) (hbelow : Below s) {i : Nat} {f : Flight}
    (hf : s.flight i .asking = some f) (document : D) :
    Inv { s with
      slot := s.slot.commit ⟨document, some f.source, f.clears⟩ f.fence
      flights := s.flights.set i { f with phase := .committed } } := by
  have hflight := h.flights f (mem_flights_of_flight hf)
  by_cases hfence : Fence.of s.slot = f.fence
  · have hslot : s.slot.commit ⟨document, some f.source, f.clears⟩ f.fence =
        { s.slot with fetched := some ⟨document, some f.source, f.clears⟩ } := if_pos hfence
    rw [hslot]
    refine h.of_same rfl rfl rfl rfl rfl (h.inFlight_set hf) h.sinks h.attempts ?_ h.status
    intro d hd
    obtain rfl := Option.some.inj hd
    have hgeneration : s.slot.generation = f.fence.generation :=
      congrArg Fence.generation hfence
    have hcleared : s.slot.cleared = f.fence.cleared := congrArg Fence.cleared hfence
    refine ⟨(hflight.dated.generation_eq_iff h hbelow).1 hgeneration, ?_⟩
    have hpast := hflight.past
    have hbound := hbelow.clears
    rw [h.cleared, hflight.read, Nat.mod_eq_of_lt hbound, Nat.mod_eq_of_lt (by omega)] at hcleared
    exact hcleared.symm
  · have hslot : s.slot.commit ⟨document, some f.source, f.clears⟩ f.fence = s.slot :=
      if_neg hfence
    rw [hslot]
    exact h.of_same rfl rfl rfl rfl rfl (h.inFlight_set hf) h.sinks h.attempts h.document h.status

theorem Inv.record (h : Inv s) (hbelow : Below s) {i : Nat} {f : Flight}
    (hf : s.flight i .committed = some f) (elapsed now : Nat) :
    Inv { s with
      slot := s.slot.recordFetch (some elapsed) f.fence.generation now
      flights := s.flights.set i { f with phase := .done }
      attempts := s.attempts ++ [⟨some f.source, .arrived (some elapsed) now⟩] } := by
  have hdated := (h.flights f (mem_flights_of_flight hf)).dated
  have hstatus := h.status_append hbelow hdated (.arrived (some elapsed) now)
  have hattempts := h.attempts_append hdated (.arrived (some elapsed) now)
  rcases decEq s.slot.generation f.fence.generation with hne | heq
  · have hslot : s.slot.recordFetch (some elapsed) f.fence.generation now = s.slot := if_pos hne
    rw [if_pos hne] at hstatus
    rw [hslot]
    exact h.of_same rfl rfl rfl rfl rfl (h.inFlight_set hf) h.sinks hattempts h.document hstatus
  · have hslot : s.slot.recordFetch (some elapsed) f.fence.generation now =
        { s.slot with status := s.slot.status.arrived (some elapsed) now } :=
      if_neg (not_not.2 heq)
    rw [if_neg (not_not.2 heq)] at hstatus
    rw [hslot]
    exact h.of_same rfl rfl rfl rfl rfl (h.inFlight_set hf) h.sinks hattempts h.document hstatus

/-- The slot after a failure was offered to it. -/
theorem recordFetchFailure_eq (slot : State Installed (Stamped D)) (error : Error)
    (generation now : Nat) :
    slot.recordFetchFailure error generation now =
      { slot with status :=
          if slot.generation ≠ generation then slot.status
          else (Outcome.missed (FailureStatus.of now error)).apply slot.status } := by
  rw [State.recordFetchFailure]
  split
  · rfl
  · rfl

theorem Inv.fail (h : Inv s) (hbelow : Below s) {i : Nat} {f : Flight}
    (hf : s.flight i .asking = some f) (error : Error) (now : Nat) :
    Inv { s with
      slot := s.slot.recordFetchFailure error f.fence.generation now
      flights := s.flights.set i { f with phase := .done }
      attempts := s.attempts ++
        [⟨some f.source, .missed (FailureStatus.of now error)⟩] } := by
  have hdated := (h.flights f (mem_flights_of_flight hf)).dated
  rw [recordFetchFailure_eq]
  exact h.of_same rfl rfl rfl rfl rfl (h.inFlight_set hf) h.sinks (h.attempts_append hdated _)
    h.document (h.status_append hbelow hdated _)

theorem Inv.takeSink (h : Inv s) :
    Inv { s with sinks := s.sinks ++ [⟨s.slot.generation, s.slot.source⟩] } := by
  refine h.of_same rfl rfl rfl rfl rfl h.flights (fun k hk ↦ ?_) h.attempts h.document h.status
  rcases List.mem_append.1 hk with hk | hk
  · exact h.sinks k hk
  · obtain rfl := List.mem_singleton.1 hk
    exact ⟨h.source.le, h.source.symm ▸ h.generation, fun _ ↦ rfl⟩

/-- A refused delivery counts for nothing, an accepted one is the installed source's. -/
theorem Inv.deliver (h : Inv s) (hbelow : Below s) {k : Sink} (hk : k ∈ s.sinks) (document : D)
    (now : Nat) :
    Inv (match s.slot.installIf k.generation ⟨document, k.source, s.clears⟩ now with
      | .ok slot =>
        { s with slot, attempts := s.attempts ++ [⟨k.source, .arrived none now⟩] }
      | .error _ => { s with attempts := s.attempts ++ [⟨k.source, .arrived none now⟩] }) := by
  have hdated := h.sinks k hk
  have hstatus := h.status_append hbelow hdated (.arrived none now)
  have hattempts := h.attempts_append hdated (.arrived none now)
  rw [State.installIf]
  rcases decEq s.slot.generation k.generation with hne | heq
  · rw [if_pos hne] at hstatus ⊢
    exact h.of_same rfl rfl rfl rfl rfl h.flights h.sinks hattempts h.document hstatus
  · rw [if_neg (not_not.2 heq)] at hstatus ⊢
    refine h.of_same rfl rfl rfl rfl rfl h.flights h.sinks hattempts ?_ hstatus
    intro d hd
    obtain rfl := Option.some.inj hd
    exact ⟨(hdated.generation_eq_iff h hbelow).1 heq, rfl⟩

theorem Inv.report (h : Inv s) (hbelow : Below s) {k : Sink} (hk : k ∈ s.sinks) (error : Error)
    (now : Nat) :
    Inv { s with
      slot := s.slot.recordFetchFailure error k.generation now
      attempts := s.attempts ++ [⟨k.source, .missed (FailureStatus.of now error)⟩] } := by
  have hdated := h.sinks k hk
  rw [recordFetchFailure_eq]
  exact h.of_same rfl rfl rfl rfl rfl h.flights h.sinks (h.attempts_append hdated _) h.document
    (h.status_append hbelow hdated _)

/-- **One turn at the lock keeps the invariant.** -/
theorem Inv.step (h : Inv s) (hbelow : Below s) {event : Event D} (hstep : s.step event = some t) :
    Inv t := by
  cases event with
  | set asynchronous description =>
    obtain rfl := Option.some.inj hstep
    refine h.set _ ?_
    split
    · rfl
    · rfl
  | clear =>
    obtain rfl := Option.some.inj hstep
    exact h.clear
  | capture awaited =>
    rw [System.step] at hstep
    rcases hcapture : s.slot.capture Installed.description awaited with e | ⟨source, fence⟩
    · rw [hcapture] at hstep
      exact Option.some.inj hstep ▸ h
    · rw [hcapture] at hstep
      obtain rfl := Option.some.inj hstep
      exact h.capture hcapture
  | commit i document =>
    obtain ⟨f, hf, rfl⟩ := Option.map_eq_some_iff.1 hstep
    exact h.commit hbelow hf document
  | record i elapsed now =>
    obtain ⟨f, hf, rfl⟩ := Option.map_eq_some_iff.1 hstep
    exact h.record hbelow hf elapsed now
  | fail i error now =>
    obtain ⟨f, hf, rfl⟩ := Option.map_eq_some_iff.1 hstep
    exact h.fail hbelow hf error now
  | takeSink =>
    obtain rfl := Option.some.inj hstep
    exact h.takeSink
  | deliver j document now =>
    obtain ⟨k, hk, rfl⟩ := Option.map_eq_some_iff.1 hstep
    exact h.deliver hbelow (List.mem_of_getElem? hk) document now
  | report j error now =>
    obtain ⟨k, hk, rfl⟩ := Option.map_eq_some_iff.1 hstep
    exact h.report hbelow (List.mem_of_getElem? hk) error now

/-! ### The counters -/

theorem commit_generation (slot : State Installed (Stamped D)) (d : Stamped D) (fence : Fence) :
    (slot.commit d fence).generation = slot.generation := by
  rw [State.commit]
  split
  · rfl
  · rfl

theorem recordFetch_generation (slot : State Installed (Stamped D)) (elapsed : Option Nat)
    (generation now : Nat) :
    (slot.recordFetch elapsed generation now).generation = slot.generation := by
  rw [State.recordFetch]
  split
  · rfl
  · rfl

/-- **What one turn does to the counters.** Both only grow, and the generation stays where the source
does. -/
theorem step_counters {event : Event D} (hstep : s.step event = some t) :
    s.replaced ≤ t.replaced ∧ s.clears ≤ t.clears ∧
      (event.replaces = false → t.slot.generation = s.slot.generation) := by
  cases event with
  | set asynchronous description =>
    obtain rfl := Option.some.inj hstep
    exact ⟨Nat.le_succ _, Nat.le_refl _, fun hset ↦ Bool.noConfusion hset⟩
  | clear =>
    obtain rfl := Option.some.inj hstep
    exact ⟨Nat.le_refl _, Nat.le_succ _, fun _ ↦ rfl⟩
  | capture awaited =>
    rw [System.step] at hstep
    rcases hcapture : s.slot.capture Installed.description awaited with e | ⟨source, fence⟩
    · rw [hcapture] at hstep
      obtain rfl := Option.some.inj hstep
      exact ⟨Nat.le_refl _, Nat.le_refl _, fun _ ↦ rfl⟩
    · rw [hcapture] at hstep
      obtain rfl := Option.some.inj hstep
      exact ⟨Nat.le_refl _, Nat.le_refl _, fun _ ↦ rfl⟩
  | commit i document =>
    obtain ⟨f, -, rfl⟩ := Option.map_eq_some_iff.1 hstep
    exact ⟨Nat.le_refl _, Nat.le_refl _, fun _ ↦ commit_generation _ _ _⟩
  | record i elapsed now =>
    obtain ⟨f, -, rfl⟩ := Option.map_eq_some_iff.1 hstep
    exact ⟨Nat.le_refl _, Nat.le_refl _, fun _ ↦ recordFetch_generation _ _ _ _⟩
  | fail i error now =>
    obtain ⟨f, -, rfl⟩ := Option.map_eq_some_iff.1 hstep
    refine ⟨Nat.le_refl _, Nat.le_refl _, fun _ ↦ ?_⟩
    rw [recordFetchFailure_eq]
  | takeSink =>
    obtain rfl := Option.some.inj hstep
    exact ⟨Nat.le_refl _, Nat.le_refl _, fun _ ↦ rfl⟩
  | deliver j document now =>
    obtain ⟨k, -, rfl⟩ := Option.map_eq_some_iff.1 hstep
    rw [State.installIf]
    split
    · next hok =>
      split at hok
      · cases hok
      · obtain rfl := Except.ok.inj hok
        exact ⟨Nat.le_refl _, Nat.le_refl _, fun _ ↦ rfl⟩
    · exact ⟨Nat.le_refl _, Nat.le_refl _, fun _ ↦ rfl⟩
  | report j error now =>
    obtain ⟨k, -, rfl⟩ := Option.map_eq_some_iff.1 hstep
    refine ⟨Nat.le_refl _, Nat.le_refl _, fun _ ↦ ?_⟩
    rw [recordFetchFailure_eq]

theorem below_of_step {event : Event D} (hstep : s.step event = some t) (h : Below t) :
    Below s := by
  obtain ⟨hreplaced, hclears, -⟩ := step_counters hstep
  have hreplaced' := h.replaced
  have hclears' := h.clears
  exact ⟨by omega, by omega⟩

/-- **Every run below the bounds keeps the invariant.** -/
theorem inv_of_run {events : List (Event D)} (h : run System.step System.new events = some s)
    (hbelow : Below s) : Inv s :=
  Transition.run_invariant_below (fun _ _ _ hstep ↦ below_of_step hstep)
    (fun _ _ _ hstep ht hinv ↦ hinv.step (below_of_step hstep ht) hstep) h hbelow inv_new

/-- A failed attempt changes the status at most. -/
theorem fetched_of_failed {event : Event D} (hfailed : event.failed = true)
    (hstep : s.step event = some t) : t.slot.fetched = s.slot.fetched := by
  cases event with
  | fail i error now =>
    obtain ⟨f, -, rfl⟩ := Option.map_eq_some_iff.1 hstep
    rw [recordFetchFailure_eq]
  | report j error now =>
    obtain ⟨k, -, rfl⟩ := Option.map_eq_some_iff.1 hstep
    rw [recordFetchFailure_eq]
  | _ => cases hfailed

/-- A sink of the installed source goes on delivering until another source is installed. -/
theorem Inv.live (h : Inv s) {k : Sink} (hk : k ∈ s.sinks) (hlive : k.source = s.slot.source)
    {events : List (Event D)} (hrun : run System.step s events = some t)
    (hkept : ∀ e ∈ events, e.replaces = false) (document : Stamped D) (now : Nat) :
    ∃ slot, t.slot.installIf k.generation document now = .ok slot := by
  have hread : k.generation = s.slot.generation := by
    rw [(h.sinks k hk).read, hlive, h.source, h.generation]
  have hsame : t.slot.generation = s.slot.generation := by
    refine Transition.run_invariant_of (I := fun u ↦ u.slot.generation = s.slot.generation)
      (fun u e v he hstep hu ↦ ?_) hkept hrun rfl
    rw [← hu]
    exact (step_counters hstep).2.2 he
  rw [State.installIf, if_neg (not_not.2 (hsame.trans hread.symm))]
  exact ⟨_, rfl⟩

end Invariant

/-! ### The result, and where it ends -/

section Result

variable {D : Type}

/-- **The fences hold, below the bounds.** After any interleaving with fewer replacements and fewer
clears than a word has values, nothing late has got into the slot. -/
theorem fenced_of_run {events : List (Event D)} {sys : System D}
    (h : run System.step System.new events = some sys) (hreplaced : sys.replaced < word)
    (hclears : sys.clears < word) : Fenced sys where
  document := (inv_of_run h ⟨hreplaced, hclears⟩).document
  status := (inv_of_run h ⟨hreplaced, hclears⟩).status
  failed _ _ hfailed hstep := fetched_of_failed hfailed hstep
  live _ hk hlive _ _ hrun hkept document now :=
    (inv_of_run h ⟨hreplaced, hclears⟩).live hk hlive hrun hkept document now

/-- A fetch overtaken by a clear, and a push after it. -/
theorem fenced_overtaken :
    let events : List (Event String) :=
      [.set false "etcd", .capture false, .takeSink, .clear, .commit 0 "late", .record 0 5 7,
        .deliver 0 "pushed" 9]
    ∃ sys, run System.step System.new events = some sys ∧
      sys.slot.fetched.map Stamped.document = some "pushed" ∧ Fenced sys := by
  intro events
  obtain ⟨sys, hrun, hdocument, hreplaced, hclears⟩ : ∃ sys,
      run System.step System.new events = some sys ∧
        sys.slot.fetched.map Stamped.document = some "pushed" ∧ sys.replaced = 1 ∧
          sys.clears = 1 :=
    ⟨_, rfl, rfl, rfl, rfl⟩
  refine ⟨sys, hrun, hdocument, fenced_of_run hrun ?_ ?_⟩
  · rw [hreplaced]
    decide
  · rw [hclears]
    decide

/-- What a number of clears leaves. -/
theorem iterate_clear (n : Nat) (sys : System D) (hcleared : sys.slot.cleared < word) :
    (fun u : System D ↦ { u with slot := u.slot.clear, clears := u.clears + 1 })^[n] sys =
      { sys with
        slot := { sys.slot with
          fetched := if n = 0 then sys.slot.fetched else none
          cleared := (sys.slot.cleared + n) % word }
        clears := sys.clears + n } := by
  induction n with
  | zero =>
    rw [Nat.add_zero, Nat.mod_eq_of_lt hcleared]
    rfl
  | succ n ih =>
    rw [Function.iterate_succ_apply', ih]
    show System.mk _ _ _ _ _ _ = System.mk _ _ _ _ _ _
    have hwrap : wrappingSucc ((sys.slot.cleared + n) % word) =
        (sys.slot.cleared + (n + 1)) % word := by
      rw [wrappingSucc, Nat.mod_add_mod, Nat.add_assoc]
    show System.mk { sys.slot with
        fetched := none, cleared := wrappingSucc ((sys.slot.cleared + n) % word) } _ _ _ _ _ = _
    rw [hwrap, if_neg (Nat.succ_ne_zero n), Nat.add_assoc]

/-- **A counter that wraps lets an old fetch in.** A fetch takes its fence, the document is cleared
as often as a word has values, and the fetch commits. -/
theorem not_fenced_of_clears : ∃ (events : List (Event String)) (sys : System String),
    run System.step System.new events = some sys ∧ sys.replaced = 1 ∧
      sys.slot.fetched.map Stamped.document = some "late" ∧ ¬ Fenced sys := by
  obtain ⟨start, hstart, hflights, hcleared, hgeneration, hclears, hreplaced⟩ :
      ∃ start : System String,
        run System.step System.new [.set false "etcd", .capture false] = some start ∧
          start.flights = [⟨.blocking ⟨1, "etcd"⟩, ⟨1, 0⟩, 0, .asking⟩] ∧
            start.slot.cleared = 0 ∧ start.slot.generation = 1 ∧ start.clears = 0 ∧
              start.replaced = 1 :=
    ⟨_, rfl, rfl, rfl, rfl, rfl, rfl⟩
  have hwidth : start.slot.cleared < word := by
    rw [hcleared]
    decide
  have hwrapped : (start.slot.cleared + word) % word = 0 := by
    rw [hcleared, Nat.zero_add, Nat.mod_self]
  have hcount := Transition.run_replicate
    (g := fun u : System String ↦ { u with slot := u.slot.clear, clears := u.clears + 1 })
    (fun _ ↦ rfl : ∀ u, System.step u .clear = some _) word start
  rw [iterate_clear word start hwidth, hwrapped] at hcount
  refine ⟨[.set false "etcd", .capture false] ++ List.replicate word .clear ++ [.commit 0 "late"],
    { start with
      slot := { start.slot with
        fetched := some ⟨"late", some (.blocking ⟨1, "etcd"⟩), 0⟩, cleared := 0 }
      flights := [⟨.blocking ⟨1, "etcd"⟩, ⟨1, 0⟩, 0, .committed⟩]
      clears := start.clears + word }, ?_, hreplaced, rfl, ?_⟩
  · rw [Transition.run_append, Transition.run_append, hstart, Option.bind_some, hcount,
      Option.bind_some, Transition.run_cons, System.step, System.flight]
    show Option.bind (Option.map _ (Option.filter _ start.flights[0]?)) _ = _
    rw [hflights]
    show some (System.mk (State.commit _ ⟨1, 0⟩ _) _ _ _ _ _) = _
    have hfence : Fence.of ({ start.slot with
        fetched := if word = 0 then start.slot.fetched else none, cleared := 0 } :
          State Installed (Stamped String)) = ⟨1, 0⟩ := by
      rw [Fence.of, hgeneration]
    rw [State.commit, if_pos hfence]
    rfl
  · intro h
    obtain ⟨-, hlate⟩ := h.document _ rfl
    have hcontra : 0 = start.clears + word := hlate
    rw [hclears] at hcontra
    exact absurd hcontra (by decide)

end Result

end DynamicConfig.Remote
