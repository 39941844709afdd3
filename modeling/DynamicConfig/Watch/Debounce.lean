import DynamicConfig.Units.Duration
import DynamicConfig.Watch.Relevance

/-!
# Waiting out a flurry

`collectRelevant` sleeps until a relevant event arrives and then waits for a debounce period without
another one, but no longer than four periods in all. Time is in nanoseconds of the monotonic clock, and
receiving and reading the clock take none; what waits in the channel already is received at once.

What returns comes of the window that the first relevant event opens (`Window`): at its bound, or after
a quiet period, with everything that arrived before it received. Irrelevant events do not move it. The
one thing that can go wrong is the arithmetic: a clock has a last instant, and adding a period past it
panics. `debounced_iff` says that nothing else does.
-/

namespace DynamicConfig.Debounce

open DynamicConfig.Units (Duration)
open UnixPath (Path)

/-! ### The loop -/

/-- What the backend puts into the channel: an event, or an error of its own. -/
inductive Message where
  | event (event : Event)
  | failure (error : String)

/-- The path a message is relevant for, if it is. -/
def Message.relevant (watched : Watched) : Message → Option Path
  | .event e => relevantPath e watched
  | .failure _ => none

/-- A message, and when it is in the channel. -/
structure Arrival where
  time : Nat
  message : Message

/-- Messages in the order they come in. -/
structure Arrivals where
  arrivals : List Arrival
  ordered : arrivals.Pairwise fun a b ↦ a.time ≤ b.time

/-- The monotonic clock, up to the last instant it can represent. -/
structure Clock where
  last : Nat

/-- `Instant + Duration`, which panics past the last instant. -/
def Clock.add (clock : Clock) (now : Nat) (duration : Duration) : Option Nat :=
  if now + duration.asNanos ≤ clock.last then some (now + duration.asNanos) else none

/-- What one round of event collection concluded. -/
inductive Collected where
  /-- A configured file changed: its path, when the round was over, and what is left in the channel. -/
  | dirty (trigger : Path) (returned : Nat) (rest : List Arrival)
  /-- The channel closed. -/
  | disconnected (returned : Nat)
  /-- It waits for good. -/
  | blocked
  | panicked

section Loop

variable (clock : Clock) (watched : Watched) (debounce : Duration)
  /- When the watcher is dropped, if it is. What is in the channel then is still received. -/
  (closes : Option Nat)

/-- Waits out the flurry, but not forever. -/
def settle (deadline : Nat) (trigger : Path) : Nat → Nat → List Arrival → Collected
  | now, quietUntil, [] =>
    let target := min quietUntil deadline
    if target ≤ now then .dirty trigger now []
    else
      match closes with
      | some closed =>
        if closed < target then .disconnected (max now closed) else .dirty trigger target []
      | none => .dirty trigger target []
  | now, quietUntil, a :: rest =>
    let target := min quietUntil deadline
    if target ≤ now then .dirty trigger now (a :: rest)
    -- `recv_timeout`: what arrives before the wait is over, or what has been there.
    else if a.time < target then
      let now := max now a.time
      if (a.message.relevant watched).isSome then
        match clock.add now debounce with
        | some quietUntil => settle deadline trigger now quietUntil rest
        | none => .panicked
      else settle deadline trigger now quietUntil rest
    else .dirty trigger target (a :: rest)

/-- Blocks until a relevant event arrives, then debounces, with a ceiling. -/
def collectRelevant : Nat → List Arrival → Collected
  | now, [] =>
    match closes with
    | some closed => .disconnected (max now closed)
    | none => .blocked
  | now, a :: rest =>
    let now := max now a.time
    match a.message.relevant watched with
    | none => collectRelevant now rest
    | some trigger =>
      match clock.add now (debounce.saturatingMul 4), clock.add now debounce with
      | some deadline, some quietUntil =>
        settle clock watched debounce closes deadline trigger now quietUntil rest
      | _, _ => .panicked

end Loop

/-! ### What is to be shown -/

/-- What a round does with the window that opens at an instant, with messages to come. -/
structure Window (watched : Watched) (debounce : Duration) (opened : Nat) (coming : List Arrival)
    (returned : Nat) (rest : List Arrival) : Prop where
  /-- It is over after four periods at most. -/
  bounded : returned ≤ opened + 4 * debounce.asNanos
  /-- It ends there, or after a period in which nothing relevant came. -/
  quiet : returned = opened + (debounce.saturatingMul 4).asNanos ∨
    opened + debounce.asNanos ≤ returned ∧
      ∀ a ∈ coming, (a.message.relevant watched).isSome = true →
        max opened a.time + debounce.asNanos ≤ returned ∨ returned ≤ max opened a.time
  /-- What has come before is received, and everything else is still in the channel. -/
  kept : ∃ received, coming = received ++ rest ∧ (∀ a ∈ received, max opened a.time ≤ returned) ∧
    ∀ a ∈ rest, returned ≤ max opened a.time

/-- The first relevant message, with what is behind it. -/
def Opens (watched : Watched) (arrivals : List Arrival) (trigger : Path) (a : Arrival)
    (coming : List Arrival) : Prop :=
  ∃ before, arrivals = before ++ a :: coming ∧
    (∀ b ∈ before, b.message.relevant watched = none) ∧ a.message.relevant watched = some trigger

/-- The messages without the irrelevant ones. -/
def relevantOnly (watched : Watched) (arrivals : List Arrival) : List Arrival :=
  arrivals.filter fun a ↦ (a.message.relevant watched).isSome

/-- **Debouncing is bounded**, on a channel that stays open: without a relevant message the round waits,
and with one it returns the first, from a window as above, at the instant at which it would return
without the irrelevant messages. -/
structure Debounced (clock : Clock) (watched : Watched) (debounce : Duration) (start : Nat)
    (arrivals : List Arrival) : Prop where
  waits : (∀ a ∈ arrivals, a.message.relevant watched = none) →
    collectRelevant clock watched debounce none start arrivals = .blocked
  returns : ∀ trigger a coming, Opens watched arrivals trigger a coming →
    ∃ returned rest, collectRelevant clock watched debounce none start arrivals =
        .dirty trigger returned rest ∧
      Window watched debounce (max start a.time) coming returned rest ∧
      ∃ rest', collectRelevant clock watched debounce none start (relevantOnly watched arrivals) =
        .dirty trigger returned rest'

/-- The relevant messages that each come within a period of the one before, up to the bound, by when
they are received. -/
def flurry (watched : Watched) (debounce : Duration) (bound : Nat) : Nat → List Arrival → List Nat
  | _, [] => []
  | latest, a :: coming =>
    if (a.message.relevant watched).isSome then
      if max latest a.time < min (latest + debounce.asNanos) bound then
        max latest a.time :: flurry watched debounce bound (max latest a.time) coming
      else []
    else flurry watched debounce bound latest coming

/-- The clock has the instants that the round computes: the bound, and a period after every message of
the flurry. -/
def Fits (clock : Clock) (watched : Watched) (debounce : Duration) (start : Nat)
    (arrivals : List Arrival) : Prop :=
  ∀ trigger a coming, Opens watched arrivals trigger a coming →
    max start a.time + (debounce.saturatingMul 4).asNanos ≤ clock.last ∧
      ∀ time ∈ flurry watched debounce (max start a.time + (debounce.saturatingMul 4).asNanos)
          (max start a.time) coming, time + debounce.asNanos ≤ clock.last

/-! ### The window -/

variable {clock : Clock} {watched : Watched} {debounce : Duration} {deadline now latest : Nat}
  {trigger : Path} {coming : List Arrival}

theorem settle_of_le {quietUntil : Nat} (h : min quietUntil deadline ≤ now) (coming : List Arrival) :
    settle clock watched debounce none deadline trigger now quietUntil coming =
      .dirty trigger now coming := by
  rcases coming with - | ⟨a, coming⟩
  · rw [settle, if_pos h]
  · rw [settle, if_pos h]

/-- Where nothing comes in time, the wait runs out. -/
theorem settle_of_late {quietUntil : Nat} (h : now < min quietUntil deadline)
    (hlate : ∀ a ∈ coming, min quietUntil deadline ≤ a.time) :
    settle clock watched debounce none deadline trigger now quietUntil coming =
      .dirty trigger (min quietUntil deadline) coming := by
  rcases coming with - | ⟨a, coming⟩
  · rw [settle, if_neg (Nat.not_le_of_lt h)]
  · rw [settle, if_neg (Nat.not_le_of_lt h), if_neg (Nat.not_lt_of_le (hlate a List.mem_cons_self))]

theorem flurry_eq_nil (h : ∀ a ∈ coming, min (latest + debounce.asNanos) deadline ≤ max latest a.time) :
    flurry watched debounce deadline latest coming = [] := by
  induction coming with
  | nil => rfl
  | cons a coming ih =>
    rw [flurry, ih fun b hb ↦ h b (List.mem_cons_of_mem a hb),
      if_neg (Nat.not_lt_of_le (h a List.mem_cons_self))]
    split <;> rfl

/-- Where a round is in its window: the latest relevant message was received at an instant, and nothing
after it but irrelevant ones, all before the target. -/
structure Waiting (debounce : Duration) (deadline latest now : Nat) (coming : List Arrival) : Prop where
  ordered : coming.Pairwise fun a b ↦ a.time ≤ b.time
  latest_le : latest ≤ now
  early : now = latest ∨ now < min (latest + debounce.asNanos) deadline
  ahead : ∀ a ∈ coming, now ≤ max latest a.time

namespace Waiting

variable {a : Arrival}

theorem max_eq (h : Waiting debounce deadline latest now (a :: coming)) :
    max now a.time = max latest a.time := by
  have hahead := h.ahead a List.mem_cons_self
  have hlatest := h.latest_le
  omega

/-- One more irrelevant message leaves the round waiting. -/
theorem irrelevant (h : Waiting debounce deadline latest now (a :: coming))
    (hnow : now < min (latest + debounce.asNanos) deadline)
    (ha : a.time < min (latest + debounce.asNanos) deadline) :
    Waiting debounce deadline latest (max now a.time) coming where
  ordered := (List.pairwise_cons.1 h.ordered).2
  latest_le := h.latest_le.trans (Nat.le_max_left _ _)
  early := Or.inr (Nat.max_lt.2 ⟨hnow, ha⟩)
  ahead b hb := by
    have hab := (List.pairwise_cons.1 h.ordered).1 b hb
    have hb' := h.ahead b (List.mem_cons_of_mem a hb)
    omega

/-- A relevant one is the latest then. -/
theorem relevant (h : Waiting debounce deadline latest now (a :: coming)) :
    Waiting debounce deadline (max latest a.time) (max latest a.time) coming where
  ordered := (List.pairwise_cons.1 h.ordered).2
  latest_le := Nat.le_refl _
  early := Or.inl rfl
  ahead _ _ := Nat.le_max_left _ _

/-- Behind the next message everything comes later. -/
theorem max_max (h : Waiting debounce deadline latest now (a :: coming)) {b : Arrival}
    (hb : b ∈ coming) : max (max latest a.time) b.time = max latest b.time := by
  have hab := (List.pairwise_cons.1 h.ordered).1 b hb
  omega

/-- When the next message comes too late, so does every other. -/
theorem late (h : Waiting debounce deadline latest now (a :: coming))
    (ha : min (latest + debounce.asNanos) deadline ≤ a.time) :
    ∀ b ∈ a :: coming, min (latest + debounce.asNanos) deadline ≤ b.time := by
  intro b hb
  rcases List.mem_cons.1 hb with rfl | hb
  · exact ha
  · exact ha.trans ((List.pairwise_cons.1 h.ordered).1 b hb)

end Waiting

/-- **A round whose instants the clock has comes to its end**: at the deadline, or a period after the
latest relevant message. -/
theorem settle_of_fits (trigger : Path) (h : Waiting debounce deadline latest now coming)
    (hnow : now ≤ deadline)
    (hfits : ∀ time ∈ flurry watched debounce deadline latest coming,
      time + debounce.asNanos ≤ clock.last) :
    ∃ returned rest, settle clock watched debounce none deadline trigger now
        (latest + debounce.asNanos) coming = .dirty trigger returned rest ∧
      now ≤ returned ∧ returned ≤ deadline ∧
      (returned = deadline ∨ latest + debounce.asNanos ≤ returned ∧
        ∀ a ∈ coming, (a.message.relevant watched).isSome = true →
          max latest a.time + debounce.asNanos ≤ returned ∨ returned ≤ max latest a.time) ∧
      ∃ received, coming = received ++ rest ∧ (∀ a ∈ received, max latest a.time ≤ returned) ∧
        ∀ a ∈ rest, returned ≤ max latest a.time := by
  -- Where the wait is over without another message, it is over at the target, and all is still to come.
  have hend : ∀ {now latest : Nat} {coming : List Arrival}, Waiting debounce deadline latest now coming →
      now ≤ deadline → min (latest + debounce.asNanos) deadline ≤ now →
        now ≤ now ∧ now ≤ deadline ∧
        (now = deadline ∨ latest + debounce.asNanos ≤ now ∧
          ∀ a ∈ coming, (a.message.relevant watched).isSome = true →
            max latest a.time + debounce.asNanos ≤ now ∨ now ≤ max latest a.time) ∧
        ∃ received, coming = received ++ coming ∧ (∀ a ∈ received, max latest a.time ≤ now) ∧
          ∀ a ∈ coming, now ≤ max latest a.time := by
    intro now latest coming h hnow hle
    refine ⟨Nat.le_refl _, hnow, ?_, [], rfl, fun a ha ↦ absurd ha List.not_mem_nil, h.ahead⟩
    rcases Nat.le_total (latest + debounce.asNanos) deadline with hquiet | hbound
    · rw [Nat.min_eq_left hquiet] at hle
      exact Or.inr ⟨hle, fun a ha _ ↦ Or.inr (h.ahead a ha)⟩
    · rw [Nat.min_eq_right hbound] at hle
      exact Or.inl (Nat.le_antisymm hnow hle)
  induction coming generalizing now latest with
  | nil =>
    by_cases hle : min (latest + debounce.asNanos) deadline ≤ now
    · exact ⟨now, [], settle_of_le hle [], hend h hnow hle⟩
    · rw [Nat.not_le] at hle
      refine ⟨_, [], settle_of_late hle fun a ha ↦ absurd ha List.not_mem_nil, Nat.le_of_lt hle,
        Nat.min_le_right _ _, ?_, [], rfl, fun a ha ↦ absurd ha List.not_mem_nil,
        fun a ha ↦ absurd ha List.not_mem_nil⟩
      rcases Nat.le_total (latest + debounce.asNanos) deadline with hquiet | hbound
      · rw [Nat.min_eq_left hquiet]
        exact Or.inr ⟨Nat.le_refl _, fun a ha ↦ absurd ha List.not_mem_nil⟩
      · exact Or.inl (Nat.min_eq_right hbound)
  | cons a coming ih =>
    by_cases hle : min (latest + debounce.asNanos) deadline ≤ now
    · exact ⟨now, a :: coming, settle_of_le hle _, hend h hnow hle⟩
    rw [Nat.not_le] at hle
    by_cases ha : a.time < min (latest + debounce.asNanos) deadline
    · have hreceived : max now a.time ≤ deadline :=
        Nat.le_of_lt ((Nat.max_lt.2 ⟨hle, ha⟩).trans_le (Nat.min_le_right _ _))
      rw [settle, if_neg (Nat.not_le_of_lt hle), if_pos ha]
      dsimp only
      rw [flurry] at hfits
      split at hfits
      · next hrelevant =>
        -- A relevant message starts the quiet period again.
        rw [h.max_eq] at hreceived ⊢
        have hin : max latest a.time < min (latest + debounce.asNanos) deadline := by
          rw [← h.max_eq]
          exact Nat.max_lt.2 ⟨hle, ha⟩
        rw [if_pos hin] at hfits
        rw [if_pos hrelevant, Clock.add, if_pos (hfits _ List.mem_cons_self)]
        obtain ⟨returned, rest, hsettle, hfrom, hbound, hquiet, received, hsplit, hbefore, hafter⟩ :=
          ih h.relevant hreceived fun time ht ↦ hfits time (List.mem_cons_of_mem _ ht)
        refine ⟨returned, rest, hsettle, ?_, hbound, ?_, a :: received, ?_, ?_, ?_⟩
        · have hahead := h.ahead a List.mem_cons_self
          omega
        · refine hquiet.imp_right fun ⟨hover, hall⟩ ↦ ⟨by omega, ?_⟩
          rintro b hb hb'
          rcases List.mem_cons.1 hb with rfl | hb
          · exact Or.inl hover
          · rw [← h.max_max hb]
            exact hall b hb hb'
        · rw [hsplit, List.cons_append]
        · rintro b hb
          rcases List.mem_cons.1 hb with rfl | hb
          · exact hfrom
          · rw [← h.max_max (hsplit ▸ List.mem_append_left _ hb)]
            exact hbefore b hb
        · rintro b hb
          rw [← h.max_max (hsplit ▸ List.mem_append_right _ hb)]
          exact hafter b hb
      · next hirrelevant =>
        rw [if_neg hirrelevant]
        obtain ⟨returned, rest, hsettle, hfrom, hbound, hquiet, received, hsplit, hbefore, hafter⟩ :=
          ih (h.irrelevant hle ha) hreceived hfits
        have htime : max latest a.time ≤ returned := by
          rw [← h.max_eq]
          exact hfrom
        refine ⟨returned, rest, hsettle, (Nat.le_max_left _ _).trans hfrom, hbound, ?_, a :: received,
          ?_, ?_, hafter⟩
        · refine hquiet.imp_right fun ⟨hover, hall⟩ ↦ ⟨hover, ?_⟩
          rintro b hb hb'
          rcases List.mem_cons.1 hb with rfl | hb
          · exact absurd hb' hirrelevant
          · exact hall b hb hb'
        · rw [hsplit, List.cons_append]
        · rintro b hb
          rcases List.mem_cons.1 hb with rfl | hb
          · exact htime
          · exact hbefore b hb
    · rw [Nat.not_lt] at ha
      have hlate := h.late ha
      refine ⟨_, a :: coming, settle_of_late hle hlate, Nat.le_of_lt hle, Nat.min_le_right _ _, ?_, [],
        rfl, fun b hb ↦ absurd hb List.not_mem_nil,
        fun b hb ↦ (hlate b hb).trans (Nat.le_max_right _ _)⟩
      rcases Nat.le_total (latest + debounce.asNanos) deadline with hquiet | hbound
      · refine Or.inr ⟨Nat.le_of_eq (Nat.min_eq_left hquiet).symm, fun b hb _ ↦ Or.inr ?_⟩
        exact (hlate b hb).trans (Nat.le_max_right _ _)
      · exact Or.inl (Nat.min_eq_right hbound)

/-- **A round that would have to go past the last instant panics.** -/
theorem settle_eq_panicked (h : Waiting debounce deadline latest now coming) {time : Nat}
    (htime : time ∈ flurry watched debounce deadline latest coming)
    (hlast : clock.last < time + debounce.asNanos) :
    settle clock watched debounce none deadline trigger now (latest + debounce.asNanos) coming =
      .panicked := by
  induction coming generalizing now latest with
  | nil => exact absurd htime List.not_mem_nil
  | cons a coming ih =>
    have hle : now < min (latest + debounce.asNanos) deadline := by
      by_contra hover
      rw [Nat.not_lt] at hover
      rw [flurry_eq_nil fun b hb ↦ hover.trans (h.ahead b hb)] at htime
      exact List.not_mem_nil htime
    have ha : a.time < min (latest + debounce.asNanos) deadline := by
      by_contra hlate
      rw [Nat.not_lt] at hlate
      rw [flurry_eq_nil fun b hb ↦ (h.late hlate b hb).trans (Nat.le_max_right _ _)] at htime
      exact List.not_mem_nil htime
    rw [settle, if_neg (Nat.not_le_of_lt hle), if_pos ha]
    dsimp only
    rw [flurry] at htime
    split at htime
    · next hrelevant =>
      rw [if_pos hrelevant, h.max_eq, Clock.add]
      split at htime
      · rcases List.mem_cons.1 htime with rfl | htime
        · rw [if_neg (Nat.not_le_of_lt hlast)]
        · by_cases hfits : max latest a.time + debounce.asNanos ≤ clock.last
          · rw [if_pos hfits]
            exact ih h.relevant htime
          · rw [if_neg hfits]
      · exact absurd htime List.not_mem_nil
    · next hirrelevant =>
      rw [if_neg hirrelevant]
      exact ih (h.irrelevant hle ha) htime

theorem relevantOnly_cons (a : Arrival) (coming : List Arrival) :
    relevantOnly watched (a :: coming) =
      if (a.message.relevant watched).isSome = true then a :: relevantOnly watched coming
      else relevantOnly watched coming :=
  List.filter_cons

/-- **Irrelevant messages do not move the end of a round.** -/
theorem settle_relevantOnly (h : Waiting debounce deadline latest now coming) {returned : Nat}
    {rest : List Arrival}
    (hsettle : settle clock watched debounce none deadline trigger now (latest + debounce.asNanos)
      coming = .dirty trigger returned rest) :
    ∃ rest', settle clock watched debounce none deadline trigger latest (latest + debounce.asNanos)
      (relevantOnly watched coming) = .dirty trigger returned rest' := by
  have hover : ∀ {now latest : Nat} {coming : List Arrival},
      Waiting debounce deadline latest now coming →
      min (latest + debounce.asNanos) deadline ≤ now → now = latest :=
    fun h hle ↦ h.early.resolve_right (Nat.not_lt_of_le hle)
  induction coming generalizing now latest with
  | nil =>
    by_cases hle : min (latest + debounce.asNanos) deadline ≤ now
    · obtain rfl := hover h hle
      exact ⟨rest, hsettle⟩
    · rw [Nat.not_le] at hle
      rw [settle_of_late hle fun a ha ↦ absurd ha List.not_mem_nil] at hsettle
      obtain ⟨-, rfl, -⟩ := Collected.dirty.inj hsettle
      exact ⟨[], settle_of_late (h.latest_le.trans_lt hle) fun a ha ↦ absurd ha List.not_mem_nil⟩
  | cons a coming ih =>
    by_cases hle : min (latest + debounce.asNanos) deadline ≤ now
    · obtain rfl := hover h hle
      rw [settle_of_le hle] at hsettle
      obtain ⟨-, rfl, -⟩ := Collected.dirty.inj hsettle
      exact ⟨_, settle_of_le hle _⟩
    rw [Nat.not_le] at hle
    by_cases ha : a.time < min (latest + debounce.asNanos) deadline
    · rw [settle, if_neg (Nat.not_le_of_lt hle), if_pos ha] at hsettle
      dsimp only at hsettle
      by_cases hrelevant : (a.message.relevant watched).isSome = true
      · rw [if_pos hrelevant, h.max_eq] at hsettle
        rw [relevantOnly_cons, if_pos hrelevant, settle,
          if_neg (Nat.not_le_of_lt (h.latest_le.trans_lt hle)), if_pos ha, if_pos hrelevant]
        rw [Clock.add] at hsettle ⊢
        split at hsettle
        · next quietUntil hadd =>
          obtain ⟨-, heq⟩ := Option.ite_none_right_eq_some.1 hadd
          obtain rfl := Option.some.inj heq
          exact ih h.relevant hsettle
        · cases hsettle
      · rw [if_neg hrelevant] at hsettle
        rw [relevantOnly_cons, if_neg hrelevant]
        exact ih (h.irrelevant hle ha) hsettle
    · rw [Nat.not_lt] at ha
      have hlate := h.late ha
      rw [settle_of_late hle hlate] at hsettle
      obtain ⟨-, rfl, -⟩ := Collected.dirty.inj hsettle
      refine ⟨_, settle_of_late (h.latest_le.trans_lt hle) fun b hb ↦ ?_⟩
      exact hlate b (List.mem_filter.1 hb).1

/-! ### The round -/

theorem le_saturatingMul (debounce : Duration) :
    debounce.asNanos ≤ (debounce.saturatingMul 4).asNanos ∧
      (debounce.saturatingMul 4).asNanos ≤ 4 * debounce.asNanos := by
  have hfits := debounce.fits
  rw [Duration.saturatingMul]
  dsimp only
  omega

theorem collectRelevant_of_irrelevant {arrivals : List Arrival} (now : Nat)
    (h : ∀ a ∈ arrivals, a.message.relevant watched = none) :
    collectRelevant clock watched debounce none now arrivals = .blocked := by
  induction arrivals generalizing now with
  | nil => rfl
  | cons a arrivals ih =>
    rw [collectRelevant, h a List.mem_cons_self]
    exact ih _ fun b hb ↦ h b (List.mem_cons_of_mem a hb)

/-- What comes before the first relevant message is gone when it is received. -/
theorem collectRelevant_append {before : List Arrival} {a : Arrival} (now : Nat)
    (hbefore : ∀ b ∈ before, b.message.relevant watched = none ∧ b.time ≤ a.time) :
    collectRelevant clock watched debounce none now (before ++ a :: coming) =
      collectRelevant clock watched debounce none now (a :: coming) := by
  induction before generalizing now with
  | nil => rfl
  | cons b before ih =>
    obtain ⟨hb, htime⟩ := hbefore b List.mem_cons_self
    rw [List.cons_append, collectRelevant, hb]
    dsimp only
    rw [ih _ fun b' hb' ↦ hbefore b' (List.mem_cons_of_mem b hb'), collectRelevant, collectRelevant]
    have hmax : max (max now b.time) a.time = max now a.time := by omega
    rw [hmax]

/-- The window opens, where the clock has its bound. -/
theorem collectRelevant_cons {a : Arrival} (h : a.message.relevant watched = some trigger) (now : Nat) :
    collectRelevant clock watched debounce none now (a :: coming) =
      if max now a.time + (debounce.saturatingMul 4).asNanos ≤ clock.last then
        settle clock watched debounce none (max now a.time + (debounce.saturatingMul 4).asNanos) trigger
          (max now a.time) (max now a.time + debounce.asNanos) coming
      else .panicked := by
  have hle := (le_saturatingMul debounce).1
  rw [collectRelevant, h]
  dsimp only
  rw [Clock.add, Clock.add]
  by_cases hfits : max now a.time + (debounce.saturatingMul 4).asNanos ≤ clock.last
  · rw [if_pos hfits, if_pos hfits, if_pos (by omega)]
  · rw [if_neg hfits, if_neg hfits]

/-- A round in the window that has just opened. -/
theorem waiting_of_opens (arrivals : Arrivals) {a : Arrival}
    (h : Opens watched arrivals.arrivals trigger a coming) (start : Nat) :
    Waiting debounce deadline (max start a.time) (max start a.time) coming := by
  obtain ⟨before, hsplit, -, -⟩ := h
  have hordered := hsplit ▸ arrivals.ordered
  exact ⟨(List.pairwise_cons.1 (List.pairwise_append.1 hordered).2.1).2, Nat.le_refl _, Or.inl rfl,
    fun b _ ↦ Nat.le_max_left _ _⟩

theorem collectRelevant_of_opens (arrivals : Arrivals) {a : Arrival}
    (h : Opens watched arrivals.arrivals trigger a coming) (start : Nat) :
    collectRelevant clock watched debounce none start arrivals.arrivals =
      collectRelevant clock watched debounce none start (a :: coming) := by
  obtain ⟨before, hsplit, hbefore, -⟩ := h
  have hordered := hsplit ▸ arrivals.ordered
  rw [hsplit]
  refine collectRelevant_append start fun b hb ↦ ⟨hbefore b hb, ?_⟩
  exact (List.pairwise_append.1 hordered).2.2 b hb a List.mem_cons_self

theorem relevantOnly_of_opens {arrivals : List Arrival} {a : Arrival}
    (h : Opens watched arrivals trigger a coming) :
    relevantOnly watched arrivals = a :: relevantOnly watched coming := by
  obtain ⟨before, rfl, hbefore, ha⟩ := h
  have hnone : relevantOnly watched before = [] := by
    refine List.filter_eq_nil_iff.2 fun b hb ↦ ?_
    rw [hbefore b hb]
    exact Bool.false_ne_true
  have hsplit : relevantOnly watched (before ++ a :: coming) =
      relevantOnly watched before ++ relevantOnly watched (a :: coming) := List.filter_append ..
  rw [hsplit, hnone, List.nil_append, relevantOnly_cons, ha]
  rfl

/-- **Debouncing is bounded exactly as far as the clock reaches.** -/
theorem debounced_iff (clock : Clock) (watched : Watched) (debounce : Duration) (start : Nat)
    (arrivals : Arrivals) :
    Debounced clock watched debounce start arrivals.arrivals ↔
      Fits clock watched debounce start arrivals.arrivals := by
  constructor
  · intro h trigger a coming hopens
    obtain ⟨returned, rest, hreturns, -⟩ := h.returns trigger a coming hopens
    obtain ⟨-, -, -, ha⟩ := id hopens
    rw [collectRelevant_of_opens arrivals hopens, collectRelevant_cons ha] at hreturns
    split at hreturns
    · next hbound =>
      refine ⟨hbound, fun time htime ↦ ?_⟩
      by_contra hlast
      rw [settle_eq_panicked (waiting_of_opens arrivals hopens start) htime (Nat.not_le.1 hlast)]
        at hreturns
      cases hreturns
    · cases hreturns
  · intro hfits
    refine ⟨collectRelevant_of_irrelevant start, fun trigger a coming hopens ↦ ?_⟩
    obtain ⟨-, -, -, ha⟩ := id hopens
    obtain ⟨hbound, hflurry⟩ := hfits trigger a coming hopens
    have hwaiting : Waiting debounce (max start a.time + (debounce.saturatingMul 4).asNanos)
        (max start a.time) (max start a.time) coming := waiting_of_opens arrivals hopens start
    obtain ⟨returned, rest, hsettle, -, hle, hquiet, hkept⟩ :=
      settle_of_fits trigger hwaiting (Nat.le_add_right _ _) hflurry
    obtain ⟨rest', hsettle'⟩ := settle_relevantOnly hwaiting hsettle
    refine ⟨returned, rest, ?_, ⟨hle.trans ?_, hquiet, hkept⟩, rest', ?_⟩
    · rw [collectRelevant_of_opens arrivals hopens, collectRelevant_cons ha, if_pos hbound, hsettle]
    · exact Nat.add_le_add_left (le_saturatingMul debounce).2 _
    · rw [relevantOnly_of_opens hopens, collectRelevant_cons ha, if_pos hbound, hsettle']

/-- A `Timespec` counts its seconds in 64 bits, with a sign. -/
def unixClock : Clock where
  last := 2 ^ 63 * 10 ^ 9 - 1

/-- The longest duration there is. -/
def longest : Duration := ⟨2 ^ 64 * 10 ^ 9 - 1, by decide⟩

/-- One file, and one change of it. -/
def oneFile : Watched where
  files := [[.rootDir, .normal "app.toml".toList]]
  searchName := none
  searchDirectories := []

def oneChange : Arrivals where
  arrivals := [⟨0, .event ⟨.modify, [[.rootDir, .normal "app.toml".toList]]⟩⟩]
  ordered := List.pairwise_singleton _ _

/-- Four of the longest durations saturate to one, and no clock has an instant that far. -/
theorem not_debounced_longest : ¬ Debounced unixClock oneFile longest 0 oneChange.arrivals := by
  intro h
  have hrelevant : ∀ a ∈ oneChange.arrivals,
      a.message.relevant oneFile = some [.rootDir, .normal "app.toml".toList] := by decide
  have ha := hrelevant _ List.mem_cons_self
  obtain ⟨returned, rest, hreturns, -⟩ :=
    h.returns _ _ [] ⟨[], rfl, fun b hb ↦ absurd hb List.not_mem_nil, ha⟩
  have hpanics : collectRelevant unixClock oneFile longest none 0 oneChange.arrivals = .panicked := by
    refine (collectRelevant_cons ha 0).trans (if_neg ?_)
    decide
  rw [hpanics] at hreturns
  cases hreturns

/-- **A watcher dropped within a window ends the round without a change**; otherwise it changes
nothing. -/
theorem settle_closed {closed quietUntil returned : Nat} {rest : List Arrival}
    (h : settle clock watched debounce none deadline trigger now quietUntil coming =
      .dirty trigger returned rest) :
    settle clock watched debounce (some closed) deadline trigger now quietUntil coming =
        .dirty trigger returned rest ∨
      closed < returned ∧ ∃ ended,
        settle clock watched debounce (some closed) deadline trigger now quietUntil coming =
          .disconnected ended := by
  induction coming generalizing now quietUntil with
  | nil =>
    unfold settle at h ⊢
    dsimp only at h ⊢
    split at h
    · next hle =>
      rw [if_pos hle]
      exact Or.inl h
    · next hle =>
      obtain ⟨-, rfl, rfl⟩ := Collected.dirty.inj h
      rw [if_neg hle]
      by_cases hclosed : closed < min quietUntil deadline
      · rw [if_pos hclosed]
        exact Or.inr ⟨hclosed, _, rfl⟩
      · rw [if_neg hclosed]
        exact Or.inl rfl
  | cons a coming ih =>
    rw [settle] at h ⊢
    dsimp only at h ⊢
    split at h
    · next hle =>
      rw [if_pos hle]
      exact Or.inl h
    · next hle =>
      rw [if_neg hle]
      split at h
      · next ha =>
        rw [if_pos ha]
        split at h
        · next hrelevant =>
          rw [if_pos hrelevant]
          rcases hadd : clock.add (max now a.time) debounce with - | quietUntil'
          · rw [hadd] at h
            cases h
          · rw [hadd] at h
            exact ih h
        · next hrelevant =>
          rw [if_neg hrelevant]
          exact ih h
      · next ha =>
        rw [if_neg ha]
        exact Or.inl h

end DynamicConfig.Debounce
