import Mathlib.Algebra.Ring.Nat
import Mathlib.Data.Option.Basic

/-!
# A credential that expires

The stores that log in keep what they were issued, and use it until it is close to expiry: `Cached`. A
`get` answers with what is held, or obtains a new one, and hands the old one over where there is one to
renew. `invalidate` drops it.

Time is a clock's reading in nanoseconds, and `latest` the last reading it can represent. Both reads of
the clock in a `get` are given: the one that is compared with the expiry, and the one after a
credential was obtained.

What a run has obtained and not invalidated since is `Session.issued`, which is what happened and not
what the cache holds; `Kept` says the cache holds exactly that. From it follows what the next `get`
does (`lawful_after`), with any margin: the caches of the stores have a minute, `REFRESH_WITHIN`.
-/

namespace DynamicConfig.Credential

variable {T E : Type}

/-- How close to expiry a credential may get before it is refreshed: a minute. -/
def REFRESH_WITHIN : ℕ := 60 * 10 ^ 9

/-- What an `obtain` returns: the credential, and how long the server says it lives. -/
structure Issued (T : Type) where
  value : T
  ttl : Option ℕ

/-- What is currently held, and until when. -/
structure Held (T : Type) where
  value : T
  /-- `none` for a credential that does not expire. -/
  expiresAt : Option ℕ

/-- A credential that expires and can be obtained again. -/
structure Cached (T : Type) where
  held : Option (Held T)
  margin : ℕ

/-- `Instant::checked_add`. -/
def checkedAdd (latest reading ttl : ℕ) : Option ℕ :=
  if reading + ttl ≤ latest then some (reading + ttl) else none

/-- What a call to `get` does: its result, what `obtain` was given if it was called, and the cache
afterwards. -/
structure Got (T E : Type) where
  result : Except E T
  asked : Option (Option T)
  cached : Cached T

namespace Cached

/-- An empty cache with a margin of its own. -/
def withMargin (margin : ℕ) : Cached T := ⟨none, margin⟩

/-- An empty cache, refreshing within `REFRESH_WITHIN` of expiry. -/
def new : Cached T := withMargin REFRESH_WITHIN

/-- Drops what is held, so the next `get` obtains. -/
def invalidate (cached : Cached T) : Cached T := { cached with held := none }

/-- Whether this credential is close enough to expiry to replace. The difference saturates: past the
expiry it is zero. -/
def isStale (cached : Cached T) (held : Held T) (now : ℕ) : Bool :=
  held.expiresAt.any fun expiresAt ↦ decide (expiresAt - now < cached.margin)

/-- The part of `get` that obtains. A failure leaves what was held. -/
def replace (latest : ℕ) (cached : Cached T) (obtainWith : Option T → Except E (Issued T))
    (later : ℕ) : Got T E :=
  let previous := cached.held.map Held.value
  match obtainWith previous with
  | .error error => ⟨.error error, some previous, cached⟩
  | .ok issued =>
    ⟨.ok issued.value, some previous,
      { cached with held := some ⟨issued.value, issued.ttl.bind (checkedAdd latest later)⟩ }⟩

theorem replace_of_error {latest later : ℕ} {cached : Cached T}
    {obtainWith : Option T → Except E (Issued T)} {error : E}
    (h : obtainWith (cached.held.map Held.value) = .error error) :
    cached.replace latest obtainWith later =
      ⟨.error error, some (cached.held.map Held.value), cached⟩ := by
  rw [replace, h]

theorem replace_of_ok {latest later : ℕ} {cached : Cached T}
    {obtainWith : Option T → Except E (Issued T)} {issued : Issued T}
    (h : obtainWith (cached.held.map Held.value) = .ok issued) :
    cached.replace latest obtainWith later =
      ⟨.ok issued.value, some (cached.held.map Held.value),
        { cached with
          held := some ⟨issued.value, issued.ttl.bind (checkedAdd latest later)⟩ }⟩ := by
  rw [replace, h]

/-- The current credential, obtaining or refreshing it as needed. -/
def get (latest : ℕ) (cached : Cached T) (obtainWith : Option T → Except E (Issued T))
    (now later : ℕ) : Got T E :=
  match cached.held with
  | some current =>
    if cached.isStale current now then cached.replace latest obtainWith later
    else ⟨.ok current.value, none, cached⟩
  | none => cached.replace latest obtainWith later

end Cached

/-! ### Runs -/

/-- What is called of a cache. -/
inductive Call (T E : Type) where
  | get (obtainWith : Option T → Except E (Issued T)) (now later : ℕ)
  | invalidate

/-- A cache, and what was obtained last, if it was not invalidated since: the credential as it was
issued, and the reading when it was. -/
structure Session (T : Type) where
  cached : Cached T
  issued : Option (Issued T × ℕ)

/-- What a call to `get` obtained, or else what was obtained before. -/
def obtained (asked : Option (Option T)) (obtainWith : Option T → Except E (Issued T)) (later : ℕ)
    (before : Option (Issued T × ℕ)) : Option (Issued T × ℕ) :=
  match asked with
  | none => before
  | some previous =>
    match obtainWith previous with
    | .ok issued => some (issued, later)
    | .error _ => before

/-- One call. -/
def Session.call (latest : ℕ) (session : Session T) : Call T E → Session T
  | .get obtainWith now later =>
    let got := session.cached.get latest obtainWith now later
    ⟨got.cached, obtained got.asked obtainWith later session.issued⟩
  | .invalidate => ⟨session.cached.invalidate, none⟩

/-- An empty cache after some calls. -/
def Session.after (latest : ℕ) (cached : Cached T) (calls : List (Call T E)) : Session T :=
  calls.foldl (Session.call latest) ⟨cached, none⟩

/-! ### What the cache holds -/

/-- When what was issued expires, if it does: a reading the clock cannot represent is none. -/
def expiry (latest : ℕ) (issued : Issued T × ℕ) : Option ℕ :=
  issued.1.ttl.bind (checkedAdd latest issued.2)

/-- The cache holds what was obtained and not invalidated since. -/
structure Kept (latest margin : ℕ) (session : Session T) : Prop where
  margin : session.cached.margin = margin
  held : session.cached.held = session.issued.map fun issued ↦
    ⟨issued.1.value, expiry latest issued⟩

theorem kept_new (latest margin : ℕ) : Kept latest margin (⟨Cached.withMargin margin, none⟩ : Session T) :=
  ⟨rfl, rfl⟩

theorem expiry_eq_some_iff {latest : ℕ} {issued : Issued T × ℕ} {t : ℕ} :
    expiry latest issued = some t ↔
      ∃ ttl, issued.1.ttl = some ttl ∧ issued.2 + ttl ≤ latest ∧ t = issued.2 + ttl := by
  rw [expiry, Option.bind_eq_some_iff]
  refine exists_congr fun ttl ↦ and_congr_right fun _ ↦ ?_
  rw [checkedAdd]
  split
  · next hfits => exact ⟨fun h ↦ ⟨hfits, (Option.some.inj h).symm⟩, fun h ↦ congrArg some h.2.symm⟩
  · next hfits => exact iff_of_false (fun h ↦ (by cases h)) fun h ↦ hfits h.1

/-- Whether what was issued is within the margin of its expiry, as the code finds it. -/
def stale (latest margin now : ℕ) (issued : Issued T × ℕ) : Bool :=
  (expiry latest issued).any fun expiresAt ↦ decide (expiresAt - now < margin)

section Step

variable {latest margin : ℕ} {session : Session T} (obtainWith : Option T → Except E (Issued T))
  (now later : ℕ)

/-- Nothing is held: `obtain` is called, with nothing. -/
theorem Kept.get_of_none (h : Kept latest margin session) (hissued : session.issued = none) :
    session.cached.get latest obtainWith now later =
      session.cached.replace latest obtainWith later := by
  have hheld := h.held
  rw [hissued, Option.map_none] at hheld
  rw [Cached.get, hheld]

/-- Something is held: it is replaced if it is stale, and answered with if not. -/
theorem Kept.get_of_some (h : Kept latest margin session) {issued : Issued T × ℕ}
    (hissued : session.issued = some issued) :
    session.cached.get latest obtainWith now later =
      if stale latest margin now issued then session.cached.replace latest obtainWith later
      else ⟨.ok issued.1.value, none, session.cached⟩ := by
  have hheld := h.held
  rw [hissued] at hheld
  rw [Cached.get, hheld]
  dsimp only [Option.map_some]
  rw [Cached.isStale, h.margin]
  rfl

/-- **What obtaining does**: a failure changes nothing, and a credential takes the place of what was
held. -/
theorem Kept.replace (h : Kept latest margin session) :
    (session.cached.replace latest obtainWith later).asked =
        some (session.issued.map fun issued ↦ issued.1.value) ∧
      Kept latest margin ⟨(session.cached.replace latest obtainWith later).cached,
        obtained (session.cached.replace latest obtainWith later).asked obtainWith later
          session.issued⟩ := by
  have hprevious : session.cached.held.map Held.value =
      session.issued.map fun issued ↦ issued.1.value := by
    rw [h.held, Option.map_map]
    rfl
  rcases hobtain : obtainWith (session.cached.held.map Held.value) with error | issued
  · rw [Cached.replace_of_error hobtain, obtained]
    dsimp only
    rw [hobtain]
    exact ⟨congrArg some hprevious, h.margin, h.held⟩
  · rw [Cached.replace_of_ok hobtain, obtained]
    dsimp only
    rw [hobtain]
    exact ⟨congrArg some hprevious, h.margin, rfl⟩

/-- **One call.** -/
theorem Kept.call (h : Kept latest margin session) (call : Call T E) :
    Kept latest margin (session.call latest call) := by
  rcases call with ⟨obtainWith, now, later⟩ | -
  · rw [Session.call]
    rcases hissued : session.issued with - | issued
    · rw [h.get_of_none obtainWith now later hissued, ← hissued]
      exact (h.replace obtainWith later).2
    · rw [h.get_of_some obtainWith now later hissued]
      split
      · rw [← hissued]
        exact (h.replace obtainWith later).2
      · refine ⟨h.margin, ?_⟩
        rw [obtained, ← hissued]
        exact h.held
  · exact ⟨h.margin, rfl⟩

/-- **A run.** -/
theorem kept_after (latest margin : ℕ) (calls : List (Call T E)) :
    Kept latest margin (Session.after latest (Cached.withMargin margin) calls) := by
  have hrun : ∀ session : Session T, Kept latest margin session →
      Kept latest margin (calls.foldl (Session.call latest) session) := by
    induction calls with
    | nil => exact fun session h ↦ h
    | cons call calls ih => exact fun session h ↦ ih _ (h.call call)
  exact hrun _ (kept_new latest margin)

end Step

/-! ### What the next call does -/

/-- What a call to `get` has to do, for what was obtained and not invalidated since. -/
structure Lawful (latest margin : ℕ) (session : Session T)
    (obtainWith : Option T → Except E (Issued T)) (now later : ℕ) (got : Got T E) : Prop where
  /-- What is returned was just obtained, or it was obtained and not invalidated since, and is not
  within the margin of its expiry. -/
  fresh : ∀ value, got.result = .ok value →
    (∃ previous issued, got.asked = some previous ∧ obtainWith previous = .ok issued ∧
      value = issued.value) ∨
    got.asked = none ∧ ∃ issued, session.issued = some issued ∧ value = issued.1.value ∧
      ∀ t, expiry latest issued = some t → now + margin ≤ t
  /-- An expiry is the reading when the credential was obtained and the lifetime, and within what the
  clock can represent. -/
  inRange : ∀ held t, got.cached.held = some held → held.expiresAt = some t → t ≤ latest
  /-- A failure leaves what was held. -/
  failed : ∀ error, got.result = .error error → got.cached = session.cached
  /-- What has no lifetime is not obtained again. -/
  lifeless : ∀ issued, session.issued = some issued → issued.1.ttl = none → got.asked = none
  /-- The previous credential is offered where there is one that is merely stale. -/
  offered : ∀ value, got.asked = some (some value) ↔
    ∃ issued, session.issued = some issued ∧ issued.1.value = value ∧
      ∃ t, expiry latest issued = some t ∧ t < now + margin

section Next

variable {latest margin : ℕ} {session : Session T} {obtainWith : Option T → Except E (Issued T)}
  {now later : ℕ}

/-- What the code finds stale is what is within the margin of its expiry: past the expiry the
difference is zero, which is less than any margin. -/
theorem stale_eq_true_iff {issued : Issued T × ℕ} (hmargin : 0 < margin) :
    stale latest margin now issued = true ↔
      ∃ t, expiry latest issued = some t ∧ t < now + margin := by
  rw [stale, Option.any_eq_true]
  refine exists_congr fun t ↦ and_congr_right fun _ ↦ ?_
  rw [decide_eq_true_iff]
  omega

theorem Kept.inRange (h : Kept latest margin session) {held : Held T} {t : ℕ}
    (hheld : session.cached.held = some held) (ht : held.expiresAt = some t) : t ≤ latest := by
  rw [h.held] at hheld
  obtain ⟨issued, -, rfl⟩ := Option.map_eq_some_iff.1 hheld
  obtain ⟨ttl, -, hfits, rfl⟩ := expiry_eq_some_iff.1 ht
  exact hfits

/-- What a call that obtains does, whatever it is for. -/
theorem Kept.lawful_replace (h : Kept latest margin session)
    (hdue : ∀ issued, session.issued = some issued →
      ∃ t, expiry latest issued = some t ∧ t < now + margin) :
    Lawful latest margin session obtainWith now later
      (session.cached.replace latest obtainWith later) := by
  obtain ⟨hasked, hkept⟩ := h.replace obtainWith later
  refine ⟨fun value hvalue ↦ Or.inl ?_, fun held t ↦ hkept.inRange, fun error herror ↦ ?_,
    fun issued hissued hnone ↦ ?_, fun value ↦ ?_⟩
  · rcases hobtain : obtainWith (session.cached.held.map Held.value) with error | issued
    · rw [Cached.replace_of_error hobtain] at hvalue
      cases hvalue
    · rw [Cached.replace_of_ok hobtain] at hvalue ⊢
      exact ⟨_, issued, rfl, hobtain, (Except.ok.inj hvalue).symm⟩
  · rcases hobtain : obtainWith (session.cached.held.map Held.value) with error' | issued
    · rw [Cached.replace_of_error hobtain]
    · rw [Cached.replace_of_ok hobtain] at herror
      cases herror
  · obtain ⟨t, ht, -⟩ := hdue issued hissued
    rw [expiry, hnone] at ht
    cases ht
  · rw [hasked, Option.some_inj, Option.map_eq_some_iff]
    refine exists_congr fun issued ↦ ⟨fun hvalue ↦ ?_, fun hvalue ↦ ⟨hvalue.1, hvalue.2.1⟩⟩
    exact ⟨hvalue.1, hvalue.2, hdue issued hvalue.1⟩

/-- **What a `get` does.** -/
theorem Kept.lawful (h : Kept latest margin session) (hmargin : 0 < margin) :
    Lawful latest margin session obtainWith now later
      (session.cached.get latest obtainWith now later) := by
  rcases hissued : session.issued with - | issued
  · rw [h.get_of_none obtainWith now later hissued]
    exact h.lawful_replace fun issued hsome ↦ (by rw [hissued] at hsome; cases hsome)
  · have hstale : stale latest margin now issued = true ↔
        ∃ t, expiry latest issued = some t ∧ t < now + margin :=
      stale_eq_true_iff hmargin
    rw [h.get_of_some obtainWith now later hissued]
    split
    · next hdue =>
      refine h.lawful_replace fun other hother ↦ ?_
      rw [Option.some.inj (hother.symm.trans hissued)]
      exact hstale.1 hdue
    · next hfine =>
      have hnotDue : ∀ t, expiry latest issued = some t → now + margin ≤ t := by
        intro t ht
        by_contra hlt
        exact hfine (hstale.2 ⟨t, ht, Nat.lt_of_not_le hlt⟩)
      refine ⟨fun value hvalue ↦ Or.inr ⟨rfl, issued, hissued, ?_, hnotDue⟩,
        fun held t ↦ h.inRange, fun error herror ↦ (by cases herror), fun _ _ _ ↦ rfl, fun value ↦ ?_⟩
      · exact (Except.ok.inj hvalue).symm
      · refine iff_of_false (fun hnone ↦ (by cases hnone)) ?_
        rintro ⟨other, hother, -, t, ht, hlt⟩
        rw [Option.some.inj (hother.symm.trans hissued)] at ht
        exact absurd hlt (Nat.not_lt.2 (hnotDue t ht))

/-- **A run uses a credential only while it is fresh**: after any calls, with any readings of the
clock, any lifetimes and any failures to obtain one. -/
theorem lawful_after (latest margin : ℕ) (hmargin : 0 < margin) (calls : List (Call T E))
    (obtainWith : Option T → Except E (Issued T)) (now later : ℕ) :
    let session := Session.after latest (Cached.withMargin margin) calls
    Lawful latest margin session obtainWith now later
      (session.cached.get latest obtainWith now later) :=
  (kept_after latest margin calls).lawful hmargin

/-- A credential of two minutes, obtained at zero. -/
def twoMinutesFromZero : Call ℕ Unit := .get (fun _ ↦ .ok ⟨0, some (120 * 10 ^ 9)⟩) 0 0

/-- **Half a minute before it expires** it is offered for renewal, and what was obtained instead is the
answer. -/
theorem lawful_twoMinutesFromZero :
    let session := Session.after (10 ^ 18) Cached.new [twoMinutesFromZero]
    let renewed : Except Unit (Issued ℕ) := .ok ⟨1, none⟩
    let got := session.cached.get (10 ^ 18) (fun _ ↦ renewed) (90 * 10 ^ 9) (91 * 10 ^ 9)
    (got.result = .ok 1 ∧ got.asked = some (some 0)) ∧
      Lawful (10 ^ 18) REFRESH_WITHIN session (fun _ ↦ renewed) (90 * 10 ^ 9) (91 * 10 ^ 9) got :=
  ⟨⟨rfl, rfl⟩, lawful_after (10 ^ 18) REFRESH_WITHIN (by decide) [twoMinutesFromZero]
    (fun _ ↦ .ok ⟨1, none⟩) (90 * 10 ^ 9) (91 * 10 ^ 9)⟩

end Next

end DynamicConfig.Credential
