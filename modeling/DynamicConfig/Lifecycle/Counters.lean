import DynamicConfig.Cache.LastGood
import DynamicConfig.Cache.Read
import DynamicConfig.Cell.Store
import Mathlib.Data.List.DropRight

/-!
# What a builder's attempts leave on record

`init`, `reload_with` and `prepare` each load, and each install what they loaded or record that they
did not; `init` may start from the cache instead, and a prepared commit installs when it is run, if
it ever is. The cell they install into counts the installs and the failures since the last one.

What the sources, the validator and the cache answer is the attempt's to say. `history` is what has
been installed and which attempts returned an error, and no step reads it but for the name of the
next snapshot. The cell's counters agree with it on every run in which every `init` can honour its
cache mode (`truthful_of_run`); an `init` that cannot returns before it looks for an installer, and
its error is on no record (`untold_of_refused`).
-/

namespace DynamicConfig.Counters

open Cell (Arc ConfigCell StoreCall nextMeta sameMeta)
open Lifecycle (ReloadReason)
open Remote (FailureStatus word wrappingSucc saturatingSucc)
open Transition (run)

/-! ### The cell -/

/-- `ConfigCell::store_with`, where nobody else stores meanwhile. -/
def storeWith {T R W : Type} (cell : ConfigCell T R W) (owner now : Nat) (value : T) (reason : R) :
    ConfigCell T R W where
  inner := some ⟨owner, value⟩
  meta_ := some ⟨owner, nextMeta cell.meta_ now⟩
  lastReason := some ⟨owner, reason⟩
  consecutiveFailures := 0
  generation := wrappingSucc cell.generation
  waiting := []

/-- Up to where the list is taken. -/
theorem run_taken {T R W : Type} [DecidableEq W] (sys : Cell.System T R W) (now : Nat) (value : T)
    (reason : R) : ∃ t c m, run Cell.System.step sys (.begin_ value reason ::
        List.replicate 8 (.store sys.calls.length now)) = some t ∧
      t.cell = storeWith sys.cell sys.calls.length now value reason ∧
        t.calls[sys.calls.length]? = some (StoreCall.waking c sys.cell.waiting) ∧
          c.installed = some m := by
  simp [run, Cell.System.step, StoreCall.step, StoreCall.new, sameMeta, List.replicate, storeWith,
    StoreCall.arc]
  exact ⟨_, rfl, _, rfl⟩

/-- **It is where the atomic steps of the call lead**, with a step for each of those it wakes. -/
theorem run_storeWith {T R W : Type} [DecidableEq W] (sys : Cell.System T R W) (now : Nat)
    (value : T) (reason : R) :
    ∃ t, run Cell.System.step sys (.begin_ value reason ::
        List.replicate (9 + sys.cell.waiting.length) (.store sys.calls.length now)) = some t ∧
      t.cell = storeWith sys.cell sys.calls.length now value reason := by
  obtain ⟨t, c, m, ht, hcell, hcall, hinstalled⟩ := run_taken sys now value reason
  obtain ⟨u, hu, hcell', hcall'⟩ := Cell.System.run_waking now hcall
  obtain ⟨d, hdispatch⟩ : ∃ d, (c.waking []).step sys.calls.length now u.cell = some (u.cell, d) := by
    show ∃ d, c.installed.bind _ = some (u.cell, d)
    rw [hinstalled]
    exact ⟨_, rfl⟩
  obtain ⟨v, hv, hcell'', -, -⟩ := Cell.System.step_store now hcall' hdispatch
  refine ⟨v, ?_, hcell''.trans (hcell'.trans hcell)⟩
  have hsteps : List.replicate (9 + sys.cell.waiting.length) (.store sys.calls.length now) =
      List.replicate 8 (.store sys.calls.length now) ++
        (List.replicate sys.cell.waiting.length (.store sys.calls.length now) ++
          [(.store sys.calls.length now : Cell.Turn T R W)]) := by
    rw [← List.replicate_succ', ← List.replicate_add]
    congr 1
    omega
  rw [hsteps, ← List.cons_append]
  refine Transition.run_trans ht (Transition.run_trans hu ?_)
  rw [Transition.run_cons_of_step hv]
  rfl

/-! ### Attempts -/

/-- What an attempt is answered. -/
structure Attempt (T : Type) where
  /-- What the sources load to. -/
  loaded : Except Error T
  /-- What the validator says of that; without one, nothing is refused. -/
  check : T → Except Error Unit
  /-- What the cache file reads as. -/
  cached : Except Error Recovery
  /-- What the loader recovers from a cache that holds values. -/
  recovered : Dict → Except Error T
  /-- What the validator says of what is recovered. -/
  checkRecovered : T → Except Error Unit

/-- `Builder::load`. -/
def Attempt.load {T : Type} (a : Attempt T) : Except Error T := do
  let value ← a.loaded
  a.check value
  .ok value

/-- `Builder::recover`: what there is to start from, or the original failure back. -/
def Attempt.recover {T : Type} (cache : CacheSpec) (a : Attempt T) (failure : Error) :
    Except Error T :=
  match cache.cache with
  | none => .error failure
  | some (_, mode) =>
    match a.cached with
    | .ok (.usable values) =>
      if Lifecycle.CacheMode.recovers mode then a.recovered values else .error failure
    | .ok (.drift _) => .error failure
    | .ok .absent | .error _ => .error failure

/-- `Builder::check_cache_mode`. -/
def checkCacheMode (cache : CacheSpec) : Except Error Unit :=
  match cache.cache with
  | none => .ok ()
  | some (_, mode) =>
    if mode ≠ .full ∧ cache.secrets = none then
      .error
        { kind := .backend
          message := "a redacted or fingerprint cache needs to know which fields are secret, and " ++
            "nothing here has said. A `#[dynamic_config]` type's generated `builder()` says it " ++
            "from the declaration; a configuration with no declaration says it with " ++
            "`.secrets([..])` — the Python binding spells that `DynamicConfig(..., " ++
            "secrets=[..])`. Or ask for `CacheMode::Full`, which redacts nothing and says so — " ++
            "`cache(path, \"full\")` from Python" }
    else .ok ()

/-! ### Runs -/

/-- What has happened. -/
inductive Happened (T : Type) where
  | installed (value : T)
  /-- An attempt returned an error. -/
  | failed (error : Error)
  deriving DecidableEq

namespace Happened

variable {T : Type}

/-- What was installed. -/
def value : Happened T → Option T
  | installed value => some value
  | failed _ => none

def isFailed : Happened T → Bool
  | installed _ => false
  | failed _ => true

end Happened

/-- A builder's cell, the commits it has handed out, and what has happened, oldest first. -/
structure System (T W : Type) where
  cell : ConfigCell T ReloadReason W
  lastFailure : Option FailureStatus
  /-- A commit that has been run or dropped leaves its place. -/
  commits : List (Option T)
  history : List (Happened T)

/-- One turn. -/
inductive Turn (T : Type) where
  | init (now : Nat) (a : Attempt T)
  | reloadWith (reason : ReloadReason) (now : Nat) (a : Attempt T)
  | prepare (now : Nat) (a : Attempt T)
  | commit (k now : Nat)
  | drop (k : Nat)

namespace System

variable {T W : Type}

/-- The values installed, oldest first. -/
def installs (sys : System T W) : List T :=
  sys.history.filterMap Happened.value

/-- The attempts that returned an error since the last install. -/
def failures (sys : System T W) : List (Happened T) :=
  sys.history.rtakeWhile Happened.isFailed

/-- `Installer::install`. -/
def install (sys : System T W) (now : Nat) (value : T) (reason : ReloadReason) : System T W :=
  { sys with
    cell := storeWith sys.cell sys.installs.length now value reason
    history := sys.history ++ [.installed value] }

/-- `Installer::record_failure`. -/
def recordFailure (sys : System T W) (now : Nat) (error : Error) : System T W :=
  { sys with
    cell := { sys.cell with
      consecutiveFailures := saturatingSucc (2 ^ 32 - 1) sys.cell.consecutiveFailures }
    lastFailure := some (FailureStatus.of now error) }

/-- An attempt returns an error. -/
def failed (sys : System T W) (error : Error) : System T W :=
  { sys with history := sys.history ++ [.failed error] }

/-- `Builder::install`, all of `init`. What is recovered counts as an install; what is not
recovered is recorded once, after the validator has had its say. -/
def init (cache : CacheSpec) (sys : System T W) (now : Nat) (a : Attempt T) : System T W :=
  match checkCacheMode cache with
  -- returned before there is an installer to tell
  | .error e => sys.failed e
  | .ok () =>
    match a.load with
    | .ok value => sys.install now value .initial
    | .error failure =>
      match a.recover cache failure with
      | .error e => (sys.recordFailure now e).failed e
      | .ok value =>
        match a.checkRecovered value with
        | .error e => (sys.recordFailure now e).failed e
        | .ok () => sys.install now value .recovered

/-- `Builder::reload_with`. -/
def reloadWith (sys : System T W) (reason : ReloadReason) (now : Nat) (a : Attempt T) :
    System T W :=
  match a.load with
  | .error e => (sys.recordFailure now e).failed e
  | .ok value => sys.install now value reason

/-- `Builder::prepare`. What it loads is installed by the commit. -/
def prepare (sys : System T W) (now : Nat) (a : Attempt T) : System T W :=
  match a.load with
  | .error e => (sys.recordFailure now e).failed e
  | .ok value => { sys with commits := sys.commits ++ [some value] }

/-- The commit leaves its place. -/
def spend (sys : System T W) (k : Nat) : System T W :=
  { sys with commits := sys.commits.set k none }

/-- What one turn does, with a builder that has an installer. -/
def step (cache : CacheSpec) (sys : System T W) : Turn T → Option (System T W)
  | .init now a => some (sys.init cache now a)
  | .reloadWith reason now a => some (sys.reloadWith reason now a)
  | .prepare now a => some (sys.prepare now a)
  | .commit k now =>
    sys.commits[k]?.join.map fun value ↦ (sys.spend k).install now value .manual
  | .drop k => sys.commits[k]?.join.map fun _ ↦ sys.spend k

/-- A builder nobody has called. -/
def new : System T W := ⟨ConfigCell.new, none, [], []⟩

/-- The generation a cell reports: `ConfigCell::generation`. -/
def generation (sys : System T W) : Nat :=
  (sys.cell.meta_.map fun m ↦ m.value.generation).getD 0

/-- **The counters tell the truth.** -/
structure Truthful (sys : System T W) : Prop where
  served : sys.cell.inner.map Arc.value = sys.installs.getLast?
  generation : sys.generation = sys.installs.length
  failures : sys.cell.consecutiveFailures = min sys.failures.length (2 ^ 32 - 1)

theorem truthful_new : (new : System T W).Truthful := ⟨rfl, rfl, rfl⟩

/-! ### What a turn does to the record -/

theorem installs_install (sys : System T W) (now : Nat) (value : T) (reason : ReloadReason) :
    (sys.install now value reason).installs = sys.installs ++ [value] := by
  simp [installs, install, Happened.value]

theorem installs_failed (sys : System T W) (error : Error) :
    (sys.failed error).installs = sys.installs := by
  simp [installs, failed, Happened.value]

theorem failures_install (sys : System T W) (now : Nat) (value : T) (reason : ReloadReason) :
    (sys.install now value reason).failures = [] :=
  List.rtakeWhile_concat_neg _ _ _ Bool.false_ne_true

theorem failures_failed (sys : System T W) (error : Error) :
    (sys.failed error).failures = sys.failures ++ [.failed error] :=
  List.rtakeWhile_concat_pos _ _ _ rfl

/-- **An install is counted**, as long as the count is not at its end. -/
theorem Truthful.install {sys : System T W} (h : sys.Truthful) (now : Nat) (value : T)
    (reason : ReloadReason) (hroom : (sys.installs ++ [value]).length < word) :
    (sys.install now value reason).Truthful where
  served := by
    rw [installs_install, List.getLast?_concat]
    rfl
  generation := by
    rw [installs_install]
    show wrappingSucc sys.generation = _
    rw [h.generation, wrappingSucc, List.length_append, List.length_singleton]
    rw [List.length_append, List.length_singleton] at hroom
    exact Nat.mod_eq_of_lt hroom
  failures := by
    rw [failures_install]
    rfl

/-- **An error that is recorded once is counted once.** -/
theorem Truthful.recorded {sys : System T W} (h : sys.Truthful) (now : Nat) (error : Error) :
    ((sys.recordFailure now error).failed error).Truthful where
  served := by
    rw [installs_failed]
    exact h.served
  generation := by
    rw [installs_failed]
    exact h.generation
  failures := by
    rw [failures_failed, List.length_append, List.length_singleton]
    show saturatingSucc (2 ^ 32 - 1) sys.cell.consecutiveFailures = min (sys.failures.length + 1) _
    rw [h.failures, saturatingSucc]
    omega

/-- The commits are on no record. -/
theorem Truthful.commits {sys : System T W} (h : sys.Truthful) (commits : List (Option T)) :
    ({ sys with commits } : System T W).Truthful :=
  ⟨h.served, h.generation, h.failures⟩

/-- What a turn comes to: whatever happened is installed or recorded, once. -/
inductive Moves (sys : System T W) : System T W → Prop where
  | handed (commits : List (Option T)) : sys.Moves { sys with commits }
  | installed (commits : List (Option T)) (now : Nat) (value : T) (reason : ReloadReason) :
    sys.Moves (({ sys with commits } : System T W).install now value reason)
  | recorded (now : Nat) (error : Error) : sys.Moves ((sys.recordFailure now error).failed error)

theorem moves_reloadWith (sys : System T W) (reason : ReloadReason) (now : Nat) (a : Attempt T) :
    sys.Moves (sys.reloadWith reason now a) := by
  rw [reloadWith]
  rcases a.load with e | value
  · exact .recorded now e
  · exact .installed sys.commits now value reason

theorem moves_prepare (sys : System T W) (now : Nat) (a : Attempt T) :
    sys.Moves (sys.prepare now a) := by
  rw [prepare]
  rcases a.load with e | value
  · exact .recorded now e
  · exact .handed _

/-- An `init` that can honour its cache mode. -/
theorem moves_init {cache : CacheSpec} (hmode : checkCacheMode cache = .ok ())
    (sys : System T W) (now : Nat) (a : Attempt T) : sys.Moves (sys.init cache now a) := by
  rw [init, hmode]
  dsimp only
  rcases a.load with failure | value
  · dsimp only
    rcases a.recover cache failure with e | value
    · exact .recorded now e
    · -- the validator may refuse what is recovered
      dsimp only
      rcases a.checkRecovered value with e | ⟨⟩
      · exact .recorded now e
      · exact .installed sys.commits now value .recovered
  · exact .installed sys.commits now value .initial

/-- A turn that is no `init`, or an `init` of a builder that can honour its cache mode. -/
def Honoured (cache : CacheSpec) : Turn T → Prop
  | .init _ _ => checkCacheMode cache = .ok ()
  | .reloadWith _ _ _ | .prepare _ _ | .commit _ _ | .drop _ => True

/-- **A turn is one of these.** -/
theorem moves_of_step {cache : CacheSpec} {sys t : System T W} {turn : Turn T}
    (hhonoured : Honoured cache turn) (hstep : sys.step cache turn = some t) : sys.Moves t := by
  rcases turn with ⟨now, a⟩ | ⟨reason, now, a⟩ | ⟨now, a⟩ | ⟨k, now⟩ | k
  · obtain rfl := Option.some.inj hstep
    exact moves_init hhonoured sys now a
  · obtain rfl := Option.some.inj hstep
    exact moves_reloadWith sys reason now a
  · obtain rfl := Option.some.inj hstep
    exact moves_prepare sys now a
  · obtain ⟨value, -, rfl⟩ := Option.map_eq_some_iff.1 hstep
    exact .installed _ now value .manual
  · obtain ⟨value, -, rfl⟩ := Option.map_eq_some_iff.1 hstep
    exact .handed _

/-- **What every turn keeps**, as long as the installs can be counted. -/
theorem truthful_of_moves {sys t : System T W} (h : sys.Moves t)
    (htruthful : sys.installs.length < word → sys.Truthful) :
    t.installs.length < word → t.Truthful := by
  rcases h with ⟨commits⟩ | ⟨commits, now, value, reason⟩ | ⟨now, error⟩ <;> intro hroom
  · exact (htruthful hroom).commits commits
  · rw [installs_install] at hroom
    have hbefore : sys.installs.length < word :=
      Nat.lt_of_le_of_lt (by simp [installs]) hroom
    exact ((htruthful hbefore).commits commits).install now value reason hroom
  · rw [installs_failed] at hroom
    exact (htruthful hroom).recorded now error

/-- **The counters tell the truth** on every run in which each `init` can honour its cache mode. -/
theorem truthful_of_run {cache : CacheSpec} {turns : List (Turn T)} {sys : System T W}
    (hturns : ∀ turn ∈ turns, Honoured cache turn) (hrun : run (step cache) new turns = some sys)
    (hroom : sys.installs.length < word) : sys.Truthful :=
  Transition.run_invariant_of
    (fun _ _ _ hhonoured hstep ↦ truthful_of_moves (moves_of_step hhonoured hstep))
    hturns hrun (fun _ ↦ truthful_new) hroom

/-- A builder with a redacted cache and its secrets declared. -/
def declared : CacheSpec where
  cache := some ("last.json", .redacted)
  secrets := some ["password"]

/-- Nothing loads, and nothing is cached. -/
def broken : Attempt Nat where
  loaded := .error { kind := .parse, message := "expected value" }
  check _ := .ok ()
  cached := .ok .absent
  recovered _ := .error { kind := .missing, message := "missing field" }
  checkRecovered _ := .ok ()

/-- A value loads. -/
def working (value : Nat) : Attempt Nat :=
  { broken with loaded := .ok value }

/-- Nothing loads, and the cache holds a value the validator takes. -/
def saved (value : Nat) : Attempt Nat :=
  { broken with cached := .ok (.usable []), recovered := fun _ ↦ .ok value }

/-- A start from the cache, two failures, and a commit prepared before them and run after. -/
def untidy : List (Turn Nat) :=
  [.init 0 (saved 1), .prepare 1 (working 2), .reloadWith .manual 2 broken, .prepare 3 broken,
    .commit 0 4, .init 5 broken]

theorem truthful_untidy : ∃ sys : System Nat Nat,
    run (step declared) new untidy = some sys ∧ sys.Truthful ∧
      sys.installs = [1, 2] ∧ sys.cell.consecutiveFailures = 1 := by
  have hturns : ∀ turn ∈ untidy, Honoured declared turn := by
    simp [untidy, Honoured, checkCacheMode, declared]
  refine ⟨_, rfl, truthful_of_run hturns rfl ?_, rfl, rfl⟩
  show 2 < 2 ^ 64
  omega

/-! ### Where they do not -/

/-- **An `init` that cannot honour its cache mode fails, and nothing says so.** -/
theorem untold_of_refused {cache : CacheSpec} {e : Error} (hmode : checkCacheMode cache = .error e)
    {sys : System T W} (h : sys.Truthful) (hfew : sys.failures.length < 2 ^ 32 - 1) (now : Nat)
    (a : Attempt T) : ¬(sys.init cache now a).Truthful := by
  intro huntold
  have hbefore : sys.cell.consecutiveFailures = sys.failures.length := by
    rw [h.failures]
    omega
  have hafter := huntold.failures
  rw [init, hmode] at hafter
  dsimp only at hafter
  rw [failures_failed, List.length_append, List.length_singleton] at hafter
  have hsame : (sys.failed e).cell.consecutiveFailures = sys.cell.consecutiveFailures := rfl
  omega

/-- A builder with a redacted cache, of which nothing has said what is secret. -/
def undeclared : CacheSpec where
  cache := some ("last.json", .redacted)

theorem untold_undeclared : ∃ sys : System Nat Nat,
    run (step undeclared) new [.init 0 (working 1)] = some sys ∧ ¬sys.Truthful :=
  ⟨_, rfl, untold_of_refused rfl truthful_new (by decide) 0 (working 1)⟩

end System

end DynamicConfig.Counters
