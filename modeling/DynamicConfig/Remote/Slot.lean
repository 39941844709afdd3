import Mathlib
import DynamicConfig.Config.Value

/-!
# The remote slot

The state behind the one lock of a remote slot, and everything that is done to it under that lock:
installing a source, clearing the document, taking a fence before a fetch, committing what the fetch
brought, recording how it went, and accepting a delivery from a sink. Nothing else touches the state,
so an interleaving of any number of callers is a sequence of these.

Two counters fence what arrives late. `generation` is moved by replacing the source and `cleared` by
dropping the document, each by one and modulo the width of a machine word. A fetch is fenced on both,
a sink on the first.

The document is of an arbitrary type, and so is the source: nothing here looks inside either.
-/

namespace DynamicConfig.Remote

/-- The number of values of a `u64`. -/
def word : Nat := 2 ^ 64

/-- `u64::wrapping_add(1)`. -/
def wrappingSucc (n : Nat) : Nat := (n + 1) % word

/-- `saturating_add(1)`, at the largest value of the type. -/
def saturatingSucc (max n : Nat) : Nat := min (n + 1) max

/-- `FailureStatus`: a failure's category and key path, and nothing else of it. -/
structure FailureStatus where
  at_ : Nat
  kind : ErrorKind
  path : String
  deriving DecidableEq, Repr

/-- `FailureStatus::of`, at a moment. -/
def FailureStatus.of (now : Nat) (error : Error) : FailureStatus :=
  { at_ := now, kind := error.kind, path := joined error.path }

/-- How the fetches of a slot have gone. -/
structure RemoteStatus where
  fetches : Nat
  lastFetch : Option Nat
  lastFetchDuration : Option Nat
  lastFailure : Option FailureStatus
  consecutiveFailures : Nat
  deriving DecidableEq, Repr

namespace RemoteStatus

/-- A status with nothing recorded yet. -/
def empty : RemoteStatus := ⟨0, none, none, none, 0⟩

/-- A document arrived: after a pull of some duration, or by push. -/
def arrived (status : RemoteStatus) (elapsed : Option Nat) (now : Nat) : RemoteStatus :=
  { status with
    fetches := saturatingSucc (word - 1) status.fetches
    lastFetch := some now
    lastFetchDuration := elapsed
    consecutiveFailures := 0 }

/-- An attempt came back with nothing. -/
def missed (status : RemoteStatus) (failure : FailureStatus) : RemoteStatus :=
  { status with
    consecutiveFailures := saturatingSucc (2 ^ 32 - 1) status.consecutiveFailures
    lastFailure := some failure }

end RemoteStatus

/-- A source, and how it is asked. -/
inductive Kind (S : Type) where
  | blocking (source : S)
  | asynchronous (source : S)
  deriving DecidableEq, Repr

/-- The source itself. -/
def Kind.source {S : Type} : Kind S → S
  | blocking s | asynchronous s => s

/-- What the lock guards. -/
structure State (S D : Type) where
  source : Option (Kind S)
  fetched : Option D
  /-- Source identity: moved by every change of the source. -/
  generation : Nat
  /-- Moved by `clear`, and by nothing else. -/
  cleared : Nat
  status : RemoteStatus

/-- The state a fetch started under. -/
structure Fence where
  generation : Nat
  cleared : Nat
  deriving DecidableEq, Repr

section Operations

variable {S D : Type}

/-- `Fence::of`. -/
def Fence.of (state : State S D) : Fence := ⟨state.generation, state.cleared⟩

namespace State

/-- `Remote::new`. -/
def new : State S D := ⟨none, none, 0, 0, RemoteStatus.empty⟩

/-- `set` and `set_async`: install a source; document and status go with the old one. -/
def set (source : Kind S) (state : State S D) : State S D :=
  { state with
    source := some source
    fetched := none
    status := RemoteStatus.empty
    generation := wrappingSucc state.generation }

/-- `clear`: drop the document. -/
def clear (state : State S D) : State S D :=
  { state with fetched := none, cleared := wrappingSucc state.cleared }

/-- The first locked block of `refresh` and, where `awaited`, of `refresh_async`: the source to ask
and the fence to commit under. -/
def capture (describe : S → String) (awaited : Bool) (state : State S D) :
    Except Error (Kind S × Fence) :=
  match state.source with
  | some (.asynchronous source) =>
    if awaited then .ok (.asynchronous source, Fence.of state)
    else .error
      { kind := .remote
        message := "`" ++ describe source ++
          "` is an async source; refresh it with `refresh_remote_async`" }
  | some (.blocking source) => .ok (.blocking source, Fence.of state)
  | none => .error
    { kind := .remote, message := "no remote source is installed; call `set_remote` first" }

/-- Stores a fetch result, unless the slot moved while it was in flight. -/
def commit (fetched : D) (fence : Fence) (state : State S D) : State S D :=
  if Fence.of state = fence then { state with fetched := some fetched } else state

/-- Records a fetch that returned a document. -/
def recordFetch (elapsed : Option Nat) (generation now : Nat) (state : State S D) : State S D :=
  if state.generation ≠ generation then state
  else { state with status := state.status.arrived elapsed now }

/-- Records a fetch that returned nothing. -/
def recordFetchFailure (error : Error) (generation now : Nat) (state : State S D) : State S D :=
  if state.generation ≠ generation then state
  else { state with status := state.status.missed (FailureStatus.of now error) }

/-- Installs a document if the source it came from is still the one installed. -/
def installIf (generation : Nat) (document : D) (now : Nat) (state : State S D) :
    Except Error (State S D) :=
  if state.generation ≠ generation then
    .error
      { kind := .backend
        message := "the remote source this sink was created for has been replaced; stop the old " ++
          "watch loop and take a fresh sink from `remote_sink()`" }
  else .ok
    { state with fetched := some document, status := state.status.arrived none now }

end State

end Operations

end DynamicConfig.Remote
