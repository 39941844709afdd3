import DynamicConfig.Cache.LastGood
import DynamicConfig.Server.Config

/-!
# The served sections

A section holds the document it last resolved, with the operator's view of how the loads have gone.
The server is the map of its sections, the callers, and how many change streams are open.

A request reads a section once, so a section here is what one reading finds of it.
-/

namespace DynamicConfig.Server

open Lifecycle (ReloadReason)

/-- A resolved section, as JSON. -/
abbrev Document := Value

/-- A reload that did not install anything. -/
structure FailureStatus where
  at_ : Nat
  kind : ErrorKind
  path : String

/-- What is true of a configuration right now. Instants are nanoseconds of the monotonic clock. -/
structure ConfigStatus where
  generation : Nat
  loadedAt : Option Nat
  lastReason : Option ReloadReason
  lastFailure : Option FailureStatus
  consecutiveFailures : Nat
  /-- It is a `u64`. -/
  generation_lt : generation < 2 ^ 64 := by decide

/-- The monotonic clock, and how a duration is rendered. -/
structure Clock where
  now : Nat
  /-- `Duration::as_secs_f64`, of nanoseconds. -/
  asSecsF64 : Nat → UInt64

namespace ConfigStatus

def isHealthy (status : ConfigStatus) : Bool := status.consecutiveFailures == 0

/-- How long ago the serving snapshot was installed. -/
def staleFor (clock : Clock) (status : ConfigStatus) : Option Nat :=
  status.loadedAt.map fun at_ ↦ clock.now - at_

end ConfigStatus

/-- One served application-and-profile pair. -/
structure Section where
  application : String
  profile : String
  /-- The document currently serving. -/
  current : Option Document
  status : ConfigStatus
  /-- What a new `Changes` handle has seen: the counter of changes. -/
  notified : Nat

namespace Section

def generation (served : Section) : Nat := served.status.generation

/-- The serving document together with a generation. -/
def installed (served : Section) : Option (Nat × Document) :=
  served.current.map fun document ↦ (served.generation, document)

/-- Whether the section has a document, and the last reload installed one. -/
def isReady (served : Section) : Bool := served.current.isSome && served.status.isHealthy

end Section

/-- Everything the HTTP layer serves from. -/
structure Server where
  sections : List ((String × String) × Section)
  authenticator : Authenticator
  /-- The ceiling on open change streams. -/
  maxStreams : Nat
  /-- How many are open. -/
  streams : Nat

namespace Server

/-- The section serving `application` at `profile`, if one does. -/
def served (server : Server) (application profile : String) : Option Section :=
  server.sections.lookup (application, profile)

def streamsEnabled (server : Server) : Bool := decide (0 < server.maxStreams)

/-- A place in the change-stream ceiling, if there is one free. -/
def openStream (server : Server) : Option Server :=
  if server.maxStreams ≤ server.streams then none
  else some { server with streams := server.streams + 1 }

end Server

/-- A server that has been started: from a configuration that validates, whatever its sections have
come to since. -/
structure Started (build : Build) (config : ServerConfig) (server : Server) : Prop where
  valid : config.validate build = .ok ()
  authenticator : server.authenticator = config.authenticator
  maxStreams : server.maxStreams = config.maxStreamConnections
  sections : server.sections.map Prod.fst = config.sections.map fun s ↦ (s.application, s.profile)
  /-- A section answers to the path it is found at. -/
  named : ∀ e ∈ server.sections, (e.2.application, e.2.profile) = e.1

/-! ### Requests -/

/-- The headers of a request: lower-case names with the bytes of each value, in order. -/
structure HeaderMap where
  entries : List (String × List UInt8)
  deriving DecidableEq, Repr

namespace HeaderMap

/-- The first value under a name. -/
def get (headers : HeaderMap) (name : String) : Option (List UInt8) := headers.entries.lookup name

/-- The values under a name. -/
def getAll (headers : HeaderMap) (name : String) : List (List UInt8) :=
  (headers.entries.filter fun e ↦ e.1 == name).map Prod.snd

/-- The first value is one of them. -/
theorem mem_getAll_of_get {headers : HeaderMap} {name : String} {value : List UInt8}
    (h : headers.get name = some value) : value ∈ headers.getAll name := by
  obtain ⟨before, after, hentries, -⟩ := List.lookup_eq_some_iff.1 h
  refine List.mem_map.2 ⟨(name, value), List.mem_filter.2 ⟨?_, beq_self_eq_true name⟩, rfl⟩
  rw [hentries]
  exact List.mem_append_right _ List.mem_cons_self

end HeaderMap

/-- `HeaderValue::to_str`: visible ASCII and tabs, or nothing. -/
def toStr (value : List UInt8) : Option String :=
  if value.all fun b ↦ b == 9 || decide (32 ≤ b ∧ b < 127) then
    some (String.ofList (value.map fun b ↦ Char.ofNat b.toNat))
  else none

end DynamicConfig.Server
