import DynamicConfig.Server.Admit

/-!
# The endpoints of a section

The document, the paths in it, the status, and the change stream. Each admits the request first and
answers from the section it was admitted to; of the rest of the server only the ceiling on open
streams is looked at, by the stream, and after admission.

So two servers that agree on the callers and on what a caller is granted answer that caller alike,
whatever else they serve (`respond_eq`).
-/

namespace DynamicConfig.Server

open Lifecycle (ReloadReason)

/-! ### What is rendered -/

/-- `ReloadReason::as_str`. -/
def reasonAsStr : ReloadReason → String
  | .initial => "initial"
  | .fileChanged _ => "file-changed"
  | .remoteChanged => "remote-changed"
  | .manual => "manual"
  | .recovered => "recovered"

/-- `ErrorKind::as_str`. -/
def kindAsStr : ErrorKind → String
  | .io => "io"
  | .parse => "parse"
  | .missing => "missing"
  | .type => "type"
  | .env => "env"
  | .invalid => "invalid"
  | .remote => "remote"
  | .auth => "auth"
  | .decrypt => "decrypt"
  | .backend => "backend"

def string (text : String) : Value := .scalar (.string text)

/-- What is not there is `null`. -/
def nullable (value : Option Value) : Value := value.getD (.scalar .empty)

mutual

/-- The dotted paths of the leaves of a value that sits at a path. An array is a leaf, and so is an
empty table. -/
def collect (path : String) : Value → List String
  | .table (e :: es) => collectIn path (e :: es)
  | .table [] | .array _ | .scalar _ => [path]

/-- The leaves of the entries of a table that sits at a path. -/
def collectIn (path : String) : List (String × Value) → List String
  | [] => []
  | (key, nested) :: es => collect (path ++ "." ++ key) nested ++ collectIn path es

end

/-- The dotted path of every leaf, in order. -/
def leafPaths : Document → List String
  | .table entries => entries.flatMap fun e ↦ collect e.1 e.2
  | .array _ | .scalar _ => []

example : leafPaths (.table [("", string "a"), ("pool", .table [("", string "b")])]) = ["", "pool."] := by
  decide

/-! ### The handlers -/

/-- A response that carries what is asked for. -/
def ok (body : Body) : Response := { status := 200, body }

/-- `DocumentBody`. -/
def documentBody (served : Section) (generation : Nat) (document : Document) : Value :=
  .table [("application", string served.application), ("profile", string served.profile),
    ("generation", .scalar (.int generation)), ("config", document)]

/-- The resolved document. -/
def document (server : Server) (headers : HeaderMap) (application profile : String) : Answer :=
  match admission server headers application profile "document" with
  | .error answer => answer
  | .ok admitted =>
    match admitted.section_.installed with
    | none => unready admitted
    | some (generation, document) =>
      { response := ok (.json (documentBody admitted.section_ generation document))
        audit := admitted.audit .served (some generation) }

/-- `PathsBody`. -/
def pathsBody (served : Section) (generation : Nat) (document : Document) : Value :=
  .table [("application", string served.application), ("profile", string served.profile),
    ("generation", .scalar (.int generation)), ("paths", .array ((leafPaths document).map string))]

/-- Which keys exist, without what is at them. -/
def paths (server : Server) (headers : HeaderMap) (application profile : String) : Answer :=
  match admission server headers application profile "paths" with
  | .error answer => answer
  | .ok admitted =>
    match admitted.section_.installed with
    | none => unready admitted
    | some (generation, document) =>
      { response := ok (.json (pathsBody admitted.section_ generation document))
        audit := admitted.audit .served (some generation) }

/-- `FailureBody`. -/
def failureBody (clock : Clock) (failure : FailureStatus) : Value :=
  .table [("kind", string (kindAsStr failure.kind)), ("path", string failure.path),
    ("seconds_ago", .scalar (.float (clock.asSecsF64 (clock.now - failure.at_))))]

/-- `StatusBody`. -/
def statusBody (clock : Clock) (served : Section) : Value :=
  let status := served.status
  .table [("application", string served.application), ("profile", string served.profile),
    ("generation", .scalar (.int status.generation)), ("ready", .scalar (.bool served.isReady)),
    ("healthy", .scalar (.bool status.isHealthy)),
    ("consecutive_failures", .scalar (.int status.consecutiveFailures)),
    ("stale_for_seconds", nullable ((status.staleFor clock).map fun elapsed ↦
      .scalar (.float (clock.asSecsF64 elapsed)))),
    ("last_reason", nullable (status.lastReason.map fun reason ↦ string (reasonAsStr reason))),
    ("last_failure", nullable (status.lastFailure.map (failureBody clock)))]

/-- How the loads of the section have gone. -/
def status (clock : Clock) (server : Server) (headers : HeaderMap) (application profile : String) :
    Answer :=
  match admission server headers application profile "status" with
  | .error answer => answer
  | .ok admitted =>
    { response := ok (.json (statusBody clock admitted.section_))
      audit := admitted.audit .served (some admitted.section_.status.generation) }

/-- The change stream, and the server with a place in the ceiling taken. -/
def stream (server : Server) (headers : HeaderMap) (application profile : String) : Answer × Server :=
  match admission server headers application profile "stream" with
  | .error answer => (answer, server)
  | .ok admitted =>
    if !server.streamsEnabled then
      (refuse "stream" .notFound (some admitted.principal.name)
        (some (admitted.section_.application, admitted.section_.profile)), server)
    else
      match server.openStream with
      | none => (atCapacity admitted, server)
      | some opened =>
        ({ response :=
            { status := 200
              headers := [("content-type", "text/event-stream"), ("cache-control", "no-cache")]
              body := .events
                { application := admitted.section_.application
                  profile := admitted.section_.profile
                  changes := admitted.section_.notified
                  resume := lastEventId headers
                  sent := none } }
           audit := admitted.audit .served (some admitted.section_.generation) }, opened)

/-! ### What a caller can tell -/

/-- The endpoints of a section. -/
inductive Endpoint where
  | document | paths | status | stream
  deriving DecidableEq, Repr

/-- The answer to a request. -/
def respond (clock : Clock) (server : Server) (headers : HeaderMap) (application profile : String) :
    Endpoint → Answer
  | .document => document server headers application profile
  | .paths => paths server headers application profile
  | .status => status clock server headers application profile
  | .stream => (stream server headers application profile).1

/-- Two servers a caller is to find alike: they agree on every section of an application it is granted,
and on the change streams of the process. -/
structure AgreeFor (principal : Principal) (server server' : Server) : Prop where
  served : ∀ application profile, principal.mayRead application = true →
    server.served application profile = server'.served application profile
  maxStreams : server.maxStreams = server'.maxStreams
  streams : server.streams = server'.streams

/-- Admission is decided by the caller's grants, and by what is served of them. -/
theorem admission_eq {server server' : Server} {headers : HeaderMap} {principal : Principal}
    (hcallers : server.authenticator = server'.authenticator)
    (hprincipal : server.authenticator.authenticate (authorization headers) = some principal)
    (hagree : AgreeFor principal server server') (application profile endpoint : String) :
    admission server headers application profile endpoint =
      admission server' headers application profile endpoint := by
  have hprincipal' := hcallers ▸ hprincipal
  rw [admission, admission, hprincipal, hprincipal']
  show (if (!isName application || !isName profile) = true then _ else _) =
    if (!isName application || !isName profile) = true then _ else _
  split
  · rfl
  · show (if (!principal.mayRead application) = true then _ else _) =
      if (!principal.mayRead application) = true then _ else _
    split
    · rfl
    · next hgranted =>
      rw [Bool.not_eq_true', Bool.not_eq_false] at hgranted
      rw [hagree.served application profile hgranted]

/-- **The server is no oracle.** Two started servers with the same clients, which agree on the sections
of the applications a caller is granted, answer every request of the caller alike. -/
theorem respond_eq (build build' : Build) {config config' : ServerConfig} {server server' : Server}
    (hstarted : Started build config server) (hstarted' : Started build' config' server')
    (hclients : config.clients = config'.clients) (headers : HeaderMap) (principal : Principal)
    (hprincipal : server.authenticator.authenticate (authorization headers) = some principal)
    (hagree : AgreeFor principal server server') (clock : Clock) (application profile : String)
    (endpoint : Endpoint) :
    respond clock server headers application profile endpoint =
      respond clock server' headers application profile endpoint := by
  have hcallers : server.authenticator = server'.authenticator := by
    rw [hstarted.authenticator, hstarted'.authenticator, ServerConfig.authenticator,
      ServerConfig.authenticator, hclients]
  have hadmission := admission_eq hcallers hprincipal hagree application profile
  rcases endpoint with - | - | - | -
  · rw [respond, respond, document, document, hadmission]
  · rw [respond, respond, paths, paths, hadmission]
  · rw [respond, respond, status, status, hadmission]
  · rw [respond, respond, stream, stream, hadmission]
    rcases admission server' headers application profile "stream" with answer | admitted
    · rfl
    · have henabled : server.streamsEnabled = server'.streamsEnabled := by
        rw [Server.streamsEnabled, Server.streamsEnabled, hagree.maxStreams]
      show (if (!server.streamsEnabled) = true then _ else _ : Answer × Server).1 =
        (if (!server'.streamsEnabled) = true then _ else _ : Answer × Server).1
      rw [henabled]
      split
      · rfl
      · rw [Server.openStream, Server.openStream, hagree.maxStreams, hagree.streams]
        by_cases hfull : server'.maxStreams ≤ server'.streams
        · rw [if_pos hfull, if_pos hfull]
        · rw [if_neg hfull, if_neg hfull]

/-- The demonstration server, with nothing in its `billing` section. -/
def unloadedServer : Server :=
  { demoServer with
    sections := [(("demo", "prod"), demoSection "demo" (.table [])),
      (("billing", "prod"),
        { demoSection "billing" (.table []) with
          current := none
          status := {
            generation := 0
            loadedAt := none
            lastReason := none
            lastFailure := none
            consecutiveFailures := 3 } })] }

theorem started_unloadedServer : Started plainBuild demoConfig unloadedServer where
  valid := started_demoServer.valid
  authenticator := rfl
  maxStreams := rfl
  sections := rfl
  named e he := by
    rcases List.mem_cons.1 he with rfl | he
    · rfl
    · obtain rfl := List.mem_singleton.1 he
      rfl

/-- The anonymous client, granted `demo`, cannot tell whether `billing` has loaded. -/
theorem respond_eq_anonymous :
    respond ⟨0, fun _ ↦ 0⟩ demoServer ⟨[]⟩ "billing" "prod" .status =
      respond ⟨0, fun _ ↦ 0⟩ unloadedServer ⟨[]⟩ "billing" "prod" .status := by
  refine respond_eq plainBuild plainBuild started_demoServer started_unloadedServer rfl ⟨[]⟩
    ⟨"anonymous", ["demo"]⟩ rfl ⟨fun application profile hgranted ↦ ?_, rfl, rfl⟩ _ _ _ .status
  have hdemo : ("demo" == application) = true := by simpa [Principal.mayRead] using hgranted
  obtain rfl := beq_iff_eq.1 hdemo
  have hother : (("demo", profile) == ("billing", "prod")) = false := rfl
  simp only [Server.served, demoServer, unloadedServer, List.lookup, hother]

end DynamicConfig.Server
