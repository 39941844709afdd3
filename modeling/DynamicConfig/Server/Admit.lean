import DynamicConfig.Server.Stream

/-!
# Admission

Who may ask, and every way the server says no. A request is admitted to a section by the caller's
grants alone: the map of sections is looked at only for an application the caller is granted, so that
"not yours" and "no such thing" are one answer.

Every answer leaves one line in the audit log, which is part of the answer here.

The caller is whoever the `Authorization` header authenticates. The header is read as text first, and
one that is not text is taken for a header that is not there: such a request is anonymous where the
server has an anonymous client, and admitted where that one is (`neverAnonymous_iff`).
-/

namespace DynamicConfig.Server

/-! ### Answers -/

/-- How a request ended, for the audit log. -/
inductive Outcome where
  | served | unauthenticated | notFound | malformed | unavailable
  deriving DecidableEq, Repr

/-- One line of the audit log. -/
structure AuditEntry where
  caller : Option String
  application : Option String
  profile : Option String
  endpoint : String
  outcome : Outcome
  generation : Option Nat
  deriving DecidableEq, Repr

/-- What a response carries: one JSON document, or a stream of events. -/
inductive Body where
  | json (value : Value)
  | events (stream : Generations)

structure Response where
  status : Nat
  headers : List (String × String) := []
  body : Body

/-- A response, and the line it leaves in the audit log. -/
structure Answer where
  response : Response
  audit : AuditEntry

/-- `json!({ "error": … })`. -/
def errorBody (error : String) : Body := .json (.table [("error", .scalar (.string error))])

def unauthenticated : Response where
  status := 401
  headers := [("www-authenticate", "Bearer")]
  body := errorBody "unauthenticated"

/-- The single refusal body. -/
def notFound : Response where
  status := 404
  body := errorBody "not_found"

/-- A request that ends here, with what its audit line names. -/
def refuse (endpoint : String) (outcome : Outcome) (caller : Option String)
    (place : Option (String × String)) : Answer where
  response := if outcome = .unauthenticated then unauthenticated else notFound
  audit := {
    caller, endpoint, outcome
    application := place.map Prod.fst
    profile := place.map Prod.snd
    generation := none }

/-! ### Admission -/

structure Admitted where
  principal : Principal
  section_ : Section
  endpoint : String

/-- The `Authorization` header, where it is text. -/
def authorization (headers : HeaderMap) : Option String := (headers.get "authorization").bind toStr

/-- `admit`. -/
def admission (server : Server) (headers : HeaderMap) (application profile endpoint : String) :
    Except Answer Admitted :=
  match server.authenticator.authenticate (authorization headers) with
  | none => .error (refuse endpoint .unauthenticated none none)
  | some principal =>
    if !isName application || !isName profile then
      .error (refuse endpoint .malformed (some principal.name) none)
    else if !principal.mayRead application then
      .error (refuse endpoint .notFound (some principal.name) (some (application, profile)))
    else
      match server.served application profile with
      | none => .error (refuse endpoint .notFound (some principal.name) (some (application, profile)))
      | some section_ => .ok { principal, section_, endpoint }

/-- What the audit log says of an admitted request. -/
def Admitted.audit (admitted : Admitted) (outcome : Outcome) (generation : Option Nat) : AuditEntry where
  caller := some admitted.principal.name
  application := some admitted.section_.application
  profile := some admitted.section_.profile
  endpoint := admitted.endpoint
  outcome := outcome
  generation := generation

/-- A section that has no document. -/
def unready (admitted : Admitted) : Answer where
  response := { status := 503, body := errorBody "unavailable" }
  audit := admitted.audit .unavailable none

/-- Every change stream the process will hold is held. -/
def atCapacity (admitted : Admitted) : Answer where
  response := { status := 503, headers := [("retry-after", "5")], body := errorBody "unavailable" }
  audit := admitted.audit .unavailable none

/-! ### Who is admitted -/

section Admission

variable {server : Server} {headers : HeaderMap} {application profile endpoint : String}

/-- A path whose section the principal may be shown. -/
structure Open (server : Server) (principal : Principal) (application profile : String) : Prop where
  named : isName application = true ∧ isName profile = true
  granted : principal.mayRead application = true
  served : (server.served application profile).isSome = true

/-- **An admitted request is one of a caller that may read what is served there.** -/
theorem admission_eq_ok_iff {admitted : Admitted} :
    admission server headers application profile endpoint = .ok admitted ↔
      server.authenticator.authenticate (authorization headers) = some admitted.principal ∧
        Open server admitted.principal application profile ∧
          server.served application profile = some admitted.section_ ∧
            admitted.endpoint = endpoint := by
  rw [admission]
  rcases server.authenticator.authenticate (authorization headers) with - | principal
  · exact ⟨fun h ↦ (by cases h), fun h ↦ (by cases h.1)⟩
  · show (if (!isName application || !isName profile) = true then _ else _) = _ ↔ _
    rw [← Bool.not_and]
    rcases hnamed : isName application && isName profile with - | -
    · refine ⟨fun h ↦ (by cases h), fun h ↦ ?_⟩
      rw [h.2.1.named.1, h.2.1.named.2] at hnamed
      cases hnamed
    · rcases hgranted : principal.mayRead application with - | -
      · refine ⟨fun h ↦ (by cases h), fun h ↦ ?_⟩
        rw [Option.some.inj h.1, h.2.1.granted] at hgranted
        cases hgranted
      · rcases hserved : server.served application profile with - | section_
        · exact ⟨fun h ↦ (by cases h), fun h ↦ (by cases h.2.2.1)⟩
        · show Except.ok _ = Except.ok admitted ↔ _
          rw [Except.ok.injEq]
          constructor
          · rintro rfl
            exact ⟨rfl, ⟨Bool.and_eq_true_iff.1 hnamed, hgranted, by rw [hserved]; rfl⟩, rfl, rfl⟩
          · rintro ⟨hprincipal, -, hsection, rfl⟩
            rw [Option.some.inj hprincipal, Option.some.inj hsection]

/-- A token that the request presents. -/
def Presents (headers : HeaderMap) (token : Token) : Prop :=
  ∃ value ∈ headers.getAll "authorization", ∃ text, toStr value = some text ∧
    bearer text = some token.text

/-- Whoever is admitted is a client whose token the request presents, and not the anonymous one. -/
def NeverAnonymous (config : ServerConfig) (server : Server) (headers : HeaderMap)
    (application profile endpoint : String) : Prop :=
  ∀ admitted, admission server headers application profile endpoint = .ok admitted →
    server.authenticator.anonymous ≠ some admitted.principal ∧
      ∃ client ∈ config.clients, client.principal = admitted.principal ∧
        ∃ token, client.token = some token ∧ Presents headers token

/-- **A request is anonymous exactly where its first `Authorization` header is not text, or not there,
and the anonymous client may be shown what it asks for.** -/
theorem neverAnonymous_iff (build : Build) {config : ServerConfig} {server : Server}
    (hstarted : Started build config server) (headers : HeaderMap)
    (application profile endpoint : String) :
    NeverAnonymous config server headers application profile endpoint ↔
      (∃ text, authorization headers = some text) ∨
        ∀ principal, server.authenticator.anonymous = some principal →
          ¬ Open server principal application profile := by
  have haccepted := accepted_of_validate hstarted.valid
  constructor
  · intro hnever
    rcases htext : authorization headers with - | text
    · refine Or.inr fun principal hanonymous hopen ↦ ?_
      obtain ⟨section_, hserved⟩ := Option.isSome_iff_exists.1 hopen.served
      have hadmitted : admission server headers application profile endpoint =
          .ok ⟨principal, section_, endpoint⟩ := by
        refine admission_eq_ok_iff.2 ⟨?_, hopen, hserved, rfl⟩
        rw [htext]
        exact hanonymous
      exact (hnever _ hadmitted).1 hanonymous
    · exact Or.inl ⟨text, rfl⟩
  · intro hcondition admitted hadmitted
    obtain ⟨hprincipal, hopen, -, -⟩ := admission_eq_ok_iff.1 hadmitted
    rcases htext : authorization headers with - | text
    · rw [htext] at hprincipal
      rcases hcondition with ⟨text, hsome⟩ | hclosed
      · rw [htext] at hsome
        cases hsome
      · exact absurd hopen (hclosed _ hprincipal)
    · rw [htext] at hprincipal
      obtain ⟨token, hmem, hbearer⟩ := Authenticator.authenticate_some hprincipal
      rw [hstarted.authenticator] at hmem ⊢
      obtain ⟨client, hclient, htoken, hsame⟩ := ServerConfig.mem_clients_authenticator.1 hmem
      obtain ⟨value, hvalue, hstr⟩ := Option.bind_eq_some_iff.1 htext
      refine ⟨fun hanonymous ↦ ?_, client, hclient, hsame, token, htoken, value,
        HeaderMap.mem_getAll_of_get hvalue, text, hstr, hbearer⟩
      -- The anonymous client would be this one, which has a token.
      obtain ⟨other, hother, hnone, hprincipal'⟩ := ServerConfig.exists_of_anonymous hanonymous
      obtain rfl := ServerConfig.eq_of_principal haccepted hclient hother (hprincipal'.trans hsame.symm)
      rw [htoken] at hnone
      cases hnone

end Admission

/-- A section that has installed one document. -/
def demoSection (application : String) (document : Document) : Section where
  application := application
  profile := "prod"
  current := some document
  status := {
    generation := 1
    loadedAt := some 0
    lastReason := some .initial
    lastFailure := none
    consecutiveFailures := 0 }
  notified := 1

/-- A client that may read `billing`, and an anonymous one that may read `demo`. -/
def demoConfig : ServerConfig where
  allowAnonymous := true
  sections := [{ application := "demo", profile := "prod", files := ["demo.toml"] },
    { application := "billing", profile := "prod", files := ["billing.toml"] }]
  clients := [
    { name := "billing-pod"
      token := some ⟨"0123456789abcdef0123456789abcdef"⟩
      applications := ["billing"] },
    { name := "anonymous", applications := ["demo"] }]

def demoServer : Server where
  sections := [(("demo", "prod"), demoSection "demo" (.table [])),
    (("billing", "prod"), demoSection "billing" (.table []))]
  authenticator := demoConfig.authenticator
  maxStreams := 4096
  streams := 0

theorem started_demoServer : Started plainBuild demoConfig demoServer where
  valid := by decide +kernel
  authenticator := rfl
  maxStreams := rfl
  sections := rfl
  named e he := by
    rcases List.mem_cons.1 he with rfl | he
    · rfl
    · obtain rfl := List.mem_singleton.1 he
      rfl

/-- A request with one `Authorization` header. -/
def withAuthorization (value : List UInt8) : HeaderMap := ⟨[("authorization", value)]⟩

/-- A caller that presents its token is nobody else. -/
theorem neverAnonymous_of_demoServer : NeverAnonymous demoConfig demoServer
    (withAuthorization (asBytes "Bearer 0123456789abcdef0123456789abcdef")) "billing" "prod" "document" :=
  (neverAnonymous_iff plainBuild started_demoServer _ _ _ _).2
    (Or.inl ⟨"Bearer 0123456789abcdef0123456789abcdef", by decide +kernel⟩)

/-- **A token with one byte that is not ASCII is served as the anonymous client.** -/
theorem not_neverAnonymous : ¬ ∀ (build : Build) (config : ServerConfig) (server : Server),
    Started build config server → ∀ headers : HeaderMap, headers.getAll "authorization" ≠ [] →
      ∀ application profile endpoint,
        NeverAnonymous config server headers application profile endpoint := by
  intro hall
  have hnever := hall plainBuild demoConfig demoServer started_demoServer
    (withAuthorization (asBytes "Bearer " ++ [255])) (by decide) "demo" "prod" "document"
  have hunread : authorization (withAuthorization (asBytes "Bearer " ++ [255])) = none := by
    decide +kernel
  have hadmitted : admission demoServer (withAuthorization (asBytes "Bearer " ++ [255])) "demo" "prod"
      "document" = .ok ⟨⟨"anonymous", ["demo"]⟩, demoSection "demo" (.table []), "document"⟩ := by
    refine admission_eq_ok_iff.2 ⟨?_, ⟨by decide +kernel, by decide, rfl⟩, rfl, rfl⟩
    rw [hunread]
    rfl
  exact (hnever _ hadmitted).1 rfl

end DynamicConfig.Server
