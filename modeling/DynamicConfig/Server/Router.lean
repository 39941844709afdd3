import DynamicConfig.Check.Report
import DynamicConfig.Server.Document
import DynamicConfig.Telemetry.Scrape

/-!
# The HTTP surface

Every path the server answers: liveness and readiness, a scrape of the metrics, and the endpoints of a
section. Two of these re-read the section's sources, `check` and `explain`, and every value they come
across is left out or replaced.

The surface is no oracle: what a caller is not granted does not show in any answer but in the one bit
`readyz` tells everyone (`serve_eq`). A scrape is read to the samples of what its caller is granted, of all
of it and of nothing else (`metrics_reads`). And a value leaves the process through one endpoint, the
document's: two sites that differ in configured values only answer every other request alike
(`serve_eq_of_veil`).
-/

namespace DynamicConfig.Server

/-! ### What is served from -/

/-- A section's sources, as the files and the environment are at one moment. -/
structure Sources where
  host : Host
  spec : LoadSpec

/-- A server, with what its sections would be loaded from; or the error of a worker that ended without an
answer. -/
structure Site where
  server : Server
  sources : String → String → Except Error Sources

/-- What the libraries bring along. -/
structure Libraries where
  clock : Telemetry.Clock
  showFloat : UInt64 → String
  /-- What is said of an integer that is no JSON number. -/
  refused : Int → FigmentError
  /-- A segment of a path, percent-decoded, where that is UTF-8. -/
  decode : String → Option String
  /-- What is said of a parameter that is not. -/
  rejected : String → List Char

/-- What a page carries. -/
inductive Content where
  | body (body : Body)
  | text (text : List Char)

/-- What a request is answered with, and the line it leaves in the audit log, if it leaves one. -/
structure Page where
  status : Nat
  headers : List (String × String) := []
  content : Content
  audit : Option AuditEntry := none

def Response.page (response : Response) : Page where
  status := response.status
  headers := response.headers
  content := .body response.body

def Answer.page (answer : Answer) : Page := { answer.response.page with audit := some answer.audit }

/-! ### Liveness and metrics -/

/-- The labels a section's metrics are under. -/
def Section.labels (served : Section) : Telemetry.Labels :=
  [("application".toList, served.application.toList), ("profile".toList, served.profile.toList)]

namespace Server

/-- Whether one place comes before another. -/
def before (a b : (String × String) × Section) : Bool := decide (toLex a.1 ≤ toLex b.1)

/-- Every served section, in the order of their places. -/
def inOrder (server : Server) : List Section := (server.sections.mergeSort before).map Prod.snd

/-- Whether every section is ready. -/
def isReady (server : Server) : Bool := server.inOrder.all Section.isReady

/-- What a principal's scrape is made of. -/
def scraped (server : Server) (principal : Principal) : List Telemetry.Call :=
  (server.inOrder.filter fun served ↦ principal.mayRead served.application).map fun served ↦
    .addWith served.labels served.status

end Server

def healthz : Response := { status := 200, body := .json (.table [("status", string "ok")]) }

def readyz (server : Server) : Response where
  status := if server.isReady then 200 else 503
  body := .json (.table [("ready", .scalar (.bool server.isReady))])

/-- One scrape, of the sections the caller may read. -/
def metrics (libraries : Libraries) (server : Server) (headers : HeaderMap) : Page :=
  match server.authenticator.authenticate (authorization headers) with
  | none => (refuse "metrics" .unauthenticated none none).page
  | some principal =>
    { status := 200
      headers := [("content-type", "text/plain; version=0.0.4; charset=utf-8")]
      content := .text ((Telemetry.Exposition.run (server.scraped principal)).render libraries.clock)
      audit := some {
        caller := some principal.name
        application := none
        profile := none
        endpoint := "metrics"
        outcome := .served
        generation := none } }

/-! ### Diagnostics -/

/-- A dotted key path: segments of letters, digits, `_` and `-`. -/
def isKeyPath (value : String) : Bool :=
  !decide (value = "") && decide ((asBytes value).length ≤ 256) &&
    (segments value).all fun part ↦
      !decide (part = "") && part.toList.all fun c ↦ c.isAlphanum || c == '_' || c == '-'

/-- A diagnostic whose sources could not be read at all. -/
def unavailable (admitted : Admitted) (error : Error) : Answer where
  response := {
    status := 500
    body := .json (.table [("error", string "unavailable"), ("kind", string (kindAsStr error.kind)),
      ("path", string (joined error.path))]) }
  audit := admitted.audit .unavailable none

/-- `CheckBody`. -/
def checkBody (served : Section) (report : Report) : Value :=
  .table [("application", string served.application), ("profile", string served.profile),
    ("clean", .scalar (.bool report.isClean)),
    ("resolved", .array (report.resolved.map fun row ↦
      .table [("path", string row.path), ("origin", string row.origin.display)])),
    ("unknown", .array (report.unknown.map fun row ↦
      .table [("path", string row.path), ("suggestion", nullable (row.suggestion.map string))])),
    ("failure", nullable (report.failure.map string))]

/-- `ExplainBody`. -/
def explainBody (served : Section) (path : String) (explanation : Explanation) : Value :=
  .table [("application", string served.application), ("profile", string served.profile),
    ("path", string path), ("winner", nullable (explanation.winner.map fun row ↦ string row.layer)),
    ("rows", .array (explanation.rows.map fun row ↦
      .table [("layer", string row.layer),
        ("origin", nullable (row.origin.map fun origin ↦ string origin.display)),
        ("value", nullable (row.value.map string))]))]

section Diagnostics

variable (Fig : Type) [Figment Fig] (libraries : Libraries) (site : Site)

/-- What a check of a section's sources says. -/
def reportOn (application profile : String) : Except Error Report := do
  let sources ← site.sources application profile
  DynamicConfig.check Fig sources.host sources.spec (readDocument libraries.refused) []

/-- Would the next load succeed, and where would each key come from. -/
def check (headers : HeaderMap) (application profile : String) : Answer :=
  match admission site.server headers application profile "check" with
  | .error answer => answer
  | .ok admitted =>
    match reportOn Fig libraries site application profile with
    | .error error => unavailable admitted error
    | .ok report =>
      { response := ok (.json (checkBody admitted.section_ report))
        audit := admitted.audit .served (some admitted.section_.generation) }

/-- Where a value comes from, without the value: every explanation is redacted. -/
def explanationOf (application profile path : String) : Except Error Explanation := do
  let sources ← site.sources application profile
  let explanation ← builderExplain Fig libraries.showFloat sources.host sources.spec none path
  .ok explanation.redacted

/-- Why a value is what it is, without saying what it is. -/
def explain (headers : HeaderMap) (application profile path : String) : Answer :=
  match admission site.server headers application profile "explain" with
  | .error answer => answer
  | .ok admitted =>
    -- Behind admission, so that a caller who is not let in learns nothing from the shape of a path.
    if !isKeyPath path then
      refuse "explain" .malformed (some admitted.principal.name)
        (some (admitted.section_.application, admitted.section_.profile))
    else
      match explanationOf Fig libraries site application profile path with
      | .error error => unavailable admitted error
      | .ok explanation =>
        { response := ok (.json (explainBody admitted.section_ path explanation))
          audit := admitted.audit .served (some admitted.section_.generation) }

end Diagnostics

/-! ### The router -/

/-- The routes, with what they capture of a path. -/
inductive Route where
  | healthz | readyz | metrics
  | ofSection (endpoint : Endpoint) (application profile : String)
  | check (application profile : String)
  | explain (application profile path : String)
  deriving DecidableEq, Repr

/-- The route of a path, whose segments are as they were sent. A parameter is never empty. -/
def route (path : List String) : Option Route :=
  if "" ∈ path then none
  else
    match path with
    | ["healthz"] => some .healthz
    | ["readyz"] => some .readyz
    | ["metrics"] => some .metrics
    | [application, profile] => some (.ofSection .document application profile)
    | [application, profile, "paths"] => some (.ofSection .paths application profile)
    | [application, profile, "check"] => some (.check application profile)
    | [application, profile, "status"] => some (.ofSection .status application profile)
    | [application, profile, "stream"] => some (.ofSection .stream application profile)
    | [application, profile, "explain", key] => some (.explain application profile key)
    | _ => none

section Router

variable (Fig : Type) [Figment Fig] (libraries : Libraries)

/-- A parameter that is no text. -/
def rejection (parameter : String) : Page where
  status := 400
  headers := [("content-type", "text/plain; charset=utf-8")]
  content := .text (libraries.rejected parameter)

/-- The section a path names, decoded. -/
def withSection (application profile : String) (handler : String → String → Page) : Page :=
  match libraries.decode application, libraries.decode profile with
  | none, _ => rejection libraries "application"
  | some _, none => rejection libraries "profile"
  | some application, some profile => handler application profile

/-- What a request for a path is answered with. -/
def serve (site : Site) (headers : HeaderMap) (path : List String) : Page :=
  match route path with
  | none => notFound.page
  | some .healthz => healthz.page
  | some .readyz => (readyz site.server).page
  | some .metrics => metrics libraries site.server headers
  | some (.ofSection endpoint application profile) =>
    withSection libraries application profile fun application profile ↦
      (respond libraries.clock.toClock site.server headers application profile endpoint).page
  | some (.check application profile) =>
    withSection libraries application profile fun application profile ↦
      (check Fig libraries site headers application profile).page
  | some (.explain application profile key) =>
    withSection libraries application profile fun application profile ↦
      match libraries.decode key with
      | none => rejection libraries "path"
      | some key => (explain Fig libraries site headers application profile key).page

end Router

/-! ### What a caller can tell -/

/-- A map is its pairs. -/
theorem lookup_eq_some_iff_mem {κ ν : Type} [BEq κ] [LawfulBEq κ] {es : List (κ × ν)}
    (h : (es.map Prod.fst).Nodup) {k : κ} {v : ν} : es.lookup k = some v ↔ (k, v) ∈ es := by
  induction es with
  | nil => exact ⟨fun h ↦ (by cases h), fun h ↦ absurd h List.not_mem_nil⟩
  | cons e es ih =>
    obtain ⟨l, w⟩ := e
    rw [List.map_cons, List.nodup_cons] at h
    rw [List.lookup_cons, List.mem_cons, Prod.mk.injEq]
    by_cases hkl : k = l
    · subst hkl
      rw [beq_self_eq_true]
      refine ⟨fun hv ↦ Or.inl ⟨rfl, (Option.some.inj hv).symm⟩, ?_⟩
      rintro (⟨-, rfl⟩ | hmem)
      · rfl
      · exact absurd (List.mem_map_of_mem hmem) h.1
    · rw [beq_false_of_ne hkl]
      refine (ih h.2).trans ⟨Or.inr, ?_⟩
      rintro (⟨hk, -⟩ | hmem)
      · exact absurd hk hkl
      · exact hmem

/-- A started server's sections are at different places. -/
theorem Started.nodup {build : Build} {config : ServerConfig} {server : Server}
    (hstarted : Started build config server) : (server.sections.map Prod.fst).Nodup := by
  rw [hstarted.sections]
  exact (accepted_of_validate hstarted.valid).sections

/-- The order of the places is strict. -/
theorem pairwise_sections {server : Server} (hnodup : (server.sections.map Prod.fst).Nodup) :
    (server.sections.mergeSort Server.before).Pairwise fun a b ↦ toLex a.1 < toLex b.1 := by
  have hsorted : (server.sections.mergeSort Server.before).Pairwise fun a b ↦
      Server.before a b = true :=
    List.pairwise_mergeSort
      (fun a b c hab hbc ↦ decide_eq_true ((of_decide_eq_true hab).trans (of_decide_eq_true hbc)))
      (fun a b ↦ by simpa [Server.before] using le_total (toLex a.1) (toLex b.1)) _
  have hkeys : ((server.sections.mergeSort Server.before).map Prod.fst).Nodup :=
    ((List.mergeSort_perm _ _).map Prod.fst).nodup_iff.2 hnodup
  refine (hsorted.and (List.pairwise_map.1 hkeys)).imp fun {a b} h ↦ ?_
  exact lt_of_le_of_ne (of_decide_eq_true h.1) fun heq ↦ h.2 (toLex_inj.1 heq)

theorem eq_of_route_readyz {path : List String} (h : route path = some .readyz) : path = ["readyz"] := by
  unfold route at h
  by_cases hempty : "" ∈ path
  · rw [if_pos hempty] at h
    cases h
  · rw [if_neg hempty] at h
    split at h
    case h_2 => rfl
    all_goals cases h

/-- What a stream is answered with goes by the number of them that are open, and their ceiling. -/
theorem streamed_eq {server server' : Server} (hceiling : server.maxStreams = server'.maxStreams)
    (hopen : server.streams = server'.streams) (off full : Answer) (streaming : Answer) :
    (if !server.streamsEnabled then (off, server)
      else match server.openStream with
        | none => (full, server)
        | some opened => (streaming, opened) : Answer × Server).1 =
      (if !server'.streamsEnabled then (off, server')
        else match server'.openStream with
          | none => (full, server')
          | some opened => (streaming, opened) : Answer × Server).1 := by
  have henabled : server.streamsEnabled = server'.streamsEnabled := by
    rw [Server.streamsEnabled, Server.streamsEnabled, hceiling]
  rw [henabled]
  split
  · rfl
  · rw [Server.openStream, Server.openStream, hceiling, hopen]
    by_cases hfull : server'.maxStreams ≤ server'.streams
    · rw [if_pos hfull, if_pos hfull]
    · rw [if_neg hfull, if_neg hfull]

section Oracle

variable {build build' : Build} {config config' : ServerConfig} {server server' : Server}
  {principal : Principal}

/-- What is granted is where it is named. -/
theorem mem_granted_iff (hstarted : Started build config server) {e : (String × String) × Section} :
    e ∈ server.sections ∧ principal.mayRead e.2.application = true ↔
      server.served e.1.1 e.1.2 = some e.2 ∧ principal.mayRead e.1.1 = true := by
  rw [Server.served, lookup_eq_some_iff_mem hstarted.nodup]
  refine and_congr_right fun he ↦ ?_
  have happlication : e.2.application = e.1.1 := congrArg Prod.fst (hstarted.named e he)
  rw [happlication]

/-- **A scrape is of what its caller is granted**, in one order. -/
theorem scraped_eq (hstarted : Started build config server) (hstarted' : Started build' config' server')
    (hagree : AgreeFor principal server server') : server.scraped principal = server'.scraped principal := by
  have hfiltered : ∀ server : Server, (server.inOrder.filter fun served ↦
      principal.mayRead served.application) = ((server.sections.mergeSort Server.before).filter fun e ↦
        principal.mayRead e.2.application).map Prod.snd := fun server ↦ List.filter_map
  have hmem : ∀ e, e ∈ (server.sections.mergeSort Server.before).filter (fun e ↦
      principal.mayRead e.2.application) ↔ e ∈ (server'.sections.mergeSort Server.before).filter fun e ↦
        principal.mayRead e.2.application := by
    intro e
    rw [List.mem_filter, List.mem_filter, List.mem_mergeSort, List.mem_mergeSort, mem_granted_iff hstarted,
      mem_granted_iff hstarted']
    exact and_congr_left fun hgranted ↦ by rw [hagree.served e.1.1 e.1.2 hgranted]
  have hirrefl : Std.Irrefl fun a b : (String × String) × Section ↦ toLex a.1 < toLex b.1 :=
    ⟨fun a ↦ lt_irrefl (toLex a.1)⟩
  have hasymm : Std.Asymm fun a b : (String × String) × Section ↦ toLex a.1 < toLex b.1 :=
    ⟨fun _ _ hab ↦ hab.asymm⟩
  have hsame := ((pairwise_sections hstarted.nodup).filter _).eq_of_mem_iff
    ((pairwise_sections hstarted'.nodup).filter _) hmem
  rw [Server.scraped, Server.scraped, hfiltered, hfiltered, hsame]

end Oracle

/-- Two sites a caller is to find alike: they agree on what it is granted. -/
structure Site.AgreeFor (principal : Principal) (site site' : Site) : Prop where
  server : Server.AgreeFor principal site.server site'.server
  sources : ∀ application profile, principal.mayRead application = true →
    site.sources application profile = site'.sources application profile

/-- Two sites that know the same callers and agree on what a request's caller is granted, if it is one. -/
structure Site.AgreeOn (headers : HeaderMap) (site site' : Site) : Prop where
  authenticator : site.server.authenticator = site'.server.authenticator
  agree : ∀ principal, site.server.authenticator.authenticate (authorization headers) = some principal →
    site.AgreeFor principal site'

namespace Site.AgreeOn

variable {Fig : Type} [Figment Fig] {libraries : Libraries} {site site' : Site} {headers : HeaderMap}

/-- The caller is let in alike. -/
theorem admission_eq (h : site.AgreeOn headers site') (application profile endpoint : String) :
    admission site.server headers application profile endpoint =
      admission site'.server headers application profile endpoint := by
  rcases hprincipal : site.server.authenticator.authenticate (authorization headers) with - | principal
  · rw [admission, admission, ← h.authenticator, hprincipal]
  · exact Server.admission_eq h.authenticator hprincipal (h.agree principal hprincipal).server application
      profile endpoint

/-- Where it is let in, it is granted what it asks for. -/
theorem granted (h : site.AgreeOn headers site') {application profile endpoint : String}
    {admitted : Admitted}
    (hok : admission site'.server headers application profile endpoint = .ok admitted) :
    site.AgreeFor admitted.principal site' ∧ admitted.principal.mayRead application = true := by
  rw [← h.admission_eq] at hok
  obtain ⟨hprincipal, hopen, -, -⟩ := admission_eq_ok_iff.1 hok
  exact ⟨h.agree _ hprincipal, hopen.granted⟩

theorem endpoint_eq (h : site.AgreeOn headers site') (clock : Clock) (application profile : String)
    (endpoint : Endpoint) : respond clock site.server headers application profile endpoint =
      respond clock site'.server headers application profile endpoint := by
  cases endpoint with
  | document => rw [respond, respond, document, document, h.admission_eq]
  | paths => rw [respond, respond, paths, paths, h.admission_eq]
  | status => rw [respond, respond, status, status, h.admission_eq]
  | stream =>
    rw [respond, respond, stream, stream, h.admission_eq]
    rcases hcase : admission site'.server headers application profile "stream" with answer | admitted
    · rfl
    · obtain ⟨hsame, -⟩ := h.granted hcase
      exact streamed_eq hsame.server.maxStreams hsame.server.streams _ _ _

theorem checked_eq (h : site.AgreeOn headers site') (application profile : String) :
    check Fig libraries site headers application profile =
      check Fig libraries site' headers application profile := by
  rw [check, check, h.admission_eq]
  rcases hcase : admission site'.server headers application profile "check" with answer | admitted
  · rfl
  · obtain ⟨hsame, hgranted⟩ := h.granted hcase
    dsimp only
    rw [reportOn, reportOn, hsame.sources application profile hgranted]

theorem explained_eq (h : site.AgreeOn headers site') (application profile path : String) :
    explain Fig libraries site headers application profile path =
      explain Fig libraries site' headers application profile path := by
  rw [explain, explain, h.admission_eq]
  rcases hcase : admission site'.server headers application profile "explain" with answer | admitted
  · rfl
  · obtain ⟨hsame, hgranted⟩ := h.granted hcase
    dsimp only
    rw [explanationOf, explanationOf, hsame.sources application profile hgranted]

theorem metrics_eq {build build' : Build} {config config' : ServerConfig}
    (h : site.AgreeOn headers site') (hstarted : Started build config site.server)
    (hstarted' : Started build' config' site'.server) :
    metrics libraries site.server headers = metrics libraries site'.server headers := by
  rw [metrics, metrics, ← h.authenticator]
  rcases hprincipal : site.server.authenticator.authenticate (authorization headers) with - | principal
  · rfl
  · dsimp only
    rw [scraped_eq hstarted hstarted' (h.agree principal hprincipal).server]

end Site.AgreeOn

/-- **The whole surface is no oracle.** Two started servers with the same clients, which agree on what the
caller is granted, if it is anybody, answer all its requests alike, but for the one bit of `readyz`. -/
theorem serve_eq (Fig : Type) [Figment Fig] (libraries : Libraries) (build build' : Build)
    {config config' : ServerConfig} {site site' : Site}
    (hstarted : Started build config site.server) (hstarted' : Started build' config' site'.server)
    (hclients : config.clients = config'.clients) (headers : HeaderMap)
    (hagree : ∀ principal, site.server.authenticator.authenticate (authorization headers) = some principal →
      site.AgreeFor principal site')
    (path : List String)
    (hready : path = ["readyz"] → site.server.isReady = site'.server.isReady) :
    serve Fig libraries site headers path = serve Fig libraries site' headers path := by
  have hcallers : site.server.authenticator = site'.server.authenticator := by
    rw [hstarted.authenticator, hstarted'.authenticator, ServerConfig.authenticator,
      ServerConfig.authenticator, hclients]
  have h : site.AgreeOn headers site' := ⟨hcallers, hagree⟩
  rw [serve, serve]
  rcases hroute : route path with - | found
  · rfl
  · cases found with
    | healthz => rfl
    | readyz =>
      show (readyz site.server).page = (readyz site'.server).page
      rw [readyz, readyz, hready (eq_of_route_readyz hroute)]
    | metrics => exact h.metrics_eq hstarted hstarted'
    | ofSection endpoint application profile => simp only [h.endpoint_eq]
    | check application profile => simp only [h.checked_eq]
    | explain application profile key => simp only [h.explained_eq]

/-- Libraries that show no float and find nothing to decode. -/
def plainLibraries : Libraries where
  clock := Telemetry.stopped
  showFloat _ := ""
  refused _ := { kind := .message "JSON number out of range" }
  decode := some
  rejected parameter := "Invalid URL: Invalid UTF-8 in ".toList ++ parameter.toList

/-- The demonstration site, with a password in the sources of its sections. -/
def demoSite (password : String) : Site where
  server := demoServer
  sources _ _ := .ok ⟨Host.bare, renamedWith password⟩

/-- The demonstration site, with nothing in its `billing` section, whose sources are gone. -/
def unloadedSite (password : String) (gone : Error) : Site where
  server := unloadedServer
  sources application _ :=
    if application = "billing" then .error gone else .ok ⟨Host.bare, renamedWith password⟩

/-- Nor can the anonymous client tell what it asks about by explaining it. -/
theorem serve_eq_anonymous :
    serve Stack plainLibraries (demoSite "hunter2") ⟨[]⟩ ["billing", "prod", "explain", "password"] =
      serve Stack plainLibraries (unloadedSite "hunter2" { kind := .io, message := "gone" }) ⟨[]⟩
        ["billing", "prod", "explain", "password"] := by
  refine serve_eq Stack plainLibraries plainBuild plainBuild started_demoServer started_unloadedServer rfl
    ⟨[]⟩ (fun principal hprincipal ↦ ?_) _ fun hpath ↦ absurd hpath (by decide)
  have hanonymous : some (⟨"anonymous", ["demo"]⟩ : Principal) = some principal := hprincipal
  obtain rfl := Option.some.inj hanonymous
  have hdemo : ∀ application : String, Principal.mayRead ⟨"anonymous", ["demo"]⟩ application = true →
      application = "demo" := by
    intro application hgranted
    have hsame : ("demo" == application) = true := by simpa [Principal.mayRead] using hgranted
    exact (beq_iff_eq.1 hsame).symm
  refine ⟨⟨fun application profile hgranted ↦ ?_, rfl, rfl⟩, fun application profile hgranted ↦ ?_⟩
  · obtain rfl := hdemo application hgranted
    have hother : (("demo", profile) == ("billing", "prod")) = false := rfl
    simp only [demoSite, unloadedSite, Server.served, demoServer, unloadedServer, List.lookup, hother]
  · obtain rfl := hdemo application hgranted
    rfl

/-! ### What a scraper reads -/

section Scrape

variable {server : Server} {principal : Principal}

/-- The configurations of a scrape are the sections that are granted, and their states. -/
theorem mem_configs_iff {a : Telemetry.Labels × ConfigStatus} :
    a ∈ (server.scraped principal).filterMap Telemetry.Call.config ↔
      ∃ e ∈ server.sections, principal.mayRead e.2.application = true ∧ a = (e.2.labels, e.2.status) := by
  have hmem : ∀ served, served ∈ server.inOrder ↔ ∃ e ∈ server.sections, e.2 = served := by
    intro served
    rw [Server.inOrder, List.mem_map]
    simp only [List.mem_mergeSort]
  rw [Server.scraped, List.filterMap_map, List.mem_filterMap]
  constructor
  · rintro ⟨served, hserved, hsome⟩
    obtain ⟨hin, hgranted⟩ := List.mem_filter.1 hserved
    obtain ⟨e, he, rfl⟩ := (hmem served).1 hin
    exact ⟨e, he, hgranted, (Option.some.inj hsome).symm⟩
  · rintro ⟨e, he, hgranted, rfl⟩
    exact ⟨e.2, List.mem_filter.2 ⟨(hmem e.2).2 ⟨e, he, rfl⟩, hgranted⟩, rfl⟩

/-- No remote source is in a scrape. -/
theorem remotes_scraped : (server.scraped principal).filterMap Telemetry.Call.remote = [] := by
  rw [Server.scraped, List.filterMap_map, List.filterMap_eq_nil_iff]
  intro served hserved
  rfl

/-- The names of a section's labels differ from each other, and from those that a family adds. -/
theorem names_labels (served : Section) :
    Telemetry.names served.labels = ["application".toList, "profile".toList] := by
  rw [Section.labels, Telemetry.names, List.map_cons, List.map_singleton]
  rfl

theorem namesDiffer_section (clock : Telemetry.Clock) (served : Section) :
    ∀ family ∈ Telemetry.families clock, ∀ reading, family.sample served.status = some reading →
      Telemetry.NamesDiffer (family.sampleOf served.labels reading) := by
  rw [Telemetry.forall_namesDiffer_iff (Telemetry.own_families_iff clock served.status)
    (Telemetry.exists_sample clock served.status), names_labels]
  refine ⟨by decide, ?_⟩
  rintro label (⟨reason, -, rfl⟩ | ⟨failure, -, rfl⟩)
  · show "reason".toList ∉ ["application".toList, "profile".toList]
    decide
  · show "kind".toList ∉ ["application".toList, "profile".toList]
    decide

/-- **What a scraper reads is what its caller is granted.** A scrape is read to the samples of the
sections the caller may read, of all of them and of no other, and no sample has two labels of one name. -/
theorem metrics_reads (libraries : Libraries) (server : Server) (headers : HeaderMap)
    (principal : Principal)
    (hprincipal : server.authenticator.authenticate (authorization headers) = some principal) :
    ∃ text samples, (metrics libraries server headers).content = .text text ∧
      Prometheus.read text = some samples ∧ (∀ sample ∈ samples, Telemetry.NamesDiffer sample) ∧
        ∀ sample, sample ∈ samples ↔ ∃ e ∈ server.sections, principal.mayRead e.2.application = true ∧
          ∃ family ∈ Telemetry.families libraries.clock, ∃ reading,
            family.sample e.2.status = some reading ∧ sample = family.sampleOf e.2.labels reading := by
  have hsamples : Telemetry.samples libraries.clock (server.scraped principal) =
      (Telemetry.families libraries.clock).flatMap
        (Telemetry.Family.samples ((server.scraped principal).filterMap Telemetry.Call.config)) := by
    have hnone : (Telemetry.remoteFamilies libraries.clock).flatMap (Telemetry.Family.samples []) = [] :=
      List.flatMap_eq_nil_iff.2 fun _ _ ↦ rfl
    rw [Telemetry.samples, remotes_scraped, hnone, List.append_nil]
  refine ⟨_, _, ?_, (Telemetry.reads_render libraries.clock (server.scraped principal)).read_eq, ?_, ?_⟩
  · rw [metrics, hprincipal]
  · rw [hsamples, Telemetry.forall_samples_iff]
    intro a ha
    obtain ⟨e, -, -, rfl⟩ := mem_configs_iff.1 ha
    exact namesDiffer_section libraries.clock e.2
  · intro sample
    rw [hsamples, List.mem_flatMap]
    constructor
    · rintro ⟨family, hfamily, hmem⟩
      obtain ⟨a, ha, hsome⟩ := List.mem_filterMap.1 hmem
      obtain ⟨reading, hreading, rfl⟩ := Option.map_eq_some_iff.1 hsome
      obtain ⟨e, he, hgranted, rfl⟩ := mem_configs_iff.1 ha
      exact ⟨e, he, hgranted, family, hfamily, reading, hreading, rfl⟩
    · rintro ⟨e, he, hgranted, family, hfamily, reading, hreading, rfl⟩
      refine ⟨family, hfamily, List.mem_filterMap.2
        ⟨_, mem_configs_iff.2 ⟨e, he, hgranted, rfl⟩, ?_⟩⟩
      rw [hreading, Option.map_some]

/-- The anonymous client scrapes `demo`, and finds the samples of that section only. -/
theorem metrics_reads_anonymous :
    ∃ text samples, (metrics plainLibraries demoServer ⟨[]⟩).content = .text text ∧
      Prometheus.read text = some samples ∧ (∀ sample ∈ samples, Telemetry.NamesDiffer sample) ∧
        ∀ sample, sample ∈ samples ↔ ∃ e ∈ demoServer.sections,
          Principal.mayRead ⟨"anonymous", ["demo"]⟩ e.2.application = true ∧
            ∃ family ∈ Telemetry.families plainLibraries.clock, ∃ reading,
              family.sample e.2.status = some reading ∧ sample = family.sampleOf e.2.labels reading :=
  metrics_reads plainLibraries demoServer ⟨[]⟩ ⟨"anonymous", ["demo"]⟩ rfl

end Scrape

/-! ### Without the values -/

mutual

/-- A value with what its leaves hold left out. -/
def veiled : Value → Value
  | .table entries => .table (veiledIn entries)
  | .array _ => .array []
  | .scalar _ => .scalar .empty

def veiledIn : List (String × Value) → List (String × Value)
  | [] => []
  | (key, value) :: entries => (key, veiled value) :: veiledIn entries

end

mutual

/-- Which leaves there are does not go by what they hold. -/
theorem collect_veiled (path : String) : ∀ v : Value, collect path (veiled v) = collect path v
  | .table [] => rfl
  | .table (e :: entries) => collectIn_veiledIn path (e :: entries)
  | .array _ => rfl
  | .scalar _ => rfl

theorem collectIn_veiledIn (path : String) : ∀ entries : List (String × Value),
    collectIn path (veiledIn entries) = collectIn path entries
  | [] => rfl
  | (key, v) :: entries => by
    rw [veiledIn, collectIn, collectIn, collect_veiled, collectIn_veiledIn path entries]

end

theorem leafPaths_veiled (document : Document) : leafPaths (veiled document) = leafPaths document := by
  rcases document with s | items | entries
  · rfl
  · rfl
  · show (veiledIn entries).flatMap _ = entries.flatMap _
    induction entries with
    | nil => rfl
    | cons e entries ih =>
      obtain ⟨key, v⟩ := e
      rw [veiledIn, List.flatMap_cons, List.flatMap_cons, ih, collect_veiled]

/-- A section with the values of its document left out. -/
def Section.veil (served : Section) : Section := { served with current := served.current.map veiled }

/-- A server with the values of its documents left out. -/
def Server.veil (server : Server) : Server :=
  { server with sections := server.sections.map fun e ↦ (e.1, e.2.veil) }

def Admitted.veil (admitted : Admitted) : Admitted :=
  { admitted with section_ := admitted.section_.veil }

section Veil

variable {server server' : Server}

theorem isReady_veil (served : Section) : served.veil.isReady = served.isReady := by
  rw [Section.isReady, Section.isReady, Section.veil, Option.isSome_map]

theorem served_veil (server : Server) (application profile : String) :
    server.veil.served application profile = (server.served application profile).map Section.veil := by
  rw [Server.served, Server.served, Server.veil]
  induction server.sections with
  | nil => rfl
  | cons e sections ih =>
    rw [List.map_cons, List.lookup_cons, List.lookup_cons]
    split
    · rfl
    · exact ih

theorem inOrder_veil (server : Server) : server.veil.inOrder = server.inOrder.map Section.veil := by
  have hsorted : (server.sections.mergeSort Server.before).map (fun e ↦ (e.1, e.2.veil)) =
      (server.sections.map fun e ↦ (e.1, e.2.veil)).mergeSort Server.before :=
    List.map_mergeSort fun a _ b _ ↦ rfl
  rw [Server.inOrder, Server.inOrder, Server.veil, ← hsorted, List.map_map, List.map_map]
  rfl

/-- Who is admitted, and where, does not go by a value. -/
theorem admission_veil (server : Server) (headers : HeaderMap) (application profile endpoint : String) :
    admission server.veil headers application profile endpoint =
      (admission server headers application profile endpoint).map Admitted.veil := by
  have hcallers : server.veil.authenticator = server.authenticator := rfl
  rw [admission, admission, hcallers, served_veil]
  rcases server.authenticator.authenticate (authorization headers) with - | principal
  · rfl
  · dsimp only
    split
    · rfl
    · split
      · rfl
      · rcases server.served application profile with - | served
        · rfl
        · rfl

/-- Servers that are alike but for the values admit alike. -/
theorem admission_alike (h : server.veil = server'.veil) (headers : HeaderMap)
    (application profile endpoint : String) :
    Alike (fun a b : Admitted ↦ a.veil = b.veil) (admission server headers application profile endpoint)
      (admission server' headers application profile endpoint) := by
  have hveiled := admission_veil server headers application profile endpoint
  rw [h, admission_veil] at hveiled
  rcases hcase : admission server' headers application profile endpoint with answer' | b
  · rcases hcase' : admission server headers application profile endpoint with answer | a
    · rw [hcase, hcase'] at hveiled
      obtain rfl : answer' = answer := Except.error.inj hveiled
      exact Or.inl ⟨_, rfl, rfl⟩
    · rw [hcase, hcase'] at hveiled
      cases hveiled
  · rcases hcase' : admission server headers application profile endpoint with answer | a
    · rw [hcase, hcase'] at hveiled
      cases hveiled
    · rw [hcase, hcase'] at hveiled
      exact Or.inr ⟨a, b, rfl, rfl, (Except.ok.inj hveiled).symm⟩

/-- What is admitted without its values: everything an answer is made of but the document. -/
theorem Admitted.parts_of_veil {a b : Admitted} (h : a.veil = b.veil) :
    a.principal = b.principal ∧ a.endpoint = b.endpoint ∧ a.section_.veil = b.section_.veil ∧
      a.section_.application = b.section_.application ∧ a.section_.profile = b.section_.profile ∧
        a.section_.status = b.section_.status ∧ a.section_.notified = b.section_.notified :=
  have hsection : a.section_.veil = b.section_.veil := congrArg Admitted.section_ h
  ⟨(congrArg Admitted.principal h :), (congrArg Admitted.endpoint h :), hsection,
    (congrArg Section.application hsection :), (congrArg Section.profile hsection :),
    (congrArg Section.status hsection :), (congrArg Section.notified hsection :)⟩

theorem Admitted.audit_of_veil {a b : Admitted} (h : a.veil = b.veil) (outcome : Outcome)
    (generation : Option Nat) : a.audit outcome generation = b.audit outcome generation := by
  obtain ⟨hprincipal, hendpoint, -, happlication, hprofile, -⟩ := Admitted.parts_of_veil h
  rw [audit, audit, hprincipal, hendpoint, happlication, hprofile]

/-- The paths of a section go by no value. -/
theorem paths_eq_of_veil (h : server.veil = server'.veil) (headers : HeaderMap)
    (application profile : String) :
    paths server headers application profile = paths server' headers application profile := by
  rw [paths, paths]
  rcases admission_alike h headers application profile "paths"
    with ⟨answer, ha, hb⟩ | ⟨a, b, ha, hb, hab⟩
  · rw [ha, hb]
  · obtain ⟨-, -, hsection, happlication, hprofile, hstatus, -⟩ := Admitted.parts_of_veil hab
    have hgeneration : a.section_.generation = b.section_.generation :=
      congrArg ConfigStatus.generation hstatus
    have hcurrent : a.section_.current.map veiled = b.section_.current.map veiled :=
      congrArg Section.current hsection
    rw [ha, hb]
    dsimp only
    rw [Section.installed, Section.installed, hgeneration]
    rcases hfirst : a.section_.current with - | document
    · rcases hsecond : b.section_.current with - | document'
      · show unready a = unready b
        rw [unready, unready, Admitted.audit_of_veil hab]
      · rw [hfirst, hsecond] at hcurrent
        cases hcurrent
    · rcases hsecond : b.section_.current with - | document'
      · rw [hfirst, hsecond] at hcurrent
        cases hcurrent
      · rw [hfirst, hsecond] at hcurrent
        have hleaves : leafPaths document = leafPaths document' := by
          rw [← leafPaths_veiled document, ← leafPaths_veiled document', Option.some.inj hcurrent]
        simp only [Option.map_some, pathsBody, happlication, hprofile, hleaves,
          Admitted.audit_of_veil hab]

theorem status_eq_of_veil (h : server.veil = server'.veil) (clock : Clock) (headers : HeaderMap)
    (application profile : String) :
    status clock server headers application profile = status clock server' headers application profile := by
  rw [status, status]
  rcases admission_alike h headers application profile "status"
    with ⟨answer, ha, hb⟩ | ⟨a, b, ha, hb, hab⟩
  · rw [ha, hb]
  · obtain ⟨-, -, hsection, happlication, hprofile, hstatus, -⟩ := Admitted.parts_of_veil hab
    have hready : a.section_.isReady = b.section_.isReady := by
      rw [← isReady_veil, ← isReady_veil b.section_, hsection]
    rw [ha, hb]
    dsimp only
    rw [statusBody, statusBody, happlication, hprofile, hstatus, hready, Admitted.audit_of_veil hab]

theorem stream_eq_of_veil (h : server.veil = server'.veil) (headers : HeaderMap)
    (application profile : String) :
    (stream server headers application profile).1 = (stream server' headers application profile).1 := by
  have hceiling : server.maxStreams = server'.maxStreams := (congrArg Server.maxStreams h :)
  have hopen : server.streams = server'.streams := (congrArg Server.streams h :)
  rw [stream, stream]
  rcases admission_alike h headers application profile "stream"
    with ⟨answer, ha, hb⟩ | ⟨a, b, ha, hb, hab⟩
  · rw [ha, hb]
  · obtain ⟨hprincipal, -, -, happlication, hprofile, hstatus, hnotified⟩ := Admitted.parts_of_veil hab
    have hgeneration : a.section_.generation = b.section_.generation :=
      congrArg ConfigStatus.generation hstatus
    rw [ha, hb]
    simp only [atCapacity, hprincipal, happlication, hprofile, hnotified, hgeneration,
      Admitted.audit_of_veil hab]
    exact streamed_eq hceiling hopen _ _ _

/-- **Nothing but the document is told by an endpoint of a section**, the document's left out. -/
theorem respond_eq_of_veil (h : server.veil = server'.veil) (clock : Clock) {endpoint : Endpoint}
    (hendpoint : endpoint ≠ .document) (headers : HeaderMap) (application profile : String) :
    respond clock server headers application profile endpoint =
      respond clock server' headers application profile endpoint := by
  cases endpoint with
  | document => exact absurd rfl hendpoint
  | paths => exact paths_eq_of_veil h headers application profile
  | status => exact status_eq_of_veil h clock headers application profile
  | stream => exact stream_eq_of_veil h headers application profile

/-- The bit of `readyz` goes by no value. -/
theorem isReady_eq_of_veil (h : server.veil = server'.veil) : server.isReady = server'.isReady := by
  have hall : ∀ server : Server,
      server.isReady = (server.inOrder.map Section.veil).all Section.isReady := by
    intro server
    rw [Server.isReady, List.all_map]
    exact congrArg _ (funext fun served ↦ (isReady_veil served).symm)
  rw [hall, hall, ← inOrder_veil, ← inOrder_veil, h]

/-- Nor does a scrape. -/
theorem scraped_eq_of_veil (h : server.veil = server'.veil) (principal : Principal) :
    server.scraped principal = server'.scraped principal := by
  have hveiled : ∀ server : Server, server.scraped principal =
      ((server.inOrder.map Section.veil).filter fun served ↦
        principal.mayRead served.application).map fun served ↦
          .addWith served.labels served.status := by
    intro server
    rw [Server.scraped, List.filter_map, List.map_map]
    rfl
  rw [hveiled, hveiled, ← inOrder_veil, ← inOrder_veil, h]

end Veil

/-- What sources load to, as the document of a section. -/
def Sources.loaded (Fig : Type) [Figment Fig] (libraries : Libraries) (sources : Sources) :
    Except Error Document :=
  DynamicConfig.load Fig sources.host sources.spec (readDocument libraries.refused)

/-- Two sites that differ in configured values only: the servers but for the values of their documents, and
the sources but for scalars, so that both load, or neither does and both say why in the same words: an
integer that JSON has no room for is a value. -/
structure Site.DifferInValues (Fig : Type) [Figment Fig] (libraries : Libraries) (site site' : Site) :
    Prop where
  server : site.server.veil = site'.server.veil
  sources : ∀ application profile, Alike
    (fun s s' : Sources ↦ DifferInScalars s.host s.spec s'.host s'.spec)
    (site.sources application profile) (site'.sources application profile)
  loads : ∀ application profile s s', site.sources application profile = .ok s →
    site'.sources application profile = .ok s' →
      (∃ document document', s.loaded Fig libraries = .ok document ∧
        s'.loaded Fig libraries = .ok document') ∨
        ∃ e e', s.loaded Fig libraries = .error e ∧ s'.loaded Fig libraries = .error e' ∧
          e.display = e'.display

/-- A report is one on what the sources are. -/
theorem reportOn_of_sources {Fig : Type} [Figment Fig] {libraries : Libraries} {site : Site}
    {application profile : String} {sources : Sources}
    (h : site.sources application profile = .ok sources) :
    reportOn Fig libraries site application profile =
      DynamicConfig.check Fig sources.host sources.spec (readDocument libraries.refused) [] := by
  rw [reportOn, h]
  rfl

/-- The failure of a report is what a load says. -/
theorem failure_of_check {Fig : Type} [Figment Fig] {libraries : Libraries} {sources : Sources}
    {report : Report}
    (h : DynamicConfig.check Fig sources.host sources.spec (readDocument libraries.refused) [] =
      .ok report) :
    report.failure = match sources.loaded Fig libraries with
      | .ok _ => none
      | .error error => some error.display := by
  rw [DynamicConfig.check] at h
  obtain ⟨⟨values, figment⟩, -, hreport⟩ := exists_of_bind_eq_ok h
  rw [← Except.ok.inj hreport, Sources.loaded]
  rcases DynamicConfig.load Fig sources.host sources.spec (readDocument libraries.refused) with
    error | document
  · rfl
  · rfl

section Values

variable {Fig : Type} [Figment Fig] [LawfulFigment Fig] {libraries : Libraries} {site site' : Site}

/-- A check tells no value. -/
theorem Site.DifferInValues.reportOn_eq (h : site.DifferInValues Fig libraries site')
    (application profile : String) :
    reportOn Fig libraries site application profile = reportOn Fig libraries site' application profile := by
  have hrest : (reportOn Fig libraries site application profile).map Report.unexplained =
      (reportOn Fig libraries site' application profile).map Report.unexplained := by
    rcases h.sources application profile with ⟨e, hs, hs'⟩ | ⟨s, s', hs, hs', hdiffer⟩
    · rw [reportOn, reportOn, hs, hs']
    · rw [reportOn_of_sources hs, reportOn_of_sources hs']
      exact check_eq Fig hdiffer (readDocument libraries.refused) []
  rcases hreport : reportOn Fig libraries site application profile with e | report
  · rcases hreport' : reportOn Fig libraries site' application profile with e' | report'
    · rw [hreport, hreport'] at hrest
      exact congrArg Except.error (Except.error.inj hrest)
    · rw [hreport, hreport'] at hrest
      cases hrest
  · rcases hreport' : reportOn Fig libraries site' application profile with e' | report'
    · rw [hreport, hreport'] at hrest
      cases hrest
    · have hlast : report.failure = report'.failure := by
        rcases h.sources application profile with ⟨e, hs, -⟩ | ⟨s, s', hs, hs', -⟩
        · rw [reportOn, hs] at hreport
          cases hreport
        · rw [reportOn_of_sources hs] at hreport
          rw [reportOn_of_sources hs'] at hreport'
          rw [failure_of_check hreport, failure_of_check hreport']
          rcases h.loads application profile s s' hs hs' with ⟨d, d', hd, hd'⟩ | ⟨e, e', he, he', hwords⟩
          · rw [hd, hd']
          · rw [he, he']
            exact congrArg some hwords
      rw [hreport, hreport'] at hrest
      have hsame := Except.ok.inj hrest
      obtain ⟨key, resolved, unknown, unknownChecked, failure⟩ := report
      obtain ⟨key', resolved', unknown', unknownChecked', failure'⟩ := report'
      simp only [Report.unexplained, Report.mk.injEq] at hsame
      obtain ⟨rfl, rfl, rfl, rfl, -⟩ := hsame
      obtain rfl : failure = failure' := hlast
      rfl

/-- An explanation tells no value. -/
theorem Site.DifferInValues.explanationOf_eq (h : site.DifferInValues Fig libraries site')
    (application profile path : String) :
    explanationOf Fig libraries site application profile path =
      explanationOf Fig libraries site' application profile path := by
  have hredacted : ∀ x : Except Error Explanation,
      (x >>= fun explanation ↦ (.ok explanation.redacted : Except Error Explanation)) =
        x.map Explanation.redacted := fun x ↦ by rcases x with e | explanation <;> rfl
  have hopen : ∀ s : Sources, builderExplain Fig libraries.showFloat s.host s.spec none path =
      DynamicConfig.explain Fig libraries.showFloat s.host s.spec path := fun s ↦ by
    rw [builderExplain]
    rcases DynamicConfig.explain Fig libraries.showFloat s.host s.spec path with e | explanation <;> rfl
  rw [explanationOf, explanationOf]
  rcases h.sources application profile with ⟨e, hs, hs'⟩ | ⟨s, s', hs, hs', hdiffer⟩
  · rw [hs, hs']
  · rw [hs, hs']
    show (builderExplain Fig libraries.showFloat s.host s.spec none path >>= fun explanation ↦
        (.ok explanation.redacted : Except Error Explanation)) =
      builderExplain Fig libraries.showFloat s'.host s'.spec none path >>= fun explanation ↦
        (.ok explanation.redacted : Except Error Explanation)
    rw [hopen, hopen, hredacted, hredacted]
    exact seenBy_explain_eq Fig hdiffer.toDifferOnly
      (fun _ _ f _ ↦ f.within_everywhere s.spec.key) fun _ _ _ ↦ rfl

theorem Site.DifferInValues.checked_eq (h : site.DifferInValues Fig libraries site') (headers : HeaderMap)
    (application profile : String) : check Fig libraries site headers application profile =
      check Fig libraries site' headers application profile := by
  rw [check, check, h.reportOn_eq]
  rcases admission_alike h.server headers application profile "check"
    with ⟨answer, ha, hb⟩ | ⟨a, b, ha, hb, hab⟩
  · rw [ha, hb]
  · obtain ⟨-, -, -, happlication, hprofile, hstatus, -⟩ := Admitted.parts_of_veil hab
    have hgeneration : a.section_.generation = b.section_.generation :=
      congrArg ConfigStatus.generation hstatus
    rw [ha, hb]
    rcases reportOn Fig libraries site' application profile with e | report
    · simp only [unavailable, Admitted.audit_of_veil hab]
    · simp only [checkBody, happlication, hprofile, hgeneration, Admitted.audit_of_veil hab]

theorem Site.DifferInValues.explained_eq (h : site.DifferInValues Fig libraries site')
    (headers : HeaderMap) (application profile path : String) :
    explain Fig libraries site headers application profile path =
      explain Fig libraries site' headers application profile path := by
  rw [explain, explain, h.explanationOf_eq]
  rcases admission_alike h.server headers application profile "explain"
    with ⟨answer, ha, hb⟩ | ⟨a, b, ha, hb, hab⟩
  · rw [ha, hb]
  · obtain ⟨hprincipal, -, -, happlication, hprofile, hstatus, -⟩ := Admitted.parts_of_veil hab
    have hgeneration : a.section_.generation = b.section_.generation :=
      congrArg ConfigStatus.generation hstatus
    rw [ha, hb]
    dsimp only
    split
    · rw [hprincipal, happlication, hprofile]
    · rcases explanationOf Fig libraries site' application profile path with e | explanation
      · simp only [unavailable, Admitted.audit_of_veil hab]
      · simp only [explainBody, happlication, hprofile, hgeneration, Admitted.audit_of_veil hab]

end Values

/-- **One endpoint returns values.** Two sites that differ in configured values only answer every request
alike, whoever asks, but a request for a document. -/
theorem serve_eq_of_veil (Fig : Type) [Figment Fig] [LawfulFigment Fig] (libraries : Libraries)
    {site site' : Site} (h : site.DifferInValues Fig libraries site') (headers : HeaderMap)
    (path : List String)
    (hpath : ∀ application profile, route path ≠ some (.ofSection .document application profile)) :
    serve Fig libraries site headers path = serve Fig libraries site' headers path := by
  have hcallers : site.server.authenticator = site'.server.authenticator :=
    (congrArg Server.authenticator h.server :)
  rw [serve, serve]
  rcases hroute : route path with - | found
  · rfl
  · cases found with
    | healthz => rfl
    | readyz =>
      show (readyz site.server).page = (readyz site'.server).page
      rw [readyz, readyz, isReady_eq_of_veil h.server]
    | metrics =>
      show metrics libraries site.server headers = metrics libraries site'.server headers
      rw [metrics, metrics, hcallers]
      simp only [scraped_eq_of_veil h.server]
    | ofSection endpoint application profile =>
      have hendpoint : endpoint ≠ .document := by
        rintro rfl
        exact hpath application profile hroute
      simp only [respond_eq_of_veil h.server _ hendpoint]
    | check application profile => simp only [h.checked_eq]
    | explain application profile key => simp only [h.explained_eq]

/-- The demonstration site, with the password in its documents too. -/
def loadedSite (password : String) : Site where
  server := { demoServer with
    sections := [(("demo", "prod"), demoSection "demo" (.table [("password", string password)])),
      (("billing", "prod"), demoSection "billing" (.table []))] }
  sources _ _ := .ok ⟨Host.bare, renamedWith password⟩

/-- Either password loads. -/
theorem exists_loaded_renamedWith {password : String} (h : password = "hunter2" ∨ password = "hunter3") :
    ∃ document, (Sources.mk Host.bare (renamedWith password)).loaded Stack plainLibraries =
      .ok document := by
  have hloads : ∀ password ∈ ["hunter2", "hunter3"],
      ((Sources.mk Host.bare (renamedWith password)).loaded Stack plainLibraries).isOk = true := by
    decide +kernel
  have hone := hloads password (by simpa using h)
  rcases hloaded : (Sources.mk Host.bare (renamedWith password)).loaded Stack plainLibraries with
    e | document
  · rw [hloaded] at hone
    cases hone
  · exact ⟨document, rfl⟩

/-- An explanation of the password is one of any. -/
theorem serve_eq_of_veil_loadedSite :
    serve Stack plainLibraries (loadedSite "hunter2") ⟨[]⟩ ["demo", "prod", "explain", "password"] =
      serve Stack plainLibraries (loadedSite "hunter3") ⟨[]⟩
        ["demo", "prod", "explain", "password"] := by
  have hdiffer : (loadedSite "hunter2").DifferInValues Stack plainLibraries (loadedSite "hunter3") := {
    server := rfl
    sources _ _ := .ok ((differOnly_renamedWith "hunter2" "hunter3").differInScalars rfl)
    loads application profile s s' hs hs' := by
      obtain rfl := Except.ok.inj hs
      obtain rfl := Except.ok.inj hs'
      obtain ⟨document, hdocument⟩ := exists_loaded_renamedWith (Or.inl rfl)
      obtain ⟨document', hdocument'⟩ := exists_loaded_renamedWith (Or.inr rfl)
      exact Or.inl ⟨document, document', hdocument, hdocument'⟩ }
  exact serve_eq_of_veil Stack plainLibraries hdiffer _ _ fun _ _ hroute ↦ (by cases hroute)

end DynamicConfig.Server
