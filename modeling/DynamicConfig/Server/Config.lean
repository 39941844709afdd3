import DynamicConfig.Config.Value
import DynamicConfig.Server.Auth

/-!
# The server's own configuration

`ServerConfig.validate` refuses a configuration before anything is opened, with the first refusal that
applies. What it leaves is `Accepted`: names and tokens are distinct, tokens are long enough, and there
is at most one client without a token, where anonymous callers are allowed at all.

The build and the machine enter as `Build`: whether the `tls` feature is in, and how an address is
read.

An accepted configuration authenticates a client by its own token where the token does not start with
white space (`ServerConfig.authenticatesItself_iff`). One that does is accepted all the same, and the header loses
its first characters, which may leave another client's token (`not_authenticatesItself`).
-/

namespace DynamicConfig.Server

/-- What a path segment may hold. -/
def isName (value : String) : Bool :=
  match value.toList with
  | [] => false
  | first :: rest =>
    first.isAlphanum && decide ((asBytes value).length ≤ 64) &&
      rest.all fun c ↦ c.isAlphanum || c == '.' || c == '_' || c == '-'

/-- One served application-and-profile pair. -/
structure SectionConfig where
  application : String
  profile : String
  files : List String
  envPrefix : Option String := none
  wholeDocument : Bool := false
  deriving DecidableEq, Repr

/-- Where the server's own certificate, key and client authority are. -/
structure TlsConfig where
  certificate : String
  key : String
  clientCa : Option String := none
  crl : Option String := none
  deriving DecidableEq, Repr

/-- One caller, and what it may read. -/
structure ClientConfig where
  name : String
  token : Option Token := none
  applications : List String
  deriving DecidableEq, Repr

structure ServerConfig where
  bind : String := "127.0.0.1:8080"
  insecure : Bool := false
  tls : Option TlsConfig := none
  allowAnonymous : Bool := false
  maxStreamConnections : Nat := 4096
  sections : List SectionConfig := []
  clients : List ClientConfig := []
  deriving DecidableEq, Repr

/-- Why a configuration will not start a server. -/
inductive Refusal where
  | noSections
  | noClients
  | duplicateSection (application profile : String)
  | unroutableSection (application profile part : String)
  | duplicateClient (name : String)
  | duplicateToken
  | weakToken (client : String)
  | anonymousNotAllowed (client : String)
  | severalAnonymousClients
  | unservedGrant (client application : String)
  | exposedBind (bind : String)
  | unparsableBind (bind : String)
  | tlsUnsupported
  | insecureWithTls
  | tlsPathMissing (key : String)
  | revocationUnsupported
  deriving DecidableEq, Repr

/-- What the binary and the standard library bring along. -/
structure Build where
  /-- `cfg!(feature = "tls")`. -/
  tls : Bool
  /-- `parse::<SocketAddr>()`, and whether the address it comes to is loopback. -/
  loopback : String → Option Bool

/-! ### Validation -/

/-- Every section can be named by a path, and no two by the same. -/
def checkSections (seen : List (String × String)) : List SectionConfig → Except Refusal Unit
  | [] => .ok ()
  | described :: rest =>
    if !isName described.application then
      .error (.unroutableSection described.application described.profile "application")
    else if !isName described.profile then
      .error (.unroutableSection described.application described.profile "profile")
    else if (described.application, described.profile) ∈ seen then
      .error (.duplicateSection described.application described.profile)
    else checkSections (seen ++ [(described.application, described.profile)]) rest

/-- A client without a token is the anonymous one, of which there is one; a token is long enough. The
number of anonymous clients so far is counted on. -/
def checkToken (config : ServerConfig) (anonymous : Nat) (client : ClientConfig) : Except Refusal Nat :=
  match client.token with
  | none =>
    if !config.allowAnonymous then .error (.anonymousNotAllowed client.name)
    else if anonymous + 1 > 1 then .error .severalAnonymousClients
    else .ok (anonymous + 1)
  | some token =>
    if token.len < minTokenLen then .error (.weakToken client.name) else .ok anonymous

/-- A grant names an application that is served. -/
def checkGrants (config : ServerConfig) (client : ClientConfig) : Except Refusal Unit :=
  match client.applications.find? fun application ↦
    !config.sections.any fun described ↦ described.application == application with
  | some application => .error (.unservedGrant client.name application)
  | none => .ok ()

def checkClients (config : ServerConfig) (names : List String) (anonymous : Nat) :
    List ClientConfig → Except Refusal Unit
  | [] => .ok ()
  | client :: rest =>
    if client.name ∈ names then .error (.duplicateClient client.name)
    else do
      let anonymous ← checkToken config anonymous client
      checkGrants config client
      checkClients config (names ++ [client.name]) anonymous rest

/-- No two clients share a token. -/
def checkTokens : List ClientConfig → Except Refusal Unit
  | [] => .ok ()
  | client :: rest =>
    match client.token with
    | none => checkTokens rest
    | some token =>
      if rest.any fun other ↦ other.token == some token then .error .duplicateToken
      else checkTokens rest

/-- TLS against the address: nothing is served in the clear off the host unless told so. -/
def checkBind (build : Build) (config : ServerConfig) : Except Refusal Unit :=
  let blank (path : String) : Bool := Text.isBlank path
  match build.loopback config.bind with
  | none => .error (.unparsableBind config.bind)
  | some loopback =>
    match config.tls with
    | some tls =>
      if !build.tls then .error .tlsUnsupported
      else if tls.crl.isSome then .error .revocationUnsupported
      else if blank tls.certificate then .error (.tlsPathMissing "certificate")
      else if blank tls.key then .error (.tlsPathMissing "key")
      else if tls.clientCa.any blank then .error (.tlsPathMissing "client_ca")
      else if config.insecure then .error .insecureWithTls
      else .ok ()
    | none =>
      if !loopback && !config.insecure then .error (.exposedBind config.bind) else .ok ()

namespace ServerConfig

/-- The first refusal that applies. -/
def validate (build : Build) (config : ServerConfig) : Except Refusal Unit :=
  if config.sections = [] then .error .noSections
  else if config.clients = [] then .error .noClients
  else do
    checkSections [] config.sections
    checkClients config [] 0 config.clients
    checkTokens config.clients
    checkBind build config

end ServerConfig

/-! ### What is accepted -/

/-- What a validated configuration is. -/
structure Accepted (config : ServerConfig) : Prop where
  /-- Sections are named by distinct paths. -/
  sections : (config.sections.map fun s ↦ (s.application, s.profile)).Nodup
  routable : ∀ s ∈ config.sections, isName s.application = true ∧ isName s.profile = true
  names : (config.clients.map ClientConfig.name).Nodup
  tokens : (config.clients.filterMap ClientConfig.token).Nodup
  strong : ∀ c ∈ config.clients, ∀ token, c.token = some token → minTokenLen ≤ token.len
  /-- There is one anonymous client at most, and only where it is allowed. -/
  anonymous : config.clients.countP (fun c ↦ c.token.isNone) ≤ 1
  allowed : ∀ c ∈ config.clients, c.token = none → config.allowAnonymous = true
  granted : ∀ c ∈ config.clients, ∀ application ∈ c.applications,
    ∃ s ∈ config.sections, s.application = application

/-- Distinct from those before, and among themselves. -/
theorem nodup_of_checkSections {seen : List (String × String)} {sections : List SectionConfig}
    (h : checkSections seen sections = .ok ()) (hseen : seen.Nodup) :
    (seen ++ sections.map fun s ↦ (s.application, s.profile)).Nodup ∧
      ∀ s ∈ sections, isName s.application = true ∧ isName s.profile = true := by
  induction sections generalizing seen with
  | nil => exact ⟨by simpa using hseen, fun s hs ↦ absurd hs List.not_mem_nil⟩
  | cons described rest ih =>
    simp only [checkSections, Bool.not_eq_true'] at h
    split at h
    · cases h
    · next happlication =>
      split at h
      · cases h
      · next hprofile =>
        split at h
        · cases h
        · next hnew =>
          obtain ⟨hnodup, hnames⟩ := ih h (List.nodup_append.2
            ⟨hseen, List.nodup_singleton _, fun a ha b hb ↦ by
              rintro rfl
              exact hnew (List.mem_singleton.1 hb ▸ ha)⟩)
          refine ⟨by simpa using hnodup, fun s hs ↦ ?_⟩
          rcases List.mem_cons.1 hs with rfl | hs
          · exact ⟨Bool.not_eq_false _ ▸ happlication, Bool.not_eq_false _ ▸ hprofile⟩
          · exact hnames s hs

/-- A token that is let through is long enough, and a missing one is the first. -/
theorem checkToken_cases {config : ServerConfig} {before after : Nat} {client : ClientConfig}
    (h : checkToken config before client = .ok after) :
    (∃ token, client.token = some token ∧ minTokenLen ≤ token.len ∧ after = before) ∨
      client.token = none ∧ config.allowAnonymous = true ∧ before = 0 ∧ after = 1 := by
  rw [checkToken] at h
  split at h
  · next hnone =>
    split at h
    · cases h
    · next hallowed =>
      split at h
      · cases h
      · next hfirst =>
        obtain rfl : before = 0 := by omega
        rw [Bool.not_eq_true', Bool.not_eq_false] at hallowed
        exact Or.inr ⟨hnone, hallowed, rfl, (Except.ok.inj h).symm⟩
  · next token htoken =>
    split at h
    · cases h
    · next hlong =>
      exact Or.inl ⟨token, htoken, Nat.not_lt.1 hlong, (Except.ok.inj h).symm⟩

theorem served_of_checkGrants {config : ServerConfig} {client : ClientConfig}
    (h : checkGrants config client = .ok ()) :
    ∀ application ∈ client.applications, ∃ s ∈ config.sections, s.application = application := by
  rw [checkGrants] at h
  split at h
  · cases h
  · next hnone =>
    intro application hmem
    have hserved := List.find?_eq_none.1 hnone application hmem
    rw [Bool.not_eq_true', Bool.not_eq_false, List.any_eq_true] at hserved
    obtain ⟨s, hs, hname⟩ := hserved
    exact ⟨s, hs, beq_iff_eq.1 hname⟩

/-- What the loop over the clients leaves, each after those before it. -/
theorem accepted_of_checkClients {config : ServerConfig} {clients : List ClientConfig}
    {names : List String} {anonymous : Nat}
    (h : checkClients config names anonymous clients = .ok ()) (hnames : names.Nodup)
    (hone : anonymous ≤ 1) :
    (names ++ clients.map ClientConfig.name).Nodup ∧
      anonymous + clients.countP (fun c ↦ c.token.isNone) ≤ 1 ∧
        ∀ c ∈ clients, (∀ token, c.token = some token → minTokenLen ≤ token.len) ∧
          (c.token = none → config.allowAnonymous = true) ∧
            ∀ application ∈ c.applications, ∃ s ∈ config.sections, s.application = application := by
  induction clients generalizing names anonymous with
  | nil => exact ⟨by simpa using hnames, hone, fun c hc ↦ absurd hc List.not_mem_nil⟩
  | cons client rest ih =>
    simp only [checkClients] at h
    split at h
    · cases h
    · next hnew =>
      obtain ⟨after, htoken, hthen⟩ := exists_of_bind_eq_ok h
      obtain ⟨⟨⟩, hgrants, hloop⟩ := exists_of_bind_eq_ok hthen
      have hnodup : (names ++ [client.name]).Nodup := List.nodup_append.2
        ⟨hnames, List.nodup_singleton _, fun a ha b hb ↦ by
          rintro rfl
          exact hnew (List.mem_singleton.1 hb ▸ ha)⟩
      have hgranted := served_of_checkGrants hgrants
      rcases checkToken_cases htoken with ⟨token, hsome, hlong, rfl⟩ | ⟨hnone, hallowed, rfl, rfl⟩
      · obtain ⟨hrest, hcount, hall⟩ := ih hloop hnodup hone
        refine ⟨by simpa using hrest, ?_, List.forall_mem_cons.2 ⟨⟨fun t ht ↦ ?_, fun hnone ↦ ?_,
          hgranted⟩, hall⟩⟩
        · rw [List.countP_cons, hsome]
          exact hcount
        · exact Option.some.inj (hsome.symm.trans ht) ▸ hlong
        · rw [hsome] at hnone
          cases hnone
      · obtain ⟨hrest, hcount, hall⟩ := ih hloop hnodup (Nat.le_refl 1)
        refine ⟨by simpa using hrest, ?_, List.forall_mem_cons.2 ⟨⟨fun t ht ↦ ?_, fun _ ↦ hallowed,
          hgranted⟩, hall⟩⟩
        · rw [List.countP_cons, hnone]
          show 0 + (List.countP _ rest + 1) ≤ 1
          omega
        · rw [hnone] at ht
          cases ht

theorem nodup_of_checkTokens {clients : List ClientConfig} (h : checkTokens clients = .ok ()) :
    (clients.filterMap ClientConfig.token).Nodup := by
  induction clients with
  | nil => exact List.nodup_nil
  | cons client rest ih =>
    simp only [checkTokens] at h
    split at h
    · next hnone =>
      rw [List.filterMap_cons_none hnone]
      exact ih h
    · next token htoken =>
      split at h
      · cases h
      · next hnew =>
        rw [List.filterMap_cons_some htoken]
        refine List.nodup_cons.2 ⟨fun hmem ↦ hnew ?_, ih h⟩
        obtain ⟨other, hother, hsame⟩ := List.mem_filterMap.1 hmem
        exact List.any_eq_true.2 ⟨other, hother, beq_iff_eq.2 hsame⟩

/-- **Validation leaves an accepted configuration.** -/
theorem accepted_of_validate {build : Build} {config : ServerConfig}
    (h : config.validate build = .ok ()) : Accepted config := by
  rw [ServerConfig.validate] at h
  split at h
  · cases h
  · split at h
    · cases h
    · obtain ⟨⟨⟩, hsections, h⟩ := exists_of_bind_eq_ok h
      obtain ⟨⟨⟩, hclients, h⟩ := exists_of_bind_eq_ok h
      obtain ⟨⟨⟩, htokens, -⟩ := exists_of_bind_eq_ok h
      obtain ⟨hpaths, hroutable⟩ := nodup_of_checkSections hsections List.nodup_nil
      obtain ⟨hnames, hcount, hall⟩ :=
        accepted_of_checkClients hclients List.nodup_nil (Nat.zero_le 1)
      exact {
        sections := hpaths
        routable := hroutable
        names := hnames
        tokens := nodup_of_checkTokens htokens
        strong := fun c hc ↦ (hall c hc).1
        anonymous := by simpa using hcount
        allowed := fun c hc ↦ (hall c hc).2.1
        granted := fun c hc ↦ (hall c hc).2.2 }

/-! ### The callers of an accepted configuration -/

/-- A client, as who it is and what it may read. -/
def ClientConfig.principal (client : ClientConfig) : Principal := ⟨client.name, client.applications⟩

/-- One client, as `Server::start_with` enters it. -/
def Authenticator.enter (authenticator : Authenticator) (client : ClientConfig) : Authenticator :=
  match client.token with
  | some token => { authenticator with clients := authenticator.clients ++ [(token, client.principal)] }
  | none => { authenticator with anonymous := some client.principal }

/-- The authenticator of a configuration. -/
def ServerConfig.authenticator (config : ServerConfig) : Authenticator :=
  config.clients.foldl Authenticator.enter ⟨[], none⟩

/-- A client with its token. -/
def ClientConfig.entry (client : ClientConfig) : Option (Token × Principal) :=
  client.token.map fun token ↦ (token, client.principal)

theorem clients_foldl_enter (clients : List ClientConfig) (authenticator : Authenticator) :
    (clients.foldl Authenticator.enter authenticator).clients =
      authenticator.clients ++ clients.filterMap ClientConfig.entry := by
  induction clients generalizing authenticator with
  | nil => exact (List.append_nil _).symm
  | cons client clients ih =>
    rw [List.foldl_cons, ih, Authenticator.enter]
    rcases htoken : client.token with - | token
    · have hnone : client.entry = none := by rw [ClientConfig.entry, htoken]; rfl
      rw [List.filterMap_cons_none hnone]
    · have hsome : client.entry = some (token, client.principal) := by
        rw [ClientConfig.entry, htoken]
        rfl
      rw [List.filterMap_cons_some hsome, List.append_assoc]
      rfl

/-- The anonymous principal is a client's. -/
theorem anonymous_foldl_enter {clients : List ClientConfig} {authenticator : Authenticator}
    {principal : Principal}
    (h : (clients.foldl Authenticator.enter authenticator).anonymous = some principal) :
    authenticator.anonymous = some principal ∨
      ∃ client ∈ clients, client.token = none ∧ client.principal = principal := by
  induction clients generalizing authenticator with
  | nil => exact Or.inl h
  | cons client clients ih =>
    rcases ih h with h | ⟨other, hmem, hother⟩
    · rw [Authenticator.enter] at h
      split at h
      · exact Or.inl h
      · next hnone => exact Or.inr ⟨client, List.mem_cons_self, hnone, Option.some.inj h⟩
    · exact Or.inr ⟨other, List.mem_cons_of_mem client hmem, hother⟩

namespace ServerConfig

variable {config : ServerConfig} {header : String} {client : ClientConfig}

theorem mem_clients_authenticator {token : Token} {principal : Principal} :
    (token, principal) ∈ config.authenticator.clients ↔
      ∃ client ∈ config.clients, client.token = some token ∧ client.principal = principal := by
  rw [authenticator, clients_foldl_enter, List.nil_append, List.mem_filterMap]
  refine exists_congr fun client ↦ and_congr_right fun _ ↦ ?_
  rw [ClientConfig.entry, Option.map_eq_some_iff]
  constructor
  · rintro ⟨_, htoken, hpair⟩
    obtain ⟨rfl, hprincipal⟩ := Prod.mk.inj hpair
    exact ⟨htoken, hprincipal⟩
  · rintro ⟨htoken, rfl⟩
    exact ⟨token, htoken, rfl⟩

theorem exists_of_anonymous {principal : Principal}
    (h : config.authenticator.anonymous = some principal) :
    ∃ client ∈ config.clients, client.token = none ∧ client.principal = principal :=
  (anonymous_foldl_enter h).resolve_left fun hnone ↦ (by cases hnone)

theorem nodup_tokens (h : Accepted config) : (config.authenticator.clients.map Prod.fst).Nodup := by
  rw [authenticator, clients_foldl_enter, List.nil_append, List.map_filterMap]
  have hentry : (fun client ↦ (ClientConfig.entry client).map Prod.fst) = ClientConfig.token := by
    funext client
    rw [ClientConfig.entry, Option.map_map]
    exact Option.map_id'
  rw [hentry]
  exact h.tokens

/-- A client is known by its principal. -/
theorem eq_of_principal (h : Accepted config) {other : ClientConfig} (hclient : client ∈ config.clients)
    (hother : other ∈ config.clients) (hsame : other.principal = client.principal) :
    other = client :=
  List.inj_on_of_nodup_map h.names hother hclient (congrArg Principal.name hsame)

/-- The header value authenticates the client. -/
def Authenticates (config : ServerConfig) (header : String) (client : ClientConfig) : Prop :=
  config.authenticator.authenticate (some header) = some client.principal

theorem authenticates_iff (h : Accepted config) (hclient : client ∈ config.clients) :
    Authenticates config header client ↔
      ∃ token, client.token = some token ∧ bearer header = some token.text := by
  rw [Authenticates, Authenticator.authenticate_eq_some_iff (nodup_tokens h)]
  refine exists_congr fun token ↦ and_congr_left fun _ ↦ ?_
  rw [mem_clients_authenticator]
  constructor
  · rintro ⟨other, hother, htoken, hsame⟩
    exact eq_of_principal h hclient hother hsame ▸ htoken
  · exact fun htoken ↦ ⟨client, hclient, htoken, rfl⟩

/-- Whoever a header authenticates is one client, and has a token. -/
theorem existsUnique_of_authenticate (h : Accepted config) {principal : Principal}
    (hprincipal : config.authenticator.authenticate (some header) = some principal) :
    ∃! client, client ∈ config.clients ∧ client.token.isSome = true ∧ client.principal = principal := by
  obtain ⟨token, hmem, -⟩ := Authenticator.authenticate_some hprincipal
  obtain ⟨client, hclient, htoken, rfl⟩ := mem_clients_authenticator.1 hmem
  refine ⟨client, ⟨hclient, by rw [htoken]; rfl, rfl⟩, fun other hother ↦ ?_⟩
  exact eq_of_principal h hclient hother.1 hother.2.2

/-- The client's own token authenticates it, and none but it. -/
def AuthenticatesItself (config : ServerConfig) (client : ClientConfig) (token : Token) : Prop :=
  ∀ other ∈ config.clients, Authenticates config ("Bearer " ++ token.text) other ↔ other = client

/-- **A client of an accepted configuration is authenticated by its token exactly where the token does
not start with white space.** No header authenticates more than one client, or anyone but a client. -/
theorem authenticatesItself_iff (build : Build) (config : ServerConfig)
    (h : config.validate build = .ok ()) :
    (∀ client ∈ config.clients, ∀ token, client.token = some token →
      (AuthenticatesItself config client token ↔
        ∀ c, token.text.toList.head? = some c → Text.isWhitespace c = false)) ∧
    ∀ header principal, config.authenticator.authenticate (some header) = some principal →
      ∃! client, client ∈ config.clients ∧ client.token.isSome = true ∧
        client.principal = principal := by
  have haccepted := accepted_of_validate h
  refine ⟨fun client hclient token htoken ↦ ?_, fun header principal hprincipal ↦
    existsUnique_of_authenticate haccepted hprincipal⟩
  have hne : token.text ≠ "" := by
    intro hempty
    have hstrong := haccepted.strong client hclient token htoken
    rw [Token.len, hempty] at hstrong
    exact absurd hstrong (by decide)
  rw [← bearer_bearer_eq_iff hne]
  constructor
  · intro hitself
    obtain ⟨own, hown, hbearer⟩ :=
      (authenticates_iff haccepted hclient).1 ((hitself client hclient).2 rfl)
    rw [hbearer, Option.some.inj (hown.symm.trans htoken)]
  · intro hbearer other hother
    rw [authenticates_iff haccepted hother]
    constructor
    · rintro ⟨token', htoken', hpresented⟩
      have hsame : token' = token := by
        rw [hbearer] at hpresented
        exact congrArg Token.mk (Option.some.inj hpresented).symm
      -- Two clients with one token would have been refused.
      have hshared := List.inj_on_of_nodup_map (nodup_tokens haccepted)
        (mem_clients_authenticator.2 ⟨other, hother, htoken', rfl⟩)
        (mem_clients_authenticator.2 ⟨client, hclient, htoken, rfl⟩) hsame
      exact eq_of_principal haccepted hclient hother (Prod.mk.inj hshared).2
    · rintro rfl
      exact ⟨token, htoken, hbearer⟩

end ServerConfig

/-- A roster of two, one for each token, and one section they may read. -/
def twoClients (first second : String) : ServerConfig where
  sections := [{ application := "billing", profile := "prod", files := ["billing.toml"] }]
  clients := [{ name := "one", token := some ⟨first⟩, applications := ["billing"] },
    { name := "two", token := some ⟨second⟩, applications := ["billing"] }]

/-- A build without TLS, on a machine that reads the default address. -/
def plainBuild : Build := ⟨false, fun bind ↦ if bind = "127.0.0.1:8080" then some true else none⟩

/-- Tokens without white space authenticate their clients. -/
theorem authenticatesItself_of_twoClients :
    (twoClients "0123456789abcdef0123456789abcdef" "fedcba9876543210fedcba9876543210").AuthenticatesItself
      { name := "one", token := some ⟨"0123456789abcdef0123456789abcdef"⟩, applications := ["billing"] }
      ⟨"0123456789abcdef0123456789abcdef"⟩ := by
  have hitself := (ServerConfig.authenticatesItself_iff plainBuild
    (twoClients "0123456789abcdef0123456789abcdef" "fedcba9876543210fedcba9876543210")
    (by decide +kernel)).1 _ List.mem_cons_self _ rfl
  refine hitself.2 fun c hc ↦ ?_
  obtain rfl : '0' = c := Option.some.inj hc
  rfl

/-- **A token that starts with a space is let through, and is the other client's once it is presented.** -/
theorem not_authenticatesItself : ¬ ∀ (build : Build) (config : ServerConfig),
    config.validate build = .ok () → ∀ client ∈ config.clients, ∀ token, client.token = some token →
      config.AuthenticatesItself client token := by
  intro hall
  have hitself := hall plainBuild
    (twoClients " 0123456789abcdef0123456789abcdef" "0123456789abcdef0123456789abcdef")
    (by decide +kernel) _ List.mem_cons_self _ rfl
  have hother : ServerConfig.Authenticates
      (twoClients " 0123456789abcdef0123456789abcdef" "0123456789abcdef0123456789abcdef")
      ("Bearer " ++ " 0123456789abcdef0123456789abcdef")
      { name := "two", token := some ⟨"0123456789abcdef0123456789abcdef"⟩, applications := ["billing"] } := by
    show Authenticator.authenticate _ _ = _
    decide +kernel
  exact absurd ((hitself _ (List.mem_cons_of_mem _ List.mem_cons_self)).1 hother) (by decide)

end DynamicConfig.Server
