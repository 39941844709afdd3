import DynamicConfig.Loader.Isolation
import DynamicConfig.Server.Document
import DynamicConfig.Server.Endpoints
import DynamicConfig.Stores.Documents

/-!
# Reading from a config server

The other half of the server: a remote source that fetches a document and hands it to the engine. The
answer is an envelope, and the document is its `config` member, rendered once more; the engine parses
that text and, since the document has no section header, files the whole of it under one section.

serde_json is a parameter, `Wire`, of which nothing is assumed but that it inverts itself on the two
trees that travel. What arrives is then what was served (`resolves_served`), with two exceptions that
are the client's own: an answer past a bound on its size is refused, and a `$schema` at the root is an
editor's and no value.
-/

namespace DynamicConfig.Server

/-! ### What travels -/

/-- serde_json, and the names of the status codes. -/
structure Wire where
  /-- `serde_json::to_string`. -/
  render : Value → Option String
  /-- `serde_json::from_str`. -/
  parse : String → Option Value
  /-- `Display` of a `StatusCode`. -/
  showStatus : Nat → String

/-- What is rendered of a tree is read back as the tree. -/
def Wire.Inverts (wire : Wire) (refused : Int → FigmentError) (value : Value) : Prop :=
  ∃ text, wire.render value = some text ∧ ∀ read, json refused value = .ok read →
    wire.parse text = some read

/-- The status and the body of an answer, as they arrive. -/
structure Reply where
  status : Nat
  body : ByteArray

/-- What is sent of a response that carries JSON. -/
def Response.reply (wire : Wire) (response : Response) : Option Reply :=
  match response.body with
  | .json value => (wire.render value).map fun text ↦ ⟨response.status, text.toUTF8⟩
  | .events _ => none

namespace Client

/-! ### One fetch -/

/-- How much of a response body is read before it is refused. -/
def mostBytes : Nat := 1024 * 1024

/-- `Error::auth`. -/
def authError (message : String) : Error := { kind := .auth, message }

def isSuccess (status : Nat) : Bool := decide (200 ≤ status ∧ status < 300)

/-- What a status other than a success means to the loop above: waiting does not fix a credential. -/
def refused (wire : Wire) (status : Nat) (described : String) : Error :=
  if status = 401 then
    authError (described ++ ": the server refused the credential (401); this client presented no " ++
      "bearer token, or one the server's roster does not have")
  else if status = 403 then
    authError (described ++ ": the server refused the credential (403)")
  else if status = 404 then
    authError (described ++ ": the server answered 404, which it uses for both `this caller may not " ++
      "read that` and `no such application and profile` — check the grant and the " ++
      "section, because waiting will not change either")
  else Error.remote (described ++ ": the server answered " ++ wire.showStatus status)

/-- The whole body, refused past `limit`. -/
def body (reply : Reply) (limit : Nat) (described : String) : Except Error ByteArray :=
  if reply.body.size ≤ limit then .ok reply.body
  else .error (Error.remote (described ++ ": the response body could not be read, or was longer than " ++
    toString limit ++ " bytes"))

/-- A member of an object. -/
def member (key : String) : Value → Option Value
  | .table entries => entries.lookup key
  | .array _ | .scalar _ => none

/-- The `config` member of the server's envelope, re-rendered. -/
def extract (wire : Wire) (text described : String) : Except Error String :=
  match wire.parse text with
  | none => .error (Error.remote (described ++ ": the answer is not JSON"))
  | some envelope =>
    match member "config" envelope with
    | none => .error (Error.remote (described ++ ": the answer carries no `config` member; is this a " ++
        "config server?"))
    | some document =>
      match wire.render document with
      | none => .error (Error.remote (described ++ ": the document will not re-render"))
      | some text => .ok text

/-- What is made of the bytes of an answer. -/
def fetchedOf (wire : Wire) (described : String) (bytes : ByteArray) : Except Error Fetched :=
  match String.fromUTF8? bytes with
  | none => .error (Error.remote (described ++ ": the document is not UTF-8"))
  | some text => (extract wire text described).map fun document ↦ ⟨document, .json⟩

/-- One fetch, from the answer on. -/
def read (wire : Wire) (described : String) (reply : Reply) : Except Error Fetched :=
  if isSuccess reply.status then (body reply mostBytes described).bind (fetchedOf wire described)
  else .error (refused wire reply.status described)

/-- A load whose only source is the config server, read as a whole document. -/
def wholeSpec (key : String) (fetched : Fetched) (describe : Option String) : LoadSpec :=
  { key, remote := some ⟨some fetched, describe⟩, wholeDocument := true }

end Client

/-! ### What the client resolves -/

/-- A document without one of the keys at its root. -/
def Document.without (key : String) : Document → Document
  | .table entries => .table (Entries.erase key entries)
  | .array items => .array items
  | .scalar s => .scalar s

/-- A server that answers a request from what it has loaded. -/
structure Serves (Fig : Type) [Figment Fig] (host : Host) (spec : LoadSpec)
    (refused : Int → FigmentError) (server : Server) (headers : HeaderMap)
    (application profile : String) (admitted : Admitted) (document : Document) : Prop where
  resolves : load Fig host spec (readDocument refused) = .ok document
  opens : admission server headers application profile "document" = .ok admitted
  installed : admitted.section_.current = some document

/-- serde_json inverts itself on the document and on its envelope, and figment reads with it. -/
structure Faithful (wire : Wire) (refused : Int → FigmentError) (host : Host) (served : Section)
    (document : Document) : Prop where
  inverts : wire.Inverts refused document
  inverts_envelope : wire.Inverts refused (documentBody served served.generation document)
  reads : ∀ text entries, wire.parse text = some (.table entries) →
    Reads (host.textProvider .json text) (nodesOf entries)

/-- What a client resolves of an answer. -/
def Resolves (Fig : Type) [Figment Fig] (host : Host) (wire : Wire) (described key : String)
    (describe : Option String) (reply : Reply) (document : Document) : Prop :=
  ∃ fetched resolved, Client.read wire described reply = .ok fetched ∧
    snapshot Fig host (Client.wholeSpec key fetched describe) = .ok resolved ∧
      Node.value resolved.root = document

section Resolves

variable {host : Host} {wire : Wire} {refused : Int → FigmentError}

/-- A whole document is resolved as it is parsed, but for what an editor put at its root. -/
theorem snapshot_wholeSpec (Fig : Type) [Figment Fig] [LawfulFigment Fig] {text : String}
    {document : Dict} (key : String) (describe : Option String)
    (hreads : Reads (host.textProvider .json text) document) :
    ∃ resolved, snapshot Fig host (Client.wholeSpec key ⟨text, .json⟩ describe) = .ok resolved ∧
      valuesOf resolved = valuesOf (Entries.erase schemaKey document) := by
  obtain ⟨profile, hdata⟩ := hreads
  let p := named (sections (host.textProvider .json text) ⟨some key⟩)
    (remotePrefix ++ describe.getD "(unnamed)") none
  have hbuild : build host (Client.wholeSpec key ⟨text, .json⟩ describe) =
      .ok (Figment.merge (Figment.new : Fig) p) := rfl
  have hp : p.data = .ok [(sectionProfile key, Entries.erase schemaKey document)] := by
    show (sections (host.textProvider .json text) ⟨some key⟩).data = _
    rw [sections, hdata]
    rfl
  let tables : Profile → Dict := fun q ↦ LabelledTree.mergeTables []
    (suppliedTable p.metadata [(sectionProfile key, Entries.erase schemaKey document)] q)
  have hmerged : Figment.data (applyAliases (Figment.merge (Figment.new : Fig) p)
      (Client.wholeSpec key ⟨text, .json⟩ describe)) = .ok tables := by
    show (Figment.stack (Figment.merge (Figment.new : Fig) p)).values = _
    rw [LawfulFigment.stack_merge, LawfulFigment.stack_new]
    show mergeData (.ok fun _ ↦ []) p = _
    simp only [mergeData, hp]
    rfl
  refine ⟨_, snapshot_of_data hbuild hmerged, ?_⟩
  show valuesOf (combine (sectionProfile key) tables) = _
  rw [combine, isCustom_sectionProfile, if_pos rfl]
  simp only [tables, LabelledTree.mergeTables_nil_left]
  rw [suppliedTable_of_ne _ (default_ne_sectionProfile key),
    suppliedTable_of_ne _ (global_ne_sectionProfile key), suppliedTable_self,
    LabelledTree.mergeTables_nil_left, LabelledTree.mergeTables_nil_right, valuesOf_mapTagEntries]

/-- The envelope, as serde_json reads it back: its members are in order. -/
theorem json_documentBody (served : Section) {generation : Nat} {document : Document}
    (hdocument : IsJson document) (hgeneration : generation < 2 ^ 64) :
    json refused (documentBody served generation document) =
      .ok (.table [("application", string served.application), ("config", document),
        ("generation", .scalar (.int generation)), ("profile", string served.profile)]) := by
  have hfits : fits (generation : Int) = true := by
    rw [fits, decide_eq_true_eq]
    omega
  have hnumber : json refused (.scalar (.int generation)) = .ok (.scalar (.int generation)) :=
    json_of_isJson hfits
  rw [documentBody, json, jsonEntries, jsonEntries, jsonEntries, jsonEntries, jsonEntries, hnumber,
    json_of_isJson hdocument]
  rfl

/-- The client takes the document out of the envelope. -/
theorem read_reply {document : Document} {envelope text : String} {entries : List (String × Value)}
    {described : String} (hconfig : entries.lookup "config" = some document)
    (henvelope : wire.parse envelope = some (.table entries))
    (hrender : wire.render document = some text) (hsize : envelope.toUTF8.size ≤ Client.mostBytes) :
    Client.read wire described ⟨200, envelope.toUTF8⟩ = .ok ⟨text, .json⟩ := by
  have hvalid : String.fromUTF8? envelope.toUTF8 = some envelope := dif_pos envelope.isValidUTF8
  have hextract : Client.extract wire envelope described = .ok text := by
    simp only [Client.extract, henvelope, Client.member, hconfig, hrender]
  have hbody : Client.body ⟨200, envelope.toUTF8⟩ Client.mostBytes described = .ok envelope.toUTF8 :=
    if_pos hsize
  rw [Client.read, if_pos (by rfl : Client.isSuccess 200 = true), hbody]
  show (Client.fetchedOf wire described envelope.toUTF8) = _
  simp only [Client.fetchedOf, hvalid, hextract]
  rfl

/-- An answer past the bound is refused, and the refusal is not the credential's. -/
theorem read_reply_of_lt {reply : Reply} {described : String} (hok : Client.isSuccess reply.status = true)
    (hsize : Client.mostBytes < reply.body.size) :
    ∃ error, Client.read wire described reply = .error error ∧ error.kind = .remote := by
  have hread : Client.read wire described reply = .error (Error.remote (described ++
      ": the response body could not be read, or was longer than " ++ toString Client.mostBytes ++
        " bytes")) := by
    rw [Client.read, if_pos hok, Client.body, if_neg (not_le.2 hsize)]
    rfl
  exact ⟨_, hread, rfl⟩

/-- What a load reads is read of some table. -/
theorem exists_of_load {T Fig : Type} [Figment Fig] [LawfulFigment Fig] {host : Host} {spec : LoadSpec}
    {read : Dict → Except FigmentError T} {value : T} (h : load Fig host spec read = .ok value) :
    ∃ table, read table = .ok value := by
  obtain ⟨figment, -, hextract⟩ := exists_of_bind_eq_ok h
  have hread := Lifecycle.ok_of_mapError hextract
  rw [LawfulFigment.extract_eq, Stack.extract] at hread
  obtain ⟨table, -, hvalue⟩ := exists_of_bind_eq_ok hread
  exact ⟨table, hvalue⟩

/-- **What a server installed, a client resolves**, without the `$schema` an editor may have put at
its root, unless the answer is longer than what the client reads. -/
theorem resolves_served (Fig : Type) [Figment Fig] [LawfulFigment Fig] {FigS : Type} [Figment FigS]
    [LawfulFigment FigS] {hostS : Host} {spec : LoadSpec} {server : Server} {headers : HeaderMap}
    {application profile : String} {admitted : Admitted} {document : Document}
    (hserves : Serves FigS hostS spec refused server headers application profile admitted document)
    (hfaithful : Faithful wire refused host admitted.section_ document)
    (key described : String) (describe : Option String) :
    ∃ reply, (Server.document server headers application profile).response.reply wire = some reply ∧
      (reply.body.size ≤ Client.mostBytes →
        Resolves Fig host wire described key describe reply (document.without schemaKey)) ∧
      (Client.mostBytes < reply.body.size → ∃ error,
        Client.read wire described reply = .error error ∧ error.kind = .remote) := by
  obtain ⟨values, hvalues⟩ := exists_of_load hserves.resolves
  obtain ⟨entries, rfl, hentries⟩ := exists_of_readDocument hvalues
  obtain ⟨text, hrender, hparse⟩ := hfaithful.inverts
  obtain ⟨envelope, hwritten, hparsed⟩ := hfaithful.inverts_envelope
  have hreply : (Server.document server headers application profile).response.reply wire =
      some ⟨200, envelope.toUTF8⟩ := by
    have hanswer : (Server.document server headers application profile).response =
        ok (.json (documentBody admitted.section_ admitted.section_.generation (.table entries))) := by
      rw [Server.document, hserves.opens]
      simp only [Section.installed, hserves.installed, Option.map_some]
    rw [hanswer]
    show Option.map _ (wire.render _) = _
    rw [hwritten]
    rfl
  refine ⟨_, hreply, fun hsize ↦ ?_, fun hsize ↦ read_reply_of_lt (by rfl) hsize⟩
  have hfound := hparsed _ (json_documentBody _ hentries admitted.section_.status.generation_lt)
  obtain ⟨resolved, hresolved, hsame⟩ := snapshot_wholeSpec Fig key describe
    (hfaithful.reads text entries (hparse _ (json_of_isJson hentries)))
  refine ⟨_, resolved, read_reply (by rfl) hfound hrender hsize, hresolved, ?_⟩
  show Value.table (valuesOf resolved) = Value.table (Entries.erase schemaKey entries)
  rw [hsame, erase_nodesOf, valuesOf_nodesOf]

end Resolves

/-! ### One document -/

/-- The text of the envelope, of the text of the document. -/
def envelopeText (document : String) : String :=
  "\x7b\"application\":\"billing\",\"profile\":\"prod\",\"generation\":1,\"config\":" ++ document ++
    "\x7d"

/-- serde_json, on one document and its envelope. -/
def wireOf (document : Document) (text : String) : Wire where
  render
    | .table [_, _, _, _] => some (envelopeText text)
    | _ => some text
  parse t :=
    if t = text then some document
    else if t = envelopeText text then
      some (.table [("application", string "billing"), ("config", document),
        ("generation", .scalar (.int 1)), ("profile", string "prod")])
    else none
  showStatus := toString

/-- A machine whose figment reads with serde_json. -/
def hostOf (wire : Wire) : Host :=
  { Host.bare with
    textProvider := fun _ text ↦
      Provider.table (Metadata.named inlineSuffix) Profile.default
        (match wire.parse text with
          | some (.table entries) => nodesOf entries
          | _ => []) }

/-- A server whose `billing` section has installed a document. -/
def billingServer (document : Document) : Server :=
  { demoServer with sections := [(("billing", "prod"), demoSection "billing" document)] }

def billingHeaders : HeaderMap :=
  withAuthorization (asBytes "Bearer 0123456789abcdef0123456789abcdef")

def billingAdmitted (document : Document) : Admitted :=
  ⟨⟨"billing-pod", ["billing"]⟩, demoSection "billing" document, "document"⟩

def unservable (whole : Int) : FigmentError := { kind := .message (toString whole) }

/-- A document served from what a file holds under `billing`. -/
theorem serves_of_load (entries : List (String × Value)) (document : Document)
    (hload : load Stack (reading [("billing", .node none (nodesOf entries))])
      { key := "billing", sources := [.inline "" .json] } (readDocument unservable) = .ok document) :
    Serves Stack (reading [("billing", .node none (nodesOf entries))])
      { key := "billing", sources := [.inline "" .json] } unservable (billingServer document)
      billingHeaders "billing" "prod" (billingAdmitted document) document := by
  have hcaller : demoConfig.authenticator.authenticate (authorization billingHeaders) =
      some ⟨"billing-pod", ["billing"]⟩ := by decide +kernel
  exact ⟨hload, admission_eq_ok_iff.2 ⟨hcaller, ⟨by decide +kernel, by rfl, rfl⟩, rfl, rfl⟩, rfl⟩

/-- The client's side, of a document of fewer than four keys. -/
theorem faithful_wireOf (document : Document) (text : String) (hdocument : IsJson document)
    (hrender : (wireOf document text).render document = some text) (hne : envelopeText text ≠ text) :
    Faithful (wireOf document text) unservable (hostOf (wireOf document text))
      (demoSection "billing" document) document where
  inverts := ⟨text, hrender, fun read hread ↦ by
    rw [json_of_isJson hdocument] at hread
    rw [← Except.ok.inj hread]
    exact if_pos rfl⟩
  inverts_envelope := ⟨envelopeText text, rfl, fun read hread ↦ by
    have hgeneration := (demoSection "billing" document).status.generation_lt
    rw [← Except.ok.inj ((json_documentBody _ hdocument hgeneration).symm.trans hread)]
    exact (if_neg hne).trans (if_pos rfl)⟩
  reads := fun t entries hparse ↦ ⟨Profile.default, by
    show Except.ok [(Profile.default, _)] = _
    rw [hparse]⟩

def billingDocument : Document := .table [("host", string "db")]

def billingWire : Wire := wireOf billingDocument "\x7b\"host\":\"db\"\x7d"

/-- A document without a `$schema` is resolved as it is. -/
theorem resolves_billing : ∃ reply,
    (Server.document (billingServer billingDocument) billingHeaders "billing" "prod").response.reply
      billingWire = some reply ∧
    (reply.body.size ≤ Client.mostBytes → Resolves Stack (hostOf billingWire) billingWire "config-server"
      "app" none reply (billingDocument.without schemaKey)) ∧
    (Client.mostBytes < reply.body.size → ∃ error,
      Client.read billingWire "config-server" reply = .error error ∧ error.kind = .remote) :=
  resolves_served Stack (serves_of_load [("host", string "db")] _ rfl)
    (faithful_wireOf _ _ ⟨by decide, trivial, trivial⟩ rfl (by decide)) "app" "config-server" none

def schemaDocument : Document := .table [("$schema", string "billing.json"), ("host", string "db")]

/-- **A `$schema` is served, and not resolved.** -/
theorem not_resolves_schema : ¬ ∀ (wire : Wire) (refused : Int → FigmentError) (hostS host : Host)
    (spec : LoadSpec) (server : Server) (headers : HeaderMap) (application profile : String)
    (admitted : Admitted) (document : Document),
    Serves Stack hostS spec refused server headers application profile admitted document →
      Faithful wire refused host admitted.section_ document →
        ∀ (key described : String) (describe : Option String),
          ∃ reply, (Server.document server headers application profile).response.reply wire =
            some reply ∧ Resolves Stack host wire described key describe reply document := by
  intro hall
  have hserves := serves_of_load [("$schema", string "billing.json"), ("host", string "db")]
    schemaDocument rfl
  have hfaithful := faithful_wireOf schemaDocument
    "\x7b\"$schema\":\"billing.json\",\"host\":\"db\"\x7d" ⟨by decide, trivial, trivial, trivial⟩ rfl
    (by decide)
  obtain ⟨reply, hreply, fetched, resolved, hread, hresolved, hvalue⟩ :=
    hall _ _ _ _ _ _ _ _ _ _ _ hserves hfaithful "app" "config-server" none
  obtain ⟨reply', hreply', hsmall, hlarge⟩ :=
    resolves_served Stack hserves hfaithful "app" "config-server" none
  obtain rfl : reply = reply' := Option.some.inj (hreply.symm.trans hreply')
  rcases le_or_gt reply.body.size Client.mostBytes with hsize | hsize
  · obtain ⟨fetched', resolved', hread', hresolved', hvalue'⟩ := hsmall hsize
    obtain rfl : fetched = fetched' := Except.ok.inj (hread.symm.trans hread')
    obtain rfl : resolved = resolved' := Except.ok.inj (hresolved.symm.trans hresolved')
    have hkeys := congrArg List.length (Value.table.inj (hvalue.symm.trans hvalue'))
    exact absurd hkeys (by decide)
  · obtain ⟨error, herror, -⟩ := hlarge hsize
    rw [hread] at herror
    cases herror

end DynamicConfig.Server
