import DynamicConfig.Loader.Recover

/-!
# The cache document

After a load that worked, the resolved section goes to disk for a start that does not: whole, without
the declared secrets, or as a hash and the names of its keys. `write` builds the document and says in
which format it is to be rendered; the rendering and the file are not modelled, and neither is the
hash, which is the parameter `hash`.

Every document carries a table under a key of its own that names what it is, inserted after the
secrets are gone.
-/

namespace DynamicConfig

/-! ### Snapshots -/

/-- The resolved section of a load: `loader::snapshot`. -/
def snapshot (Fig : Type) [Figment Fig] (host : Host) (spec : LoadSpec) : Except Error Dict := do
  let figment : Fig ← merged host spec
  resolvedTable host spec figment

/-- A snapshot is the section of the figment the alias pass leaves. -/
theorem snapshot_of_data {Fig : Type} [Figment Fig] [LawfulFigment Fig] {host : Host}
    {spec : LoadSpec} {figment : Fig} {tables : Profile → Dict}
    (hbuild : build host spec = .ok figment)
    (hdata : Figment.data (applyAliases figment spec) = .ok tables) :
    snapshot Fig host spec = .ok (combine (sectionProfile spec.key) tables) :=
  load_of_data hbuild hdata fun table ↦ .ok table

mutual

/-- The dotted paths of the leaves under a value that sits at a path. -/
def leavesOf (path : List String) : Node → List String
  | .leaf _ _ => [joined path]
  | .node _ [] => [joined path]
  | .node _ (e :: es) => leavesIn path (e :: es)

/-- The dotted paths of the leaves of a table that sits at a path: `collect_leaves`. An empty table
counts as a leaf. -/
def leavesIn (path : List String) : Dict → List String
  | [] => []
  | (key, value) :: es => leavesOf (path ++ [key]) value ++ leavesIn path es

end

/-- `Snapshot::leaf_paths`. -/
def leafPaths (values : Dict) : List String := leavesIn [] values

/-! ### The three modes -/

/-- How much of a configuration to keep on disk. -/
inductive CacheMode where
  | full | redacted | fingerprint
  deriving DecidableEq, Repr

/-- The name a cache document carries of its mode. -/
def CacheMode.name : CacheMode → String
  | full => "full"
  | redacted => "redacted"
  | fingerprint => "fingerprint"

/-- The key a cache document is written under. -/
def cachedKey : String := "cached"

/-- The marker every cache document carries, naming what it is. -/
def marker : String := "__dynamic_config_cache"

/-- What the marker says. -/
def markerTable (mode : CacheMode) : Dict :=
  [("mode", Node.text mode.name), ("version", Node.scalar (.int 1))]

/-- Removes the value at a dotted path, if the path leads anywhere: `remove_path`, whose splits at
the first dot, one after the other, are the segments of the path. -/
def removePath (document : Dict) (path : String) : Dict :=
  LabelledTree.erasePath document (segments path)

/-- The document, minus every secret the type declared. -/
def without (values : Dict) (secrets : List String) : Dict :=
  secrets.foldl removePath values

/-- A hash of the values, plus the key names. -/
def fingerprintDocument (hash : Dict → String) (values : Dict) : Dict :=
  [("fingerprint", Node.text (hash values)),
    ("keys", .leaf none (.array ((leafPaths values).map fun key ↦ .scalar (.string key))))]

/-- The document of a mode, with the marker in it. -/
def cacheDocument (hash : Dict → String) (mode : CacheMode) (values : Dict)
    (secrets : List String) : Dict :=
  let document :=
    match mode with
    | .full => values
    | .redacted => without values secrets
    | .fingerprint => fingerprintDocument hash values
  Entries.insert marker (.node none (markerTable mode)) document

/-! ### Formats -/

/-- `Format::from_extension`. -/
def Format.fromExtension (extension : String) : Option Format :=
  if Text.lower extension = "json" then some .json
  else if Text.lower extension = "toml" then some .toml
  else if Text.lower extension = "yaml" ∨ Text.lower extension = "yml" then some .yaml
  else none

/-- `Path::extension`. -/
def extension (path : String) : Option String :=
  ((fileName path.toList).bind fun e ↦ stemAndExtension e.2).map fun e ↦ String.ofList e.2

/-- An error for a file whose extension names no supported format. -/
def Error.unsupported (path : String) : Error where
  kind := .backend
  message := "the extension names no supported format; expected `.json`, `.toml`, `.yaml` or `.yml`"
  origin := .file path

/-- The format a cache path names. A path that promises ciphertext is refused. -/
def formatOf (path : String) : Except Error Format :=
  if extension path = some encryptedSuffix then
    .error
      { kind := .backend
        message := path ++ " ends in `.age`, but the last-known-good cache is written in " ++
          "plaintext; give the cache an unencrypted name" }
  else
    match (extension path).bind Format.fromExtension with
    | some format => .ok format
    | none => .error (Error.unsupported path)

/-- The format under the encryption suffix: `last.json.age` is JSON. -/
def encryptedFormatOf (path : String) : Except Error Format :=
  match innerName path.toList with
  | some inner => formatOf (String.ofList inner)
  | none =>
    .error
      { kind := .backend
        message := "an encrypted cache path carries the format under the encryption suffix — " ++
          "`last.json." ++ encryptedSuffix ++ "`, not `" ++ path ++ "`" }

example : formatOf "/var/lib/app/last.json" = .ok .json := by decide

/-! ### Writing -/

/-- A document on its way to disk: in what format, whether through the encryptor, and the tree. -/
structure Written where
  format : Format
  encrypted : Bool
  document : Dict

/-- The section a document carries. -/
def Written.section (written : Written) : Dict :=
  match written.document.lookup cachedKey with
  | some (.node _ values) => values
  | _ => []

/-- Writes a snapshot's values in a mode: `cache::write`. -/
def write (hash : Dict → String) (values : Dict) (path : String) (mode : CacheMode)
    (secrets : List String) : Except Error Written := do
  let format ← formatOf path
  .ok { format, encrypted := false
        document := [(cachedKey, .node none (cacheDocument hash mode values secrets))] }

/-- `cache::write_encrypted`: always the whole document. -/
def writeEncrypted (hash : Dict → String) (values : Dict) (path : String) :
    Except Error Written := do
  let format ← encryptedFormatOf path
  .ok { format, encrypted := true
        document := [(cachedKey, .node none (cacheDocument hash .full values []))] }

/-- What a builder knows of its cache. -/
structure CacheSpec where
  cache : Option (String × CacheMode) := none
  /-- The declared secrets, where anything has declared them. -/
  secrets : Option (List String) := none
  /-- Whether an encryptor is installed for the cache. -/
  encryptor : Bool := false

/-- `Builder::write_cache`: what goes to disk after a load, if anything does. A mode that depends on
the secrets writes nothing where nobody has declared them. -/
def writeCache (Fig : Type) [Figment Fig] (hash : Dict → String) (host : Host) (spec : LoadSpec)
    (builder : CacheSpec) : Except Error (Option Written) :=
  match builder.cache with
  | none => .ok none
  | some (path, mode) =>
    if mode ≠ .full ∧ builder.secrets = none then .ok none
    else do
      let values ← snapshot Fig host spec
      let written ← (if builder.encryptor then writeEncrypted hash values path
        else write hash values path mode (builder.secrets.getD []))
      .ok (some written)

/-! ### What is written -/

section Written

variable {hash : Dict → String} {values : Dict} {path : String} {mode : CacheMode}
  {secrets : List String} {written : Written}

/-- A plain document carries the section its mode makes of the values. -/
theorem section_of_write (h : write hash values path mode secrets = .ok written) :
    written.section = cacheDocument hash mode values secrets := by
  obtain ⟨format, -, hformat⟩ := exists_of_bind_eq_ok h
  rw [← Except.ok.inj hformat]
  rfl

/-- Removing secrets one by one is removing their paths. -/
theorem without_eq_erasePaths (values : Dict) (secrets : List String) :
    without values secrets = LabelledTree.erasePaths values (secrets.map segments) := by
  rw [without, LabelledTree.erasePaths, List.foldl_map]
  rfl

end Written

/-- **What a builder writes without an encryptor**: the document of its mode, made of the snapshot. -/
theorem writeCache_plain {Fig : Type} [Figment Fig] {hash : Dict → String} {host : Host}
    {spec : LoadSpec} {path : String} {mode : CacheMode} {secrets : List String}
    {written : Written}
    (h : writeCache Fig hash host spec { cache := some (path, mode), secrets := some secrets } =
      .ok (some written)) :
    ∃ values, snapshot Fig host spec = .ok values ∧
      written.section = cacheDocument hash mode values secrets := by
  have hdeclared : ¬ (mode ≠ .full ∧ some secrets = none) := fun hnone ↦
    Option.some_ne_none secrets hnone.2
  rw [writeCache] at h
  dsimp only at h
  rw [if_neg hdeclared] at h
  obtain ⟨values, hsnapshot, h⟩ := exists_of_bind_eq_ok h
  obtain ⟨document, hwrite, h⟩ := exists_of_bind_eq_ok h
  obtain rfl := Option.some.inj (Except.ok.inj h)
  exact ⟨values, hsnapshot, section_of_write hwrite⟩

end DynamicConfig
