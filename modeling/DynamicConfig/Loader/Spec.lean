import DynamicConfig.Config.Text
import DynamicConfig.Loader.Figment

/-!
# What a load is given

`LoadSpec` is the caller's side of a load: which layers, which section, which prefix. `Host` is the
machine's side: the environment, the files, and the readers of figment that turn them into
providers. A load is a function of the two, and every layer below reads nothing else.

The readers are parameters, since neither a parser nor the disk is this crate's: `fileProvider` is
figment's provider for a file as it stands, `textProvider` the one for text in memory,
`envProvider` the prefixed environment, `parseValue` the reading of a variable's text, `display` the
rendering of an error. What they answer is what the two parties of a load disagree about, so nothing
is assumed of them.
-/

namespace DynamicConfig

/-- A configuration file format. -/
inductive Format where
  | json | toml | yaml
  deriving DecidableEq, Repr

/-- `{format:?}`. -/
def Format.debug : Format → String
  | .json => "Json"
  | .toml => "Toml"
  | .yaml => "Yaml"

/-- `Format::feature`. -/
def Format.feature : Format → String
  | .json => "json"
  | .toml => "toml"
  | .yaml => "yaml"

/-- A document a remote store handed back. -/
structure Fetched where
  text : String
  format : Format
  deriving DecidableEq, Repr

/-- A set of values addressed by dotted path: the runtime layers. The entries are a map ordered by
path, which is the order the paths are written in. -/
structure Layer where
  entries : List (String × Node)
  ordered : (entries.map Prod.fst).Pairwise (· < ·)

namespace Layer

/-- An empty layer. -/
def new : Layer := ⟨[], List.Pairwise.nil⟩

/-- Whether the layer would contribute anything. -/
def isEmpty (layer : Layer) : Bool := layer.entries.isEmpty

/-- Expands the dotted paths into the nested shape the loader wants. -/
def dict (layer : Layer) : Dict :=
  layer.entries.foldl (fun root e ↦ insertPath root e.1 e.2) []

/-- A figment provider emitting this layer under `profile`. -/
def provider (layer : Layer) (profile : Profile) (name : String) : Provider :=
  Provider.table (Metadata.named name) profile layer.dict

theorem insertPath_ne_nil (root : Dict) (path : String) (value : Node) :
    insertPath root path value ≠ [] :=
  LabelledTree.insertPath_ne_nil none root (segments_ne_nil path) value

/-- A layer contributes nothing exactly when it is empty. -/
theorem dict_eq_nil_iff (layer : Layer) : layer.dict = [] ↔ layer.isEmpty = true := by
  have hgrow : ∀ (es : List (String × Node)) (root : Dict), root ≠ [] →
      es.foldl (fun root e ↦ insertPath root e.1 e.2) root ≠ [] := by
    intro es
    induction es with
    | nil => exact fun root h ↦ h
    | cons e es ih => exact fun root _ ↦ ih _ (insertPath_ne_nil root e.1 e.2)
  obtain ⟨entries, -⟩ := layer
  rcases entries with - | ⟨e, es⟩
  · exact iff_of_true rfl rfl
  · exact iff_of_false (hgrow es _ (insertPath_ne_nil [] e.1 e.2)) Bool.false_ne_true

end Layer

/-- Metadata name for the defaults layer. -/
def defaultsName : String := "values set as defaults"

/-- Metadata name for the overrides layer. -/
def overridesName : String := "values set as overrides"

/-- Metadata name for the command-line layer. -/
def flagsName : String := "values set from the command line"

/-- Metadata name for the recovery provider. -/
def cachedName : String := "the last configuration that worked"

/-- The old paths that still resolve, with the path each one is now: a map ordered by old path. -/
structure Aliases where
  pairs : List (String × String)
  ordered : (pairs.map Prod.fst).Pairwise (· < ·)

/-- Fields bound to environment variables by name: a map from path to variable, ordered by path. -/
structure EnvBindings where
  entries : List (String × String)
  ordered : (entries.map Prod.fst).Pairwise (· < ·)

/-- One layer of configuration the caller lists. -/
inductive Source where
  | file (path : String) (format : Format)
  /-- A file whose bytes are ciphertext. `format` describes the plaintext. -/
  | encrypted (path : String) (format : Format)
  | inline (text : String) (format : Format)
  /-- Somebody else's figment provider, merged in place. -/
  | provider (p : Provider)

namespace Source

/-- The file path, if this source is a file, encrypted or not. -/
def path : Source → Option String
  | file p _ | encrypted p _ => some p
  | inline _ _ | provider _ => none

/-- This source's format, for the kinds that parse text. -/
def format : Source → Option Format
  | file _ f | encrypted _ f | inline _ f => some f
  | provider _ => none

end Source

/-- Where to look for configuration files by name. -/
structure Search where
  name : String
  paths : List String

/-- What a load reads of a remote slot: its document, and how its source names itself. -/
structure RemoteSlot where
  document : Option Fetched
  describe : Option String

/-- Separator that introduces one level of nesting in a variable name. -/
def defaultNest : String := "__"

/-- Everything the loader needs: which layers, which section, which environment prefix. -/
structure LoadSpec where
  key : String
  sources : List Source := []
  envPrefix : Option String := none
  search : Option Search := none
  profileEnv : Option String := none
  defaults : Option Layer := none
  remote : Option RemoteSlot := none
  secretsDir : Option String := none
  envFiles : List String := []
  aliases : Option Aliases := none
  envBindings : Option EnvBindings := none
  flags : Option Layer := none
  overrides : Option Layer := none
  nest : String := defaultNest
  allowEmptyEnv : Bool := false
  strictEnv : Bool := false
  wholeDocument : Bool := false

/-- What a load finds on the machine it runs on. -/
structure Host where
  /-- The environment variables whose name and value are UTF-8. -/
  vars : List (String × String)
  /-- `Search::resolve`: the files a search finds, in search order. -/
  discovered : Search → List (String × Format)
  /-- `Json::file(path)` and its siblings; a missing file supplies nothing. -/
  fileProvider : Format → String → Provider
  /-- `Json::string(text)` and its siblings. -/
  textProvider : Format → String → Provider
  /-- The plaintext of an encrypted file, `none` where there is no file. -/
  decrypted : String → Except Error (Option String)
  /-- The files of a secrets directory with their text, in path order, `none` where there is no
  directory. -/
  secretFiles : String → Except Error (Option (List (String × String)))
  /-- The text of a `.env` file, `none` where there is no file. -/
  envFileText : String → Except Error (Option String)
  /-- `Env::prefixed(prefix)`, keeping the stripped names the filter keeps, split at the nesting
  separator and filed under a profile. -/
  envProvider : String → (String → Bool) → String → Profile → Provider
  /-- The loose reading of a variable's text: `text.parse::<Value>()`. -/
  parseValue : String → Node
  /-- figment's `Display` for an error. -/
  display : FigmentError → String

/-- `std::env::var`. -/
def Host.var (host : Host) (name : String) : Option String :=
  host.vars.lookup name

namespace LoadSpec

/-- The active profile, if one is named and set to something. -/
def profile (host : Host) (spec : LoadSpec) : Option String :=
  (spec.profileEnv.bind host.var).bind fun p ↦
    let trimmed := String.ofList (Text.trim p.toList)
    if trimmed = "" then none else some trimmed

/-- The full environment prefix for this section: `"APP_"` and `"db"` make `"APP_DB_"`, and an empty
key contributes nothing. -/
def fullEnvPrefix (spec : LoadSpec) : Option String :=
  spec.envPrefix.map fun start ↦
    if spec.key = "" then start else start ++ Text.upper spec.key ++ "_"

end LoadSpec

end DynamicConfig
