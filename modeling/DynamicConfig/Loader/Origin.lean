import DynamicConfig.Loader.Providers

/-!
# Error translation and origin tracing

How a `figment::Error` becomes the crate's own, with any offending value left out, and how the name
of a provider becomes the origin a diagnostic reports.

figment's `Display` is a parameter, `display`: the crate falls back on it for every kind of error it
does not render itself, and passes what it says through `withoutQuotedSource`, which drops the
document lines a parser echoes back.
-/

namespace DynamicConfig

/-! ### Messages -/

/-- Names what was there without saying what it was. -/
def kindOf : Actual → String
  | .bool _ => "a boolean"
  | .unsigned _ => "an unsigned integer"
  | .signed _ => "a signed integer"
  | .float _ => "a float"
  | .char _ => "a character"
  | .str _ => "a string"
  | .bytes _ => "a byte string"
  | .unit => "a unit"
  | .option => "an option"
  | .newtypeStruct => "a newtype struct"
  | .seq => "a list"
  | .map => "a table"
  | .enum => "an enum"
  | .unitVariant => "a unit variant"
  | .newtypeVariant => "a newtype variant"
  | .tupleVariant => "a tuple variant"
  | .structVariant => "a struct variant"
  | .other _ => "something else"

/-- Whether a line belongs to a rendered excerpt: `  |`, `2 | text`, `  |   ^`. -/
def isGutter (line : List Char) : Bool :=
  let digits := Text.trimStart line
  (Text.trimStart (digits.dropWhile Char.isDigit)).head? == some '|'

/-- Drops the source excerpt a parser echoes back at a syntax error. -/
def withoutQuotedSource (message : String) : String :=
  let kept := (Text.lines message.toList).filter fun line ↦ !isGutter line
  String.ofList (Text.trimEnd (['\n'].intercalate kept))

/-- The message for a figment error, with any offending value left out. -/
def message (display : FigmentError → String) (error : FigmentError) : String :=
  match error.kind with
  | .invalidType actual expected =>
    "invalid type: found " ++ kindOf actual ++ ", expected " ++ expected
  | .invalidValue actual expected =>
    "invalid value: found " ++ kindOf actual ++ ", expected " ++ expected
  | _ => withoutQuotedSource (display error)

/-- Which of this crate's categories a figment failure belongs to. -/
def kindOfError (error : FigmentError) : ErrorKind :=
  match error.kind with
  | .missingField _ => .missing
  | .invalidType _ _ | .invalidValue _ _ | .invalidLength _ _ | .isizeOutOfRange _
  | .usizeOutOfRange _ => .type
  | .message _ => if error.path = [] then .parse else .type
  | _ => .backend

/-- The key path a figment error happened at. -/
def errorPath (error : FigmentError) : List String :=
  if error.path = [] then
    match error.kind with
    | .missingField field => [field]
    | _ => []
  else error.path

/-- A figment error as this crate's, value stripped, provenance not yet known. -/
def translate (display : FigmentError → String) (error : FigmentError) : Error :=
  (errorPath error).foldr (fun segment e ↦ e.prependKey segment)
    { kind := kindOfError error, message := message display error }

/-- The path a translation reads root first is the path of the figment error. -/
theorem translate_eq (display : FigmentError → String) (error : FigmentError) :
    translate display error =
      { kind := kindOfError error, message := message display error, path := errorPath error } := by
  rw [translate]
  generalize errorPath error = segments
  induction segments with
  | nil => rfl
  | cons s ss ih =>
    rw [List.foldr_cons, ih]
    rfl

/-! ### Origins -/

/-- Prefixed onto a remote store's own description. -/
def remotePrefix : String := "the remote store "

/-- How figment names the metadata of a provider built from a string. -/
def inlineSuffix : String := "source string"

/-- How figment names the metadata of its environment provider. -/
def envSuffix : String := "environment variable(s)"

/-- `str::ends_with`. -/
def endsWith (text suffix : String) : Bool :=
  decide (suffix.toList <:+ text.toList)

/-- `str::trim_end_matches`, of a text: drop it from the end for as long as it is there. -/
def trimEndMatches (suffix : List Char) : Nat → List Char → List Char
  | 0, text => text
  | fuel + 1, text =>
    if suffix ≠ [] ∧ suffix <:+ text then
      trimEndMatches suffix fuel (text.take (text.length - suffix.length))
    else text

/-- Pulls the prefix out of ``"`APP_DB_` environment variable(s)"``. -/
def envPrefixOf (name : String) : String :=
  let text := Text.trim (trimEndMatches envSuffix.toList name.toList.length name.toList)
  let inner := ((text.dropWhile (· = '\x60')).reverse.dropWhile (· = '\x60')).reverse
  if inner = [] then "the environment" else String.ofList inner ++ "*"

example : envPrefixOf "\x60APP_DB_\x60 environment variable(s)" = "APP_DB_*" := by decide

/-- Where a provider that describes itself so reads from. -/
def originOf (metadata : Metadata) : Origin :=
  if metadata.name = defaultsName then .runtime "default"
  else if metadata.name = overridesName then .runtime "override"
  else if metadata.name = flagsName then .runtime "command-line flag"
  else if metadata.name = cachedName then .runtime "cached configuration"
  else
    match stripPrefix metadata.name bindingPrefix with
    | some name => .env name
    | none =>
      match stripPrefix metadata.name dotenvPrefix with
      | some file => .file file
      | none =>
        match stripPrefix metadata.name remotePrefix with
        | some store => .remote store
        | none =>
          match metadata.source with
          | some (.file path) => .file path
          | some (.custom name) => .env name
          | some .code => .inline
          | none =>
            if endsWith metadata.name envSuffix then .env (envPrefixOf metadata.name)
            else if endsWith metadata.name inlineSuffix then .inline
            else .unknown

/-- Upgrades a prefix-grained environment origin to the exact variable, where that variable is
set. -/
def refineEnv (host : Host) (origin : Origin) (path : List String) (nest : String) : Origin :=
  match origin with
  | .env start =>
    if endsWith start "*" ∧ path ≠ [] then
      let stem := String.ofList start.toList.dropLast
      let spelled := (Text.upper nest).toList.intercalate (path.map fun s ↦ (Text.upper s).toList)
      let name := stem ++ String.ofList spelled
      if (host.var name).isSome then .env name else origin
    else origin
  | _ => origin

/-- Translates a figment error, preserving the key path and the source. -/
def convert (host : Host) (spec : LoadSpec) (error : FigmentError) : Error :=
  let origin := refineEnv host ((error.metadata.map originOf).getD .unknown) (errorPath error)
    spec.nest
  (translate host.display error).withOrigin origin

/-- Adding the origin changes nothing else of an error. -/
theorem convert_eq (host : Host) (spec : LoadSpec) (error : FigmentError) :
    ∃ origin, convert host spec error =
      { kind := kindOfError error, message := message host.display error, path := errorPath error,
        origin } := by
  rw [convert, translate_eq, Error.withOrigin]
  split
  · exact ⟨_, rfl⟩
  · exact ⟨_, rfl⟩

end DynamicConfig
