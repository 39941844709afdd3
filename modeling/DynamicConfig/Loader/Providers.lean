import Mathlib
import DynamicConfig.Config.UnixPath
import DynamicConfig.Loader.Spec

/-!
# The providers of a load

Each layer of the precedence order is a list of providers: one per file, per mounted secret, per
`.env` file, per binding; one for the environment and for each runtime layer. This module builds
them, from the specification and the host, as the sources of the crate do.

The crate's own mapping of documents to sections is `Sections`: a document is parsed whole, and each
of its top-level tables is filed under the profile of a section, or the whole of it under the one
section the specification names. Foreign providers keep their own data, with the section prefix
applied for them and the two reserved profiles let through.
-/

namespace DynamicConfig

/-! ### Documents and their sections -/

/-- The key an editor uses to find a schema, tolerated at the top level. -/
def schemaKey : String := "$schema"

/-- Where one document's values live: under section headers, or at its root. -/
structure Layout where
  /-- The one section all of each document is filed under, or `none` for sectioned documents. -/
  whole : Option String

/-- What a specification says its documents look like. -/
def Layout.of (spec : LoadSpec) : Layout :=
  ⟨if spec.wholeDocument then some spec.key else none⟩

/-- The message for a top-level key that is not a table. -/
def notATable (key : String) : String :=
  "top-level key `" ++ key ++ "` is not a table; every top-level key in a config file is a " ++
    "section, so a value there must be a table (`" ++ schemaKey ++ "` is the one exception). If " ++
    "this file is not sectioned — if the whole of it is one configuration — read it with " ++
    "`.whole_document()`"

/-- One sectioned document: every top-level table under its section's profile. A later key of the
same profile replaces an earlier one, as inserting into the map does. -/
def sectionsOf (sections : List (Profile × Dict)) :
    Dict → Except FigmentError (List (Profile × Dict))
  | [] => .ok sections
  | (key, value) :: document =>
    if key = schemaKey then sectionsOf sections document
    else
      match value with
      | .node _ dict => sectionsOf (Entries.insert (sectionProfile key) dict sections) document
      | .leaf _ _ => .error { kind := .message (notATable key) }

/-- `Sections::data` over the documents the inner provider answers with. -/
def sectionsData (layout : Layout) (sections : List (Profile × Dict)) :
    List (Profile × Dict) → Except FigmentError (List (Profile × Dict))
  | [] => .ok sections
  | (_, document) :: documents =>
    match layout.whole with
    | some key =>
      sectionsData layout
        (Entries.insert (sectionProfile key) (Entries.erase schemaKey document) sections) documents
    | none =>
      match sectionsOf sections document with
      | .ok sections => sectionsData layout sections documents
      | .error e => .error e

/-- `Sections::new`: a document's provider with its top-level keys promoted to sections. -/
def sections (inner : Provider) (layout : Layout) : Provider where
  metadata := inner.metadata
  data :=
    match inner.data with
    | .ok documents => sectionsData layout [] documents
    | .error e => .error e

/-- `Named`: someone else's data under its own name. -/
def named (inner : Provider) (name : String) (file : Option String) : Provider :=
  { inner with metadata := { name, source := file.map MetadataSource.file } }

/-- `Foreign`: a provider's own profiles, each as the section of that name. -/
def foreign (inner : Provider) : Provider :=
  { inner with
    data := inner.data.map fun data ↦ data.map fun e ↦
      if e.1.isCustom then (sectionProfile e.1.name, e.2) else e }

/-! ### Profile variants -/

/-- The suffix that marks a config file as encrypted. -/
def encryptedSuffix : String := "age"

/-- The characters of a name before and after its last dot, where the dot does not lead the name:
`Path::file_stem` and `Path::extension`. -/
def stemAndExtension (name : List Char) : Option (List Char × List Char) :=
  let afterDot := (name.reverse.takeWhile (· ≠ '.')).reverse
  let stem := name.dropLast.take (name.length - afterDot.length - 1)
  if '.' ∈ name ∧ stem ≠ [] ∧ name ≠ ['.', '.'] then some (stem, afterDot) else none

/-- What stands around the last dot. -/
theorem stemAndExtension_around {stem rest : List Char} (hrest : '.' ∉ rest) :
    stemAndExtension (stem ++ '.' :: rest) =
      if stem ≠ [] ∧ stem ++ '.' :: rest ≠ ['.', '.'] then some (stem, rest) else none := by
  have hback : (stem ++ '.' :: rest).reverse = rest.reverse ++ '.' :: stem.reverse := by simp
  have hall : ∀ c ∈ rest.reverse, decide (c ≠ '.') = true := fun c hc ↦
    decide_eq_true fun h ↦ hrest (h ▸ List.mem_reverse.1 hc)
  have hafter : ((stem ++ '.' :: rest).reverse.takeWhile (· ≠ '.')).reverse = rest := by
    rw [hback, List.takeWhile_append_of_pos hall, List.takeWhile_cons_of_neg (by simp),
      List.append_nil, List.reverse_reverse]
  have htake : (stem ++ '.' :: rest).dropLast.take
      ((stem ++ '.' :: rest).length - rest.length - 1) = stem := by
    have hlength : (stem ++ '.' :: rest).length - rest.length - 1 = stem.length := by
      simp only [List.length_append, List.length_cons]
      omega
    rw [hlength, List.dropLast_append_of_ne_nil (List.cons_ne_nil _ _), List.take_left]
  have hdot : '.' ∈ stem ++ '.' :: rest := by simp
  rw [stemAndExtension]
  simp only [hafter, htake]
  exact if_congr (and_iff_right hdot) rfl rfl

/-- What stands behind the last dot of a name is its extension. -/
theorem stemAndExtension_append {stem extension : List Char} (hstem : stem ≠ [])
    (hdot : '.' ∉ extension) (hnil : extension ≠ []) :
    stemAndExtension (stem ++ '.' :: extension) = some (stem, extension) := by
  have hdots : stem ++ '.' :: extension ≠ ['.', '.'] := by
    intro h
    have hlength := congrArg List.length h
    have hpos := List.length_pos_iff.2 hstem
    have hpos' := List.length_pos_iff.2 hnil
    simp only [List.length_append, List.length_cons, List.length_nil] at hlength
    omega
  rw [stemAndExtension_around hdot, if_pos ⟨hstem, hdots⟩]

/-- The last component of a path, behind what a sibling's name is put to. A component `.` or `..` is
no file name. -/
def fileName (path : List Char) : Option (List Char × List Char) :=
  UnixPath.splitFileName path

/-- Splits `secrets.json.age` into the name under the suffix: `source::inner_name`. -/
def innerName (name : List Char) : Option (List Char) :=
  let suffix := '.' :: encryptedSuffix.toList
  if suffix <:+ name then
    let stripped := name.take (name.length - suffix.length)
    ((fileName stripped).bind fun e ↦ stemAndExtension e.2).map fun _ ↦ stripped
  else none

/-- `name_variant`, with the suffixes still to be looked through. -/
def nameVariant (profile : List Char) : Nat → List Char → Option (List Char)
  | 0, _ => none
  | fuel + 1, name =>
    match innerName name with
    | some inner => (nameVariant profile fuel inner).map (· ++ '.' :: encryptedSuffix.toList)
    | none =>
      (stemAndExtension name).map fun e ↦ e.1 ++ '.' :: profile ++ '.' :: e.2

/-- `config.toml` and `production` make `config.production.toml`. Looking through a suffix shortens
the name, so its length is enough. -/
def profileVariant (path profile : String) : Option String :=
  (fileName path.toList).bind fun e ↦
    (nameVariant profile.toList (e.2.length + 1) e.2).map fun name ↦ String.ofList (e.1 ++ name)

example : profileVariant "/etc/app/config.toml" "production" =
    some "/etc/app/config.production.toml" := by decide

example : profileVariant "/etc/app/secrets.json.age" "production" =
    some "/etc/app/secrets.production.json.age" := by decide

/-- Whether a profile can only ever name a sibling of the file it is applied to. -/
def profileIsSafe (profile : String) : Bool :=
  let p := profile.toList
  !p.contains '/' && !p.contains '\\' && !decide (['.', '.'] <:+: p) && !p.contains '\x00'

/-- The active profile, refused unless it can only ever name a sibling file. -/
def validatedProfile (host : Host) (spec : LoadSpec) : Except Error (Option String) :=
  match spec.profile host with
  | none => .ok none
  | some profile =>
    if profileIsSafe profile then .ok (some profile)
    else .error
      { kind := .env
        message := "`" ++ spec.profileEnv.getD "the profile variable" ++
          "` names the active profile and becomes part of a file name; a profile must be a plain " ++
          "word, not a path" }

/-! ### The environment and the bindings -/

/-- Prefix-stripped names of the variables under `prefix` whose value is blank. -/
def emptyKeys (host : Host) (start : String) : List String :=
  (host.vars.filter fun v ↦ Text.isBlank v.2).filterMap fun v ↦
    Text.stripPrefixIgnoringCase v.1 start

/-- The environment provider for one section. -/
def environment (host : Host) (start key nest : String) (allowEmpty : Bool) : Provider :=
  let keep name :=
    allowEmpty || !(emptyKeys host start).any fun candidate ↦ Text.eqIgnoreCase candidate name
  host.envProvider start keep nest (sectionProfile key)

/-- The spellings strict mode refuses. -/
def ambiguousWords : List String := ["yes", "no", "on", "off", "null", "nil", "none"]

/-- Whether a value reads like a boolean, or like nothing, and arrives as a string. -/
def isAmbiguous (value : String) : Bool :=
  let trimmed := String.ofList (Text.trim value.toList)
  ambiguousWords.any fun candidate ↦ Text.eqIgnoreCase trimmed candidate

/-- One refusal, naming the variable and what to write instead, and not the value. -/
def ambiguous (name : String) : Error where
  kind := .env
  message := "`" ++ name ++ "` is set to one of the ambiguous yes/no/on/off spellings, which " ++
    "`strict_env` refuses: it would arrive as a string, not a boolean; write `true`, `false`, or " ++
    "the value you mean"

/-- Rejects ambiguous values among the real environment variables under `prefix`. -/
def rejectAmbiguous (host : Host) (start : String) : Except Error Unit :=
  match host.vars.find? fun v ↦
    (Text.stripPrefixIgnoringCase v.1 start).isSome && isAmbiguous v.2 with
  | some v => .error (ambiguous v.1)
  | none => .ok ()

/-- Prefixed onto the variable's name, so that the origin reports the variable. -/
def bindingPrefix : String := "the environment variable "

/-- Reads one variable, or `none` if it does not usefully exist: the real environment first, then
the `.env` files. -/
def resolveVariable (host : Host) (name : String) (allowEmpty : Bool)
    (fallback : List (String × String)) : Option Node :=
  let fromEnvironment := (host.var name).filter fun text ↦ allowEmpty || !Text.isBlank text
  match fromEnvironment.or (fallback.lookup name) with
  | none => none
  | some text => if Text.isBlank text && !allowEmpty then none else some (host.parseValue text)

/-- One binding: one path, one variable. -/
def bindingProvider (host : Host) (key path name : String) (allowEmpty : Bool)
    (fallback : List (String × String)) : Provider :=
  Provider.table (Metadata.named (bindingPrefix ++ name)) (sectionProfile key)
    (match resolveVariable host name allowEmpty fallback with
      | some value => insertPath [] path value
      | none => [])

/-- One provider per binding, so a value can be traced to the variable that supplied it. -/
def EnvBindings.providers (bindings : EnvBindings) (host : Host) (key : String) (allowEmpty : Bool)
    (fallback : List (String × String)) : List Provider :=
  bindings.entries.map fun e ↦ bindingProvider host key e.1 e.2 allowEmpty fallback

/-! ### `.env` files -/

/-- Write a key of a map kept in key order. -/
def insertOrdered (k v : String) : List (String × String) → List (String × String)
  | [] => [(k, v)]
  | (l, w) :: es =>
    if k < l then (k, v) :: (l, w) :: es
    else if k = l then (k, v) :: es
    else (l, w) :: insertOrdered k v es

/-- Strips one matching pair of surrounding quotes. -/
def unquote (value : List Char) : List Char :=
  match value with
  | '"' :: rest => if rest.getLast? = some '"' then rest.dropLast else value
  | '\'' :: rest => if rest.getLast? = some '\'' then rest.dropLast else value
  | _ => value

/-- Parses the lines from the `number`-th on, or reports the one-based line that could not be
read: `dotenv::parse`. -/
def parseDotenv (number : Nat) (entries : List (String × String)) :
    List (List Char) → Except Nat (List (String × String))
  | [] => .ok entries
  | line :: rest =>
    let line := Text.trim line
    if line = [] ∨ line.head? = some '#' then parseDotenv (number + 1) entries rest
    else
      let start := "export ".toList
      let line := Text.trimStart (if start <+: line then line.drop start.length else line)
      match Text.splitOnce '=' line with
      | none => .error (number + 1)
      | some (name, value) =>
        let name := Text.trim name
        if name = [] then .error (number + 1)
        else
          parseDotenv (number + 1)
            (insertOrdered (String.ofList name) (String.ofList (unquote (Text.trim value))) entries)
            rest

/-- Reads a `.env` file into its variables: `dotenv::read`. -/
def readDotenv (host : Host) (path : String) : Except Error (List (String × String)) :=
  match host.envFileText path with
  | .error e => .error e
  | .ok none => .ok []
  | .ok (some text) =>
    match parseDotenv 0 [] (Text.lines text.toList) with
    | .ok entries => .ok entries
    | .error line => .error
      { kind := .parse
        message := "line " ++ toString line ++ " is not a comment, blank, or `KEY=value`"
        origin := .file path }

/-- How a value from a `.env` file names itself in a diagnostic. -/
def dotenvPrefix : String := "the file "

/-- The key path one variable of a `.env` file spells, if it is under the prefix and supplies a
usable one. -/
def dotenvPath (start nest : String) (allowEmpty : Bool) (entry : String × String) :
    Option String :=
  (Text.stripPrefixIgnoringCase entry.1 start).bind fun rest ↦
    if Text.isBlank entry.2 && !allowEmpty then none
    else
      let path := Text.replace (Text.lower rest) nest "."
      if (segments path).any fun s ↦ decide (s = "") then none else some path

/-- The variables from one `.env` file, as the environment layer sees them. -/
def dotenvProvider (host : Host) (entries : List (String × String))
    (path start key nest : String) (allowEmpty : Bool) : Provider :=
  Provider.table (Metadata.named (dotenvPrefix ++ path)) (sectionProfile key)
    (entries.foldl (fun values e ↦
      match dotenvPath start nest allowEmpty e with
      | some p => insertPath values p (host.parseValue e.2)
      | none => values) [])

/-! ### Mounted secrets -/

/-- How one mounted secret names itself, before its path. -/
def secretsPrefix : String := "the secrets file "

/-- The dotted key path a filename spells, or `none` if it spells nothing. -/
def keyOf (path nest : String) : Option String :=
  (fileName path.toList).bind fun e ↦
    let key := Text.replace (String.ofList e.2) nest "."
    if (segments key).any fun s ↦ decide (s = "") then none else some key

/-- Removes one trailing newline and no more. -/
def trimOneNewline (text : String) : String :=
  let s := text.toList
  if ['\r', '\n'] <:+ s then String.ofList s.dropLast.dropLast
  else if ['\n'] <:+ s then String.ofList s.dropLast
  else text

/-- One mounted secret, as its own provider. -/
def secretProvider (key path text sectionKey : String) : Provider :=
  Provider.table { name := secretsPrefix ++ path, source := some (.file path) }
    (sectionProfile sectionKey) (insertPath [] key (Node.text text))

/-- Reads one directory level into one provider per key file. -/
def secretProviders (host : Host) (directory : String) (spec : LoadSpec) :
    Except Error (List Provider) :=
  match host.secretFiles directory with
  | .error e => .error e
  | .ok none => .ok []
  | .ok (some files) => .ok (files.filterMap fun file ↦
      (keyOf file.1 spec.nest).map fun key ↦
        secretProvider key file.1 (trimOneNewline file.2) spec.key)

end DynamicConfig
