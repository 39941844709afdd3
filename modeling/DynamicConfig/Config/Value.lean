import DynamicConfig.Config.DottedPath
import DynamicConfig.Tree.Path

/-!
# Configuration values and errors

The data a load works on, and the crate's one error type.

Two trees carry a configuration. `Value` is the crate's own: scalars, lists, tables, no provenance.
`Node` is the tree figment resolves: the same shapes as a `LabelledTree` whose labels are the
metadata of whatever supplied each node, and whose leaves are scalars and lists. A list is a leaf
because nothing in the loader looks inside one: a merge replaces it whole, and no key path reaches
into it.

Numbers are kept as the loader treats them, which is not at all: an integer, or the bits of a
float. Nothing here computes with either.
-/

namespace DynamicConfig

/-- The values that hold no other value. A character is its own scalar in figment's tree. -/
inductive Scalar where
  | string (text : String)
  | char (character : Char)
  | bool (boolean : Bool)
  | int (whole : Int)
  | float (bits : UInt64)
  | empty
  deriving DecidableEq, Repr

/-- The crate's own value tree, with no provenance in it. -/
inductive Value where
  | scalar (s : Scalar)
  | array (items : List Value)
  | table (entries : List (String × Value))

/-- What a figment value that is not a table holds. -/
inductive Leaf where
  | scalar (s : Scalar)
  | array (items : List Value)

/-- Where figment says a provider reads from: `figment::Source`. -/
inductive MetadataSource where
  | file (path : String)
  | code
  | custom (name : String)
  deriving DecidableEq, Repr

/-- A provider's description of itself: `figment::Metadata`. -/
structure Metadata where
  name : String
  source : Option MetadataSource := none
  deriving DecidableEq, Repr

/-- `Metadata::named`. -/
def Metadata.named (name : String) : Metadata := { name }

/-- A resolved value with the metadata of its supplier at every node. figment stores a tag per node
and a table from tags to metadata; `none` is the default tag, which names no supplier. -/
abbrev Node := LabelledTree String (Option Metadata) Leaf

/-- A table of resolved values: `figment::value::Dict`, a map keyed by field name. -/
abbrev Dict := List (String × Node)

/-- A table as a value. The tag of a table no provider has supplied is the default one. -/
def Dict.root (values : Dict) : Node :=
  .node none values

/-- A scalar with no supplier. -/
def Node.scalar (s : Scalar) : Node := .leaf none (.scalar s)

/-- `Value::from(text)`. -/
def Node.text (s : String) : Node := Node.scalar (.string s)

/-- The value at a dotted path of a table, walked as figment walks one. -/
def Dict.find (values : Dict) (path : String) : Option Node :=
  values.root.get (walked path)

/-- `layer::insert_path`, with the tables it makes left untagged. -/
def insertPath (root : Dict) (path : String) (value : Node) : Dict :=
  LabelledTree.insertPath none root (segments path) value

/-- Two tables that show the same at every path: the same configuration, provenance aside. -/
def Dict.SameValues (a b : Dict) : Prop :=
  ∀ p, a.root.peekAt p = b.root.peekAt p

/-! ### Profiles -/

/-- `figment::Profile`: a name compared without regard to ASCII case, kept folded. -/
structure Profile where
  name : String
  deriving DecidableEq, Repr

/-- `Profile::from`. -/
def Profile.from (name : String) : Profile :=
  ⟨String.ofList (name.toList.map Char.toLower)⟩

/-- The profile figment puts below every other. -/
def Profile.default : Profile := ⟨"default"⟩

/-- The profile figment puts above every other. -/
def Profile.global : Profile := ⟨"global"⟩

/-- Whether a profile is neither of the reserved two. -/
def Profile.isCustom (p : Profile) : Bool :=
  !decide (p = Profile.default) && !decide (p = Profile.global)

/-- The figment profile a section's data files under: `loader::section_profile`. -/
def sectionProfile (key : String) : Profile :=
  Profile.from ("section:" ++ key)

/-- A section never lands on a profile figment reserves. -/
@[simp] theorem isCustom_sectionProfile (key : String) : (sectionProfile key).isCustom = true := by
  have hhead : (sectionProfile key).name.toList.head? = some 's' := by
    rw [sectionProfile, Profile.from, String.toList_ofList, String.toList_append, List.map_append]
    rfl
  have hne : ∀ p : Profile, p.name.toList.head? ≠ some 's' → sectionProfile key ≠ p := by
    rintro p hp rfl
    exact hp hhead
  have hdefault : sectionProfile key ≠ Profile.default := hne _ (by decide)
  have hglobal : sectionProfile key ≠ Profile.global := hne _ (by decide)
  simp [Profile.isCustom, hdefault, hglobal]

theorem default_ne_sectionProfile (key : String) : Profile.default ≠ sectionProfile key := by
  intro h
  have hcustom := isCustom_sectionProfile key
  rw [← h] at hcustom
  exact absurd hcustom (by decide)

theorem global_ne_sectionProfile (key : String) : Profile.global ≠ sectionProfile key := by
  intro h
  have hcustom := isCustom_sectionProfile key
  rw [← h] at hcustom
  exact absurd hcustom (by decide)

/-- A section's own key is never the profile its data files under: the prefix makes it longer. -/
theorem from_ne_sectionProfile (key : String) : Profile.from key ≠ sectionProfile key := by
  intro h
  have hlen := congrArg (fun p : Profile ↦ p.name.toList.length) h
  have hprefix : ("section:" : String).toList.length = 8 := by decide
  simp only [Profile.from, sectionProfile, String.toList_ofList, List.length_map,
    String.toList_append, List.length_append, hprefix] at hlen
  omega

/-! ### Errors -/

/-- Broad category of a configuration failure. -/
inductive ErrorKind where
  | io | parse | missing | type | env | invalid | remote | auth | decrypt | backend
  deriving DecidableEq, Repr

/-- Where a value came from. -/
inductive Origin where
  | file (path : String)
  | env (name : String)
  | inline
  | remote (store : String)
  | runtime (layer : String)
  | unknown
  deriving DecidableEq, Repr

/-- The crate's single error type. -/
structure Error where
  kind : ErrorKind
  message : String
  /-- Key path from the config root, outermost segment first. -/
  path : List String := []
  origin : Origin := .unknown
  deriving DecidableEq, Repr

/-- Pushes a key onto the front of the path. -/
def Error.prependKey (error : Error) (key : String) : Error :=
  { error with path := key :: error.path }

/-- Records provenance, unless something more specific is already known. -/
def Error.withOrigin (error : Error) (origin : Origin) : Error :=
  if error.origin = .unknown then { error with origin } else error

/-- A computation that came to a result went through a result of its first step. -/
theorem exists_of_bind_eq_ok {ε α β : Type} {x : Except ε α} {f : α → Except ε β} {b : β}
    (h : x >>= f = .ok b) : ∃ a, x = .ok a ∧ f a = .ok b := by
  rcases x with e | a
  · cases h
  · exact ⟨a, rfl, h⟩

end DynamicConfig
