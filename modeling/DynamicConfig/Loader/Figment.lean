import DynamicConfig.Config.Value

/-!
# The backend, as the loader relies on it

figment is a third-party crate, so it enters as a parameter: a class `Figment` with the operations
the loader calls, over an arbitrary carrier, and a class `LawfulFigment` with what figment documents
of them. A layer is a `Provider`: what it calls itself, and the tables it supplies, one per profile.

What the documentation fixes is small. A figment holds one table per profile; merging a provider
lays each of its tables over the figment's own, labelling with the provider's metadata every node that
has no label yet, which what was found in a figment has; selecting a profile reads `default` under the profile under `global`. That reading is `Stack`, and
the laws say that a figment *is* its stack: whatever is asked of it is answered from `profile` and
`data`. A provider that fails leaves the figment failed, with the first failure in front.

`Stack` is a figment itself, the one the witnesses run on.
-/

namespace DynamicConfig

/-! ### Errors figment raises -/

/-- What a deserializer found: `figment::error::Actual`. -/
inductive Actual where
  | bool (value : Bool)
  | unsigned (value : Nat)
  | signed (value : Int)
  | float (bits : UInt64)
  | char (value : Char)
  | str (value : String)
  | bytes (value : List UInt8)
  | unit | option | newtypeStruct | seq | map | enum
  | unitVariant | newtypeVariant | tupleVariant | structVariant
  | other (description : String)
  deriving DecidableEq, Repr

/-- Why a figment failed: `figment::error::Kind`. -/
inductive Kind where
  | message (text : String)
  | invalidType (actual : Actual) (expected : String)
  | invalidValue (actual : Actual) (expected : String)
  | invalidLength (length : Nat) (expected : String)
  | unknownVariant (variant : String) (expected : List String)
  | unknownField (field : String) (expected : List String)
  | missingField (field : String)
  | duplicateField (field : String)
  | isizeOutOfRange (value : Int)
  | usizeOutOfRange (value : Nat)
  | unsupported (actual : Actual)
  | unsupportedKey (actual : Actual) (expected : String)
  deriving DecidableEq, Repr

/-- A failure with where it happened: `figment::Error`. -/
structure FigmentError where
  kind : Kind
  path : List String := []
  metadata : Option Metadata := none
  deriving DecidableEq, Repr

/-- The failure of a provider, labelled with the provider. -/
def FigmentError.retagged (error : FigmentError) (metadata : Metadata) : FigmentError :=
  { error with metadata := error.metadata.or (some metadata) }

/-! ### Providers and the operations -/

/-- One layer: what `figment::Provider` answers. -/
structure Provider where
  metadata : Metadata
  /-- The tables it supplies, by profile. -/
  data : Except FigmentError (List (Profile × Dict))
  /-- The profile it asks to be selected, if any. -/
  profile : Option Profile := none

/-- A provider of one table under one profile. -/
def Provider.table (metadata : Metadata) (profile : Profile) (values : Dict) : Provider where
  metadata := metadata
  data := .ok [(profile, values)]

/-- What the loader calls of figment. -/
class Figment (Fig : Type) where
  /-- `Figment::new`. -/
  new : Fig
  /-- `Figment::merge`. -/
  merge : Fig → Provider → Fig
  /-- `Figment::select`. -/
  select : Fig → Profile → Fig
  /-- `Figment::profile`: the selected profile. -/
  profile : Fig → Profile
  /-- `Provider::data` of a figment: its tables, by profile. A profile it does not hold is empty. -/
  data : Fig → Except FigmentError (Profile → Dict)
  /-- `Figment::find_value`. -/
  findValue : Fig → String → Except FigmentError Node
  /-- `Figment::find_metadata`. -/
  findMetadata : Fig → String → Option Metadata
  /-- `Figment::contains`. -/
  contains : Fig → String → Bool
  /-- `Figment::extract`, through the reading a type's `Deserialize` makes of the resolved table. -/
  extract {T : Type} : Fig → (Dict → Except FigmentError T) → Except FigmentError T

/-! ### The documented reading -/

/-- The label of a node once its provider is merged: the one it came with, or else the provider's. -/
def labelled (metadata : Metadata) (label : Option Metadata) : Option Metadata :=
  label.or (some metadata)

@[simp] theorem labelled_none (metadata : Metadata) : labelled metadata none = some metadata := rfl

@[simp] theorem labelled_some (metadata own : Metadata) : labelled metadata (some own) = some own := rfl

/-- The table a provider supplies under one profile, its nodes labelled. Profiles are the keys of a
map, so at most one entry is read. -/
def suppliedTable (metadata : Metadata) (data : List (Profile × Dict)) (p : Profile) : Dict :=
  LabelledTree.mapTagEntries (labelled metadata) ((data.lookup p).getD [])

/-- A figment's tables with a provider's laid over them. -/
def mergeData (values : Except FigmentError (Profile → Dict)) (provider : Provider) :
    Except FigmentError (Profile → Dict) :=
  match values, provider.data with
  | .error e, _ => .error e
  | .ok _, .error e => .error (e.retagged provider.metadata)
  | .ok old, .ok new =>
    .ok fun p ↦ LabelledTree.mergeTables (old p) (suppliedTable provider.metadata new p)

/-- The table a selected profile resolves to: `default` under the profile under `global`. -/
def combine (profile : Profile) (values : Profile → Dict) : Dict :=
  let custom := if profile.isCustom then values profile else []
  LabelledTree.mergeTables
    (LabelledTree.mergeTables (values Profile.default) custom) (values Profile.global)

/-- What a failed lookup reports. -/
def missing (path : String) : FigmentError := { kind := .missingField path }

/-- The tables of a figment and the profile selected in it, which is all that is ever asked. -/
structure Stack where
  profile : Profile
  values : Except FigmentError (Profile → Dict)

/-- A table laid over another, as values. -/
theorem Dict.root_mergeTables (a b : Dict) :
    Dict.root (LabelledTree.mergeTables a b) = a.root.merge b.root :=
  (LabelledTree.merge_node_node none none a b).symm

/-- What a section resolves to, as a value. -/
theorem root_combine_sectionProfile (key : String) (values : Profile → Dict) :
    Dict.root (combine (sectionProfile key) values) =
      ((values Profile.default).root.merge (values (sectionProfile key)).root).merge
        (values Profile.global).root := by
  rw [combine, isCustom_sectionProfile, if_pos rfl, Dict.root_mergeTables, Dict.root_mergeTables]

namespace Stack

/-- The empty figment, with no profile selected. -/
def new : Stack := ⟨Profile.default, .ok fun _ ↦ []⟩

/-- Lay a provider over the figment. -/
def merge (s : Stack) (provider : Provider) : Stack :=
  ⟨provider.profile.getD s.profile, mergeData s.values provider⟩

/-- Select a profile. -/
def select (s : Stack) (p : Profile) : Stack := ⟨p, s.values⟩

/-- The resolved table of the selected profile. -/
def combined (s : Stack) : Except FigmentError Dict :=
  s.values.map (combine s.profile)

/-- The value at a path. -/
def findValue (s : Stack) (path : String) : Except FigmentError Node :=
  match s.combined with
  | .error e => .error e
  | .ok root =>
    match root.find path with
    | some v => .ok v
    | none => .error (missing path)

/-- The metadata of whatever supplied the value at a path. -/
def findMetadata (s : Stack) (path : String) : Option Metadata :=
  match s.findValue path with
  | .error _ => none
  | .ok v => v.tag

/-- Whether there is a value at a path. -/
def contains (s : Stack) (path : String) : Bool :=
  (s.findValue path).toBool

/-- The resolved table, read by a type's `Deserialize`. -/
def extract {T : Type} (s : Stack) (read : Dict → Except FigmentError T) :
    Except FigmentError T :=
  s.combined.bind read

theorem findValue_of_ok {s : Stack} {values : Profile → Dict} (h : s.values = .ok values)
    (path : String) :
    s.findValue path =
      match (combine s.profile values).find path with
      | some v => .ok v
      | none => .error (missing path) := by
  rw [findValue, combined, h]
  rfl

theorem findValue_of_error {s : Stack} {e : FigmentError} (h : s.values = .error e)
    (path : String) : s.findValue path = .error e := by
  rw [findValue, combined, h]
  rfl

theorem findMetadata_of_findValue {s : Stack} {path : String} {v : Node}
    (h : s.findValue path = .ok v) : s.findMetadata path = v.tag := by
  rw [findMetadata, h]

theorem findMetadata_of_ok {s : Stack} {values : Profile → Dict} (h : s.values = .ok values)
    (path : String) :
    s.findMetadata path = ((combine s.profile values).find path).bind LabelledTree.tag := by
  rw [findMetadata, findValue_of_ok h]
  rcases (combine s.profile values).find path with - | v
  · rfl
  · rfl

end Stack

instance : Figment Stack where
  new := Stack.new
  merge := Stack.merge
  select := Stack.select
  profile := Stack.profile
  data := Stack.values
  findValue := Stack.findValue
  findMetadata := Stack.findMetadata
  contains := Stack.contains
  extract := Stack.extract

/-- The stack a figment shows. -/
def Figment.stack {Fig : Type} [Figment Fig] (f : Fig) : Stack :=
  ⟨Figment.profile f, Figment.data f⟩

/-- What figment documents: a figment is answered for by its stack. -/
class LawfulFigment (Fig : Type) [Figment Fig] : Prop where
  stack_new : Figment.stack (Figment.new : Fig) = Stack.new
  stack_merge (f : Fig) (p : Provider) :
    Figment.stack (Figment.merge f p) = (Figment.stack f).merge p
  stack_select (f : Fig) (p : Profile) :
    Figment.stack (Figment.select f p) = (Figment.stack f).select p
  findValue_eq (f : Fig) (path : String) :
    Figment.findValue f path = (Figment.stack f).findValue path
  findMetadata_eq (f : Fig) (path : String) :
    Figment.findMetadata f path = (Figment.stack f).findMetadata path
  contains_eq (f : Fig) (path : String) :
    Figment.contains f path = (Figment.stack f).contains path
  extract_eq {T : Type} (f : Fig) (read : Dict → Except FigmentError T) :
    Figment.extract f read = (Figment.stack f).extract read

attribute [simp] LawfulFigment.stack_new LawfulFigment.stack_merge LawfulFigment.stack_select
  LawfulFigment.findValue_eq LawfulFigment.findMetadata_eq LawfulFigment.contains_eq
  LawfulFigment.extract_eq

instance : LawfulFigment Stack where
  stack_new := rfl
  stack_merge _ _ := rfl
  stack_select _ _ := rfl
  findValue_eq _ _ := rfl
  findMetadata_eq _ _ := rfl
  contains_eq _ _ := rfl
  extract_eq _ _ := rfl

/-- Merging a list of providers in order. -/
def mergeAll {Fig : Type} [Figment Fig] (f : Fig) (providers : List Provider) : Fig :=
  providers.foldl Figment.merge f

@[simp] theorem mergeAll_nil {Fig : Type} [Figment Fig] (f : Fig) : mergeAll f [] = f := rfl

@[simp] theorem mergeAll_cons {Fig : Type} [Figment Fig] (f : Fig) (p : Provider)
    (ps : List Provider) : mergeAll f (p :: ps) = mergeAll (Figment.merge f p) ps := rfl

theorem mergeAll_append {Fig : Type} [Figment Fig] (f : Fig) (ps qs : List Provider) :
    mergeAll f (ps ++ qs) = mergeAll (mergeAll f ps) qs :=
  List.foldl_append

/-- The stack of a merged list. -/
@[simp] theorem stack_mergeAll {Fig : Type} [Figment Fig] [LawfulFigment Fig] (f : Fig)
    (ps : List Provider) : Figment.stack (mergeAll f ps) = mergeAll (Figment.stack f) ps := by
  induction ps generalizing f with
  | nil => rfl
  | cons p ps ih =>
    rw [mergeAll_cons, ih, LawfulFigment.stack_merge]
    rfl

end DynamicConfig
