import DynamicConfig.Loader.Gaps
import DynamicConfig.Loader.Recover
import Mathlib.Data.List.Dedup

/-!
# The explanation of a value

`explain` answers why a path has the value it has: one row for each layer that is configured, with
what this layer says when it is asked alone, and, where the composed load answers from somewhere no
row claims, a last row for the alias that must have carried the value. The winner is the last row
that has a value.

A float is rendered by the standard library, which is the parameter `showFloat`.
-/

namespace DynamicConfig

/-! ### Rows -/

/-- One layer's answer for one path. -/
structure Contribution where
  layer : String
  /-- Where within the layer the value came from, where it supplies one. -/
  origin : Option Origin
  /-- The value, rendered short. -/
  value : Option String
  /-- The old path an alias carried this value from, on the alias row. -/
  aliasedFrom : Option String := none
  deriving DecidableEq, Repr

/-- The last row that has a value. -/
def winnerOf (rows : List Contribution) : Option Contribution :=
  rows.reverse.find? fun row ↦ row.value.isSome

/-- Every configured layer's answer for one path, lowest precedence first. -/
structure Explanation where
  path : String
  rows : List Contribution
  deriving DecidableEq, Repr

/-- The winning contribution, or `none` when nothing supplies the path. -/
def Explanation.winner (explanation : Explanation) : Option Contribution :=
  winnerOf explanation.rows

/-- The explanation with every value replaced. -/
def Explanation.redacted (explanation : Explanation) : Explanation :=
  { explanation with
    rows := explanation.rows.map fun row ↦ { row with value := row.value.map fun _ ↦ "***" } }

/-- A scalar, rendered. -/
def Scalar.render (showFloat : UInt64 → String) : Scalar → String
  | string text => text
  | char character => String.singleton character
  | bool boolean => toString boolean
  | int whole => toString whole
  | float bits => showFloat bits
  | empty => "null"

/-- The value for scalars, the shape for containers. -/
def render (showFloat : UInt64 → String) : Node → String
  | .leaf _ (.scalar s) => s.render showFloat
  | .leaf _ (.array items) => "a list (" ++ toString items.length ++ " items)"
  | .node _ entries =>
    "a table (" ++ toString (entries.map Prod.fst).dedup.length ++ " keys)"

/-- The origin of a value that a supplier describes so. -/
def originFrom (host : Host) (path nest : String) (metadata : Option Metadata) : Origin :=
  refineEnv host ((metadata.map originOf).getD .unknown) (segments path) nest

section Explain

variable {Fig : Type} [Figment Fig]

/-- Where a path comes from, in a figment: `loader::origin_in`. -/
def originIn (host : Host) (figment : Fig) (path nest : String) : Origin :=
  originFrom host path nest (Figment.findMetadata figment path)

/-- The row of one layer. -/
def layerRow (showFloat : UInt64 → String) (host : Host) (nest path name : String) (figment : Fig) :
    Contribution :=
  let value := (Figment.findValue figment path).toOption
  { layer := name
    origin := if value.isSome then some (originIn host figment path nest) else none
    value := value.map (render showFloat) }

/-- The old path aliased to a path, if one is: the first in path order. -/
def aliasedFrom (spec : LoadSpec) (path : String) : Option String :=
  spec.aliases.bind fun aliases ↦
    (aliases.pairs.find? fun pair ↦ decide (pair.2 = path)).map Prod.fst

/-- The row of the alias, where the composed load answers from somewhere no layer's row claims. -/
def aliasRow (showFloat : UInt64 → String) (host : Host) (spec : LoadSpec) (path : String)
    (rows : List Contribution) (figment : Fig) : List Contribution :=
  match Figment.findValue figment path with
  | .error _ => []
  | .ok value =>
    let origin := originIn host figment path spec.nest
    let disagrees : Bool :=
      match winnerOf rows with
      | none => true
      | some winner => !decide (origin = .unknown) && !decide (winner.origin = some origin)
    if disagrees then
      [{ layer := "alias", origin := some origin, value := some (render showFloat value)
         aliasedFrom := aliasedFrom spec path }]
    else []

/-- Explains a path: every configured layer's answer, lowest precedence first. -/
def explain (Fig : Type) [Figment Fig] (showFloat : UInt64 → String) (host : Host)
    (spec : LoadSpec) (path : String) : Except Error Explanation := do
  let figments : List (String × Fig) ← layerFigments host spec
  let rows := figments.map fun e ↦ layerRow showFloat host spec.nest path e.1 e.2
  let figment : Fig ← merged host spec
  .ok { path, rows := rows ++ aliasRow showFloat host spec path rows figment }

end Explain

/-! ### Secrets -/

/-- Whether a path touches a secret: it is one, lies under one, or contains one. -/
def touchesSecret (path : String) (secrets : List String) : Bool :=
  secrets.any fun secret ↦
    decide (secret = path) ||
      (match stripPrefix path secret with
        | some rest => rest.toList.head? == some '.'
        | none => false) ||
      (match stripPrefix secret path with
        | some rest => rest.toList.head? == some '.'
        | none => false)

/-- `Builder::explain`: an explanation that touches a secret is redacted, where anybody has said
which they are. -/
def builderExplain (Fig : Type) [Figment Fig] (showFloat : UInt64 → String) (host : Host)
    (spec : LoadSpec) (secrets : Option (List String)) (path : String) :
    Except Error Explanation := do
  let explanation ← explain Fig showFloat host spec path
  match secrets with
  | some secrets =>
    if touchesSecret path secrets then .ok explanation.redacted else .ok explanation
  | none => .ok explanation

/-! ### The providers behind the rows -/

/-- Each active row's name next to the providers it merges. -/
def rowProviders (host : Host) (spec : LoadSpec) (rows : List LayerDef) :
    Except Error (List (String × List Provider)) :=
  (rows.filter fun layer ↦ layer.active spec).mapM fun layer ↦ do
    let providers ← recorded (layer.merge host spec)
    .ok (layer.name, providers)

/-- Each active layer's name next to the providers it merges. -/
def layerProviders (host : Host) (spec : LoadSpec) :
    Except Error (List (String × List Provider)) := do
  let _ ← validatedProfile host spec
  rowProviders host spec layers

/-- Computations that agree up to a reading of their results, one after the other. -/
theorem mapM_eq_map {α : Type*} {β γ ε : Type} {f : α → Except ε γ} {g : α → Except ε β} {h : β → γ}
    {xs : List α} (hfg : ∀ x ∈ xs, f x = (g x).map h) :
    xs.mapM f = (xs.mapM g).map (List.map h) := by
  induction xs with
  | nil => rfl
  | cons x xs ih =>
    rw [List.mapM_cons, List.mapM_cons, hfg x List.mem_cons_self,
      ih fun y hy ↦ hfg y (List.mem_cons_of_mem x hy)]
    rcases g x with e | b
    · rfl
    · show (Except.map (List.map h) (xs.mapM g) >>= fun cs ↦ _) =
        Except.map _ (xs.mapM g >>= fun bs ↦ _)
      rcases xs.mapM g with e | bs
      · rfl
      · rfl

theorem rowProviders_cons (host : Host) (spec : LoadSpec) (row : LayerDef)
    (rows : List LayerDef) :
    rowProviders host spec (row :: rows) =
      if row.active spec then do
        let providers ← recorded (row.merge host spec)
        let rest ← rowProviders host spec rows
        .ok ((row.name, providers) :: rest)
      else rowProviders host spec rows := by
  rw [rowProviders, List.filter_cons]
  split
  · rw [List.mapM_cons]
    rcases recorded (row.merge host spec) with e | providers
    · rfl
    · rfl
  · rfl

/-- Merging some rows merges their providers, row after row. -/
theorem mergeLayers_eq {Fig : Type} [Figment Fig] (host : Host) (spec : LoadSpec)
    {rows : List LayerDef} (hrows : rows ⊆ layers) (figment : Fig) :
    mergeLayers host spec rows figment =
      (rowProviders host spec rows).map fun ls ↦ mergeAll figment (ls.flatMap Prod.snd) := by
  induction rows generalizing figment with
  | nil => rfl
  | cons row rows ih =>
    have hrow : row ∈ layers := hrows List.mem_cons_self
    have hrest : rows ⊆ layers := fun r hr ↦ hrows (List.mem_cons_of_mem row hr)
    have hstep : mergeLayers host spec (row :: rows) figment =
        (if row.active spec then row.merge host spec figment else .ok figment) >>=
          mergeLayers host spec rows := rfl
    rw [hstep, rowProviders_cons]
    split
    · have hlaid : row.merge host spec figment =
          (recorded (row.merge host spec)).map (mergeAll figment) :=
        (laid_of_mem_layers hrow host spec).eq figment
      rw [hlaid]
      rcases recorded (row.merge host spec) with e | providers
      · rfl
      · show mergeLayers host spec rows (mergeAll figment providers) =
          Except.map _ (rowProviders host spec rows >>= fun rest ↦
            .ok ((row.name, providers) :: rest))
        rw [ih hrest]
        rcases rowProviders host spec rows with e | rest
        · rfl
        · exact congrArg Except.ok (mergeAll_append figment providers (rest.flatMap Prod.snd)).symm
    · exact ih hrest figment

/-- **A load merges the providers of its layers**, layer after layer. -/
theorem build_eq_layers {Fig : Type} [Figment Fig] (host : Host) (spec : LoadSpec) :
    (build host spec : Except Error Fig) =
      (layerProviders host spec).map fun ls ↦ mergeAll Figment.new (ls.flatMap Prod.snd) := by
  rw [build, layerProviders]
  rcases validatedProfile host spec with e | profile
  · rfl
  · exact mergeLayers_eq host spec (List.Subset.refl _) Figment.new

/-- **Each row of an explanation merges the providers of its layer**, and no others. -/
theorem layerFigments_eq {Fig : Type} [Figment Fig] (host : Host) (spec : LoadSpec) :
    (layerFigments host spec : Except Error (List (String × Fig))) =
      (layerProviders host spec).map fun ls ↦ ls.map fun e ↦
        (e.1, Figment.select (mergeAll Figment.new e.2) (sectionProfile spec.key)) := by
  rw [layerFigments, layerProviders]
  rcases validatedProfile host spec with e | profile
  · rfl
  · show List.mapM _ _ = Except.map _ (List.mapM _ _)
    refine mapM_eq_map fun layer hlayer ↦ ?_
    have hlaid : layer.merge host spec (Figment.new : Fig) =
        (recorded (layer.merge host spec)).map (mergeAll Figment.new) :=
      (laid_of_mem_layers (List.mem_of_mem_filter hlayer) host spec).eq Figment.new
    rw [hlaid]
    rcases recorded (layer.merge host spec) with e | providers
    · rfl
    · rfl

end DynamicConfig
