import DynamicConfig.Check.Suggestion
import DynamicConfig.Explain.Secrecy
import DynamicConfig.Loader.Aliases
import DynamicConfig.Tree.Sorted

/-!
# The report of a check

`check` says where each key of a section comes from, which keys no field reads, and why a load would
fail, if it would. It prints paths and origins and no value: two sets of sources that differ in scalars
only, at any places, give one report but for its last line (`check_eq`).

The last line is the load's own error. Whether a load fails may depend on a scalar, since a type may
refuse one.
-/

namespace LabelledTree

variable {κ τ α : Type} [LinearOrder κ]

/-! ### Tables in key order -/

mutual

/-- A tree whose tables are maps that keep their keys in order. -/
def inOrder : LabelledTree κ τ α → LabelledTree κ τ α
  | leaf t v => leaf t v
  | node t es => node t (entriesInOrder es)

/-- The entries of such a table. -/
def entriesInOrder : List (κ × LabelledTree κ τ α) → List (κ × LabelledTree κ τ α)
  | [] => []
  | (k, a) :: es => Entries.put k a.inOrder (entriesInOrder es)

end

/-- Where a key is put goes by the keys. -/
theorem mapEntriesAt_put (g : List κ → α → α) (k : κ) (a : LabelledTree κ τ α)
    (es : List (κ × LabelledTree κ τ α)) :
    mapEntriesAt g (Entries.put k a es) =
      Entries.put k (a.mapAt fun p ↦ g (k :: p)) (mapEntriesAt g es) := by
  induction es with
  | nil => simp [Entries.put]
  | cons e es ih =>
    obtain ⟨l, b⟩ := e
    rw [mapEntriesAt_cons, Entries.put, Entries.put]
    split
    · rw [mapEntriesAt_cons, mapEntriesAt_cons]
    · split
      · rw [mapEntriesAt_cons]
      · rw [mapEntriesAt_cons, ih]

mutual

theorem mapAt_inOrder (g : List κ → α → α) (a : LabelledTree κ τ α) :
    a.inOrder.mapAt g = (a.mapAt g).inOrder := by
  cases a with
  | leaf t v => rw [inOrder, mapAt_leaf, inOrder]
  | node t es => rw [inOrder, mapAt_node, mapAt_node, inOrder, mapEntriesAt_entriesInOrder]

theorem mapEntriesAt_entriesInOrder (g : List κ → α → α) (es : List (κ × LabelledTree κ τ α)) :
    mapEntriesAt g (entriesInOrder es) = entriesInOrder (mapEntriesAt g es) := by
  match es with
  | [] => rw [entriesInOrder, mapEntriesAt_nil, entriesInOrder]
  | (k, a) :: es =>
    rw [entriesInOrder, mapEntriesAt_put, mapEntriesAt_cons, entriesInOrder, mapAt_inOrder,
      mapEntriesAt_entriesInOrder]

end

end LabelledTree

namespace DynamicConfig

open LabelledTree (SimilarOff entriesInOrder mapEntriesAt)

/-! ### How an error reads -/

def Origin.display : Origin → String
  | .file path => "in " ++ path
  | .env name => "from " ++ name
  | .inline => "in an inline source"
  | .remote store => "from " ++ store
  | .runtime layer => "set as " ++ layer
  | .unknown => "origin unknown"

def Error.display (error : Error) : String :=
  (if error.path = [] then error.message else joined error.path ++ ": " ++ error.message) ++
    if error.origin = .unknown then "" else " (" ++ error.origin.display ++ ")"

example : ({ kind := .type, message := "invalid type", path := ["pool", "max"], origin := .env "P" } :
    Error).display = "pool.max: invalid type (from P)" := by decide

/-! ### The report -/

/-- A key the configuration supplies that the struct does not name. -/
structure UnknownKey where
  path : String
  suggestion : Option String
  deriving DecidableEq, Repr

/-- Where one key's value comes from. -/
structure Resolved where
  path : String
  origin : Origin
  deriving DecidableEq, Repr

/-- What a configuration resolves to, and whether it would load. -/
structure Report where
  key : String
  resolved : List Resolved
  unknown : List UnknownKey
  /-- Whether there was a field list to compare against. -/
  unknownChecked : Bool
  failure : Option String
  deriving DecidableEq, Repr

namespace Report

/-- Whether a load would succeed and no key looks like a typo. -/
def isClean (report : Report) : Bool := report.failure.isNone && report.unknown.isEmpty

/-- A report without its last line. -/
def unexplained (report : Report) : Report := { report with failure := none }

end Report

/-- The top-level keys aliases make legitimate: `Aliases::known_keys`. -/
def aliasedKeys (spec : LoadSpec) : List String :=
  match spec.aliases with
  | none => []
  | some aliases =>
    ((aliases.pairs.map Prod.fst).filter fun path ↦ !namesSection path).filterMap fun path ↦
      (segments path).head?

def unknownKeys (values : Dict) (fields aliased : List String) : List UnknownKey :=
  if fields = [] then []
  else
    (((values.map Prod.fst).filter fun key ↦ decide (key ∉ fields)).filter fun key ↦
      decide (key ∉ aliased)).map fun key ↦ ⟨key, Check.closest key fields⟩

/-- The section of a load, with the figment that says where each value came from. -/
def resolved (Fig : Type) [Figment Fig] (host : Host) (spec : LoadSpec) : Except Error (Dict × Fig) := do
  let figment : Fig ← merged host spec
  let values ← resolvedTable host spec figment
  .ok (entriesInOrder values, figment)

/-- The report on a configuration of a type, whose fields are these. -/
def check {T : Type} (Fig : Type) [Figment Fig] (host : Host) (spec : LoadSpec)
    (read : Dict → Except FigmentError T) (fields : List String) : Except Error Report := do
  let (values, figment) ← resolved Fig host spec
  .ok {
    key := spec.key
    resolved := (leafPaths values).map fun path ↦ ⟨path, originIn host figment path spec.nest⟩
    unknown := unknownKeys values fields (aliasedKeys spec)
    unknownChecked := !fields.isEmpty
    failure :=
      match load Fig host spec read with
      | .ok _ => none
      | .error error => some error.display }

/-! ### What a report gives away -/

mutual

/-- What the leaves hold is not listed. -/
theorem leavesOf_mapAt (g : List String → Leaf → Leaf) (path : List String) (a : Node) :
    leavesOf path (a.mapAt g) = leavesOf path a := by
  match a with
  | .leaf t v => rw [LabelledTree.mapAt_leaf, leavesOf, leavesOf]
  | .node t [] => rw [LabelledTree.mapAt_node, LabelledTree.mapEntriesAt_nil, leavesOf]
  | .node t ((k, b) :: es) =>
    have hrest := leavesIn_mapEntriesAt g path ((k, b) :: es)
    rw [LabelledTree.mapEntriesAt_cons] at hrest
    rw [LabelledTree.mapAt_node, LabelledTree.mapEntriesAt_cons, leavesOf, leavesOf, hrest]

theorem leavesIn_mapEntriesAt (g : List String → Leaf → Leaf) (path : List String) (es : Dict) :
    leavesIn path (mapEntriesAt g es) = leavesIn path es := by
  match es with
  | [] => rw [LabelledTree.mapEntriesAt_nil]
  | (k, b) :: es =>
    rw [LabelledTree.mapEntriesAt_cons, leavesIn, leavesIn, leavesOf_mapAt,
      leavesIn_mapEntriesAt g path es]

end

section Similar

variable {E : List String → Prop} {a b : Dict}

/-- Similar tables are in one order. -/
theorem similarOff_entriesInOrder (h : SimilarOff Leaf.blind E (Dict.root a) (Dict.root b)) :
    SimilarOff Leaf.blind E (Dict.root (entriesInOrder a)) (Dict.root (entriesInOrder b)) := by
  refine LabelledTree.similarOff_node_iff.2 ?_
  rw [LabelledTree.mapEntriesAt_entriesInOrder, LabelledTree.mapEntriesAt_entriesInOrder,
    LabelledTree.similarOff_node_iff.1 h]

/-- They have the same leaves. -/
theorem leafPaths_eq_of_similar (h : SimilarOff Leaf.blind E (Dict.root a) (Dict.root b)) :
    leafPaths a = leafPaths b := by
  have hleaves := congrArg (leavesIn []) (LabelledTree.similarOff_node_iff.1 h)
  rwa [leavesIn_mapEntriesAt, leavesIn_mapEntriesAt] at hleaves

/-- And the same keys that nothing reads. -/
theorem unknownKeys_eq_of_similar (h : SimilarOff Leaf.blind E (Dict.root a) (Dict.root b))
    (fields aliased : List String) : unknownKeys a fields aliased = unknownKeys b fields aliased := by
  rw [unknownKeys, unknownKeys, h.keys_eq]

end Similar

/-- Every place. -/
def everywhere : Places := fun _ _ ↦ True

/-- Providers that differ at some places only differ at any only. -/
theorem SimilarProviders.everywhere {D : Places} {a b : Provider} (h : SimilarProviders D a b) :
    SimilarProviders everywhere a b where
  metadata := h.metadata
  profile := h.profile
  data := by
    rcases h.data with ⟨e, ha, hb⟩ | ⟨xs, ys, ha, hb, hxy⟩
    · exact Or.inl ⟨e, ha, hb⟩
    · exact Or.inr ⟨xs, ys, ha, hb, fun p ↦ (hxy p).mono Leaf.blind_blind fun _ _ ↦ trivial⟩

/-- Two builders whose sources differ in scalars only. -/
structure DifferInScalars (host : Host) (spec : LoadSpec) (host' : Host) (spec' : LoadSpec) : Prop
    extends DifferOnly everywhere host spec host' spec' where
  display : host'.display = host.display

/-- At any places. -/
theorem DifferOnly.differInScalars {D : Places} {host host' : Host} {spec spec' : LoadSpec}
    (h : DifferOnly D host spec host' spec') (hdisplay : host'.display = host.display) :
    DifferInScalars host spec host' spec' where
  key := h.key
  aliases := h.aliases
  nest := h.nest
  vars := h.vars
  layers := by
    rcases h.layers with ⟨e, hl, hl'⟩ | ⟨ls, ls', hl, hl', hls⟩
    · exact Or.inl ⟨e, hl, hl'⟩
    · exact Or.inr ⟨ls, ls', hl, hl', hls.imp fun l l' hsame ↦
        ⟨hsame.1, hsame.2.imp fun _ _ hp ↦ hp.everywhere⟩⟩
  display := hdisplay

section Check

variable {host host' : Host} {spec spec' : LoadSpec}

/-- An error is told alike. -/
theorem DifferInScalars.convert_eq (h : DifferInScalars host spec host' spec') (error : FigmentError) :
    convert host' spec' error = convert host spec error := by
  have horigin : refineEnv host' ((error.metadata.map originOf).getD .unknown) (errorPath error)
      spec'.nest = refineEnv host ((error.metadata.map originOf).getD .unknown) (errorPath error)
        spec.nest := by
    rw [h.nest, refineEnv.eq_def, refineEnv.eq_def]
    split
    · split
      · simp only [h.vars]
      · rfl
    · rfl
  rw [convert, convert, h.display, horigin]

/-- Nothing that differs is carried anywhere but to a place. -/
theorem Fill.within_everywhere (key : String) (f : Fill) : f.Within everywhere key := fun _ _ ↦ trivial

/-- **A section resolves to similar tables**, from the same suppliers. -/
theorem resolved_alike (Fig : Type) [Figment Fig] [LawfulFigment Fig]
    (h : DifferInScalars host spec host' spec') :
    Alike (fun a b : Dict × Fig ↦
        SimilarOff Leaf.blind (everywhere.seen spec.key) (Dict.root a.1) (Dict.root b.1) ∧
          ∀ path, Figment.findMetadata a.2 path = Figment.findMetadata b.2 path)
      (resolved Fig host spec) (resolved Fig host' spec') := by
  rcases h.layers with ⟨e, hlayers, hlayers'⟩ | ⟨ls, ls', hlayers, hlayers', hls⟩
  · have hfails : ∀ {host : Host} {spec : LoadSpec}, layerProviders host spec = .error e →
        resolved Fig host spec = .error e := by
      intro host spec hlayers
      rw [resolved, merged, build_eq_layers, hlayers]
      rfl
    rw [hfails hlayers, hfails hlayers']
    exact .error e
  · have hproviders : List.Forall₂ (SimilarProviders everywhere) (ls.flatMap Prod.snd)
        (ls'.flatMap Prod.snd) := by
      clear hlayers hlayers'
      induction hls with
      | nil => exact List.Forall₂.nil
      | cons hl _ ih =>
        rw [List.flatMap_cons, List.flatMap_cons]
        exact List.rel_append hl.2 ih
    have hstacks := similar_resolvedIn h.key h.aliases hproviders fun f _ ↦
      f.within_everywhere spec.key
    have hmetadata : ∀ path, (resolvedIn spec (ls.flatMap Prod.snd)).findMetadata path =
        (resolvedIn spec' (ls'.flatMap Prod.snd)).findMetadata path :=
      hstacks.findMetadata_eq spec.key rfl
    rw [resolved, resolved, merged_of_layers hlayers, merged_of_layers hlayers']
    show Alike _ (resolvedTable host spec _ >>= fun values ↦ .ok (entriesInOrder values, _))
      (resolvedTable host' spec' _ >>= fun values ↦ .ok (entriesInOrder values, _))
    rw [resolvedTable, resolvedTable, LawfulFigment.extract_eq, LawfulFigment.extract_eq,
      stack_of_layers ls, stack_of_layers ls', Stack.extract, Stack.extract, Stack.combined,
      Stack.combined]
    rcases hstacks.values with ⟨e, hs, hs'⟩ | ⟨values, values', hs, hs', hsimilar⟩
    · rw [hs, hs']
      refine Or.inl ⟨convert host spec e, rfl, ?_⟩
      show Except.error (convert host' spec' e) = _
      rw [h.convert_eq]
    · rw [hs, hs']
      refine .ok ⟨similarOff_entriesInOrder ?_, fun path ↦ ?_⟩
      · have hin : ∀ p, (∀ q, everywhere p q → everywhere.seen spec.key q) →
            SimilarOff Leaf.blind (everywhere.seen spec.key) (values p).root (values' p).root :=
          fun p hsub ↦ (hsimilar p).mono Leaf.blind_blind hsub
        show SimilarOff _ _ (Dict.root (combine (sectionProfile spec.key) values))
          (Dict.root (combine (sectionProfile spec'.key) values'))
        rw [h.key, root_combine_sectionProfile, root_combine_sectionProfile]
        exact ((hin _ fun _ hq ↦ Or.inl hq).merge (hin _ fun _ hq ↦ Or.inl trivial)).merge
          (hin _ fun _ hq ↦ Or.inl trivial)
      · rw [LawfulFigment.findMetadata_eq, LawfulFigment.findMetadata_eq, stack_of_layers ls,
          stack_of_layers ls', hmetadata]

/-- **A report prints no value.** Two sets of sources that differ in scalars only give one report, but for
the reason why a load would fail. -/
theorem check_eq (Fig : Type) [Figment Fig] [LawfulFigment Fig] {T : Type} {host host' : Host}
    {spec spec' : LoadSpec} (h : DifferInScalars host spec host' spec')
    (read : Dict → Except FigmentError T) (fields : List String) :
    (check Fig host spec read fields).map Report.unexplained =
      (check Fig host' spec' read fields).map Report.unexplained := by
  rw [check, check]
  rcases resolved_alike Fig h with ⟨e, hr, hr'⟩ | ⟨⟨values, figment⟩, ⟨values', figment'⟩, hr, hr', hsimilar,
    hmetadata⟩
  · rw [hr, hr']
    rfl
  · have horigin : ∀ path, originIn host' figment' path spec'.nest =
        originIn host figment path spec.nest := by
      intro path
      rw [originIn, originIn, h.nest, originFrom_eq h.vars, hmetadata]
    have haliased : aliasedKeys spec' = aliasedKeys spec := by
      rw [aliasedKeys, aliasedKeys, h.aliases]
    rw [hr, hr']
    show Except.ok (Report.unexplained _) = Except.ok (Report.unexplained _)
    simp only [Report.unexplained, h.key, horigin, haliased, leafPaths_eq_of_similar hsimilar,
      unknownKeys_eq_of_similar hsimilar]

end Check

end DynamicConfig
