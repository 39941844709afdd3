import DynamicConfig.Explain.Table
import DynamicConfig.Loader.Contributions

/-!
# Where an explanation agrees with the load

An explanation asks each layer alone, a load lays them over each other. The two agree about a path
when no layer supplies it, and when what one supplies still stands there under all of them:
`AgreesWhen` says so of the tables of the layers and of what the aliases carry, and `agrees_iff` that
this is exactly when the winner is what the load resolves.

**Nothing checks it.** The last row is added when the composed load has an answer no row claims; when
the composed load has none, the rows are left as they are. So a scalar laid over a table leaves the
table's keys with a winner and no value (`not_agrees_of_scalar_above`).
-/

namespace DynamicConfig

open LabelledTree (readAt)

/-! ### The property and the condition -/

/-- An explanation agrees with what a load resolves: there is a winner exactly where there is a value,
and a scalar is what the winner shows. -/
structure Agrees (showFloat : UInt64 → String) (explanation : Explanation)
    (resolved : Option Node) : Prop where
  supplied : explanation.winner.isSome = resolved.isSome
  scalar : ∀ v s, resolved = some v → v.peek = some (.scalar s) →
    explanation.winner.bind Contribution.value = some (s.render showFloat)

/-- What a layer supplies at a path when it is asked alone. -/
def alone (key path : String) (providers : List Provider) : Option Node :=
  (Figment.findValue
    (Figment.select (mergeAll Stack.new providers) (sectionProfile key)) path).toOption

/-- What the last layer that supplies a path supplies there alone. -/
def topmost (key path : String) (ls : List (String × List Provider)) : Option Node :=
  (ls.filterMap fun e ↦ alone key path e.2).getLast?

/-- The firings of the aliases over some providers. -/
def firings (spec : LoadSpec) (providers : List Provider) : List Fill :=
  match spec.aliases with
  | none => []
  | some aliases => (aliasPass spec.key aliases.pairs (mergeAll Stack.new providers)).fills

/-- Some providers supply a value at a path of a section, with no others around them. -/
def SuppliesAlone (key path : String) (providers : List Provider) (v : Node) : Prop :=
  ∃ tables, supplied providers = .ok tables ∧
    (resolvedSection key (laid key tables [])).get (walked path) = some v

/-- A layer supplies this at a path, and no layer above it supplies anything there. -/
def TopmostSupplies (key path : String) (ls : List (String × List Provider)) (top : Node) : Prop :=
  ∃ lower layer upper, ls = lower ++ layer :: upper ∧ SuppliesAlone key path layer.2 top ∧
    ∀ l ∈ upper, ∀ v, ¬ SuppliesAlone key path l.2 v

/-- The declared aliases of a load, in path order. -/
def LoadSpec.aliasPairs (spec : LoadSpec) : List (String × String) :=
  match spec.aliases with
  | none => []
  | some aliases => aliases.pairs

/-- What is laid into the section of a load: the tables its providers supply, and what the aliases
carry over them. -/
def Contributes (spec : LoadSpec) (providers : List Provider) (tables : List Tables)
    (carried : List Fill) : Prop :=
  supplied providers = .ok tables ∧ RoundsCarry spec.key tables spec.aliasPairs [] carried

/-- The condition on the layers and the aliases. -/
structure AgreesWhen (showFloat : UInt64 → String) (host : Host) (spec : LoadSpec) (path : String)
    (ls : List (String × List Provider)) : Prop where
  /-- Where a layer supplies the path, every provider can be read, and a contribution to the section
  still stands there: after it, nothing puts a scalar or a list above the path. -/
  stands : ∀ layer ∈ ls, ∀ v, SuppliesAlone spec.key path layer.2 v →
    ∃ tables carried, Contributes spec (ls.flatMap Prod.snd) tables carried ∧
      StillStands spec.key tables carried (walked path)
  /-- A scalar that is the last of them there renders like what the topmost layer supplies, or is
  known to come from somewhere else. -/
  scalar : ∀ top, TopmostSupplies spec.key path ls top → ∀ tables carried m s,
    Contributes spec (ls.flatMap Prod.snd) tables carried →
      Shown spec.key tables carried (walked path) (m, some (.scalar s)) →
        s.render showFloat = render showFloat top ∨
          originFrom host path spec.nest m ≠ .unknown ∧
            originFrom host path spec.nest m ≠ originFrom host path spec.nest top.tag

/-! ### Reading the rows -/

section Rows

variable {Fig : Type} [Figment Fig] [LawfulFigment Fig] {showFloat : UInt64 → String}
  {host : Host} {spec : LoadSpec} {path : String}

/-- The supplier of a path is the tag of its value. -/
theorem findMetadata_eq_bind (figment : Fig) (path : String) :
    Figment.findMetadata figment path =
      (Figment.findValue figment path).toOption.bind LabelledTree.tag := by
  rw [LawfulFigment.findMetadata_eq, LawfulFigment.findValue_eq, Stack.findMetadata]
  rcases Stack.findValue _ path with e | v
  · rfl
  · rfl

/-- A row shows what its layer supplies alone. -/
theorem layerRow_eq (showFloat : UInt64 → String) (host : Host) (spec : LoadSpec)
    (path name : String) (providers : List Provider) :
    layerRow showFloat host spec.nest path name
        (Figment.select (mergeAll (Figment.new : Fig) providers) (sectionProfile spec.key)) =
      { layer := name
        origin := (alone spec.key path providers).map fun v ↦
          originFrom host path spec.nest v.tag
        value := (alone spec.key path providers).map (render showFloat) } := by
  have hstack : Figment.stack
      (Figment.select (mergeAll (Figment.new : Fig) providers) (sectionProfile spec.key)) =
        Stack.select (mergeAll Stack.new providers) (sectionProfile spec.key) := by
    rw [LawfulFigment.stack_select, stack_mergeAll, LawfulFigment.stack_new]
  have hvalue : (Figment.findValue
      (Figment.select (mergeAll (Figment.new : Fig) providers) (sectionProfile spec.key))
        path).toOption = alone spec.key path providers := by
    rw [LawfulFigment.findValue_eq, hstack]
    rfl
  rw [layerRow, originIn, findMetadata_eq_bind, hvalue]
  rcases alone spec.key path providers with - | v
  · rfl
  · rfl

/-- The last of the layers' rows with a value is the topmost layer's. -/
theorem winnerOf_layerRows (ls : List (String × List Provider)) :
    (winnerOf (ls.map fun e ↦ layerRow showFloat host spec.nest path e.1
      (Figment.select (mergeAll (Figment.new : Fig) e.2) (sectionProfile spec.key)))).map
        (fun row ↦ (row.origin, row.value)) =
      (topmost spec.key path ls).map fun v ↦
        (some (originFrom host path spec.nest v.tag), some (render showFloat v)) := by
  induction ls using List.reverseRecOn with
  | nil => rfl
  | append_singleton ls e ih =>
    rw [List.map_append, List.map_singleton, winnerOf, List.reverse_append, List.reverse_singleton,
      List.singleton_append, topmost, List.filterMap_append, layerRow_eq]
    rcases halone : alone spec.key path e.2 with - | v
    · have hnil : [e].filterMap (fun e ↦ alone spec.key path e.2) = [] := by
        rw [List.filterMap_cons, halone]
        rfl
      rw [hnil, List.append_nil]
      exact ih
    · have hone : [e].filterMap (fun e ↦ alone spec.key path e.2) = [v] := by
        rw [List.filterMap_cons, halone]
        rfl
      rw [hone, List.getLast?_concat]
      rfl

/-! ### Reading the load -/

/-- What a layer supplies is read off its tables. -/
theorem alone_eq_some_iff {key path : String} {providers : List Provider} {v : Node} :
    alone key path providers = some v ↔ SuppliesAlone key path providers v := by
  rw [alone, SuppliesAlone]
  rcases hsupplied : supplied providers with e | tables
  · have hvalues : (mergeAll Stack.new providers).values = .error e := by
      rw [values_mergeAll rfl providers, hsupplied]
      rfl
    have hselected : ((mergeAll Stack.new providers).select (sectionProfile key)).values =
        .error e := hvalues
    have hnone : (Figment.findValue (Figment.select (mergeAll Stack.new providers)
        (sectionProfile key)) path).toOption = none :=
      congrArg Except.toOption (Stack.findValue_of_error hselected path)
    rw [hnone]
    refine iff_of_false (fun h ↦ ?_) ?_
    · cases h
    · rintro ⟨tables, h, -⟩
      cases h
  · have hfound : (Figment.findValue (Figment.select (mergeAll Stack.new providers)
        (sectionProfile key)) path).toOption =
          (resolvedSection key (laid key tables [])).get (walked path) :=
      findValue_of_tables (values_laid hsupplied key []) key path
    rw [hfound]
    constructor
    · intro h
      exact ⟨tables, rfl, h⟩
    · rintro ⟨tables', h, hget⟩
      obtain rfl := Except.ok.inj h
      exact hget

theorem alone_eq_none_iff {key path : String} {providers : List Provider} :
    alone key path providers = none ↔ ∀ v, ¬ SuppliesAlone key path providers v := by
  rw [Option.eq_none_iff_forall_ne_some]
  exact forall_congr' fun v ↦ not_congr alone_eq_some_iff

/-- The topmost layer that supplies a path. -/
theorem topmost_eq_some_iff {key path : String} {ls : List (String × List Provider)} {top : Node} :
    topmost key path ls = some top ↔ TopmostSupplies key path ls top := by
  rw [topmost, List.getLast?_filterMap, List.findSome?_eq_some_iff]
  constructor
  · rintro ⟨upper, layer, lower, hsplit, hlayer, hupper⟩
    refine ⟨lower.reverse, layer, upper.reverse, ?_, alone_eq_some_iff.1 hlayer, fun l hl ↦ ?_⟩
    · rw [List.reverse_eq_iff.1 hsplit]
      simp
    · exact alone_eq_none_iff.1 (hupper l (List.mem_reverse.1 hl))
  · rintro ⟨lower, layer, upper, rfl, hlayer, hupper⟩
    refine ⟨upper.reverse, layer, lower.reverse, by simp, alone_eq_some_iff.2 hlayer, fun l hl ↦ ?_⟩
    exact alone_eq_none_iff.2 (hupper l (List.mem_reverse.1 hl))

/-- No layer supplies a path. -/
theorem topmost_eq_none_iff {key path : String} {ls : List (String × List Provider)} :
    topmost key path ls = none ↔ ∀ layer ∈ ls, ∀ v, ¬ SuppliesAlone key path layer.2 v := by
  rw [topmost, List.getLast?_eq_none_iff, List.filterMap_eq_nil_iff]
  exact forall_congr' fun layer ↦ forall_congr' fun _ ↦ alone_eq_none_iff

/-- The alias pass of a load, as the fold of its firings. -/
theorem applyAliases_eq_foldl (spec : LoadSpec) (providers : List Provider) :
    applyAliases (mergeAll Stack.new providers) spec =
      (firings spec providers).foldl (fill spec.key) (mergeAll Stack.new providers) := by
  rw [applyAliases, firings]
  rcases spec.aliases with - | aliases
  · rfl
  · exact (aliasPass_fills spec.key aliases.pairs (mergeAll Stack.new providers)).eq_foldl

/-- The section a load reads, after its alias pass. -/
def resolvedIn (spec : LoadSpec) (providers : List Provider) : Stack :=
  (applyAliases (mergeAll Stack.new providers) spec).select (sectionProfile spec.key)

/-- The firings of a load are those of its declared aliases. -/
theorem firings_eq (spec : LoadSpec) (providers : List Provider) :
    firings spec providers =
      (aliasPass spec.key spec.aliasPairs (mergeAll Stack.new providers)).fills := by
  rw [firings, LoadSpec.aliasPairs]
  rcases spec.aliases with - | aliases
  · rfl
  · rfl

/-- What is laid into the section of a load, by its firings. -/
theorem contributes_iff {spec : LoadSpec} {providers : List Provider} {tables : List Tables}
    {carried : List Fill} :
    Contributes spec providers tables carried ↔
      supplied providers = .ok tables ∧ carried = firings spec providers := by
  rw [Contributes, firings_eq]
  exact and_congr_right fun h ↦ roundsCarry_iff h

/-- **What a load resolves at a path** is what its contributions show there. -/
theorem resolvedIn_iff (spec : LoadSpec) (providers : List Provider) (path : String)
    (m : Option Metadata) (x : Option Leaf) :
    (∃ v, ((resolvedIn spec providers).findValue path).toOption = some v ∧
        v.tag = m ∧ v.peek = x) ↔
      ∃ tables carried, Contributes spec providers tables carried ∧
        Shown spec.key tables carried (walked path) (m, x) := by
  rcases hsupplied : supplied providers with e | tables
  · -- A provider that fails takes every value with it, and leaves no alias anything to carry.
    have hmerged : (mergeAll Stack.new providers).values = .error e := by
      rw [values_mergeAll rfl providers, hsupplied]
      rfl
    have hnone : firings spec providers = [] := by
      rw [firings_eq]
      exact (aliasPass_fills spec.key spec.aliasPairs _).eq_nil_of_error hmerged
    have hvalues : (resolvedIn spec providers).values = .error e := by
      rw [resolvedIn, applyAliases_eq_foldl, hnone]
      exact hmerged
    rw [Stack.findValue_of_error hvalues]
    refine iff_of_false ?_ ?_
    · rintro ⟨v, hv, -⟩
      cases hv
    · rintro ⟨tables, carried, hcontributes, -⟩
      rw [contributes_iff, hsupplied] at hcontributes
      cases hcontributes.1
  · have hfound : ((resolvedIn spec providers).findValue path).toOption =
        (resolvedSection spec.key (laid spec.key tables (firings spec providers))).get
          (walked path) := by
      rw [resolvedIn, applyAliases_eq_foldl]
      exact findValue_of_tables (values_laid hsupplied spec.key (firings spec providers))
        spec.key path
    have hread : (∃ v, ((resolvedIn spec providers).findValue path).toOption = some v ∧
        v.tag = m ∧ v.peek = x) ↔
          Shown spec.key tables (firings spec providers) (walked path) (m, x) := by
      rw [← readAt_laid, readAt, Option.map_eq_some_iff, hfound]
      exact exists_congr fun v ↦ and_congr_right fun _ ↦ Prod.mk.injEq _ _ _ _ ▸ Iff.rfl
    rw [hread]
    constructor
    · intro hshown
      exact ⟨tables, _, contributes_iff.2 ⟨hsupplied, rfl⟩, hshown⟩
    · rintro ⟨tables', carried, hcontributes, hshown⟩
      obtain ⟨htables, rfl⟩ := contributes_iff.1 hcontributes
      obtain rfl := Except.ok.inj (hsupplied.symm.trans htables)
      exact hshown

/-! ### The explanation of a run -/

theorem winnerOf_concat {rows : List Contribution} {row : Contribution}
    (h : row.value.isSome = true) : winnerOf (rows ++ [row]) = some row := by
  rw [winnerOf, List.reverse_append, List.reverse_singleton, List.singleton_append, List.find?_cons,
    h]

omit [LawfulFigment Fig] in
/-- Nothing is added where the composed load has no answer. -/
theorem aliasRow_of_none {figment : Fig} {rows : List Contribution}
    (hfound : (Figment.findValue figment path).toOption = none) :
    aliasRow showFloat host spec path rows figment = [] := by
  rw [aliasRow]
  rcases hvalue : Figment.findValue figment path with e | v
  · rfl
  · rw [hvalue] at hfound
    cases hfound

/-- An answer of the composed load that a row may claim: there is a winner, and it comes from where
the answer does, or nobody knows where that is. -/
def claimed (winner : Option Contribution) (origin : Origin) : Bool :=
  match winner with
  | none => false
  | some winner => decide (origin = .unknown) || decide (winner.origin = some origin)

/-- Where the composed load has an answer, the row of the alias is added unless a row claims it. -/
theorem aliasRow_of_some {figment : Fig} {rows : List Contribution} {v : Node}
    (hfound : (Figment.findValue figment path).toOption = some v) :
    aliasRow showFloat host spec path rows figment =
      if claimed (winnerOf rows) (originFrom host path spec.nest v.tag) then []
      else
        [{ layer := "alias", origin := some (originFrom host path spec.nest v.tag)
           value := some (render showFloat v), aliasedFrom := aliasedFrom spec path }] := by
  have horigin : originIn host figment path spec.nest = originFrom host path spec.nest v.tag := by
    rw [originIn, findMetadata_eq_bind, hfound]
    rfl
  have hvalue : Figment.findValue figment path = .ok v := by
    rcases hfind : Figment.findValue figment path with e | w
    · rw [hfind] at hfound
      cases hfound
    · rw [hfind] at hfound
      exact congrArg Except.ok (Option.some.inj hfound)
  rw [aliasRow, hvalue]
  dsimp only
  rw [horigin]
  rcases hwinner : winnerOf rows with - | winner
  · rw [if_pos rfl, claimed, if_neg Bool.false_ne_true]
  · rcases hclaimed : claimed (some winner) (originFrom host path spec.nest v.tag) with - | -
    · have hdisagrees : (!decide (originFrom host path spec.nest v.tag = .unknown) &&
          !decide (winner.origin = some (originFrom host path spec.nest v.tag))) = true := by
        rw [← Bool.not_or]
        exact congrArg Bool.not hclaimed
      rw [if_pos hdisagrees, if_neg Bool.false_ne_true]
    · have hagrees : (!decide (originFrom host path spec.nest v.tag = .unknown) &&
          !decide (winner.origin = some (originFrom host path spec.nest v.tag))) = false := by
        rw [← Bool.not_or]
        exact congrArg Bool.not hclaimed
      rw [if_pos rfl, if_neg (Bool.eq_false_iff.1 hagrees)]

/-- Where the composed load has an answer, what wins shows it, unless a row claims it. -/
theorem winner_with_aliasRow {figment : Fig} {rows : List Contribution} {v : Node}
    (hfound : (Figment.findValue figment path).toOption = some v) :
    (winnerOf (rows ++ aliasRow showFloat host spec path rows figment)).bind Contribution.value =
      if claimed (winnerOf rows) (originFrom host path spec.nest v.tag) then
        (winnerOf rows).bind Contribution.value
      else some (render showFloat v) := by
  rw [aliasRow_of_some hfound]
  split
  · rw [List.append_nil]
  · rw [winnerOf_concat rfl]
    rfl

/-- The rows of some layers' providers, each layer asked alone. -/
def layerRows (Fig : Type) [Figment Fig] (showFloat : UInt64 → String) (host : Host)
    (spec : LoadSpec) (path : String) (ls : List (String × List Provider)) : List Contribution :=
  ls.map fun e ↦ layerRow showFloat host spec.nest path e.1
    (Figment.select (mergeAll (Figment.new : Fig) e.2) (sectionProfile spec.key))

/-- Whether a winner is there, and whether it claims an answer, are read off the topmost layer. -/
theorem winnerOf_layerRows_cases (Fig : Type) [Figment Fig] [LawfulFigment Fig]
    (showFloat : UInt64 → String) (host : Host) (spec : LoadSpec) (path : String)
    (ls : List (String × List Provider)) :
    topmost spec.key path ls = none ∧ winnerOf (layerRows Fig showFloat host spec path ls) = none ∨
      ∃ top winner, topmost spec.key path ls = some top ∧
        winnerOf (layerRows Fig showFloat host spec path ls) = some winner ∧
          winner.origin = some (originFrom host path spec.nest top.tag) ∧
            winner.value = some (render showFloat top) := by
  have h : (winnerOf (layerRows Fig showFloat host spec path ls)).map
      (fun row ↦ (row.origin, row.value)) = (topmost spec.key path ls).map fun v ↦
        (some (originFrom host path spec.nest v.tag), some (render showFloat v)) :=
    winnerOf_layerRows ls
  rcases hwinner : winnerOf (layerRows Fig showFloat host spec path ls) with - | winner
  · rw [hwinner] at h
    exact Or.inl ⟨Option.map_eq_none_iff.1 h.symm, rfl⟩
  · rw [hwinner] at h
    obtain ⟨top, htop, hrow⟩ := Option.map_eq_some_iff.1 h.symm
    obtain ⟨horigin, hvalue⟩ := Prod.mk.inj hrow
    exact Or.inr ⟨top, winner, htop, rfl, horigin.symm, hvalue.symm⟩

/-- A contribution still stands exactly where the load resolves something. -/
theorem stillStands_iff (spec : LoadSpec) (providers : List Provider) (path : String) :
    (∃ tables carried, Contributes spec providers tables carried ∧
        StillStands spec.key tables carried (walked path)) ↔
      ((resolvedIn spec providers).findValue path).toOption ≠ none := by
  constructor
  · rintro ⟨tables, carried, hcontributes, hstands⟩
    obtain ⟨⟨m, x⟩, hshown⟩ := exists_shown_iff.2 hstands
    obtain ⟨v, hv, -⟩ := (resolvedIn_iff _ _ _ _ _).2 ⟨tables, carried, hcontributes, hshown⟩
    rw [hv]
    exact Option.some_ne_none v
  · intro h
    obtain ⟨v, hv⟩ := Option.ne_none_iff_exists'.1 h
    obtain ⟨tables, carried, hcontributes, hshown⟩ :=
      (resolvedIn_iff spec providers path v.tag v.peek).1 ⟨v, hv, rfl, rfl⟩
    exact ⟨tables, carried, hcontributes, exists_shown_iff.1 ⟨_, hshown⟩⟩

/-- The condition, where the load resolves something. -/
theorem agreesWhen_of_found {ls : List (String × List Provider)} {v : Node}
    (hfound : ((resolvedIn spec (ls.flatMap Prod.snd)).findValue path).toOption = some v) :
    AgreesWhen showFloat host spec path ls ↔
      ∀ top, topmost spec.key path ls = some top → ∀ s, v.peek = some (.scalar s) →
        s.render showFloat = render showFloat top ∨
          originFrom host path spec.nest v.tag ≠ .unknown ∧
            originFrom host path spec.nest v.tag ≠ originFrom host path spec.nest top.tag := by
  constructor
  · intro h top htop s hs
    obtain ⟨tables, carried, hcontributes, hshown⟩ :=
      (resolvedIn_iff spec (ls.flatMap Prod.snd) path v.tag v.peek).1 ⟨v, hfound, rfl, rfl⟩
    rw [hs] at hshown
    exact h.scalar top (topmost_eq_some_iff.1 htop) tables carried v.tag s hcontributes hshown
  · intro h
    refine ⟨fun layer _ w _ ↦ ?_, fun top htop tables carried m s hcontributes hshown ↦ ?_⟩
    · refine (stillStands_iff _ _ _).2 ?_
      rw [hfound]
      exact Option.some_ne_none v
    · obtain ⟨w, hw, rfl, hs⟩ :=
        (resolvedIn_iff _ _ _ _ _).2 ⟨tables, carried, hcontributes, hshown⟩
      obtain rfl : v = w := Option.some.inj (hfound.symm.trans hw)
      exact h top (topmost_eq_some_iff.2 htop) s hs

/-- The condition, where the load resolves nothing: then no layer may supply anything. -/
theorem agreesWhen_of_not_found {ls : List (String × List Provider)}
    (hfound : ((resolvedIn spec (ls.flatMap Prod.snd)).findValue path).toOption = none) :
    AgreesWhen showFloat host spec path ls ↔ topmost spec.key path ls = none := by
  rw [topmost_eq_none_iff]
  constructor
  · intro h layer hlayer v hv
    exact (stillStands_iff _ _ _).1 (h.stands layer hlayer v hv) hfound
  · intro h
    refine ⟨fun layer hlayer v hv ↦ absurd hv (h layer hlayer v), ?_⟩
    rintro top ⟨lower, layer, upper, rfl, hlayer, -⟩
    exact absurd hlayer (h layer (by simp) top)

/-- A scalar is rendered as itself. -/
theorem render_of_peek {v : Node} {s : Scalar} (h : v.peek = some (.scalar s)) :
    render showFloat v = s.render showFloat := by
  rcases v with ⟨m, x⟩ | ⟨m, entries⟩
  · obtain rfl : x = .scalar s := Option.some.inj h
    rfl
  · cases h

/-- Where there is a winner that shows a text, agreeing is about that text. -/
theorem agrees_some_iff {rows : List Contribution} {v : Node} {text : String}
    (h : (winnerOf rows).bind Contribution.value = some text) :
    Agrees showFloat { path, rows } (some v) ↔
      ∀ s, v.peek = some (.scalar s) → s.render showFloat = text := by
  constructor
  · intro hagrees s hs
    have hvalue := hagrees.scalar v s rfl hs
    rw [Explanation.winner, h] at hvalue
    exact (Option.some.inj hvalue).symm
  · intro hscalar
    refine ⟨?_, fun w s hw hs ↦ ?_⟩
    · obtain ⟨winner, hwinner, -⟩ := Option.bind_eq_some_iff.1 h
      rw [Explanation.winner, hwinner]
      rfl
    · obtain rfl : v = w := Option.some.inj hw
      rw [Explanation.winner, h, hscalar s hs]

/-- The rows of an explanation: those of the layers, and the row of the alias. -/
def explainedRows (showFloat : UInt64 → String) (host : Host) (spec : LoadSpec) (path : String)
    (ls : List (String × List Provider)) (figment : Fig) : List Contribution :=
  layerRows Fig showFloat host spec path ls ++
    aliasRow showFloat host spec path (layerRows Fig showFloat host spec path ls) figment

/-- Where the load has no answer no row is added, and the winner is the topmost layer's row. -/
theorem agrees_none_iff {figment : Fig} {ls : List (String × List Provider)}
    (hfound : (Figment.findValue figment path).toOption = none) :
    Agrees showFloat { path, rows := explainedRows showFloat host spec path ls figment } none ↔
      topmost spec.key path ls = none := by
  rw [explainedRows, aliasRow_of_none hfound, List.append_nil]
  rcases winnerOf_layerRows_cases Fig showFloat host spec path ls with
    ⟨htop, hwinner⟩ | ⟨top, winner, htop, hwinner, -⟩
  · refine iff_of_true ⟨?_, fun v s hv ↦ ?_⟩ htop
    · rw [Explanation.winner, hwinner]
      rfl
    · cases hv
  · refine iff_of_false (fun h ↦ ?_) (fun h ↦ ?_)
    · have hnone := h.supplied
      rw [Explanation.winner, hwinner] at hnone
      cases hnone
    · rw [h] at htop
      cases htop

/-- Where the load has an answer, either the topmost layer's row claims it and has to show it, or the
alias has a row of its own, which shows it. -/
theorem agrees_found_iff {figment : Fig} {ls : List (String × List Provider)} {v : Node}
    (hfound : (Figment.findValue figment path).toOption = some v) :
    Agrees showFloat { path, rows := explainedRows showFloat host spec path ls figment } (some v) ↔
      ∀ top, topmost spec.key path ls = some top → ∀ s, v.peek = some (.scalar s) →
        s.render showFloat = render showFloat top ∨
          originFrom host path spec.nest v.tag ≠ .unknown ∧
            originFrom host path spec.nest v.tag ≠ originFrom host path spec.nest top.tag := by
  have hwins : (winnerOf (explainedRows showFloat host spec path ls figment)).bind
      Contribution.value =
        if claimed (winnerOf (layerRows Fig showFloat host spec path ls))
            (originFrom host path spec.nest v.tag) then
          (winnerOf (layerRows Fig showFloat host spec path ls)).bind Contribution.value
        else some (render showFloat v) :=
    winner_with_aliasRow hfound
  rcases winnerOf_layerRows_cases Fig showFloat host spec path ls with
    ⟨htop, hwinner⟩ | ⟨top, winner, htop, hwinner, horigin, hvalue⟩
  · rw [hwinner, claimed, if_neg Bool.false_ne_true] at hwins
    refine iff_of_true ((agrees_some_iff hwins).2 fun s hs ↦ (render_of_peek hs).symm) ?_
    intro top htop'
    rw [htop] at htop'
    cases htop'
  · rw [hwinner, claimed, horigin] at hwins
    split at hwins
    · next hclaims =>
      rw [Bool.or_eq_true, decide_eq_true_iff, decide_eq_true_iff] at hclaims
      have htext := hwins.trans hvalue
      rw [agrees_some_iff htext]
      constructor
      · intro h top' htop' s hs
        obtain rfl : top = top' := Option.some.inj (htop.symm.trans htop')
        exact Or.inl (h s hs)
      · intro h s hs
        rcases h top htop s hs with hrender | ⟨hknown, helsewhere⟩
        · exact hrender
        · rcases hclaims with hunknown | hsame
          · exact absurd hunknown hknown
          · exact absurd (Option.some.inj hsame).symm helsewhere
    · next hclaims =>
      rw [Bool.or_eq_true, decide_eq_true_iff, decide_eq_true_iff, not_or] at hclaims
      refine iff_of_true ((agrees_some_iff hwins).2 fun s hs ↦ (render_of_peek hs).symm) ?_
      intro top' htop' s _
      obtain rfl : top = top' := Option.some.inj (htop.symm.trans htop')
      exact Or.inr ⟨hclaims.1, fun hsame ↦ hclaims.2 (congrArg some hsame.symm)⟩

/-- What the rows say about a figment agrees with what the figment resolves exactly under the
condition. -/
theorem agrees_iff_of_stack {figment : Fig} {ls : List (String × List Provider)}
    (hstack : Figment.stack figment = resolvedIn spec (ls.flatMap Prod.snd)) :
    Agrees showFloat { path, rows := explainedRows showFloat host spec path ls figment }
        (Figment.findValue figment path).toOption ↔
      AgreesWhen showFloat host spec path ls := by
  have hfound : (Figment.findValue figment path).toOption =
      ((resolvedIn spec (ls.flatMap Prod.snd)).findValue path).toOption := by
    rw [LawfulFigment.findValue_eq, hstack]
  rcases hresolved : ((resolvedIn spec (ls.flatMap Prod.snd)).findValue path).toOption with - | v
  · rw [hresolved] at hfound
    rw [agreesWhen_of_not_found hresolved, hfound]
    exact agrees_none_iff hfound
  · rw [hresolved] at hfound
    rw [agreesWhen_of_found hresolved, hfound]
    exact agrees_found_iff hfound

omit [LawfulFigment Fig] in
/-- The figment of a load whose layers merge these providers. -/
theorem merged_of_layers {ls : List (String × List Provider)}
    (h : layerProviders host spec = .ok ls) :
    (merged host spec : Except Error Fig) = .ok (Figment.select
      (applyAliases (mergeAll Figment.new (ls.flatMap Prod.snd)) spec)
        (sectionProfile spec.key)) := by
  rw [merged, build_eq_layers, h]
  rfl

theorem stack_of_layers (ls : List (String × List Provider)) :
    Figment.stack (Figment.select
      (applyAliases (mergeAll (Figment.new : Fig) (ls.flatMap Prod.snd)) spec)
        (sectionProfile spec.key)) = resolvedIn spec (ls.flatMap Prod.snd) := by
  rw [LawfulFigment.stack_select, stack_applyAliases, stack_mergeAll, LawfulFigment.stack_new]
  rfl

omit [LawfulFigment Fig] in
/-- The explanation of a load whose layers merge these providers. -/
theorem explain_of_layers {ls : List (String × List Provider)}
    (h : layerProviders host spec = .ok ls) (path : String) :
    explain Fig showFloat host spec path = .ok
      { path, rows := layerRows Fig showFloat host spec path ls ++
          aliasRow showFloat host spec path (layerRows Fig showFloat host spec path ls)
            (Figment.select (applyAliases (mergeAll (Figment.new : Fig) (ls.flatMap Prod.snd)) spec)
              (sectionProfile spec.key)) } := by
  have hrows : (ls.map fun e ↦ (e.1, Figment.select (mergeAll (Figment.new : Fig) e.2)
      (sectionProfile spec.key))).map (fun e ↦ layerRow showFloat host spec.nest path e.1 e.2) =
        layerRows Fig showFloat host spec path ls :=
    List.map_map
  rw [← hrows, explain, layerFigments_eq, merged_of_layers h, h]
  rfl

/-- **An explanation agrees with its load exactly when `AgreesWhen` says so.** -/
theorem agrees_iff (Fig : Type) [Figment Fig] [LawfulFigment Fig] (showFloat : UInt64 → String)
    (host : Host) (spec : LoadSpec) (path : String) {explanation : Explanation}
    (h : explain Fig showFloat host spec path = .ok explanation) :
    ∃ (ls : List (String × List Provider)) (figment : Fig),
      layerProviders host spec = .ok ls ∧ merged host spec = .ok figment ∧
        (Agrees showFloat explanation (Figment.findValue figment path).toOption ↔
          AgreesWhen showFloat host spec path ls) := by
  rcases hlayers : layerProviders host spec with e | ls
  · rw [explain, layerFigments_eq, hlayers] at h
    cases h
  · rw [explain_of_layers hlayers] at h
    obtain rfl := Except.ok.inj h
    exact ⟨ls, _, rfl, merged_of_layers hlayers, agrees_iff_of_stack (stack_of_layers ls)⟩

end Rows

/-! ### A scalar laid over a table -/

/-- A pool with a limit. -/
def poolLimit : Layer := ⟨[("pool.max", Node.scalar (.int 10))], List.pairwise_singleton _ _⟩

/-- A pool that is a number. -/
def poolNumber : Layer := ⟨[("pool", Node.scalar (.int 5))], List.pairwise_singleton _ _⟩

/-- A pool with a limit by default, and an override that says the pool is a number. -/
def scalarAbove : LoadSpec where
  key := "db"
  defaults := some poolLimit
  overrides := some poolNumber

/-- The providers of its two layers. -/
def scalarAboveLayers : List (String × List Provider) :=
  [("default", [poolLimit.provider (sectionProfile "db") defaultsName]),
    ("override", [poolNumber.provider (sectionProfile "db") overridesName])]

theorem layerProviders_scalarAbove :
    layerProviders Host.bare scalarAbove = .ok scalarAboveLayers := rfl

theorem topmost_scalarAbove :
    (topmost "db" "pool.max" scalarAboveLayers).isSome = true := by decide +kernel

theorem resolvedIn_scalarAbove :
    ((resolvedIn scalarAbove (scalarAboveLayers.flatMap Prod.snd)).findValue
      "pool.max").toOption.isNone = true := by decide +kernel

/-- The condition decides about it. -/
theorem agrees_iff_scalarAbove : ∃ explanation,
    explain Stack (fun _ ↦ "") Host.bare scalarAbove "pool.max" = .ok explanation ∧
      ∃ (ls : List (String × List Provider)) (figment : Stack),
        layerProviders Host.bare scalarAbove = .ok ls ∧
          merged Host.bare scalarAbove = .ok figment ∧
            (Agrees (fun _ ↦ "") explanation (Figment.findValue figment "pool.max").toOption ↔
              AgreesWhen (fun _ ↦ "") Host.bare scalarAbove "pool.max" ls) := by
  obtain ⟨explanation, hexplain⟩ : ∃ explanation,
      explain Stack (fun _ ↦ "") Host.bare scalarAbove "pool.max" = .ok explanation :=
    ⟨_, explain_of_layers layerProviders_scalarAbove "pool.max"⟩
  exact ⟨explanation, hexplain, agrees_iff Stack (fun _ ↦ "") Host.bare scalarAbove "pool.max" hexplain⟩

/-- **A winner for a path that the load does not have.** -/
theorem not_agrees_of_scalar_above : ∃ (explanation : Explanation) (figment : Stack),
    explain Stack (fun _ ↦ "") Host.bare scalarAbove "pool.max" = .ok explanation ∧
      merged Host.bare scalarAbove = .ok figment ∧
        explanation.winner.isSome ∧ (Figment.findValue figment "pool.max").toOption = none ∧
          ¬ Agrees (fun _ ↦ "") explanation (Figment.findValue figment "pool.max").toOption := by
  have hfound : (Figment.findValue (Figment.select (applyAliases (mergeAll (Figment.new : Stack)
      (scalarAboveLayers.flatMap Prod.snd)) scalarAbove) (sectionProfile scalarAbove.key))
        "pool.max").toOption = none :=
    Option.isNone_iff_eq_none.1 resolvedIn_scalarAbove
  have hwinner : (winnerOf (layerRows Stack (fun _ ↦ "") Host.bare scalarAbove "pool.max"
      scalarAboveLayers)).isSome = true := by
    rcases winnerOf_layerRows_cases Stack (fun _ ↦ "") Host.bare scalarAbove "pool.max"
        scalarAboveLayers with ⟨hnone, -⟩ | ⟨-, winner, -, h, -⟩
    · have htop := topmost_scalarAbove
      rw [show scalarAbove.key = "db" from rfl] at hnone
      rw [hnone] at htop
      cases htop
    · rw [h]
      rfl
  refine ⟨_, _, explain_of_layers layerProviders_scalarAbove "pool.max",
    merged_of_layers layerProviders_scalarAbove, ?_, hfound, ?_⟩
  · rw [Explanation.winner, aliasRow_of_none hfound, List.append_nil]
    exact hwinner
  · intro h
    have hsupplied := h.supplied
    rw [hfound, Explanation.winner, aliasRow_of_none hfound, List.append_nil, hwinner] at hsupplied
    cases hsupplied

end DynamicConfig
