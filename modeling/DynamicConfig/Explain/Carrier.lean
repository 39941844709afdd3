import DynamicConfig.Explain.Agreement
import DynamicConfig.Loader.Rounds

/-!
# The alias an explanation names

The alias pass leaves the value, named after whatever supplied the old path; which alias carried it
is not recorded anywhere. An explanation reads it back off the declaration: the first alias in path
order whose destination is the path.

**Reading it back is not what the pass does.** The pass takes the first of them that has something to
carry. Where the first in path order has nothing, the explanation still names it
(`not_names_of_unsupplied`). `names_iff` says when the alias that carried a value is the one that is
named: the path is spelled like its destination, the first alias with this destination has something
to offer when its turn comes in one of the rounds, and the carried value is not claimed by a row of a
layer.
-/

namespace DynamicConfig

/-! ### Where a value came from -/

/-- The value at a path came from a firing: it was laid at the path or above, nothing laid later
reaches the path, and what it holds there is what the load resolves. -/
structure CameFrom (spec : LoadSpec) (providers : List Provider) (path : String) (f : Fill) :
    Prop where
  placed : segments f.destination <+: walked path
  last : ∃ earlier later, firings spec providers = earlier ++ f :: later ∧
    ∀ g ∈ later, segments g.destination <+: walked path → g.dict.root.readAt (walked path) = none
  resolved : ∃ v, ((resolvedIn spec providers).findValue path).toOption = some v ∧
    f.dict.root.readAt (walked path) = some (v.tag, v.peek)

/-- An explanation names the alias of a firing: its row of the alias carries the old path. -/
def Explanation.Names (explanation : Explanation) (f : Fill) : Prop :=
  ∃ row ∈ explanation.rows, row.layer = "alias" ∧ row.aliasedFrom = some f.source

/-- The condition on the aliases: in one of the rounds, the first in path order whose destination is
the path has something to offer when its turn comes. -/
def FirstCarries (spec : LoadSpec) (providers : List Provider) (path : String) : Prop :=
  ∃ aliases, spec.aliases = some aliases ∧
    FirstOffers spec.key aliases.pairs (mergeAll Stack.new providers) path

/-- The condition on the layers: where one supplies the path, what is carried there is known to come
from somewhere else than what the topmost of them supplies. -/
def Unclaimed (host : Host) (spec : LoadSpec) (path : String) (ls : List (String × List Provider))
    (metadata : Metadata) : Prop :=
  ∀ top, TopmostSupplies spec.key path ls top →
    originFrom host path spec.nest (some metadata) ≠ .unknown ∧
      originFrom host path spec.nest (some metadata) ≠ originFrom host path spec.nest top.tag

/-! ### The row of the alias -/

section Rows

variable {Fig : Type} [Figment Fig] [LawfulFigment Fig] {showFloat : UInt64 → String}
  {host : Host} {spec : LoadSpec} {path : String}

omit [LawfulFigment Fig] in
/-- No row of a layer carries an old path. -/
theorem aliasedFrom_of_mem_layerRows {ls : List (String × List Provider)} {row : Contribution}
    (h : row ∈ layerRows Fig showFloat host spec path ls) : row.aliasedFrom = none := by
  obtain ⟨e, -, rfl⟩ := List.mem_map.1 h
  rfl

/-- Whether a winner claims an answer that comes with a metadata. -/
theorem claimed_iff_not_unclaimed (ls : List (String × List Provider)) (metadata : Metadata) :
    claimed (winnerOf (layerRows Fig showFloat host spec path ls))
        (originFrom host path spec.nest (some metadata)) = false ↔
      Unclaimed host spec path ls metadata := by
  rcases winnerOf_layerRows_cases Fig showFloat host spec path ls with
    ⟨htop, hwinner⟩ | ⟨top, winner, htop, hwinner, horigin, -⟩
  · rw [hwinner]
    refine iff_of_true rfl fun top htop' ↦ ?_
    rw [← topmost_eq_some_iff, htop] at htop'
    cases htop'
  · rw [hwinner, claimed, horigin, Bool.or_eq_false_iff, decide_eq_false_iff_not,
      decide_eq_false_iff_not]
    constructor
    · rintro ⟨hknown, helsewhere⟩ top' htop'
      obtain rfl : top = top' := Option.some.inj (htop.symm.trans (topmost_eq_some_iff.2 htop'))
      exact ⟨hknown, fun hsame ↦ helsewhere (congrArg some hsame.symm)⟩
    · intro h
      obtain ⟨hknown, helsewhere⟩ := h top (topmost_eq_some_iff.1 htop)
      exact ⟨hknown, fun hsame ↦ helsewhere (Option.some.inj hsame).symm⟩

/-- The rows of an explanation name an alias exactly when its row is added and carries the old path
that the declaration has for the path. -/
theorem names_rows_iff {ls : List (String × List Provider)} {figment : Fig} {v : Node}
    (hfound : (Figment.findValue figment path).toOption = some v) (f : Fill) :
    Explanation.Names
        { path, rows := layerRows Fig showFloat host spec path ls ++
            aliasRow showFloat host spec path (layerRows Fig showFloat host spec path ls) figment }
        f ↔
      claimed (winnerOf (layerRows Fig showFloat host spec path ls))
          (originFrom host path spec.nest v.tag) = false ∧
        aliasedFrom spec path = some f.source := by
  rw [aliasRow_of_some hfound]
  constructor
  · rintro ⟨row, hrow, -, haliased⟩
    rcases List.mem_append.1 hrow with hlayer | halias
    · rw [aliasedFrom_of_mem_layerRows hlayer] at haliased
      cases haliased
    · split at halias
      · cases halias
      · next hclaimed =>
        obtain rfl := List.mem_singleton.1 halias
        exact ⟨Bool.eq_false_iff.2 hclaimed, haliased⟩
  · rintro ⟨hclaimed, haliased⟩
    rw [if_neg (Bool.eq_false_iff.1 hclaimed)]
    exact ⟨_, List.mem_append_right _ (List.mem_singleton_self _), rfl, haliased⟩

/-! ### The old path that is named -/

/-- The old path an explanation reads off the declaration is the one of a firing exactly when the
path is its destination and the first alias with this destination carries. -/
theorem aliasedFrom_iff {providers : List Provider} {f : Fill} (hf : f ∈ firings spec providers) :
    aliasedFrom spec path = some f.source ↔
      f.destination = path ∧ FirstCarries spec providers path := by
  rw [firings] at hf
  rw [aliasedFrom, FirstCarries]
  rcases haliases : spec.aliases with - | aliases
  · rw [haliases] at hf
    cases hf
  · rw [haliases] at hf
    have hsources : (aliases.pairs.map Prod.fst).Nodup :=
      aliases.ordered.imp fun hlt ↦ ne_of_lt hlt
    rw [Option.bind_some, first_source_iff hsources hf path]
    refine and_congr_right fun _ ↦ ⟨fun h ↦ ⟨aliases, rfl, h⟩, ?_⟩
    rintro ⟨aliases', haliases', h⟩
    obtain rfl := Option.some.inj haliases'
    exact h

omit [LawfulFigment Fig] [Figment Fig] in
/-- What a firing carries has the label of what supplied it. -/
theorem supplier_of_mem_firings {providers : List Provider} {f : Fill}
    (hf : f ∈ firings spec providers) : f.supplier = f.value.tag := by
  rw [firings] at hf
  rcases haliases : spec.aliases with - | aliases
  · rw [haliases] at hf
    cases hf
  · rw [haliases] at hf
    obtain ⟨pre, post, hfs⟩ := List.append_of_mem hf
    obtain ⟨s, -, hfires⟩ := (aliasPass_fills spec.key aliases.pairs
      (mergeAll Stack.new providers)).fires_of_append hfs
    have hfound := hfires.found
    rw [foundAt] at hfound
    split at hfound
    · next value hvalue =>
      have hlabel : Figment.findMetadata (sourceOf s spec.key f.source) (splitSection f.source).2 =
          value.tag := by
        show Stack.findMetadata _ _ = _
        rw [Stack.findMetadata, show Stack.findValue _ _ = _ from hvalue]
      rw [← Option.some.inj hfound]
      exact hlabel
    · cases hfound

omit [LawfulFigment Fig] [Figment Fig] in
/-- A value carried to a path of this spelling is named after its supplier. -/
theorem CameFrom.tag {providers : List Provider} {f : Fill} (h : CameFrom spec providers path f)
    (hf : f ∈ firings spec providers) (hdest : f.destination = path) {v : Node}
    (hv : ((resolvedIn spec providers).findValue path).toOption = some v) :
    v.tag = some f.metadata := by
  have hwalked : walked path = segments f.destination := by
    have hle : walked path <+: segments f.destination := hdest ▸ walked_prefix path
    exact hle.eq_of_length_le h.placed.length_le
  obtain ⟨w, hw, hread⟩ := h.resolved
  obtain rfl : v = w := Option.some.inj (hv.symm.trans hw)
  have hlaid : f.dict.root.get (walked path) = some (f.value.mapTag (labelled f.metadata)) := by
    have hget := LabelledTree.get_chain_append (some f.metadata) none
      (segments_ne_nil f.destination) (f.value.mapTag (labelled f.metadata)) []
    rw [List.append_nil, LabelledTree.get_nil] at hget
    rw [hwalked]
    exact hget
  have hreads := LabelledTree.readAt_of_get hlaid
  rw [hreads] at hread
  have htag := (Prod.mk.inj (Option.some.inj hread)).1
  rw [← htag, LabelledTree.tag_mapTag, ← supplier_of_mem_firings hf, Fill.metadata]
  rcases f.supplier with - | supplier
  · rfl
  · rfl

/-- **The alias that carried a value is named exactly when** the path is spelled like its destination,
the first alias in path order with this destination has something to offer when its turn comes in one
of the rounds, and no row claims the value. -/
theorem names_iff (Fig : Type) [Figment Fig] [LawfulFigment Fig] (showFloat : UInt64 → String)
    (host : Host) (spec : LoadSpec) (path : String) {explanation : Explanation}
    (h : explain Fig showFloat host spec path = .ok explanation) :
    ∃ ls : List (String × List Provider), layerProviders host spec = .ok ls ∧
      ∀ f, CameFrom spec (ls.flatMap Prod.snd) path f →
        (explanation.Names f ↔
          f.destination = path ∧ FirstCarries spec (ls.flatMap Prod.snd) path ∧
            Unclaimed host spec path ls f.metadata) := by
  rcases hlayers : layerProviders host spec with e | ls
  · rw [explain, layerFigments_eq, hlayers] at h
    cases h
  · rw [explain_of_layers hlayers] at h
    obtain rfl := Except.ok.inj h
    refine ⟨ls, rfl, fun f hcame ↦ ?_⟩
    obtain ⟨earlier, later, hfs, -⟩ := hcame.last
    have hf : f ∈ firings spec (ls.flatMap Prod.snd) :=
      hfs ▸ List.mem_append_right _ List.mem_cons_self
    obtain ⟨v, hv, -⟩ := hcame.resolved
    have hfound : (Figment.findValue (Figment.select
        (applyAliases (mergeAll (Figment.new : Fig) (ls.flatMap Prod.snd)) spec)
          (sectionProfile spec.key)) path).toOption = some v := by
      rw [LawfulFigment.findValue_eq, stack_of_layers ls]
      exact hv
    rw [names_rows_iff hfound, aliasedFrom_iff hf]
    constructor
    · rintro ⟨hclaimed, hdest, hcarries⟩
      rw [hcame.tag hf hdest hv] at hclaimed
      exact ⟨hdest, hcarries, (claimed_iff_not_unclaimed ls f.metadata).1 hclaimed⟩
    · rintro ⟨hdest, hcarries, hunclaimed⟩
      refine ⟨?_, hdest, hcarries⟩
      rw [hcame.tag hf hdest hv]
      exact (claimed_iff_not_unclaimed ls f.metadata).2 hunclaimed

end Rows

/-! ### A path with two old names -/

/-- One setting, under an old name. -/
def oldName (old : String) : Layer := ⟨[(old, Node.scalar (.int 2))], List.pairwise_singleton _ _⟩

/-- Two old names of one path, `a` before `b`. -/
def twoOldNames : Aliases where
  pairs := [("a", "x"), ("b", "x")]
  ordered := by decide

/-- A load that has the path under one of its old names. -/
def renamedTwice (old : String) : LoadSpec where
  key := "db"
  overrides := some (oldName old)
  aliases := some twoOldNames

/-- The providers of its layer. -/
def renamedTwiceLayers (old : String) : List (String × List Provider) :=
  [("override", [(oldName old).provider (sectionProfile "db") overridesName])]

/-- The firing of the old name that is there. -/
def carriedFrom (old : String) : Fill where
  source := old
  destination := "x"
  value := .leaf (some (Metadata.named overridesName)) (.scalar (.int 2))
  supplier := some (Metadata.named overridesName)

theorem layerProviders_renamedTwice (old : String) :
    layerProviders Host.bare (renamedTwice old) = .ok (renamedTwiceLayers old) := rfl

theorem firings_renamedTwice_first :
    firings (renamedTwice "a") ((renamedTwiceLayers "a").flatMap Prod.snd) = [carriedFrom "a"] := rfl

theorem firings_renamedTwice_second :
    firings (renamedTwice "b") ((renamedTwiceLayers "b").flatMap Prod.snd) = [carriedFrom "b"] := rfl

/-- A firing that is alone in its load, and whose value the load resolves. -/
theorem cameFrom_of_alone {old : String} {v : Node}
    (hfirings : firings (renamedTwice old) ((renamedTwiceLayers old).flatMap Prod.snd) =
      [carriedFrom old])
    (hv : ((resolvedIn (renamedTwice old) ((renamedTwiceLayers old).flatMap Prod.snd)).findValue
      "x").toOption = some v)
    (hread : (carriedFrom old).dict.root.readAt ["x"] = some (v.tag, v.peek)) :
    CameFrom (renamedTwice old) ((renamedTwiceLayers old).flatMap Prod.snd) "x"
      (carriedFrom old) where
  placed := by
    show segments "x" <+: walked "x"
    decide
  last := ⟨[], [], hfirings, fun g hg ↦ absurd hg List.not_mem_nil⟩
  resolved := ⟨v, hv, hread⟩

theorem cameFrom_first : CameFrom (renamedTwice "a") ((renamedTwiceLayers "a").flatMap Prod.snd) "x"
    (carriedFrom "a") :=
  cameFrom_of_alone firings_renamedTwice_first rfl rfl

theorem cameFrom_second : CameFrom (renamedTwice "b") ((renamedTwiceLayers "b").flatMap Prod.snd) "x"
    (carriedFrom "b") :=
  cameFrom_of_alone firings_renamedTwice_second rfl rfl

/-- The first of two old names is named where it is there. -/
theorem names_iff_first : ∃ explanation,
    explain Stack (fun _ ↦ "") Host.bare (renamedTwice "a") "x" = .ok explanation ∧
      explanation.Names (carriedFrom "a") := by
  obtain ⟨explanation, hexplain⟩ : ∃ explanation,
      explain Stack (fun _ ↦ "") Host.bare (renamedTwice "a") "x" = .ok explanation :=
    ⟨_, explain_of_layers (layerProviders_renamedTwice "a") "x"⟩
  obtain ⟨ls, hls, hnames⟩ :=
    names_iff Stack (fun _ ↦ "") Host.bare (renamedTwice "a") "x" hexplain
  obtain rfl := Except.ok.inj ((layerProviders_renamedTwice "a").symm.trans hls)
  refine ⟨explanation, hexplain, (hnames (carriedFrom "a") cameFrom_first).2 ⟨rfl, ?_, ?_⟩⟩
  · exact ⟨twoOldNames, rfl, 0, rfl, [], "a", [("b", "x")], rfl, List.not_mem_nil, rfl⟩
  · intro top htop
    have hnone : topmost "db" "x" (renamedTwiceLayers "a") = some top := topmost_eq_some_iff.2 htop
    cases hnone

/-- **The first of two old names is named where only the second is there.** -/
theorem not_names_of_unsupplied : ∃ explanation,
    explain Stack (fun _ ↦ "") Host.bare (renamedTwice "b") "x" = .ok explanation ∧
      layerProviders Host.bare (renamedTwice "b") = .ok (renamedTwiceLayers "b") ∧
        CameFrom (renamedTwice "b") ((renamedTwiceLayers "b").flatMap Prod.snd) "x"
            (carriedFrom "b") ∧
          explanation.Names (carriedFrom "a") ∧ ¬ explanation.Names (carriedFrom "b") := by
  obtain ⟨v, hv, -⟩ := cameFrom_second.resolved
  have hfound : (Figment.findValue (Figment.select (applyAliases (mergeAll (Figment.new : Stack)
      ((renamedTwiceLayers "b").flatMap Prod.snd)) (renamedTwice "b")) (sectionProfile "db"))
        "x").toOption = some v := hv
  refine ⟨_, explain_of_layers (layerProviders_renamedTwice "b") "x",
    layerProviders_renamedTwice "b", cameFrom_second, ?_, ?_⟩
  · exact (names_rows_iff hfound _).2 ⟨rfl, rfl⟩
  · intro h
    have haliased : aliasedFrom (renamedTwice "b") "x" = some "b" := ((names_rows_iff hfound _).1 h).2
    exact absurd haliased (by decide)

end DynamicConfig
