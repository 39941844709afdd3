import DynamicConfig.Loader.Spec
import Mathlib.Data.List.Nodup

/-!
# The alias pass

After every layer has merged, the pass fills gaps from aliased paths. It visits the aliases in path
order, again and again until a whole round fills nothing: an alias fires when its destination has
not been filled yet, nothing above the runtime defaults supplies the destination, and its old path
leads to a value, possibly in another section. A firing lays one value over the figment under the
destination, named after whatever supplied the old path.

The pass keeps its history. `Pass.fills` records each firing in order; the source keeps the
destinations only, which is `Pass.filled`. The state before any firing is then the fold of the
firings before it, and `Fills`, the relation between a figment, a list of firings and what they
leave, says what each of them was entitled to (`aliasPass_fills`).

**The pass terminates.** Each productive round fills a destination that was never filled before, so
there are at most as many as there are aliases. The loop is given that many rounds and one more, and
`progressed_aliasPass` says it has always stopped by then.
-/

namespace DynamicConfig

/-! ### Old paths -/

/-- The characters before and after the first `::` of a text. -/
def splitAtSection : List Char → Option (List Char × List Char)
  | [] => none
  | c :: cs =>
    match c, cs with
    | ':', ':' :: rest => some ([], rest)
    | c, cs => (splitAtSection cs).map fun e ↦ (c :: e.1, e.2)

/-- Splits `db::timeout` into the section `db` and `timeout`; an unqualified path names no
section. -/
def splitSection (path : String) : Option String × String :=
  match splitAtSection path.toList with
  | some (pre, rest) => (some (String.ofList pre), String.ofList rest)
  | none => (none, path)

example : splitSection "db::timeout" = (some "db", "timeout") := by decide

example : splitSection "pool.size" = (none, "pool.size") := by decide

/-- Prefixed onto the old path where the old path's supplier has no metadata. -/
def aliasPrefix : String := "an alias for "

/-! ### One firing -/

/-- One value carried from an old path to the path the field has now. -/
structure Fill where
  /-- The old path, as it was declared. -/
  source : String
  destination : String
  value : Node
  /-- The metadata of whatever supplied the old path, when it had any. -/
  supplier : Option Metadata

/-- The name the carried value goes by: its supplier's, where it has one. -/
def Fill.metadata (fill : Fill) : Metadata :=
  fill.supplier.getD (Metadata.named (aliasPrefix ++ fill.source))

/-- The carried value as a provider: `Aliased`. -/
def aliased (key : String) (fill : Fill) : Provider :=
  Provider.table fill.metadata (sectionProfile key) (insertPath [] fill.destination fill.value)

section Pass

variable {Fig : Type} [Figment Fig]

/-- Something above the runtime defaults supplies a path of the selected section. -/
def suppliedAboveDefaults (selected : Fig) (path : String) : Bool :=
  match Figment.findMetadata selected path with
  | some metadata => metadata.name != defaultsName
  | none => false

/-- The figment an old path is read from: its own section's. -/
def sourceOf (figment : Fig) (key source : String) : Fig :=
  Figment.select figment (sectionProfile ((splitSection source).1.getD key))

/-- What an old path leads to. -/
def foundAt (figment : Fig) (key source destination : String) : Option Fill :=
  match Figment.findValue (sourceOf figment key source) (splitSection source).2 with
  | .ok value => some
    { source, destination, value
      supplier := Figment.findMetadata (sourceOf figment key source) (splitSection source).2 }
  | .error _ => none

/-- The figment with a carried value laid over it. -/
def fill (key : String) (figment : Fig) (f : Fill) : Fig :=
  Figment.merge figment (aliased key f)

/-- The state of the pass. -/
structure Pass (Fig : Type) where
  figment : Fig
  /-- What has been filled, oldest first. -/
  fills : List Fill
  progressed : Bool

/-- Every path an alias has already filled. -/
def Pass.filled (pass : Pass Fig) : List String :=
  pass.fills.map Fill.destination

/-- Visit one alias. -/
def Pass.visit (key : String) (pass : Pass Fig) (pair : String × String) : Pass Fig :=
  -- One fill per destination: the first alias in path order wins.
  if pair.2 ∈ pass.filled then pass
  else if suppliedAboveDefaults (Figment.select pass.figment (sectionProfile key)) pair.2 then pass
  else
    match foundAt pass.figment key pair.1 pair.2 with
    | none => pass
    | some f =>
      { figment := fill key pass.figment f, fills := pass.fills ++ [f], progressed := true }

/-- One round over the aliases. -/
def Pass.round (key : String) (pairs : List (String × String)) (pass : Pass Fig) : Pass Fig :=
  pairs.foldl (Pass.visit key) { pass with progressed := false }

/-- Rounds until one fills nothing. -/
def Pass.rounds (key : String) (pairs : List (String × String)) : Nat → Pass Fig → Pass Fig
  | 0, pass => pass
  | fuel + 1, pass => if pass.progressed then (pass.round key pairs).rounds key pairs fuel else pass

/-- The pass over a list of aliases. One round more than there are aliases is always enough. -/
def aliasPass (key : String) (pairs : List (String × String)) (figment : Fig) : Pass Fig :=
  Pass.rounds key pairs (pairs.length + 1) { figment, fills := [], progressed := true }

/-- Fills gaps from aliased paths. -/
def applyAliases (figment : Fig) (spec : LoadSpec) : Fig :=
  match spec.aliases with
  | none => figment
  | some aliases => (aliasPass spec.key aliases.pairs figment).figment

/-! ### The pass terminates -/

/-- The destinations still to be filled, counted with the aliases that name them. -/
def Pass.remaining (pairs : List (String × String)) (pass : Pass Fig) : Nat :=
  (pairs.filter fun pair ↦ decide (pair.2 ∉ pass.filled)).length

/-- **What one visit does**: nothing, or one firing of a destination not filled before. -/
theorem Pass.visit_cases (key : String) (pass : Pass Fig) (pair : String × String) :
    pass.visit key pair = pass ∨
      ∃ f, pair.2 ∉ pass.filled ∧
        suppliedAboveDefaults (Figment.select pass.figment (sectionProfile key)) pair.2 = false ∧
          foundAt pass.figment key pair.1 pair.2 = some f ∧
            pass.visit key pair =
              { figment := fill key pass.figment f, fills := pass.fills ++ [f],
                progressed := true } := by
  rw [Pass.visit]
  split
  · exact Or.inl rfl
  · next hfilled =>
    split
    · exact Or.inl rfl
    · next hsupplied =>
      rcases hfound : foundAt pass.figment key pair.1 pair.2 with - | f
      · exact Or.inl rfl
      · exact Or.inr ⟨f, hfilled, Bool.eq_false_iff.2 hsupplied, rfl, rfl⟩

/-- An old path that leads to nothing. -/
theorem foundAt_error {figment : Fig} {key source : String} {e : FigmentError}
    (h : Figment.findValue (sourceOf figment key source) (splitSection source).2 = .error e)
    (destination : String) : foundAt figment key source destination = none := by
  rw [foundAt, h]

/-- An old path that leads to a value. -/
theorem foundAt_ok {figment : Fig} {key source : String} {value : Node}
    (h : Figment.findValue (sourceOf figment key source) (splitSection source).2 = .ok value)
    (destination : String) :
    foundAt figment key source destination = some
      { source, destination, value
        supplier := Figment.findMetadata (sourceOf figment key source) (splitSection source).2 } := by
  rw [foundAt, h]

theorem foundAt_eq_some {figment : Fig} {key source destination : String} {f : Fill}
    (h : foundAt figment key source destination = some f) :
    f.source = source ∧ f.destination = destination := by
  rw [foundAt] at h
  split at h
  · exact Option.some.inj h ▸ ⟨rfl, rfl⟩
  · cases h

omit [Figment Fig] in
/-- A firing of one of the aliases leaves fewer destinations. -/
theorem Pass.remaining_lt {pairs : List (String × String)} {pair : String × String}
    (hpair : pair ∈ pairs) {pass pass' : Pass Fig} (hfilled : pair.2 ∉ pass.filled)
    (hnew : pass'.filled = pass.filled ++ [pair.2]) :
    pass'.remaining pairs < pass.remaining pairs := by
  have hsub : pairs.filter (fun e ↦ decide (e.2 ∉ pass'.filled)) =
      (pairs.filter fun e ↦ decide (e.2 ∉ pass.filled)).filter fun e ↦ decide (e.2 ≠ pair.2) := by
    rw [List.filter_filter]
    refine List.filter_congr fun e _ ↦ ?_
    rw [hnew, ← Bool.decide_and]
    congr 1
    rw [List.mem_append, List.mem_singleton, not_or, and_comm]
  have hmem : pair ∈ pairs.filter fun e ↦ decide (e.2 ∉ pass.filled) :=
    List.mem_filter.2 ⟨hpair, decide_eq_true hfilled⟩
  rw [Pass.remaining, hsub]
  exact List.length_filter_lt_length_iff_exists.2 ⟨pair, hmem, by simp⟩

/-- **What one round leaves.** It never adds a destination, and one that progressed has filled
one. -/
theorem Pass.remaining_foldl (key : String) {pairs visits : List (String × String)}
    (hvisits : visits ⊆ pairs) (pass : Pass Fig) :
    let pass' := visits.foldl (Pass.visit key) pass
    pass'.remaining pairs ≤ pass.remaining pairs ∧
      (pass'.progressed = true →
        pass.progressed = true ∨ pass'.remaining pairs < pass.remaining pairs) := by
  induction visits generalizing pass with
  | nil => exact ⟨Nat.le_refl _, Or.inl⟩
  | cons pair visits ih =>
    have hpair : pair ∈ pairs := hvisits List.mem_cons_self
    obtain ⟨hle, hprogress⟩ :=
      ih (fun e he ↦ hvisits (List.mem_cons_of_mem pair he)) (pass.visit key pair)
    rw [List.foldl_cons]
    rcases pass.visit_cases key pair with hstay | ⟨f, hfilled, -, hfound, hfire⟩
    · rw [hstay] at hle hprogress ⊢
      exact ⟨hle, hprogress⟩
    · have hnew : (pass.visit key pair).filled = pass.filled ++ [pair.2] := by
        rw [hfire, ← (foundAt_eq_some hfound).2]
        exact List.map_append
      have hlt := Pass.remaining_lt hpair hfilled hnew
      exact ⟨by omega, fun _ ↦ Or.inr (by omega)⟩

/-- With more rounds than destinations, the loop has stopped. -/
theorem Pass.progressed_rounds (key : String) {pairs : List (String × String)} (fuel : Nat)
    (pass : Pass Fig) (h : pass.remaining pairs < fuel) :
    (pass.rounds key pairs fuel).progressed = false := by
  induction fuel generalizing pass with
  | zero => omega
  | succ fuel ih =>
    rw [Pass.rounds]
    split
    · obtain ⟨hle, hprogress⟩ := Pass.remaining_foldl key (List.Subset.refl pairs)
        { pass with progressed := false }
      have hsame : ({ pass with progressed := false } : Pass Fig).remaining pairs =
          pass.remaining pairs := rfl
      rcases hround : (pass.round key pairs).progressed with - | -
      · cases fuel with
        | zero => exact hround
        | succ fuel => rw [Pass.rounds, hround]; exact hround
      · rcases hprogress hround with hold | hlt
        · exact absurd hold Bool.false_ne_true
        · have hround' : (pass.round key pairs).remaining pairs < pass.remaining pairs := hsame ▸ hlt
          exact ih (pass.round key pairs) (by omega)
    · next hstopped => exact Bool.eq_false_iff.2 hstopped

/-- A stopped loop takes no further round. -/
theorem Pass.rounds_of_stopped {key : String} {pairs : List (String × String)} (fuel : Nat)
    {pass : Pass Fig} (h : pass.progressed = false) : pass.rounds key pairs fuel = pass := by
  cases fuel with
  | zero => rfl
  | succ fuel => rw [Pass.rounds, h]; rfl

theorem Pass.rounds_add {key : String} {pairs : List (String × String)} (fuel more : Nat)
    (pass : Pass Fig) :
    pass.rounds key pairs (fuel + more) = (pass.rounds key pairs fuel).rounds key pairs more := by
  induction fuel generalizing pass with
  | zero => rw [Nat.zero_add]; rfl
  | succ fuel ih =>
    rw [Nat.add_right_comm, Pass.rounds, Pass.rounds]
    split
    · exact ih _
    · next hstopped =>
      exact (Pass.rounds_of_stopped more (Bool.eq_false_iff.2 hstopped)).symm

/-- **The pass terminates**: it has stopped, and no number of further rounds changes it. -/
theorem progressed_aliasPass (key : String) (pairs : List (String × String)) (figment : Fig) :
    (aliasPass key pairs figment).progressed = false ∧
      ∀ fuel, pairs.length + 1 ≤ fuel →
        Pass.rounds key pairs fuel { figment, fills := [], progressed := true } =
          aliasPass key pairs figment := by
  have hremaining : ({ figment, fills := [], progressed := true } : Pass Fig).remaining pairs <
      pairs.length + 1 :=
    Nat.lt_succ_of_le (List.length_filter_le _ _)
  have hstopped := Pass.progressed_rounds key (pairs.length + 1) _ hremaining
  refine ⟨hstopped, fun fuel hfuel ↦ ?_⟩
  obtain ⟨more, rfl⟩ := Nat.exists_eq_add_of_le hfuel
  rw [Pass.rounds_add]
  exact Pass.rounds_of_stopped more hstopped

end Pass

/-! ### What the firings were entitled to -/

/-- A firing of one of the aliases: its destination is new and supplied by nothing above the runtime
defaults, and its value is what the old path leads to. -/
structure Fires {Fig : Type} [Figment Fig] (key : String) (pairs : List (String × String))
    (figment : Fig) (before : List Fill) (f : Fill) : Prop where
  declared : (f.source, f.destination) ∈ pairs
  fresh : f.destination ∉ before.map Fill.destination
  gap : suppliedAboveDefaults (Figment.select figment (sectionProfile key)) f.destination = false
  found : foundAt figment key f.source f.destination = some f

/-- The runs of the pass: from a figment, through some firings in order, to what they leave. -/
inductive Fills {Fig : Type} [Figment Fig] (key : String) (pairs : List (String × String))
    (start : Fig) : List Fill → Fig → Prop
  | nil : Fills key pairs start [] start
  | snoc {fs : List Fill} {figment : Fig} {f : Fill} (before : Fills key pairs start fs figment)
      (fires : Fires key pairs figment fs f) :
      Fills key pairs start (fs ++ [f]) (fill key figment f)

section Runs

variable {Fig : Type} [Figment Fig] {key : String} {pairs : List (String × String)} {start : Fig}

/-- Every visit of an alias goes on with a run. -/
theorem Fills.visit {pass : Pass Fig} (h : Fills key pairs start pass.fills pass.figment)
    {pair : String × String} (hpair : pair ∈ pairs) :
    Fills key pairs start (pass.visit key pair).fills (pass.visit key pair).figment := by
  rcases pass.visit_cases key pair with hstay | ⟨f, hfilled, hgap, hfound, hfire⟩
  · rw [hstay]
    exact h
  · obtain ⟨hsource, hdestination⟩ := foundAt_eq_some hfound
    rw [hfire]
    refine h.snoc ⟨?_, ?_, ?_, ?_⟩
    · rw [hsource, hdestination]
      exact hpair
    · rw [hdestination]
      exact hfilled
    · rw [hdestination]
      exact hgap
    · rw [hsource, hdestination]
      exact hfound

theorem Fills.foldl {pass : Pass Fig} (h : Fills key pairs start pass.fills pass.figment)
    {visits : List (String × String)} (hvisits : visits ⊆ pairs) :
    Fills key pairs start (visits.foldl (Pass.visit key) pass).fills
      (visits.foldl (Pass.visit key) pass).figment := by
  induction visits generalizing pass with
  | nil => exact h
  | cons pair visits ih =>
    rw [List.foldl_cons]
    exact ih (h.visit (hvisits List.mem_cons_self))
      fun e he ↦ hvisits (List.mem_cons_of_mem pair he)

theorem Fills.rounds {pass : Pass Fig} (h : Fills key pairs start pass.fills pass.figment)
    (fuel : Nat) :
    Fills key pairs start (pass.rounds key pairs fuel).fills
      (pass.rounds key pairs fuel).figment := by
  induction fuel generalizing pass with
  | zero => exact h
  | succ fuel ih =>
    rw [Pass.rounds]
    split
    · have hstart : Fills key pairs start ({ pass with progressed := false } : Pass Fig).fills
          ({ pass with progressed := false } : Pass Fig).figment := h
      exact ih (hstart.foldl (List.Subset.refl pairs))
    · exact h

/-- **The pass is a run.** -/
theorem aliasPass_fills (key : String) (pairs : List (String × String)) (figment : Fig) :
    Fills key pairs figment (aliasPass key pairs figment).fills
      (aliasPass key pairs figment).figment := by
  have hstart : Fills key pairs figment
      ({ figment, fills := [], progressed := true } : Pass Fig).fills
      ({ figment, fills := [], progressed := true } : Pass Fig).figment := Fills.nil
  exact hstart.rounds (pairs.length + 1)

/-- Each firing of a run happened, at the state the firings before it left. -/
theorem Fills.fires_of_append {fs : List Fill} {figment : Fig} (h : Fills key pairs start fs figment)
    {pre post : List Fill} {f : Fill} (hfs : fs = pre ++ f :: post) :
    ∃ before, Fills key pairs start pre before ∧ Fires key pairs before pre f := by
  induction h generalizing post with
  | nil => simp at hfs
  | @snoc fs figment g hbefore hfires ih =>
    rcases List.eq_nil_or_concat post with rfl | ⟨post, g', rfl⟩
    · obtain ⟨rfl, hg⟩ := List.append_inj' hfs rfl
      obtain rfl := List.singleton_inj.1 hg
      exact ⟨figment, hbefore, hfires⟩
    · rw [List.concat_eq_append, ← List.cons_append, ← List.append_assoc] at hfs
      exact ih (List.append_inj' hfs rfl).1

/-- **At most one alias fills each destination.** -/
theorem Fills.nodup {fs : List Fill} {figment : Fig} (h : Fills key pairs start fs figment) :
    (fs.map Fill.destination).Nodup := by
  induction h with
  | nil => exact List.nodup_nil
  | @snoc fs figment f hbefore hfires ih =>
    rw [List.map_append, List.map_singleton]
    refine List.nodup_append.2 ⟨ih, List.nodup_singleton _, fun d hd e he ↦ ?_⟩
    rw [List.mem_singleton] at he
    rintro rfl
    exact hfires.fresh (he ▸ hd)

theorem Fills.declared {fs : List Fill} {figment : Fig} (h : Fills key pairs start fs figment) :
    ∀ f ∈ fs, (f.source, f.destination) ∈ pairs := by
  induction h with
  | nil => exact fun f hf ↦ absurd hf List.not_mem_nil
  | snoc hbefore hfires ih =>
    intro g hg
    rcases List.mem_append.1 hg with hg | hg
    · exact ih g hg
    · rw [List.mem_singleton] at hg
      rw [hg]
      exact hfires.declared

/-- What a run leaves is the fold of its firings. -/
theorem Fills.eq_foldl {fs : List Fill} {figment : Fig} (h : Fills key pairs start fs figment) :
    figment = fs.foldl (fill key) start := by
  induction h with
  | nil => rfl
  | snoc hbefore hfires ih => rw [List.foldl_append, ← ih]; rfl

end Runs

/-! ### The pass as its stack sees it -/

section Lawful

variable {Fig : Type} [Figment Fig] [LawfulFigment Fig]

/-- The state of the pass, as a stack. -/
def Pass.stack (pass : Pass Fig) : Pass Stack :=
  { figment := Figment.stack pass.figment, fills := pass.fills, progressed := pass.progressed }

theorem suppliedAboveDefaults_stack (figment : Fig) (key path : String) :
    suppliedAboveDefaults (Figment.select figment (sectionProfile key)) path =
      suppliedAboveDefaults (Figment.select (Figment.stack figment) (sectionProfile key)) path := by
  rw [suppliedAboveDefaults, LawfulFigment.findMetadata_eq, LawfulFigment.stack_select]
  rfl

theorem foundAt_stack (figment : Fig) (key source destination : String) :
    foundAt figment key source destination =
      foundAt (Figment.stack figment) key source destination := by
  rw [foundAt, sourceOf, LawfulFigment.findValue_eq, LawfulFigment.findMetadata_eq,
    LawfulFigment.stack_select]
  rfl

theorem Pass.visit_stack (key : String) (pass : Pass Fig) (pair : String × String) :
    (pass.visit key pair).stack = pass.stack.visit key pair := by
  have hfilled : pass.stack.filled = pass.filled := rfl
  have hsupplied : suppliedAboveDefaults (Figment.select pass.figment (sectionProfile key)) pair.2 =
      suppliedAboveDefaults (Figment.select pass.stack.figment (sectionProfile key)) pair.2 :=
    suppliedAboveDefaults_stack pass.figment key pair.2
  have hfound : foundAt pass.figment key pair.1 pair.2 =
      foundAt pass.stack.figment key pair.1 pair.2 :=
    foundAt_stack pass.figment key pair.1 pair.2
  rw [Pass.visit, Pass.visit, hfilled, hsupplied, hfound]
  split
  · rfl
  · split
    · rfl
    · rcases foundAt pass.stack.figment key pair.1 pair.2 with - | f
      · rfl
      · have hmerge : Figment.stack (Figment.merge pass.figment (aliased key f)) =
            Figment.merge pass.stack.figment (aliased key f) :=
          LawfulFigment.stack_merge pass.figment (aliased key f)
        show ({ figment := Figment.stack (Figment.merge pass.figment (aliased key f))
                fills := pass.fills ++ [f], progressed := true } : Pass Stack) = _
        rw [hmerge]
        rfl

theorem Pass.foldl_stack (key : String) (pass : Pass Fig) (visits : List (String × String)) :
    (visits.foldl (Pass.visit key) pass).stack = visits.foldl (Pass.visit key) pass.stack := by
  induction visits generalizing pass with
  | nil => rfl
  | cons pair visits ih => rw [List.foldl_cons, List.foldl_cons, ih, Pass.visit_stack]

theorem Pass.rounds_stack (key : String) (pairs : List (String × String)) (fuel : Nat)
    (pass : Pass Fig) :
    (pass.rounds key pairs fuel).stack = pass.stack.rounds key pairs fuel := by
  induction fuel generalizing pass with
  | zero => rfl
  | succ fuel ih =>
    have hprogressed : pass.stack.progressed = pass.progressed := rfl
    rw [Pass.rounds, Pass.rounds, hprogressed]
    split
    · rw [ih, Pass.round, Pass.foldl_stack]
      rfl
    · rfl

/-- **A figment and its stack take the same pass.** -/
theorem stack_aliasPass (key : String) (pairs : List (String × String)) (figment : Fig) :
    (aliasPass key pairs figment).stack = aliasPass key pairs (Figment.stack figment) :=
  Pass.rounds_stack key pairs _ _

theorem stack_applyAliases (figment : Fig) (spec : LoadSpec) :
    Figment.stack (applyAliases figment spec) = applyAliases (Figment.stack figment) spec := by
  rw [applyAliases, applyAliases]
  rcases spec.aliases with - | aliases
  · rfl
  · exact congrArg Pass.figment (stack_aliasPass spec.key aliases.pairs figment)

theorem stack_foldl_fill (key : String) (fills : List Fill) (figment : Fig) :
    Figment.stack (fills.foldl (fill key) figment) =
      fills.foldl (fill key) (Figment.stack figment) := by
  induction fills generalizing figment with
  | nil => rfl
  | cons f fs ih =>
    rw [List.foldl_cons, List.foldl_cons, ih, fill, LawfulFigment.stack_merge]
    rfl

end Lawful

end DynamicConfig
