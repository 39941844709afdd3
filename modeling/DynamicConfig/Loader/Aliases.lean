import DynamicConfig.Loader.AliasesPass
import DynamicConfig.Loader.Providers
import DynamicConfig.Transition.Chain
import DynamicConfig.Transition.Run
import DynamicConfig.Tree.Sorted
import Mathlib.Data.String.Basic

/-!
# Declaring aliases

`Aliases::add` takes an old path and the path it is now. Renames may form chains, so before the new
pair goes into the map the chain it would start is walked, in the map as it is: a chain that comes
back to the old path is refused. The map may have another pair for that old path, which the new one
replaces; the walk never uses it, since it stops where the old path comes up.

The loop counts its steps, and gives up after more of them than there are pairs. In a map without
cycles it never does (`walk_eq_some`), so the maps that can be reached have none
(`chains_of_calls`).
-/

namespace DynamicConfig

open Transition (Leads Acyclic relink)

/-! ### The paths -/

/-- Whether a text has a section qualifier in it. -/
def namesSection (path : String) : Bool := (splitAtSection path.toList).isSome

/-- Why an alias is not accepted. -/
inductive AliasRefusal where
  /-- The old path has a qualifier that is no top-level section. -/
  | oldSection (source : String)
  /-- A path names nothing. -/
  | unusable (path : String)
  /-- A path with a section where there can be none. -/
  | elsewhere (path : String)
  /-- The new path names a section. -/
  | newSection (destination : String)
  | itself (source : String)
  | cycle (source destination : String)
  deriving DecidableEq, Repr

/-- What a refusal says. -/
def AliasRefusal.error : AliasRefusal → Error
  | oldSection source => { kind := .type, message := "`" ++ source ++ "` is not a usable old key " ++
      "path: `::` names one top-level section, as in `db::pool.size`" }
  | unusable path => { kind := .type, message := "`" ++ path ++ "` is not a usable key path" }
  | elsewhere path => { kind := .type, message := "`" ++ path ++ "` names another section, and this " ++
      "path is relative to the section being loaded; `::` is only meaningful in the old path of an " ++
      "alias" }
  | newSection destination => { kind := .type, message := "`" ++ destination ++ "` names another " ++
      "section, and an alias's new path is always in this configuration's own section; a section " ++
      "qualifier belongs on the old path, as in `alias(\"" ++ destination ++ "\", ..)`" }
  | itself source => { kind := .type, message := "`" ++ source ++ "` cannot be an alias for itself" }
  | cycle source destination => { kind := .type, message := "`" ++ source ++ "` -> `" ++ destination ++
      "` closes an alias cycle; renames must form a chain, not a loop" }

/-- `layer::check_path`: rejects a path that names nothing, or another section. -/
def checkPath (path : String) : Except AliasRefusal Unit :=
  if path = "" ∨ "" ∈ segments path then .error (.unusable path)
  else if namesSection path then .error (.elsewhere path)
  else .ok ()

/-- `check_old_path`: an old path may carry one section qualifier. -/
def checkOldPath (source : String) : Except AliasRefusal Unit :=
  match splitSection source with
  | (some name, path) =>
    if name = "" ∨ '.' ∈ name.toList ∨ namesSection path then .error (.oldSection source)
    else checkPath path
  | (none, path) => checkPath path

/-! ### The map -/

theorem insertOrdered_eq_put (k v : String) (es : List (String × String)) :
    insertOrdered k v es = Entries.put k v es := by
  induction es with
  | nil => rfl
  | cons e es ih =>
    obtain ⟨l, w⟩ := e
    rw [insertOrdered, Entries.put, ih]

/-- The map stays ordered. -/
theorem pairwise_insertOrdered {k v : String} {es : List (String × String)}
    (h : (es.map Prod.fst).Pairwise (· < ·)) :
    ((insertOrdered k v es).map Prod.fst).Pairwise (· < ·) := by
  rw [insertOrdered_eq_put]
  exact Entries.pairwise_put h k v

theorem lookup_insertOrdered (k v l : String) (es : List (String × String)) :
    (insertOrdered k v es).lookup l = if l = k then some v else es.lookup l := by
  rw [insertOrdered_eq_put]
  exact Entries.lookup_put k v l es

namespace Aliases

theorem ordered_nil : (([] : List (String × String)).map Prod.fst).Pairwise (· < ·) :=
  List.Pairwise.nil

/-- `Aliases::new`. -/
def new : Aliases := ⟨[], ordered_nil⟩

/-- What an old path is now. -/
def current (aliases : Aliases) (path : String) : Option String := aliases.pairs.lookup path

/-- The map with a pair put in. -/
def insert (aliases : Aliases) (source destination : String) : Aliases :=
  ⟨insertOrdered source destination aliases.pairs, pairwise_insertOrdered aliases.ordered⟩

/-- The walk along the chain a new pair would start. It counts its hops, and takes fuel for its
rounds, of which `walk_eq_some` says how many are enough. -/
def walk (aliases : Aliases) (source : String) : Nat → String → Nat → Option Bool
  | 0, _, _ => none
  | fuel + 1, cursor, hops =>
    match aliases.current cursor with
    | none => some false
    | some next =>
      if next = source ∨ aliases.pairs.length < hops then some true
      else aliases.walk source fuel next (hops + 1)

/-- What is checked of the two paths. -/
def checkPaths (source destination : String) : Except AliasRefusal Unit := do
  checkOldPath source
  if namesSection destination then throw (.newSection destination)
  checkPath destination
  if source = destination then throw (.itself source)

/-- `Aliases::add`: the result, and the map afterwards. -/
def add (aliases : Aliases) (source destination : String) :
    Option (Except AliasRefusal Unit × Aliases) :=
  match checkPaths source destination with
  | .error refusal => some (.error refusal, aliases)
  | .ok () =>
    (aliases.walk source (aliases.pairs.length + 2) destination 0).map fun closes ↦
      if closes then (.error (.cycle source destination), aliases)
      else (.ok (), aliases.insert source destination)

/-- What is called of a map. -/
inductive Call where
  | add (source destination : String)
  | clear

/-- One call. -/
def call (aliases : Aliases) : Call → Option Aliases
  | .add source destination => (aliases.add source destination).map Prod.snd
  | .clear => some new

/-! ### The walk -/

variable {aliases : Aliases} {source destination : String}

theorem current_insert : (aliases.insert source destination).current =
    relink aliases.current source destination := by
  funext path
  exact lookup_insertOrdered source destination path aliases.pairs

/-- **The loop comes to an end**, after as many rounds as there are pairs, and two. -/
theorem exists_walk (fuel : Nat) (cursor : String) (hops : Nat)
    (hfuel : fuel + hops = aliases.pairs.length + 2) (hpos : 0 < fuel) :
    ∃ closes, aliases.walk source fuel cursor hops = some closes := by
  induction fuel generalizing cursor hops with
  | zero => exact absurd hpos (Nat.lt_irrefl 0)
  | succ fuel ih =>
    rw [walk]
    rcases aliases.current cursor with - | next
    · exact ⟨false, rfl⟩
    · dsimp only
      split
      · exact ⟨true, rfl⟩
      · next hnot =>
        have hhops : hops ≤ aliases.pairs.length := by
          by_contra hgt
          exact hnot (Or.inr (by omega))
        exact ih next (hops + 1) (by omega) (by omega)

theorem mem_of_current {path next : String} (h : aliases.current path = some next) :
    path ∈ aliases.pairs.map Prod.fst := by
  have hmem : (path, next).1 ∈ aliases.pairs.map Prod.fst :=
    List.mem_map_of_mem (Entries.mem_of_lookup h)
  exact hmem

/-- **What the loop finds**, in a map without cycles: whether the chain comes to the old path. What it
has passed are different paths of the map, so that it never gives up. -/
theorem walk_eq_some (hacyclic : Acyclic aliases.current) {fuel : Nat} {cursor : String}
    {hops : Nat} {closes : Bool} {seen : List String} (hnodup : seen.Nodup)
    (hseen : ∀ s ∈ seen, s ∈ aliases.pairs.map Prod.fst ∧
      Relation.TransGen (Leads aliases.current) s cursor) (hhops : seen.length = hops)
    (h : aliases.walk source fuel cursor hops = some closes) :
    closes = true ↔ Relation.TransGen (Leads aliases.current) cursor source := by
  induction fuel generalizing cursor hops seen with
  | zero => cases h
  | succ fuel ih =>
    rw [walk] at h
    rcases hcursor : aliases.current cursor with - | next
    · rw [hcursor] at h
      obtain rfl := Option.some.inj h
      exact iff_of_false Bool.false_ne_true (Transition.not_transGen_of_eq_none hcursor)
    · rw [hcursor] at h
      dsimp only at h
      have hmem := mem_of_current hcursor
      have hshort := Transition.length_lt_of_acyclic hacyclic hnodup hseen hmem
      rw [List.length_map] at hshort
      rw [Transition.transGen_iff_of_leads hcursor]
      by_cases hback : next = source
      · rw [if_pos (Or.inl hback)] at h
        obtain rfl := Option.some.inj h
        exact iff_of_true rfl (Or.inl hback)
      · rw [if_neg fun hor ↦ hor.elim hback fun hgt ↦ by omega] at h
        rw [or_iff_right hback]
        have hpassed : (cursor :: seen).Nodup :=
          List.nodup_cons.2 ⟨fun hin ↦ hacyclic cursor (hseen cursor hin).2, hnodup⟩
        refine ih hpassed ?_ ?_ h
        · intro s hs
          rcases List.mem_cons.1 hs with rfl | hs
          · exact ⟨hmem, Relation.TransGen.single hcursor⟩
          · exact ⟨(hseen s hs).1, (hseen s hs).2.tail hcursor⟩
        · rw [List.length_cons, hhops]

/-! ### The checks -/

/-- What has passed the checks. -/
theorem of_checkPaths_eq_ok (h : checkPaths source destination = .ok ()) :
    namesSection destination = false ∧ source ≠ destination := by
  obtain ⟨-, -, h⟩ := exists_of_bind_eq_ok h
  dsimp only at h
  split at h
  · cases h
  · next hsection =>
    obtain ⟨-, -, h⟩ := exists_of_bind_eq_ok h
    split at h
    · cases h
    · next hne => exact ⟨Bool.eq_false_iff.2 hsection, hne⟩

theorem checkPath_ne_cycle (path s d : String) : checkPath path ≠ .error (.cycle s d) := by
  rw [checkPath]
  split
  · exact fun h ↦ (by cases h)
  · split
    · exact fun h ↦ (by cases h)
    · exact fun h ↦ (by cases h)

theorem checkOldPath_ne_cycle (path s d : String) : checkOldPath path ≠ .error (.cycle s d) := by
  rw [checkOldPath]
  split
  · split
    · exact fun h ↦ (by cases h)
    · exact checkPath_ne_cycle _ s d
  · exact checkPath_ne_cycle _ s d

/-- None of the checks is the one for a cycle. -/
theorem checkPaths_ne_cycle (s d : String) :
    checkPaths source destination ≠ .error (.cycle s d) := by
  rw [checkPaths]
  rcases hold : checkOldPath source with refusal | -
  · exact fun h ↦ checkOldPath_ne_cycle source s d (hold.trans h)
  · show (if namesSection destination = true then _ else _) ≠ _
    split
    · exact fun h ↦ (by cases h)
    · rcases hnew : checkPath destination with refusal | -
      · exact fun h ↦ checkPath_ne_cycle destination s d (hnew.trans h)
      · show (if source = destination then _ else _) ≠ _
        split
        · exact fun h ↦ (by cases h)
        · exact fun h ↦ (by cases h)

/-! ### Runs -/

/-- The declared renames form chains, and none leads into another section. -/
structure Chains (aliases : Aliases) : Prop where
  acyclic : Acyclic aliases.current
  unqualified : ∀ e ∈ aliases.pairs, namesSection e.2 = false

/-- What a call to `add` does. -/
structure Adds (aliases : Aliases) (source destination : String)
    (result : Except AliasRefusal Unit) (next : Aliases) : Prop where
  /-- A refusal changes nothing. -/
  refused : ∀ refusal, result = .error refusal → next = aliases
  /-- And one for a cycle is right: with the pair put in, and any earlier one for the old path gone,
  there would be one. -/
  cycle : ∀ s d, result = .error (.cycle s d) → ¬ Acyclic (aliases.insert source destination).current

theorem chains_new : Chains new where
  acyclic := Transition.acyclic_of_eq_none fun _ ↦ rfl
  unqualified _ h := absurd h List.not_mem_nil

theorem mem_insertOrdered {k v : String} {es : List (String × String)} {e : String × String}
    (h : e ∈ insertOrdered k v es) : e = (k, v) ∨ e ∈ es := by
  rw [insertOrdered_eq_put] at h
  exact Entries.mem_put h

/-- **One call to `add`**, of a map whose renames form chains: it comes to an end, is refused for a
cycle only if there would be one, and leaves a map whose renames form chains. -/
theorem Chains.add (h : Chains aliases) (source destination : String) :
    ∃ result next, aliases.add source destination = some (result, next) ∧
      Adds aliases source destination result next ∧ Chains next := by
  rw [Aliases.add]
  rcases hchecks : checkPaths source destination with refusal | ⟨⟩
  · refine ⟨_, _, rfl, ⟨fun _ _ ↦ rfl, fun s d heq ↦ ?_⟩, h⟩
    obtain rfl := Except.error.inj heq
    exact absurd hchecks (checkPaths_ne_cycle s d)
  · obtain ⟨hsection, hne⟩ := of_checkPaths_eq_ok hchecks
    obtain ⟨closes, hwalk⟩ : ∃ closes,
        aliases.walk source (aliases.pairs.length + 2) destination 0 = some closes :=
      exists_walk (aliases.pairs.length + 2) destination 0 rfl (Nat.succ_pos _)
    have hcloses := walk_eq_some h.acyclic List.nodup_nil
      (fun s hs ↦ absurd hs List.not_mem_nil) rfl hwalk
    have hrelink := Transition.acyclic_relink_iff (a := source) (b := destination) h.acyclic
    rw [← current_insert, Relation.reflTransGen_iff_eq_or_transGen, or_iff_right hne,
      ← hcloses] at hrelink
    dsimp only
    rw [hwalk, Option.map_some]
    rcases closes with - | -
    · refine ⟨_, _, rfl, ⟨fun _ heq ↦ (by cases heq), fun _ _ heq ↦ (by cases heq)⟩, ?_, ?_⟩
      · exact hrelink.2 Bool.false_ne_true
      · intro e he
        rcases mem_insertOrdered he with rfl | hold
        · exact hsection
        · exact h.unqualified e hold
    · refine ⟨_, _, rfl, ⟨fun _ _ ↦ rfl, fun _ _ _ hacyclic ↦ hrelink.1 hacyclic rfl⟩, h⟩

/-- **Aliases stay chains**, whatever is called, and whatever is added next. -/
theorem chains_of_calls (calls : List Call) :
    ∃ aliases, Transition.run call new calls = some aliases ∧ Chains aliases ∧
      ∀ source destination, ∃ result next, aliases.add source destination = some (result, next) ∧
        Adds aliases source destination result next := by
  have hrun : ∀ aliases, Chains aliases →
      ∃ after, Transition.run call aliases calls = some after ∧ Chains after := by
    induction calls with
    | nil => exact fun aliases h ↦ ⟨aliases, rfl, h⟩
    | cons c calls ih =>
      intro aliases h
      have hstep : ∃ next, call aliases c = some next ∧ Chains next := by
        rcases c with ⟨source, destination⟩ | -
        · obtain ⟨result, next, hadd, -, hnext⟩ := h.add source destination
          exact ⟨next, by rw [call, hadd, Option.map_some], hnext⟩
        · exact ⟨new, rfl, chains_new⟩
      obtain ⟨next, hcall, hnext⟩ := hstep
      rw [Transition.run_cons_of_step hcall]
      exact ih next hnext
  obtain ⟨aliases, haliases, hchains⟩ := hrun new chains_new
  refine ⟨aliases, haliases, hchains, fun source destination ↦ ?_⟩
  obtain ⟨result, next, hadd, hadds, -⟩ := hchains.add source destination
  exact ⟨result, next, hadd, hadds⟩

end Aliases

end DynamicConfig
