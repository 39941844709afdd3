import DynamicConfig.Loader.Gaps
import DynamicConfig.Loader.Recover
import DynamicConfig.Remote.Slot
import DynamicConfig.Transition.Run

/-!
# Reloads that overlap

A delivery through a sink stores its document in the slot and reloads; a watcher and a manual reload
reload without storing. A reload takes three turns: it asks the slot whether there is a document to
merge, it reads the document and resolves the configuration, and it swaps the cell. Nothing is held
across the three, and reloads are deliberately not serialised against each other. A load that fails
swaps nothing.

So the last reload to swap decides what is installed, whatever the order in which they read. The
system records what the slot has held, oldest first, and which of these the installed snapshot is
resolved from. `settled_of_run` says what every interleaving keeps: the snapshot is the one resolved
from what the last reload to swap read, and so from the document in the slot if that reload read
after the last store. A reload that read earlier and swaps last takes the update back
(`not_current_of_overlap`).
-/

namespace DynamicConfig.Remote

open Transition (run)

/-! ### The load of a builder -/

/-- `Builder::load`: the load, and the check of its result. -/
def builderLoad {T : Type} (Fig : Type) [Figment Fig] (host : Host) (spec : LoadSpec)
    (read : Dict → Except FigmentError T) (validate : T → Except Error Unit) : Except Error T := do
  let value ← load Fig host spec read
  validate value
  .ok value

/-- A specification whose remote layer reads a document. -/
def withDocument (spec : LoadSpec) (describe : Option String) (document : Option Fetched) :
    LoadSpec :=
  { spec with remote := some { document, describe } }

/-! ### The parties -/

/-- How far a reload has come. -/
inductive Stage (D V : Type) where
  /-- A delivery, before its document is stored. -/
  | storing (document : D)
  | entered
  /-- It knows whether there is a document to merge; the slot held the `since`-th thing then. -/
  | asked (active : Bool) (since : Nat)
  /-- It has resolved the `index`-th thing the slot held. -/
  | loaded (value : V) (index : Nat)
  /-- It has swapped the cell, or its load has failed. -/
  | returned
  | done

/-- What a load leaves of a reload that read the `index`-th thing the slot held. -/
def Stage.afterLoad {D V : Type} (outcome : Except Error V) (index : Nat) : Stage D V :=
  match outcome with
  | .ok value => .loaded value index
  | .error _ => .returned

/-- A reload, and the generation of the sink that asked for it, if one did. -/
structure Reload (D V : Type) where
  generation : Option Nat
  stage : Stage D V

/-- A slot, a cell, and everybody who reloads. -/
structure Reloading (S D V : Type) where
  slot : State S D
  installed : V
  reloads : List (Reload D V)
  /-- What the slot has held, oldest first. -/
  history : List (Option D)
  /-- Which of these the installed snapshot is resolved from. -/
  read : Nat

/-- One turn of somebody. -/
inductive Turn (D : Type) where
  /-- A sink of the installed source is given a document. -/
  | apply (document : D)
  /-- A watcher, or the program, reloads. -/
  | reload
  | store (i now : Nat)
  | ask (i : Nat)
  | read (i : Nat)
  | swap (i : Nat)
  | finish (i : Nat)

section Steps

variable {S D V : Type}

/-- A slot, the snapshot resolved from it, and nobody reloading. -/
def Reloading.start (slot : State S D) (installed : V) : Reloading S D V where
  slot := slot
  installed := installed
  reloads := []
  history := [slot.fetched]
  read := 0

/-- A reload at its next stage. -/
def Reloading.advance (sys : Reloading S D V) (i : Nat) (r : Reload D V) : Reloading S D V :=
  { sys with reloads := sys.reloads.set i r }

/-- What one turn does, for the load of a document. -/
def Reloading.step (load : Option D → Except Error V) (sys : Reloading S D V) :
    Turn D → Option (Reloading S D V)
  | .apply document =>
    some { sys with reloads := sys.reloads ++ [⟨some sys.slot.generation, .storing document⟩] }
  | .reload => some { sys with reloads := sys.reloads ++ [⟨none, .entered⟩] }
  | .store i now =>
    match sys.reloads[i]? with
    | some ⟨some generation, .storing document⟩ =>
      match sys.slot.installIf generation document now with
      | .ok slot => some
        { sys.advance i ⟨some generation, .entered⟩ with
          slot, history := sys.history ++ [slot.fetched] }
      | .error _ => some (sys.advance i ⟨some generation, .done⟩)
    | _ => none
  | .ask i =>
    match sys.reloads[i]? with
    | some ⟨generation, .entered⟩ =>
      some (sys.advance i
        ⟨generation, .asked sys.slot.fetched.isSome (sys.history.length - 1)⟩)
    | _ => none
  | .read i =>
    match sys.reloads[i]? with
    -- A layer that was not active when it was asked is not merged.
    | some ⟨generation, .asked false since⟩ =>
      some (sys.advance i ⟨generation, .afterLoad (load none) since⟩)
    | some ⟨generation, .asked true _⟩ =>
      some (sys.advance i
        ⟨generation, .afterLoad (load sys.slot.fetched) (sys.history.length - 1)⟩)
    | _ => none
  | .swap i =>
    match sys.reloads[i]? with
    | some ⟨generation, .loaded value index⟩ => some
      { sys.advance i ⟨generation, .returned⟩ with installed := value, read := index }
    | _ => none
  | .finish i =>
    match sys.reloads[i]? with
    -- A delivery whose source was replaced under it reloads once more.
    | some ⟨some generation, .returned⟩ =>
      if sys.slot.generation ≠ generation then some (sys.advance i ⟨none, .entered⟩)
      else some (sys.advance i ⟨some generation, .done⟩)
    | some ⟨none, .returned⟩ => some (sys.advance i ⟨none, .done⟩)
    | _ => none

end Steps

/-! ### What every interleaving keeps -/

section Invariant

variable {S D V : Type} {load : Option D → Except Error V} {s t : Reloading S D V}

/-- What a reload knows of the slot is what the slot held. -/
def Stage.Recorded (load : Option D → Except Error V) (history : List (Option D)) : Stage D V → Prop
  | asked active since => since < history.length ∧ (active = false → history[since]? = some none)
  | loaded value index => ∃ seen, history[index]? = some seen ∧ load seen = .ok value
  | _ => True

/-- What holds between turns. -/
structure Settled (load : Option D → Except Error V) (s : Reloading S D V) : Prop where
  now : s.history[s.history.length - 1]? = some s.slot.fetched
  reloads : ∀ r ∈ s.reloads, r.stage.Recorded load s.history
  installed : ∃ seen, s.history[s.read]? = some seen ∧ load seen = .ok s.installed

/-- What was held stays on record. -/
theorem Stage.Recorded.append {history : List (Option D)} {stage : Stage D V}
    (h : stage.Recorded load history) (later : List (Option D)) :
    stage.Recorded load (history ++ later) := by
  have hkept : ∀ {k : Nat} {x : Option D}, history[k]? = some x → (history ++ later)[k]? = some x := by
    intro k x hk
    obtain ⟨hlt, -⟩ := List.getElem?_eq_some_iff.1 hk
    rw [List.getElem?_append_left hlt]
    exact hk
  cases stage with
  | asked active since =>
    obtain ⟨hlt, hnone⟩ := h
    refine ⟨?_, fun hactive ↦ hkept (hnone hactive)⟩
    rw [List.length_append]
    omega
  | loaded value index =>
    obtain ⟨seen, hseen, hload⟩ := h
    exact ⟨seen, hkept hseen, hload⟩
  | _ => exact trivial

/-- What a load leaves is on record with what it read. -/
theorem Stage.recorded_afterLoad {history : List (Option D)} {index : Nat} {seen : Option D}
    (h : history[index]? = some seen) :
    (Stage.afterLoad (load seen) index).Recorded load history := by
  rcases hload : load seen with error | value
  · exact trivial
  · exact ⟨seen, h, hload⟩

theorem settled_start {slot : State S D} {installed : V} (h : load slot.fetched = .ok installed) :
    Settled load (Reloading.start slot installed) where
  now := rfl
  reloads _ hr := absurd hr List.not_mem_nil
  installed := ⟨slot.fetched, rfl, h⟩

/-- Moving one reload on, to a stage whose knowledge is on record. -/
theorem Settled.advance (h : Settled load s) (i : Nat) {r : Reload D V}
    (hr : r.stage.Recorded load s.history) : Settled load (s.advance i r) where
  now := h.now
  reloads r' hr' := by
    rcases List.mem_or_eq_of_mem_set hr' with hold | rfl
    · exact h.reloads r' hold
    · exact hr
  installed := h.installed

theorem Settled.join (h : Settled load s) {r : Reload D V} (hr : r.stage.Recorded load s.history) :
    Settled load { s with reloads := s.reloads ++ [r] } where
  now := h.now
  reloads r' hr' := by
    rcases List.mem_append.1 hr' with hold | hnew
    · exact h.reloads r' hold
    · obtain rfl := List.mem_singleton.1 hnew
      exact hr
  installed := h.installed

/-- Something new in the slot. -/
theorem Settled.store (h : Settled load s) (slot : State S D) :
    Settled load { s with slot, history := s.history ++ [slot.fetched] } where
  now := by
    show (s.history ++ [slot.fetched])[(s.history ++ [slot.fetched]).length - 1]? = _
    rw [List.length_append, List.length_singleton, Nat.add_sub_cancel, List.getElem?_concat_length]
  reloads r hr := (h.reloads r hr).append [slot.fetched]
  installed := by
    obtain ⟨seen, hseen, hinstalled⟩ := h.installed
    obtain ⟨hlt, -⟩ := List.getElem?_eq_some_iff.1 hseen
    refine ⟨seen, ?_, hinstalled⟩
    rw [List.getElem?_append_left hlt]
    exact hseen

/-- **A reload that swaps has the last word.** -/
theorem Settled.swap (h : Settled load s) {value : V} {index : Nat}
    (hvalue : ∃ seen, s.history[index]? = some seen ∧ load seen = .ok value) :
    Settled load { s with installed := value, read := index } where
  now := h.now
  reloads := h.reloads
  installed := hvalue

/-- **One turn keeps what is on record.** -/
theorem Settled.step (h : Settled load s) {turn : Turn D} (hstep : s.step load turn = some t) :
    Settled load t := by
  have hpos : 0 < s.history.length := by
    obtain ⟨hlt, -⟩ := List.getElem?_eq_some_iff.1 h.now
    omega
  have hentered : Stage.Recorded load s.history Stage.entered := trivial
  have hreturned : Stage.Recorded load s.history Stage.returned := trivial
  have hdone : Stage.Recorded load s.history Stage.done := trivial
  cases turn with
  | apply document =>
    obtain rfl := Option.some.inj hstep
    exact h.join trivial
  | reload =>
    obtain rfl := Option.some.inj hstep
    exact h.join trivial
  | store i now =>
    rw [Reloading.step] at hstep
    split at hstep
    · split at hstep
      · obtain rfl := Option.some.inj hstep
        exact (h.advance i hentered).store _
      · obtain rfl := Option.some.inj hstep
        exact h.advance i hdone
    · cases hstep
  | ask i =>
    rw [Reloading.step] at hstep
    split at hstep
    · obtain rfl := Option.some.inj hstep
      refine h.advance i ⟨by omega, fun hinactive ↦ ?_⟩
      rw [h.now, Option.isNone_iff_eq_none.1 (Option.isSome_eq_false_iff.1 hinactive)]
    · cases hstep
  | read i =>
    rw [Reloading.step] at hstep
    split at hstep
    · next hreload =>
      obtain rfl := Option.some.inj hstep
      obtain ⟨-, hnone⟩ := h.reloads _ (List.mem_of_getElem? hreload)
      exact h.advance i (Stage.recorded_afterLoad (hnone rfl))
    · obtain rfl := Option.some.inj hstep
      exact h.advance i (Stage.recorded_afterLoad h.now)
    · cases hstep
  | swap i =>
    rw [Reloading.step] at hstep
    split at hstep
    · next hreload =>
      obtain rfl := Option.some.inj hstep
      have hvalue := h.reloads _ (List.mem_of_getElem? hreload)
      exact (h.advance i hreturned).swap hvalue
    · cases hstep
  | finish i =>
    rw [Reloading.step] at hstep
    split at hstep
    · split at hstep
      · obtain rfl := Option.some.inj hstep
        exact h.advance i hentered
      · obtain rfl := Option.some.inj hstep
        exact h.advance i hdone
    · obtain rfl := Option.some.inj hstep
      exact h.advance i hdone
    · cases hstep

theorem settled_of_run {slot : State S D} {installed : V} {turns : List (Turn D)}
    (hstart : load slot.fetched = .ok installed)
    (h : run (Reloading.step load) (Reloading.start slot installed) turns = some s) :
    Settled load s :=
  Transition.run_invariant (fun _ _ _ hstep hsettled ↦ hsettled.step hstep) h
    (settled_start hstart)

end Invariant

/-! ### The installed snapshot -/

/-- **What is installed.** After any interleaving of deliveries and other reloads, of which any may
fail, the installed snapshot is the one a load resolves from what the last reload to swap read in the
slot; and that is the document in the slot, if it read after the last store. -/
theorem installed_of_run {Fig T S : Type} [Figment Fig] (host : Host) (spec : LoadSpec)
    (describe : Option String) (read : Dict → Except FigmentError T)
    (validate : T → Except Error Unit) {slot : State S Fetched} {first : T}
    (hfirst : builderLoad Fig host (withDocument spec describe slot.fetched) read validate = .ok first)
    {turns : List (Turn Fetched)} {sys : Reloading S Fetched T}
    (h : run (Reloading.step fun document ↦
        builderLoad Fig host (withDocument spec describe document) read validate)
      (Reloading.start slot first) turns = some sys) :
    ∃ seen, sys.history[sys.read]? = some seen ∧
      builderLoad Fig host (withDocument spec describe seen) read validate = .ok sys.installed ∧
        (sys.read + 1 = sys.history.length → seen = sys.slot.fetched) := by
  have hsettled := settled_of_run hfirst h
  obtain ⟨seen, hseen, hinstalled⟩ := hsettled.installed
  refine ⟨seen, hseen, hinstalled, fun hlast ↦ ?_⟩
  have hnow := hsettled.now
  rw [← hlast, Nat.add_sub_cancel, hseen] at hnow
  exact Option.some.inj hnow

/-! ### Documents that say a name -/

/-- A TOML document that says a name: a dotted key, and a literal string. -/
def saying (name : String) : String := "db.name = '" ++ name ++ "'"

/-- The name such a document says. -/
def said (text : String) : Option String :=
  let name := (text.toList.drop "db.name = '".length).dropLast
  if name.all Char.isAlphanum && text = saying (String.ofList name) then some (String.ofList name)
  else none

/-- A machine that reads such documents, and takes every other for one that does not parse. -/
def oneName : Host :=
  { Host.bare with
    textProvider := fun format text ↦
      { metadata := Metadata.named inlineSuffix
        data :=
          match format, said text with
          | .toml, some name =>
            .ok [(Profile.default, [("db", .node none [("name", Node.text name)])])]
          | _, _ => .error { kind := .message "expected `db.name`" } } }

/-- The name a section says, if it says one. -/
def readName (table : Dict) : Except FigmentError (Option String) :=
  match table.lookup "name" with
  | some (.leaf _ (.scalar (.string name))) => .ok (some name)
  | _ => .ok none

/-- The load of a document there. -/
def loadName (document : Option Fetched) : Except Error (Option String) :=
  builderLoad Stack oneName (withDocument { key := "db" } none document) readName fun _ ↦ .ok ()

/-- A watcher that overlaps a delivery and swaps before it. -/
def orderly : List (Turn Fetched) :=
  [.reload, .ask 0, .read 0, .apply ⟨saying "new", .toml⟩, .store 1 0, .swap 0, .ask 1, .read 1,
    .swap 1, .finish 1, .finish 0]

/-- The same parties: the watcher reads the slot, the delivery stores, reads and swaps, and the watcher
swaps last. -/
def overlapping : List (Turn Fetched) :=
  [.reload, .ask 0, .read 0, .apply ⟨saying "new", .toml⟩, .store 1 0, .ask 1, .read 1, .swap 1,
    .finish 1, .swap 0, .finish 0]

/-- Whether everybody has returned, what is in the slot, and what is installed. -/
def Reloading.summary {S V : Type} (sys : Reloading S Fetched V) : Bool × Option Fetched × V :=
  (sys.reloads.all fun r ↦ match r.stage with | .done => true | _ => false,
    sys.slot.fetched, sys.installed)

theorem installed_orderly : ∃ sys : Reloading String Fetched (Option String),
    run (Reloading.step loadName) (Reloading.start State.new none) orderly = some sys ∧
      sys.summary = (true, some ⟨saying "new", .toml⟩, some "new") ∧
        ∃ seen, sys.history[sys.read]? = some seen ∧ loadName seen = .ok sys.installed ∧
          (sys.read + 1 = sys.history.length → seen = sys.slot.fetched) := by
  have hruns : (run (Reloading.step loadName)
      (Reloading.start (State.new : State String Fetched) none) orderly).map Reloading.summary =
        some (true, some ⟨saying "new", .toml⟩, some "new") := by
    decide +kernel
  obtain ⟨sys, hrun, hsummary⟩ := Option.map_eq_some_iff.1 hruns
  have hfirst : builderLoad Stack oneName
      (withDocument { key := "db" } none (State.new : State String Fetched).fetched) readName
        (fun _ ↦ .ok ()) = .ok none := by
    decide +kernel
  exact ⟨sys, hrun, hsummary,
    installed_of_run oneName { key := "db" } none readName (fun _ ↦ .ok ()) hfirst hrun⟩

/-- **An update is taken back**, though every load succeeds. -/
theorem not_current_of_overlap :
    (loadName none = .ok none ∧ loadName (some ⟨saying "new", .toml⟩) = .ok (some "new")) ∧
      ∃ sys : Reloading String Fetched (Option String),
        run (Reloading.step loadName) (Reloading.start State.new none) overlapping = some sys ∧
          sys.summary = (true, some ⟨saying "new", .toml⟩, none) := by
  have hruns : (run (Reloading.step loadName)
      (Reloading.start (State.new : State String Fetched) none) overlapping).map
        Reloading.summary = some (true, some ⟨saying "new", .toml⟩, none) := by
    decide +kernel
  exact ⟨⟨by decide +kernel, by decide +kernel⟩, Option.map_eq_some_iff.1 hruns⟩

end DynamicConfig.Remote
