import DynamicConfig.Remote.Reloads

/-!
# A source replaced under its delivery

`RemoteSink::apply` stores its document, reloads, and looks at the generation again: if the source
was replaced while it reloaded, it reloads once more and answers with an error that says the state of
the replacement was restored. The second reload's outcome is discarded. So where it fails, and the
first had installed the delivered document, that document keeps serving (`serves_of_failed_repair`).
In every other case it does not (`not_serves_iff`).

The run is one delivery among any number of replacements, clears and commits. A document in the slot
carries whether it is the delivered one, and a snapshot the document it was resolved from; nothing
reads either.
-/

namespace DynamicConfig.Remote.Replacement

open Transition (run Along)

/-! ### One delivery -/

/-- A document in the slot, and whether it is the one that was delivered. -/
structure Doc where
  fetched : Fetched
  delivered : Bool

/-- A snapshot, and the document it was resolved from. -/
structure Snapshot (T : Type) where
  value : T
  document : Option Doc

/-- The reload of a delivery, or the one more. -/
inductive Pass where
  | first | repair
  deriving DecidableEq, Repr

/-- What a delivery does next. -/
inductive Point (T : Type) where
  | store
  | ask (pass : Pass)
  | read (pass : Pass) (active : Bool)
  | load (pass : Pass) (seen : Option Doc)
  | swap (pass : Pass) (snapshot : Snapshot T)
  | check (outcome : Except Error Unit)
  | returned (answer : Except Error Unit)

/-- A slot, the installed snapshot, and a delivery. -/
structure System (S T : Type) where
  slot : State S Doc
  installed : Option (Snapshot T)
  point : Point T

/-- One turn, of the delivery or of somebody else at the slot. -/
inductive Turn (S : Type) where
  | set (source : Kind S)
  | clear
  /-- A fetch commits what it brought. -/
  | commit (fetched : Fetched) (fence : Fence)
  | store (now : Nat)
  | ask
  | read
  /-- The load, on the machine as it stands. -/
  | load (host : Host)
  | swap
  | check

/-- The answer to a delivery whose source was replaced while it reloaded. -/
def replaced : Error where
  kind := .backend
  message := "the remote source this sink was created for was replaced while its delivery " ++
    "reloaded; the replacement's state was restored — stop the old watch loop and take a fresh " ++
    "sink from `remote_sink()`"

/-- What a delivery and the builder it reloads are made of. -/
structure Delivery (T : Type) where
  /-- The generation of the sink. -/
  generation : Nat
  document : Fetched
  spec : LoadSpec
  describe : Option String
  read : Dict → Except FigmentError T
  validate : T → Except Error Unit

section Steps

variable {S T : Type}

/-- The load of a reload that has read a document of the slot. -/
def Delivery.load (Fig : Type) [Figment Fig] (d : Delivery T) (host : Host) (seen : Option Doc) :
    Except Error T :=
  builderLoad Fig host (withDocument d.spec d.describe (seen.map Doc.fetched)) d.read d.validate

/-- Where a reload that has come to its end leaves the delivery. The outcome of the second is
discarded. -/
def Pass.after (outcome : Except Error Unit) : Pass → Point T
  | .first => .check outcome
  | .repair => .returned (.error replaced)

/-- What one turn does. -/
def System.step (Fig : Type) [Figment Fig] (d : Delivery T) (sys : System S T) :
    Turn S → Option (System S T)
  | .set source => some { sys with slot := sys.slot.set source }
  | .clear => some { sys with slot := sys.slot.clear }
  | .commit fetched fence => some { sys with slot := sys.slot.commit ⟨fetched, false⟩ fence }
  | .store now =>
    match sys.point with
    | .store =>
      match sys.slot.installIf d.generation ⟨d.document, true⟩ now with
      | .ok slot => some { sys with slot, point := .ask .first }
      | .error e => some { sys with point := .returned (.error e) }
    | _ => none
  | .ask =>
    match sys.point with
    | .ask pass => some { sys with point := .read pass sys.slot.fetched.isSome }
    | _ => none
  | .read =>
    match sys.point with
    -- A layer that was not active when it was asked is not merged.
    | .read pass active =>
      some { sys with point := .load pass (if active then sys.slot.fetched else none) }
    | _ => none
  | .load host =>
    match sys.point with
    | .load pass seen =>
      match d.load Fig host seen with
      | .ok value => some { sys with point := .swap pass ⟨value, seen⟩ }
      | .error e => some { sys with point := pass.after (.error e) }
    | _ => none
  | .swap =>
    match sys.point with
    | .swap pass snapshot =>
      some { sys with installed := some snapshot, point := pass.after (.ok ()) }
    | _ => none
  | .check =>
    match sys.point with
    | .check outcome =>
      if sys.slot.generation ≠ d.generation then some { sys with point := .ask .repair }
      else some { sys with point := .returned outcome }
    | _ => none

end Steps

/-! ### What serves -/

section Serving

variable {S T : Type}

/-- Whether a document is the delivered one. -/
def fromDelivery (document : Option Doc) : Bool := document.any Doc.delivered

/-- Whether the installed snapshot was resolved from the delivered document. -/
def System.serves (sys : System S T) : Bool :=
  sys.installed.any fun snapshot ↦ fromDelivery snapshot.document

/-- The load of the second reload succeeds, unless the delivered document does not serve anyway. -/
def Restores (Fig : Type) [Figment Fig] (d : Delivery T) (sys : System S T) : Turn S → Prop
  | .load host => ∀ seen, sys.point = .load .repair seen → sys.serves = true →
      (d.load Fig host seen).toBool = true
  | _ => True

/-- Nothing has been delivered yet. -/
structure Fresh (sys : System S T) : Prop where
  point : sys.point = .store
  slot : fromDelivery sys.slot.fetched = false
  serves : sys.serves = false

/-- Whether a delivery has yet to install anything, or has come to an end without. -/
def Point.early : Point T → Bool
  | .store | .ask .first | .read .first _ | .load .first _ | .swap .first _ => true
  | .check (.error _) | .returned (.error _) => true
  | _ => false

/-- Whether a delivery knows its source to be replaced. -/
def Point.repairing : Point T → Bool
  | .ask .repair | .read .repair _ | .load .repair _ | .swap .repair _ => true
  | _ => false

/-- The document the second reload has read. -/
def Point.carried : Point T → Option Doc
  | .load .repair seen => seen
  | .swap .repair snapshot => snapshot.document
  | _ => none

/-- The delivered document is in the slot only between its store and the next replacement. -/
structure Sound (d : Delivery T) (sys : System S T) : Prop where
  fenced : fromDelivery sys.slot.fetched = true →
    sys.slot.generation = d.generation ∧ sys.point.repairing = false
  carried : fromDelivery sys.point.carried = false

variable {Fig : Type} [Figment Fig] {d : Delivery T} {sys sys' : System S T}

theorem sound_of_fresh (h : Fresh sys) : Sound d sys where
  fenced hdelivered := by
    rw [h.slot] at hdelivered
    cases hdelivered
  carried := by
    rw [h.point]
    rfl

/-- Somebody else at the slot. -/
theorem Sound.of_slot (h : Sound d sys) {slot : State S Doc}
    (hslot : fromDelivery slot.fetched = true →
      fromDelivery sys.slot.fetched = true ∧ slot.generation = sys.slot.generation) :
    Sound d { sys with slot } where
  fenced hdelivered := by
    obtain ⟨hold, hsame⟩ := hslot hdelivered
    obtain ⟨hgeneration, hrepairing⟩ := h.fenced hold
    exact ⟨hsame.trans hgeneration, hrepairing⟩
  carried := h.carried

/-- The delivery moves on, to a point before its second reload. -/
theorem Sound.of_point (h : Sound d sys) {point : Point T} (hrepairing : point.repairing = false)
    (hcarried : point.carried = none) (installed : Option (Snapshot T)) :
    Sound d { sys with installed, point } where
  fenced hdelivered := ⟨(h.fenced hdelivered).1, hrepairing⟩
  carried := by
    show fromDelivery point.carried = false
    rw [hcarried]
    rfl

/-- The second reload moves on. -/
theorem Sound.of_repair {point : Point T}
    (hslot : fromDelivery sys.slot.fetched = false) (hcarried : fromDelivery point.carried = false) :
    Sound d { sys with point } where
  fenced hdelivered := by
    rw [hslot] at hdelivered
    cases hdelivered
  carried := hcarried

theorem Sound.slot_of_repairing (h : Sound d sys) (hrepairing : sys.point.repairing = true) :
    fromDelivery sys.slot.fetched = false := by
  rcases hdelivered : fromDelivery sys.slot.fetched with - | -
  · rfl
  · rw [(h.fenced hdelivered).2] at hrepairing
    cases hrepairing

/-- **One turn keeps the delivered document behind the fence.** -/
theorem Sound.step (h : Sound d sys) {turn : Turn S} (hstep : sys.step Fig d turn = some sys') :
    Sound d sys' := by
  rcases turn with source | - | ⟨fetched, fence⟩ | now | - | - | host | - | -
  case set =>
    obtain rfl := Option.some.inj hstep
    exact h.of_slot fun hdelivered ↦ by cases hdelivered
  case clear =>
    obtain rfl := Option.some.inj hstep
    exact h.of_slot fun hdelivered ↦ by cases hdelivered
  case commit =>
    obtain rfl := Option.some.inj hstep
    refine h.of_slot fun hdelivered ↦ ?_
    rw [State.commit] at hdelivered ⊢
    split at hdelivered
    · cases hdelivered
    · next hfence =>
      rw [if_neg hfence]
      exact ⟨hdelivered, rfl⟩
  case store =>
    rw [System.step] at hstep
    split at hstep
    · split at hstep
      · next slot hinstalled =>
        obtain rfl := Option.some.inj hstep
        rw [State.installIf] at hinstalled
        split at hinstalled
        · cases hinstalled
        · next hsame =>
          obtain rfl := Except.ok.inj hinstalled
          exact ⟨fun _ ↦ ⟨not_ne_iff.1 hsame, rfl⟩, rfl⟩
      · obtain rfl := Option.some.inj hstep
        exact h.of_point rfl rfl sys.installed
    · cases hstep
  case ask =>
    rw [System.step] at hstep
    split at hstep
    · next pass hpoint =>
      obtain rfl := Option.some.inj hstep
      rcases pass with - | -
      · exact h.of_point rfl rfl sys.installed
      · exact Sound.of_repair (h.slot_of_repairing (by rw [hpoint]; rfl)) rfl
    · cases hstep
  case read =>
    rw [System.step] at hstep
    split at hstep
    · next pass active hpoint =>
      obtain rfl := Option.some.inj hstep
      rcases pass with - | -
      · exact h.of_point rfl rfl sys.installed
      · have hslot := h.slot_of_repairing (by rw [hpoint]; rfl)
        refine Sound.of_repair hslot ?_
        show fromDelivery (if active then sys.slot.fetched else none) = false
        split
        · exact hslot
        · rfl
    · cases hstep
  case load =>
    rw [System.step] at hstep
    split at hstep
    · next pass seen hpoint =>
      have hcarried := h.carried
      rw [hpoint] at hcarried
      split at hstep
      · obtain rfl := Option.some.inj hstep
        rcases pass with - | -
        · exact h.of_point rfl rfl sys.installed
        · exact Sound.of_repair (h.slot_of_repairing (by rw [hpoint]; rfl)) hcarried
      · obtain rfl := Option.some.inj hstep
        rcases pass with - | -
        · exact h.of_point rfl rfl sys.installed
        · exact h.of_point rfl rfl sys.installed
    · cases hstep
  case swap =>
    rw [System.step] at hstep
    split at hstep
    · next pass snapshot hpoint =>
      obtain rfl := Option.some.inj hstep
      rcases pass with - | -
      · exact h.of_point rfl rfl _
      · exact h.of_point rfl rfl _
    · cases hstep
  case check =>
    rw [System.step] at hstep
    split at hstep
    · split at hstep
      · next hmoved =>
        obtain rfl := Option.some.inj hstep
        refine Sound.of_repair ?_ rfl
        rcases hdelivered : fromDelivery sys.slot.fetched with - | -
        · rfl
        · exact absurd (h.fenced hdelivered).1 hmoved
      · obtain rfl := Option.some.inj hstep
        exact h.of_point rfl rfl sys.installed
    · cases hstep

/-- **One turn on which the second load does not fail over a delivered document** leaves it serving
only past a first reload that succeeded, and not at a refusal. -/
theorem early_step (h : Sound d sys) {turn : Turn S} (hrestores : Restores Fig d sys turn)
    (hstep : sys.step Fig d turn = some sys') (hearly : sys.point.early = true → sys.serves = false) :
    sys'.point.early = true → sys'.serves = false := by
  rcases turn with source | - | ⟨fetched, fence⟩ | now | - | - | host | - | -
  case set =>
    obtain rfl := Option.some.inj hstep
    exact hearly
  case clear =>
    obtain rfl := Option.some.inj hstep
    exact hearly
  case commit =>
    obtain rfl := Option.some.inj hstep
    exact hearly
  case store =>
    rw [System.step] at hstep
    split at hstep
    · next hpoint =>
      have hserves := hearly (by rw [hpoint]; rfl)
      split at hstep
      all_goals
        obtain rfl := Option.some.inj hstep
        exact fun _ ↦ hserves
    · cases hstep
  case ask =>
    rw [System.step] at hstep
    split at hstep
    · next pass hpoint =>
      obtain rfl := Option.some.inj hstep
      rcases pass with - | -
      · exact fun _ ↦ hearly (by rw [hpoint]; rfl)
      · exact fun hnot ↦ by cases hnot
    · cases hstep
  case read =>
    rw [System.step] at hstep
    split at hstep
    · next pass active hpoint =>
      obtain rfl := Option.some.inj hstep
      rcases pass with - | -
      · exact fun _ ↦ hearly (by rw [hpoint]; rfl)
      · exact fun hnot ↦ by cases hnot
    · cases hstep
  case load =>
    rw [System.step] at hstep
    split at hstep
    · next pass seen hpoint =>
      split at hstep
      · obtain rfl := Option.some.inj hstep
        rcases pass with - | -
        · exact fun _ ↦ hearly (by rw [hpoint]; rfl)
        · exact fun hnot ↦ by cases hnot
      · next e hload =>
        obtain rfl := Option.some.inj hstep
        rcases pass with - | -
        · exact fun _ ↦ hearly (by rw [hpoint]; rfl)
        · intro _
          -- A second load that fails is one nothing was at stake in.
          rcases hserves : sys.serves with - | -
          · exact hserves
          · have hok := hrestores seen hpoint hserves
            rw [hload] at hok
            cases hok
    · cases hstep
  case swap =>
    rw [System.step] at hstep
    split at hstep
    · next pass snapshot hpoint =>
      obtain rfl := Option.some.inj hstep
      rcases pass with - | -
      · exact fun hnot ↦ by cases hnot
      · intro _
        have hcarried := h.carried
        rw [hpoint] at hcarried
        exact hcarried
    · cases hstep
  case check =>
    rw [System.step] at hstep
    split at hstep
    · next outcome hpoint =>
      split at hstep
      · obtain rfl := Option.some.inj hstep
        exact fun hnot ↦ by cases hnot
      · obtain rfl := Option.some.inj hstep
        rcases outcome with e | ⟨⟩
        · exact fun _ ↦ hearly (by rw [hpoint]; rfl)
        · exact fun hnot ↦ by cases hnot
    · cases hstep

/-- A second load that fails over a delivered document is the last thing a delivery does. -/
theorem returned_of_not_restores {turn : Turn S} (hnot : ¬ Restores Fig d sys turn)
    (hstep : sys.step Fig d turn = some sys') :
    sys'.point = .returned (.error replaced) ∧ sys'.serves = true := by
  rcases turn with source | - | ⟨fetched, fence⟩ | now | - | - | host | - | -
  case load =>
    rw [Restores] at hnot
    push Not at hnot
    obtain ⟨seen, hpoint, hserves, hload⟩ := hnot
    rw [System.step, hpoint] at hstep
    dsimp only at hstep
    split at hstep
    · next hok =>
      rw [hok] at hload
      exact absurd rfl hload
    · obtain rfl := Option.some.inj hstep
      exact ⟨rfl, hserves⟩
  all_goals exact absurd trivial hnot

/-- After its answer a delivery does nothing, and nobody else installs. -/
theorem returned_step {turn : Turn S} {answer : Except Error Unit}
    (hstep : sys.step Fig d turn = some sys')
    (h : sys.point = .returned answer ∧ sys.serves = true) :
    sys'.point = .returned answer ∧ sys'.serves = true := by
  obtain ⟨hpoint, hserves⟩ := h
  rcases turn with source | - | ⟨fetched, fence⟩ | now | - | - | host | - | -
  case set =>
    obtain rfl := Option.some.inj hstep
    exact ⟨hpoint, hserves⟩
  case clear =>
    obtain rfl := Option.some.inj hstep
    exact ⟨hpoint, hserves⟩
  case commit =>
    obtain rfl := Option.some.inj hstep
    exact ⟨hpoint, hserves⟩
  all_goals
    rw [System.step, hpoint] at hstep
    cases hstep

end Serving

/-! ### Every run -/

section Runs

variable {S T Fig : Type} [Figment Fig] {d : Delivery T} {start sys : System S T}
  {turns : List (Turn S)}

/-- What a run of turns that restore keeps. -/
theorem not_serves_of_restores (hfresh : Fresh start)
    (h : run (System.step Fig d) start turns = some sys)
    (hrestores : Along (System.step Fig d) (Restores Fig d) start turns) :
    sys.point.early = true → sys.serves = false := by
  have hkept : Sound d sys ∧ (sys.point.early = true → sys.serves = false) := by
    refine Transition.run_invariant_along
      (I := fun sys ↦ Sound d sys ∧ (sys.point.early = true → sys.serves = false))
      (fun s turn t hturn hstep hs ↦ ?_) hrestores h ⟨sound_of_fresh hfresh, fun _ ↦ hfresh.serves⟩
    exact ⟨hs.1.step hstep, early_step hs.1 hturn hstep hs.2⟩
  exact hkept.2

/-- A run with a turn that does not restore ends in a refusal that leaves the document serving. -/
theorem serves_of_not_restores (h : run (System.step Fig d) start turns = some sys)
    (hnot : ¬ Along (System.step Fig d) (Restores Fig d) start turns) :
    sys.point = .returned (.error replaced) ∧ sys.serves = true := by
  induction turns generalizing start with
  | nil => exact absurd trivial hnot
  | cons turn turns ih =>
    obtain ⟨next, hstep, hrun⟩ := Transition.run_cons_eq_some h
    by_cases hturn : Restores Fig d start turn
    · refine ih hrun fun hrest ↦ hnot ⟨hturn, fun t ht ↦ ?_⟩
      obtain rfl := Option.some.inj (hstep.symm.trans ht)
      exact hrest
    · exact Transition.run_invariant (fun _ _ _ hs hreturned ↦ returned_step hs hreturned) hrun
        (returned_of_not_restores hturn hstep)

/-- **A replaced source's document stops serving exactly where the second reload restores.** At the
answer that the source was replaced, after any interleaving, the installed snapshot is not the
delivered document's if and only if every second load on the way there succeeded or had nothing of
the delivery to take down. -/
theorem not_serves_iff (hfresh : Fresh start) (h : run (System.step Fig d) start turns = some sys)
    (hrefused : sys.point = .returned (.error replaced)) :
    sys.serves = false ↔ Along (System.step Fig d) (Restores Fig d) start turns := by
  constructor
  · intro hserves
    by_contra hnot
    have hserved := (serves_of_not_restores h hnot).2
    rw [hserves] at hserved
    cases hserved
  · intro hrestores
    exact not_serves_of_restores hfresh h hrestores (by rw [hrefused]; rfl)

end Runs

/-! ### A section that needs its document -/

/-- A section that has to say its name. -/
def readRequired (table : Dict) : Except FigmentError String :=
  match table.lookup "name" with
  | some (.leaf _ (.scalar (.string name))) => .ok name
  | _ => .error (missing "name")

/-- A delivery to the first source of a slot. -/
def delivery : Delivery String where
  generation := 1
  document := ⟨saying "delivered", .toml⟩
  spec := { key := "db" }
  describe := none
  read := readRequired
  validate _ := .ok ()

/-- A slot with its first source installed. -/
def watched : System String String :=
  { slot := State.new.set (.blocking "first"), installed := none, point := .store }

theorem fresh_watched : Fresh watched := ⟨rfl, rfl, rfl⟩

/-- The delivery reloads, its source is replaced before it looks again, and it looks. -/
def replacedUnder : List (Turn String) :=
  [.store 0, .ask, .read, .load oneName, .swap, .set (.blocking "second"), .check]

/-- The replacement has fetched something, and its document takes over. -/
def restored : List (Turn String) :=
  replacedUnder ++ [.commit ⟨saying "fetched", .toml⟩ ⟨2, 0⟩, .ask, .read, .load oneName, .swap]

/-- The replacement has fetched nothing yet, and the section needs a document. -/
def unrestored : List (Turn String) :=
  replacedUnder ++ [.ask, .read, .load oneName]

/-- What a system shows of its delivery: whether it was told that its source was replaced, whether
its document serves, and what the snapshot says. -/
def System.summary {S : Type} (sys : System S String) : Bool × Bool × Option String :=
  (match sys.point with
    | .returned (.error e) => decide (e = replaced)
    | _ => false, sys.serves, sys.installed.map Snapshot.value)

theorem refused_of_summary {S : Type} {sys : System S String} {serves : Bool}
    {value : Option String} (h : sys.summary = (true, serves, value)) :
    sys.point = .returned (.error replaced) ∧ sys.serves = serves := by
  obtain ⟨hpoint, hrest⟩ := Prod.mk.inj h
  refine ⟨?_, (Prod.mk.inj hrest).1⟩
  split at hpoint
  · next e hreturned =>
    rw [hreturned, of_decide_eq_true hpoint]
  · cases hpoint

/-- A replacement that has a document of its own. -/
theorem not_serves_restored : ∃ sys : System String String,
    run (System.step Stack delivery) watched restored = some sys ∧ sys.serves = false ∧
      Along (System.step Stack delivery) (Restores Stack delivery) watched restored := by
  have hruns : (run (System.step Stack delivery) watched restored).map System.summary =
      some (true, false, some "fetched") := by
    decide +kernel
  obtain ⟨sys, hrun, hsummary⟩ := Option.map_eq_some_iff.1 hruns
  obtain ⟨hrefused, hserves⟩ := refused_of_summary hsummary
  exact ⟨sys, hrun, hserves, (not_serves_iff fresh_watched hrun hrefused).1 hserves⟩

/-- **A replaced source's document keeps serving.** The replacement has fetched nothing, so the load
that is to restore its state fails, and the answer says that it was restored. -/
theorem serves_of_failed_repair : ∃ sys : System String String,
    run (System.step Stack delivery) watched unrestored = some sys ∧
      sys.point = .returned (.error replaced) ∧ sys.serves = true := by
  have hruns : (run (System.step Stack delivery) watched unrestored).map System.summary =
      some (true, true, some "delivered") := by
    decide +kernel
  obtain ⟨sys, hrun, hsummary⟩ := Option.map_eq_some_iff.1 hruns
  exact ⟨sys, hrun, refused_of_summary hsummary⟩

end DynamicConfig.Remote.Replacement
