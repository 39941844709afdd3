import DynamicConfig.Config.Value
import DynamicConfig.Polling.Sources

/-!
# Starting to watch

A program fetches the document, applies it, and then watches. The watch delivers nothing at its first
check: the document that check finds is taken to be the one the caller already has. It is the one
stored when the watch gets round to asking, however long after the fetch. What was written in between
is neither fetched nor delivered (`not_starts_of_write`).

So a start loses no write exactly in the runs in which the first check finds what was fetched
(`starts_of_run`). Consul's loop is here with the other three: it compares the documents themselves,
and its index decides only how long a query is held.
-/

namespace DynamicConfig

open Polling Transition

/-- Whether a turn is the store's. -/
def isStore {ε : Type} : Turn ε → Bool
  | .store _ => true
  | _ => false

theorem isStore_of_answers {ε : Type} {turn : Turn ε} (h : turn.Answers) : isStore turn = false := by
  rcases turn with event | answers | ⟨answers, accepted⟩ | ⟨answers, accepted⟩ | -
  case store => cases h
  all_goals rfl

/-! ### Consul -/

/-- What an agent answers of a key or a subtree: its index, and the entries. -/
structure Subtree (E : Type) where
  index : Nat
  entries : E

/-- The loop's own state beside what it shares with the others. -/
structure Consul.Loop (E D : Type) where
  /-- `last` is its `seen`. -/
  sys : System (Subtree E) D D
  index : Nat
  priming : Bool

section Consul

variable {E D : Type}

/-- The document the entries fold into: none of an empty subtree, or of one that does not fold. -/
def foldedDocument (fold : E → Except Error (Option D)) (subtree : Subtree E) : Option D :=
  (fold subtree.entries).toOption.join

/-- A subtree: one blocking query answers its entries, and the document is its own token. -/
def Consul.backend (fold : E → Except Error (Option D)) :
    Backend (Subtree E) (Subtree E) D D where
  move _ subtree := some subtree
  check := foldedDocument fold
  read subtree := (foldedDocument fold subtree).map fun text ↦ (text, some text)
  single := true

/-- A loop that has not asked anything. -/
def Consul.Loop.start (subtree : Subtree E) : Consul.Loop E D := ⟨System.start subtree, 0, true⟩

/-- `Consul::watch`, one turn of it or of the agent. A query is answered when the index moves or the
wait runs out, and answers the subtree as it stands. -/
def Consul.watch [DecidableEq D] (fold : E → Except Error (Option D)) (loop : Consul.Loop E D) :
    Turn (Subtree E) → Option (Consul.Loop E D)
  | .store subtree => some
      { loop with sys := { loop.sys with store := subtree, moves := loop.sys.moves + 1 } }
  | .tick answers accepted =>
    if loop.sys.point ≠ .check then none
    else if answers = false then some loop
    else
      let answered := loop.sys.store
      -- An index that has gone back would park the next query forever.
      let index := if answered.index < loop.index then 0 else answered.index
      match fold answered.entries with
      -- No retry cures a subtree that does not fold.
      | .error _ => some { loop with sys := { loop.sys with point := .ended }, index }
      | .ok none => some { loop with index }
      | .ok (some text) =>
        if loop.priming then some ⟨loop.sys.prime text, index, false⟩
        else if loop.sys.seen = some text then
          some { loop with sys := { loop.sys with settled := some loop.sys.moves }, index }
        else some { loop with sys := loop.sys.deliver text text accepted, index }
  | .stop => some { loop with sys := { loop.sys with point := .ended } }
  | _ => none

theorem agrees_consul (fold : E → Except Error (Option D)) : (Consul.backend fold).Agrees := by
  intro subtree d tag hread
  obtain ⟨text, htext, heq⟩ := Option.map_eq_some_iff.1 hread
  obtain ⟨-, rfl⟩ := Prod.mk.inj heq
  exact ⟨text, rfl, htext⟩

/-- A document stands for itself. -/
theorem recognises_consul [DecidableEq D] (fold : E → Except Error (Option D))
    (subtree : Subtree E) (turns : List (Turn (Subtree E))) :
    Along (System.step (Consul.backend fold)) (Recognises (Consul.backend fold))
      (System.start subtree) turns := by
  refine recognises_of_lineage (R := fun _ _ ↦ True) (agrees_consul fold) (fun _ ↦ trivial)
    (fun _ _ _ _ _ _ ↦ trivial) (fun s t _ hcheck d hd ↦ ?_) subtree turns
  have hsame : foldedDocument fold s = foldedDocument fold t := hcheck
  show ((foldedDocument fold s).map fun text ↦ (text, some text)).map Prod.fst = some d
  rw [hsame]
  exact hd

/-- The loop primes as long as it has seen nothing. -/
def Consul.Loop.Sound (loop : Consul.Loop E D) : Prop := loop.priming = loop.sys.seen.isNone

theorem Consul.sound_start (subtree : Subtree E) : (Consul.Loop.start subtree : Loop E D).Sound :=
  rfl

/-- One query of the common loop, by what it brings and what was seen. -/
theorem Consul.tick_eq [DecidableEq D] {fold : E → Except Error (Option D)}
    {sys : System (Subtree E) D D} {last : Option D} (answers accepted : Bool) :
    sys.point = .check → sys.seen = last →
      sys.step (Consul.backend fold) (.tick answers accepted) =
        match (if answers then foldedDocument fold sys.store else none), last with
        | none, _ => some sys
        | some text, none => some (sys.prime text)
        | some text, some seen =>
          if seen = text then some { sys with settled := some sys.moves }
          else some (sys.deliver text text accepted) := by
  intro hpoint hseen
  have hready : ¬ ((Consul.backend fold).single = false ∨ sys.point ≠ .check) := by
    rintro (hsingle | hne)
    · cases hsingle
    · exact hne hpoint
  have hread : (Consul.backend fold).read sys.store =
      (foldedDocument fold sys.store).map fun text ↦ (text, some text) := rfl
  rw [System.step, if_neg hready, hread]
  obtain ⟨store, moves, seen, point, delivered, primed, taken, settled⟩ := sys
  obtain rfl : seen = last := hseen
  rcases answers with - | -
  · rfl
  · rcases foldedDocument fold store with - | text
    · rfl
    · rcases seen with - | seen
      · rfl
      · rfl

/-- **A turn of Consul's loop is one of the common loop's**, or the end of it. -/
theorem Consul.step_of_watch [DecidableEq D] {fold : E → Except Error (Option D)}
    {loop loop' : Consul.Loop E D} (hsound : loop.Sound) {turn : Turn (Subtree E)}
    (hstep : Consul.watch fold loop turn = some loop') :
    loop'.Sound ∧ ∃ turn', (turn' = turn ∨ turn' = .stop ∧ isStore turn = false) ∧
      loop.sys.step (Consul.backend fold) turn' = some loop'.sys := by
  rcases turn with subtree | answers | ⟨answers, accepted⟩ | ⟨answers, accepted⟩ | -
  case store =>
    obtain rfl := Option.some.inj hstep
    exact ⟨hsound, _, Or.inl rfl, rfl⟩
  case check => cases hstep
  case read => cases hstep
  case stop =>
    obtain rfl := Option.some.inj hstep
    exact ⟨hsound, _, Or.inl rfl, rfl⟩
  case tick =>
    rw [Consul.watch] at hstep
    split at hstep
    · cases hstep
    · next hready =>
      have hpoint : loop.sys.point = .check := not_ne_iff.1 hready
      split at hstep
      · next hsilent =>
        obtain rfl := Option.some.inj hstep
        refine ⟨hsound, _, Or.inl rfl, ?_⟩
        rw [Consul.tick_eq _ _ hpoint rfl, hsilent]
        rfl
      · next hanswered =>
        have hanswers : answers = true := eq_true_of_ne_false hanswered
        dsimp only at hstep
        split at hstep
        · obtain rfl := Option.some.inj hstep
          exact ⟨hsound, .stop, Or.inr ⟨rfl, rfl⟩, rfl⟩
        · next hfold =>
          obtain rfl := Option.some.inj hstep
          have hfolded : foldedDocument fold loop.sys.store = none := by
            rw [foldedDocument, hfold]
            rfl
          refine ⟨hsound, _, Or.inl rfl, ?_⟩
          rw [Consul.tick_eq _ _ hpoint rfl, if_pos hanswers, hfolded]
        · next text hfold =>
          have hfolded : foldedDocument fold loop.sys.store = some text := by
            rw [foldedDocument, hfold]
            rfl
          rcases hseen : loop.sys.seen with - | seen
          · have hpriming : loop.priming = true := by
              rw [hsound, hseen]
              rfl
            rw [if_pos hpriming] at hstep
            obtain rfl := Option.some.inj hstep
            refine ⟨rfl, _, Or.inl rfl, ?_⟩
            rw [Consul.tick_eq _ _ hpoint hseen, if_pos hanswers, hfolded]
          · have hpriming : loop.priming = false := by
              rw [hsound, hseen]
              rfl
            rw [if_neg (Bool.eq_false_iff.1 hpriming)] at hstep
            split at hstep
            · next hsame =>
              obtain rfl := Option.some.inj hstep
              refine ⟨hsound, _, Or.inl rfl, ?_⟩
              rw [Consul.tick_eq _ _ hpoint hseen, if_pos hanswers, hfolded]
              exact if_pos (Option.some.inj (hseen.symm.trans hsame))
            · next hne =>
              obtain rfl := Option.some.inj hstep
              refine ⟨hpriming, _, Or.inl rfl, ?_⟩
              rw [Consul.tick_eq _ _ hpoint hseen, if_pos hanswers, hfolded]
              exact if_neg fun heq ↦ hne (hseen.trans (congrArg some heq))

end Consul

/-! ### Fetch, then watch -/

/-- A program that starts: the document it has fetched and applied, and its watch. -/
structure StartUp (W D : Type) where
  fetched : Option D
  watch : W

/-- One turn of a start. -/
inductive StartTurn (ε : Type) where
  /-- The fetch, and whether it comes back. -/
  | fetch (answers : Bool)
  | watch (turn : Turn ε)

section Starts

variable {W σ ε D Tok : Type}

/-- What one turn does. The watch is run after the fetch; the store waits for nobody. -/
def StartUp.step (present : W → Option D) (watch : W → Turn ε → Option W) (s : StartUp W D) :
    StartTurn ε → Option (StartUp W D)
  | .fetch answers =>
    if s.fetched.isSome then none
    else some { s with fetched := if answers then present s.watch else none }
  | .watch turn =>
    if s.fetched.isSome || isStore turn then (watch s.watch turn).map fun w ↦ { s with watch := w }
    else none

/-- A start with nothing fetched. -/
def StartUp.new (watch : W) : StartUp W D := ⟨none, watch⟩

/-- The last document the caller was given: the last delivered, or the one fetched. -/
def StartUp.given (s : StartUp (System σ D Tok) D) : Option D :=
  match s.watch.delivered.getLast? with
  | some e => some e.1
  | none => s.fetched

/-- A start that loses no write: the document the watch primes with is one the caller was given, and
where the loop has found nothing to do in a store that has been quiet since, the last document the
caller was given is the stored one. -/
structure LosesNothing (b : Backend σ ε D Tok) (s : StartUp (System σ D Tok) D) : Prop where
  primed : ∀ e, s.watch.primed = some e → ∀ d, b.present e.1 = some d → s.fetched = some d
  settled : s.watch.settled = some s.watch.moves →
    ∀ d, b.present s.watch.store = some d → s.given = some d

/-- The first check that comes back finds the document that was fetched. -/
def FindsFetched (b : Backend σ ε D Tok) (s : StartUp (System σ D Tok) D) :
    StartTurn ε → Prop
  | .fetch _ => True
  | .watch turn => turn.Answers → s.watch.seen = none →
      ∀ d, b.present s.watch.store = some d → s.fetched = some d

/-- A condition on the watch of a start. -/
def OfWatch (P : System σ D Tok → Turn ε → Prop) (s : StartUp (System σ D Tok) D) :
    StartTurn ε → Prop
  | .fetch _ => True
  | .watch turn => P s.watch turn

variable [DecidableEq Tok] {b : Backend σ ε D Tok} {s s' : StartUp (System σ D Tok) D}

/-- A start of the common loop. -/
def StartUp.poll (b : Backend σ ε D Tok) :
    StartUp (System σ D Tok) D → StartTurn ε → Option (StartUp (System σ D Tok) D) :=
  StartUp.step (fun sys ↦ b.present sys.store) (System.step b)

/-- What a turn of a start is. -/
theorem StartUp.poll_cases {turn : StartTurn ε} (hstep : StartUp.poll b s turn = some s') :
    (∃ answers, turn = .fetch answers ∧ s.fetched = none ∧ s'.watch = s.watch) ∨
      ∃ t, turn = .watch t ∧ s'.fetched = s.fetched ∧ s.watch.step b t = some s'.watch ∧
        (s.fetched.isSome || isStore t) = true := by
  rcases turn with answers | t
  · left
    rw [StartUp.poll, StartUp.step] at hstep
    split at hstep
    · cases hstep
    · next hnone =>
      obtain rfl := Option.some.inj hstep
      exact ⟨answers, rfl, Option.not_isSome_iff_eq_none.1 hnone, rfl⟩
  · right
    rw [StartUp.poll, StartUp.step] at hstep
    split at hstep
    · next hready =>
      obtain ⟨sys, hsys, rfl⟩ := Option.map_eq_some_iff.1 hstep
      exact ⟨t, rfl, rfl, hsys, hready⟩
    · cases hstep

/-- **The watch of a start is a run of the loop**, and what is asked of its turns is asked of that
run's. -/
theorem StartUp.exists_run {P : System σ D Tok → Turn ε → Prop} {turns : List (StartTurn ε)}
    (hcondition : Along (StartUp.poll b) (OfWatch P) s turns)
    (h : run (StartUp.poll b) s turns = some s') :
    ∃ watched, run (System.step b) s.watch watched = some s'.watch ∧
      Along (System.step b) P s.watch watched := by
  induction turns generalizing s with
  | nil =>
    obtain rfl := Option.some.inj h
    exact ⟨[], rfl, trivial⟩
  | cons turn turns ih =>
    obtain ⟨next, hstep, hrun⟩ := run_cons_eq_some h
    obtain ⟨hturn, hrest⟩ := hcondition
    obtain ⟨watched, hwatched, halong⟩ := ih (hrest next hstep) hrun
    rcases StartUp.poll_cases hstep with ⟨answers, rfl, -, hsame⟩ | ⟨t, rfl, -, hsys, -⟩
    · rw [hsame] at hwatched halong
      exact ⟨watched, hwatched, halong⟩
    · refine ⟨t :: watched, ?_, hturn, fun u hu ↦ ?_⟩
      · rw [run_cons, hsys]
        exact hwatched
      · obtain rfl := Option.some.inj (hsys.symm.trans hu)
        exact halong

/-- What the first check finds is what was fetched. -/
structure Primed (b : Backend σ ε D Tok) (s : StartUp (System σ D Tok) D) : Prop where
  unfetched : s.fetched = none → s.watch.primed = none
  found : ∀ e, s.watch.primed = some e → ∀ d, b.present e.1 = some d → s.fetched = some d

theorem Primed.step (hagrees : b.Agrees) (h : Primed b s) {turn : StartTurn ε}
    (hfinds : FindsFetched b s turn) (hstep : StartUp.poll b s turn = some s') : Primed b s' := by
  rcases StartUp.poll_cases hstep with ⟨answers, rfl, hnone, hsame⟩ | ⟨t, rfl, hsame, hsys, hafter⟩
  · have hprimed := h.unfetched hnone
    rw [← hsame] at hprimed
    exact ⟨fun _ ↦ hprimed, fun e he ↦ by rw [hprimed] at he; cases he⟩
  · have hkept : s'.watch.primed = s.watch.primed → Primed b s' := by
      intro hprimed
      refine ⟨fun hnone ↦ ?_, fun e he d hd ↦ ?_⟩
      · rw [hprimed, h.unfetched (hsame.symm.trans hnone)]
      · rw [hsame]
        exact h.found e (hprimed ▸ he) d hd
    generalize hw : s'.watch = w at hsys hkept
    rcases effect_of_step hagrees hsys with ⟨event, store, -, -⟩ | ⟨tag, hanswers, hseen, -, -⟩ |
      ⟨tag, -, -, -, -⟩ | ⟨tag, seen, -, -, -⟩ | ⟨document, tag, current, accepted, -, -, -⟩ |
      ⟨point, -⟩
    · exact hkept rfl
    · -- A check that comes back is a turn of the watch, which runs after the fetch.
      have hfetched : s.fetched.isSome := by
        rwa [isStore_of_answers hanswers, Bool.or_false] at hafter
      refine ⟨fun hnone ↦ ?_, fun e he d hd ↦ ?_⟩
      · rw [← hsame, hnone] at hfetched
        cases hfetched
      · rw [hw] at he
        rw [hsame]
        obtain rfl : (s.watch.store, s.watch.moves) = e := Option.some.inj he
        exact hfinds hanswers hseen d hd
    · exact hkept rfl
    · exact hkept rfl
    · exact hkept rfl
    · exact hkept rfl

/-- **A start whose first check finds what was fetched loses nothing**, where its watch does not
settle on anything stale. -/
theorem losesNothing_of_run (hagrees : b.Agrees) {store : σ} {turns : List (StartTurn ε)}
    (hfinds : Along (StartUp.poll b) (FindsFetched b) (StartUp.new (System.start store)) turns)
    (hnever : NeverStale b s.watch)
    (h : run (StartUp.poll b) (StartUp.new (System.start store)) turns = some s) :
    LosesNothing b s := by
  have hnew : Primed b (StartUp.new (System.start store) : StartUp (System σ D Tok) D) :=
    ⟨fun _ ↦ rfl, fun e he ↦ absurd he (Option.some_ne_none e).symm⟩
  have hprimed : Primed b s := run_invariant_along
    (fun _ _ _ hturn hstep hprimed ↦ hprimed.step hagrees hturn hstep) hfinds h hnew
  refine ⟨hprimed.found, fun hsettled d hd ↦ ?_⟩
  have hlatest := hnever hsettled d hd
  rw [Backend.latest] at hlatest
  rw [StartUp.given]
  rcases hlast : s.watch.delivered.getLast? with - | e
  · -- Nothing delivered: what the first check found is stored, and it was fetched.
    rw [hlast] at hlatest
    obtain ⟨e, he, hpresent⟩ := Option.bind_eq_some_iff.1 hlatest
    exact hprimed.found e he d hpresent
  · rw [hlast] at hlatest
    exact hlatest

/-- The watch of a start settles on nothing stale, where every run of it is recognised. -/
theorem neverStale_of_poll (hagrees : b.Agrees) {P : System σ D Tok → Turn ε → Prop} {store : σ}
    {turns : List (StartTurn ε)}
    (hcondition : Along (StartUp.poll b) (OfWatch P) (StartUp.new (System.start store)) turns)
    (hrecognises : ∀ watched, Along (System.step b) P (System.start store) watched →
      Along (System.step b) (Recognises b) (System.start store) watched)
    (h : run (StartUp.poll b) (StartUp.new (System.start store)) turns = some s) :
    NeverStale b s.watch := by
  obtain ⟨watched, hwatched, halong⟩ := StartUp.exists_run hcondition h
  exact neverStale_of_run hagrees (hrecognises watched halong) hwatched

/-- Nothing is asked of the watch. -/
theorem along_ofWatch_true (s : StartUp (System σ D Tok) D) (turns : List (StartTurn ε)) :
    Along (StartUp.poll b) (OfWatch fun _ _ ↦ True) s turns := by
  refine along_of_invariant (I := fun _ ↦ True) (Q := fun _ ↦ True) (fun _ _ _ _ _ _ ↦ trivial)
    (fun _ turn _ _ ↦ ?_) (fun _ _ ↦ trivial) trivial
  rcases turn with answers | t
  · exact trivial
  · exact trivial

end Starts

/-! ### Consul's start -/

section ConsulStart

variable {E D : Type} [DecidableEq D] {fold : E → Except Error (Option D)}

/-- A start with Consul's loop. -/
def Consul.startUp (fold : E → Except Error (Option D)) :
    StartUp (Consul.Loop E D) D → StartTurn (Subtree E) → Option (StartUp (Consul.Loop E D) D) :=
  StartUp.step (fun loop ↦ foldedDocument fold loop.sys.store) (Consul.watch fold)

/-- The same start, of what the loop shares with the others. -/
def StartUp.common (s : StartUp (Consul.Loop E D) D) : StartUp (System (Subtree E) D D) D :=
  ⟨s.fetched, s.watch.sys⟩

omit [DecidableEq D] in
theorem present_consul (subtree : Subtree E) :
    (Consul.backend fold).present subtree = foldedDocument fold subtree := by
  show ((foldedDocument fold subtree).map fun text ↦ (text, some text)).map Prod.fst = _
  rcases foldedDocument fold subtree with - | text
  · rfl
  · rfl

/-- **A turn of a start with Consul's loop is a turn of a start with the common one**, and finds what
was fetched if it does. -/
theorem Consul.poll_of_startUp {s s' : StartUp (Consul.Loop E D) D} (hsound : s.watch.Sound)
    {turn : StartTurn (Subtree E)} (hfinds : FindsFetched (Consul.backend fold) s.common turn)
    (hstep : Consul.startUp fold s turn = some s') :
    s'.watch.Sound ∧ ∃ turn', FindsFetched (Consul.backend fold) s.common turn' ∧
      StartUp.poll (Consul.backend fold) s.common turn' = some s'.common := by
  rcases turn with answers | t
  · rw [Consul.startUp, StartUp.step] at hstep
    split at hstep
    · cases hstep
    · next hnone =>
      obtain rfl := Option.some.inj hstep
      refine ⟨hsound, .fetch answers, trivial, ?_⟩
      rw [StartUp.poll, StartUp.step, present_consul]
      exact if_neg hnone
  · rw [Consul.startUp, StartUp.step] at hstep
    split at hstep
    · next hready =>
      obtain ⟨loop, hloop, rfl⟩ := Option.map_eq_some_iff.1 hstep
      obtain ⟨hsound', turn', hturn', hsys⟩ := Consul.step_of_watch hsound hloop
      refine ⟨hsound', .watch turn', ?_, ?_⟩
      · rcases hturn' with rfl | ⟨rfl, -⟩
        · exact hfinds
        · exact fun hanswers ↦ hanswers.elim
      · have hready' : (s.fetched.isSome || isStore turn') = true := by
          rcases hturn' with rfl | ⟨rfl, hother⟩
          · exact hready
          · rw [hother] at hready
            exact hready
        rw [StartUp.poll, StartUp.step, StartUp.common, if_pos hready', hsys]
        rfl
    · cases hstep

/-- A run of a start with Consul's loop is one of a start with the common loop. -/
theorem Consul.exists_poll {s s' : StartUp (Consul.Loop E D) D} (hsound : s.watch.Sound)
    {turns : List (StartTurn (Subtree E))}
    (hfinds : Along (Consul.startUp fold)
      (fun s ↦ FindsFetched (Consul.backend fold) s.common) s turns)
    (h : run (Consul.startUp fold) s turns = some s') :
    ∃ polled, run (StartUp.poll (Consul.backend fold)) s.common polled = some s'.common ∧
      Along (StartUp.poll (Consul.backend fold)) (FindsFetched (Consul.backend fold)) s.common
        polled := by
  induction turns generalizing s with
  | nil =>
    obtain rfl := Option.some.inj h
    exact ⟨[], rfl, trivial⟩
  | cons turn turns ih =>
    obtain ⟨next, hstep, hrun⟩ := run_cons_eq_some h
    obtain ⟨hturn, hrest⟩ := hfinds
    obtain ⟨hnext, turn', hturn', hpoll⟩ := Consul.poll_of_startUp hsound hturn hstep
    obtain ⟨polled, hpolled, halong⟩ := ih hnext (hrest next hstep) hrun
    refine ⟨turn' :: polled, ?_, hturn', fun u hu ↦ ?_⟩
    · rw [run_cons, hpoll]
      exact hpolled
    · obtain rfl := Option.some.inj (hpoll.symm.trans hu)
      exact halong

end ConsulStart

/-! ### Every start -/

section Runs

variable {D Tag E : Type} [DecidableEq D] [DecidableEq Tag]

/-- **A start loses no write**, with any of the four, in every run in which the first check finds what
was fetched; and with Vault, no check takes a secret created anew for the one it has seen. -/
theorem starts_of_run (fold : E → Except Error (Option D)) {etag : D → Tag}
    (hetag : Function.Injective etag) :
    (∀ subtree turns s,
      Along (Consul.startUp fold) (fun s ↦ FindsFetched (Consul.backend fold) s.common)
        (StartUp.new (Consul.Loop.start subtree)) turns →
      run (Consul.startUp fold) (StartUp.new (Consul.Loop.start subtree)) turns = some s →
        LosesNothing (Consul.backend fold) s.common) ∧
    (∀ object turns s,
      Along (StartUp.poll (S3.backend etag)) (FindsFetched (S3.backend etag))
        (StartUp.new (System.start object)) turns →
      run (StartUp.poll (S3.backend etag)) (StartUp.new (System.start object)) turns = some s →
        LosesNothing (S3.backend etag) s) ∧
    (∀ secret turns s,
      Along (StartUp.poll (Vault.backend D)) (FindsFetched (Vault.backend D))
        (StartUp.new (System.start secret)) turns →
      Along (StartUp.poll (Vault.backend D)) (OfWatch SameSecret)
        (StartUp.new (System.start secret)) turns →
      run (StartUp.poll (Vault.backend D)) (StartUp.new (System.start secret)) turns = some s →
        LosesNothing (Vault.backend D) s) ∧
    (∀ document turns s,
      Along (StartUp.poll (Firestore.backend D)) (FindsFetched (Firestore.backend D))
        (StartUp.new (System.start document)) turns →
      run (StartUp.poll (Firestore.backend D)) (StartUp.new (System.start document)) turns = some s →
        LosesNothing (Firestore.backend D) s) := by
  refine ⟨fun subtree turns s hfinds h ↦ ?_, fun object turns s hfinds h ↦ ?_,
    fun secret turns s hfinds hsame h ↦ ?_, fun document turns s hfinds h ↦ ?_⟩
  · obtain ⟨polled, hpolled, halong⟩ := Consul.exists_poll (Consul.sound_start subtree) hfinds h
    have hnever := neverStale_of_poll (agrees_consul fold) (along_ofWatch_true _ polled)
      (fun watched _ ↦ recognises_consul fold subtree watched) hpolled
    exact losesNothing_of_run (agrees_consul fold) halong hnever hpolled
  · have hnever := neverStale_of_poll (agrees_s3 etag) (along_ofWatch_true _ turns)
      (fun watched _ ↦ recognises_s3 hetag object watched) h
    exact losesNothing_of_run (agrees_s3 etag) hfinds hnever h
  · have hnever := neverStale_of_poll agrees_vault hsame (fun _ hwatched ↦ recognises_vault hwatched) h
    exact losesNothing_of_run agrees_vault hfinds hnever h
  · have hnever := neverStale_of_poll agrees_firestore (along_ofWatch_true _ turns)
      (fun watched _ ↦ recognises_firestore document watched) h
    exact losesNothing_of_run agrees_firestore hfinds hnever h

end Runs

/-- Fetched, then watched; a write before the watch asks for anything, or none. -/
def startedWithS3 (writes : List (Turn (ObjectEvent String))) :
    List (StartTurn (ObjectEvent String)) :=
  let checks : List (Turn (ObjectEvent String)) := [.check true, .check true]
  .fetch true :: (writes ++ checks).map .watch

/-- Nothing written in between. -/
theorem starts_quiet : ∃ s : StartUp (System (Option String) String String) String,
    run (StartUp.poll (S3.backend id)) (StartUp.new (System.start (some "a"))) (startedWithS3 []) =
        some s ∧ s.given = some "a" ∧ LosesNothing (S3.backend id) s := by
  obtain ⟨s, hrun, hgiven⟩ : ∃ s : StartUp (System (Option String) String String) String,
      run (StartUp.poll (S3.backend id)) (StartUp.new (System.start (some "a")))
        (startedWithS3 []) = some s ∧ s.given = some "a" := ⟨_, rfl, rfl⟩
  obtain ⟨-, hs3, -, -⟩ := starts_of_run (fun _ : Unit ↦ .ok (none : Option String))
    Function.injective_id
  refine ⟨s, hrun, hgiven, hs3 _ _ _ ?_ hrun⟩
  refine ⟨trivial, fun t ht ↦ ?_⟩
  obtain rfl := Option.some.inj ht
  refine ⟨fun _ _ d hd ↦ hd, fun t ht ↦ ?_⟩
  obtain rfl := Option.some.inj ht
  exact ⟨fun _ hunseen ↦ absurd hunseen (Option.some_ne_none _), fun _ _ ↦ trivial⟩

/-- **A write is lost.** It comes after the fetch and before the first check, which takes it for what
was fetched: the caller goes on with the old document for as long as nothing else is written. -/
theorem not_starts_of_write : ∃ s : StartUp (System (Option String) String String) String,
    run (StartUp.poll (S3.backend id)) (StartUp.new (System.start (some "a")))
        (startedWithS3 [.store (.put "b")]) = some s ∧ s.given = some "a" ∧
      s.watch.settled = some s.watch.moves ∧
        (S3.backend id).present s.watch.store = some "b" ∧ ¬ LosesNothing (S3.backend id) s :=
  ⟨_, rfl, rfl, rfl, rfl, fun hnothing ↦ absurd (hnothing.settled rfl "b" rfl) (by decide)⟩

end DynamicConfig
