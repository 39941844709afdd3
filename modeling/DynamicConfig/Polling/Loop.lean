import Mathlib.Data.List.Pairwise
import DynamicConfig.Transition.Run

/-!
# A loop that polls a version token

A store answers two questions: which version it holds, and what the document is. The loop keeps the
token of the version it has last taken, `seen`. The first check that succeeds only records the token;
after that a token that differs sends the loop to read the document, which brings a token of its own,
and the document is delivered. Anything may happen at the store between a check and its read, and any
request may fail. Where the store has one question only, a tick is the check and the read in one.

Two things are to be had of it. No version is delivered twice without the store having moved
(`once_of_run`). And the loop does not settle on a document that is not the stored one
(`neverStale_of_run`), provided that no check mistakes what is stored for what was taken: a token is
all the loop has to tell them apart (`Recognises`). `recognises_of_lineage` is for stores whose tokens
cannot be mistaken along their own history.

The counts of moves and the stores that tokens were taken of are for the statements; no step of the
loop reads them.
-/

namespace Polling

open Transition (run Along)

/-! ### The loop -/

/-- A store: what can happen at it, and what it answers. -/
structure Backend (σ ε D Tok : Type) where
  move : σ → ε → Option σ
  /-- The token of the version it holds. -/
  check : σ → Option Tok
  /-- The document, and the token it came with, if it came with one. -/
  read : σ → Option (D × Option Tok)
  /-- Whether the loop's check is a read. -/
  single : Bool

/-- What the loop does next. -/
inductive Point (Tok : Type) where
  | check
  /-- A check has answered another token than the one seen. -/
  | read (tag : Tok)
  | ended
  deriving DecidableEq

/-- A store, the loop, and what has happened. -/
structure System (σ D Tok : Type) where
  store : σ
  /-- How often the store has moved. -/
  moves : Nat
  seen : Option Tok
  point : Point Tok
  /-- The documents delivered, oldest first, each with the moves there had been when it was read. -/
  delivered : List (D × Nat)
  /-- The store the first check found, and its moves. -/
  primed : Option (σ × Nat)
  /-- The store the token in `seen` was taken of, and its moves. -/
  taken : Option (σ × Nat)
  /-- The moves there had been at the last check or read that left the loop with nothing to do. -/
  settled : Option Nat

/-- One turn. -/
inductive Turn (ε : Type) where
  | store (event : ε)
  /-- A check, and whether the request comes back. -/
  | check (answers : Bool)
  /-- A read, whether it comes back, and whether the document is accepted. -/
  | read (answers accepted : Bool)
  /-- A check that is a read. -/
  | tick (answers accepted : Bool)
  /-- The loop is told to stop, or gives up. -/
  | stop

section Steps

variable {σ ε D Tok : Type}

/-- Nothing has been checked. -/
def System.start (store : σ) : System σ D Tok := ⟨store, 0, none, .check, [], none, none, none⟩

/-- The first token is recorded. -/
def System.prime (sys : System σ D Tok) (tag : Tok) : System σ D Tok :=
  { sys with
    seen := some tag
    primed := some (sys.store, sys.moves)
    taken := some (sys.store, sys.moves)
    settled := some sys.moves }

/-- A document is delivered, and its token recorded. A document that is refused ends the loop. -/
def System.deliver (sys : System σ D Tok) (document : D) (tag : Tok) (accepted : Bool) :
    System σ D Tok :=
  { sys with
    seen := some tag
    point := if accepted then .check else .ended
    delivered := sys.delivered ++ [(document, sys.moves)]
    taken := some (sys.store, sys.moves)
    settled := some sys.moves }

/-- What one turn does. -/
def System.step [DecidableEq Tok] (b : Backend σ ε D Tok) (sys : System σ D Tok) :
    Turn ε → Option (System σ D Tok)
  | .store event =>
    (b.move sys.store event).map fun store ↦ { sys with store, moves := sys.moves + 1 }
  | .check answers =>
    if b.single ∨ sys.point ≠ .check then none
    else
      match (if answers then b.check sys.store else none), sys.seen with
      | none, _ => some sys
      | some tag, none => some (sys.prime tag)
      | some tag, some seen =>
        if seen = tag then some { sys with settled := some sys.moves }
        else some { sys with point := .read tag }
  | .read answers accepted =>
    match sys.point with
    | .read tag =>
      match (if answers then b.read sys.store else none) with
      -- What was seen stays where it was, so the next check tries again.
      | none => some { sys with point := .check }
      | some (document, current) => some (sys.deliver document (current.getD tag) accepted)
    | _ => none
  | .tick answers accepted =>
    if b.single = false ∨ sys.point ≠ .check then none
    else
      match (if answers then b.read sys.store else none), sys.seen with
      | none, _ => some sys
      -- Without a token there is nothing to compare.
      | some (_, none), _ => some { sys with point := .ended }
      | some (_, some tag), none => some (sys.prime tag)
      | some (document, some tag), some seen =>
        if seen = tag then some { sys with settled := some sys.moves }
        else some (sys.deliver document tag accepted)
  | .stop => some { sys with point := .ended }

end Steps

/-! ### What is to be had of it -/

section Statements

variable {σ ε D Tok : Type}

/-- The document a store holds. -/
def Backend.present (b : Backend σ ε D Tok) (store : σ) : Option D := (b.read store).map Prod.fst

/-- The last document delivered, or the one the first check found. -/
def Backend.latest (b : Backend σ ε D Tok) (sys : System σ D Tok) : Option D :=
  match sys.delivered.getLast? with
  | some e => some e.1
  | none => sys.primed.bind fun e ↦ b.present e.1

/-- Where the store has been quiet since a check, or a read, that left nothing to do, the last
document delivered is the stored one. -/
def NeverStale (b : Backend σ ε D Tok) (sys : System σ D Tok) : Prop :=
  sys.settled = some sys.moves → ∀ d, b.present sys.store = some d → b.latest sys = some d

/-- The moves there had been when the first check found a version, and when each delivery read one. -/
def System.stamps (sys : System σ D Tok) : List Nat :=
  (sys.primed.map Prod.snd).toList ++ sys.delivered.map Prod.snd

/-- Between any two of these the store has moved. -/
def Once (sys : System σ D Tok) : Prop := sys.stamps.Pairwise (· < ·)

/-- Whether a turn is a check that comes back. -/
def Turn.Answers : Turn ε → Prop
  | .check answers | .tick answers _ => answers = true
  | _ => False

/-- A check that answers the token that was taken finds the document that was taken. -/
def Recognises (b : Backend σ ε D Tok) (sys : System σ D Tok) (turn : Turn ε) : Prop :=
  turn.Answers → ∀ e, sys.taken = some e → b.check e.1 = b.check sys.store →
    ∀ d, b.present sys.store = some d → b.present e.1 = some d

/-- A document comes with the token a check would have answered. -/
def Backend.Agrees (b : Backend σ ε D Tok) : Prop :=
  ∀ store d tag, b.read store = some (d, tag) → ∃ t, tag = some t ∧ b.check store = some t

end Statements

/-! ### Every run -/

section Runs

variable {σ ε D Tok : Type} {b : Backend σ ε D Tok} {sys sys' : System σ D Tok}

/-- A request that came back. -/
theorem answered {α : Type} {answers : Bool} {answer : Option α} {a : α}
    (h : (if answers then answer else none) = some a) : answers = true ∧ answer = some a := by
  split at h
  · next hanswers => exact ⟨hanswers, h⟩
  · cases h

/-- The loop has taken a version: the token in `seen` is its token, and the last document given is
its document. -/
structure Took (b : Backend σ ε D Tok) (sys : System σ D Tok) (e : σ × Nat) : Prop where
  seen : ∃ tag, sys.seen = some tag ∧ b.check e.1 = some tag
  latest : b.latest sys = b.present e.1
  last : sys.stamps.getLast? = some e.2
  le : e.2 ≤ sys.moves
  unmoved : e.2 = sys.moves → e.1 = sys.store

/-- What holds of the loop, whatever the tokens. -/
structure Kept (b : Backend σ ε D Tok) (sys : System σ D Tok) : Prop where
  unseen : sys.seen = none → sys.stamps = []
  taken : sys.seen.isSome → ∃ e, sys.taken = some e ∧ Took b sys e
  /-- The store has moved since the token was taken, so the read to come does not find that version. -/
  reading : ∀ tag, sys.point = .read tag → ∃ e, sys.taken = some e ∧ Took b sys e ∧ e.2 < sys.moves
  once : Once sys

theorem kept_start (store : σ) : Kept b (System.start store : System σ D Tok) where
  unseen _ := rfl
  taken h := by cases h
  reading tag htag := by cases htag
  once := List.Pairwise.nil

/-- The store moves. -/
theorem Took.store {e : σ × Nat} (h : Took b sys e) (store : σ) :
    Took b { sys with store, moves := sys.moves + 1 } e where
  seen := h.seen
  latest := h.latest
  last := h.last
  le := Nat.le_succ_of_le h.le
  unmoved hmoves := by
    have hle := h.le
    have hnow : e.2 = sys.moves + 1 := hmoves
    omega

theorem Kept.store (h : Kept b sys) (store : σ) :
    Kept b { sys with store, moves := sys.moves + 1 } where
  unseen := h.unseen
  taken hseen := by
    obtain ⟨e, he, htook⟩ := h.taken hseen
    exact ⟨e, he, htook.store store⟩
  reading tag htag := by
    obtain ⟨e, he, htook, hlt⟩ := h.reading tag htag
    exact ⟨e, he, htook.store store, Nat.lt_succ_of_lt hlt⟩
  once := h.once

/-- The loop rests, or ends. -/
theorem Kept.rest (h : Kept b sys) {point : Point Tok} (hpoint : ∀ tag, point ≠ .read tag)
    (settled : Option Nat) : Kept b { sys with point, settled } where
  unseen := h.unseen
  taken hseen := by
    obtain ⟨e, he, htook⟩ := h.taken hseen
    exact ⟨e, he, htook.seen, htook.latest, htook.last, htook.le, htook.unmoved⟩
  reading tag htag := absurd htag (hpoint tag)
  once := h.once

/-- The first token. -/
theorem Kept.prime (h : Kept b sys) {tag : Tok} (hunseen : sys.seen = none)
    (hpoint : sys.point = .check) (hcheck : b.check sys.store = some tag) :
    Kept b (sys.prime tag) := by
  have hstamps := h.unseen hunseen
  have hdelivered : sys.delivered = [] :=
    List.map_eq_nil_iff.1 (List.append_eq_nil_iff.1 hstamps).2
  have hnow : (sys.prime tag).stamps = [sys.moves] := by
    show [sys.moves] ++ sys.delivered.map Prod.snd = [sys.moves]
    rw [hdelivered]
    rfl
  have htook : Took b (sys.prime tag) (sys.store, sys.moves) := by
    refine ⟨⟨tag, rfl, hcheck⟩, ?_, ?_, Nat.le_refl _, fun _ ↦ rfl⟩
    · show (match sys.delivered.getLast? with
        | some e => some e.1
        | none => b.present sys.store) = b.present sys.store
      rw [hdelivered]
      rfl
    · rw [hnow]
      rfl
  refine ⟨fun hnone ↦ absurd hnone (Option.some_ne_none _), fun _ ↦ ⟨_, rfl, htook⟩, fun t ht ↦ ?_, ?_⟩
  · have hcheckpoint : sys.point = .read t := ht
    rw [hpoint] at hcheckpoint
    cases hcheckpoint
  · rw [Once, hnow]
    exact List.pairwise_singleton _ _

/-- A delivery of a version the store has moved to since. -/
theorem Kept.deliver (h : Kept b sys) {e : σ × Nat} (htook : Took b sys e)
    (hlt : e.2 < sys.moves) {document : D} {tag : Tok} {current : Option Tok}
    (hread : b.read sys.store = some (document, current)) (hcheck : b.check sys.store = some tag)
    (accepted : Bool) : Kept b (sys.deliver document tag accepted) := by
  have hstamps : (sys.deliver document tag accepted).stamps = sys.stamps ++ [sys.moves] := by
    show (sys.primed.map Prod.snd).toList ++ (sys.delivered ++ [(document, sys.moves)]).map Prod.snd =
      ((sys.primed.map Prod.snd).toList ++ sys.delivered.map Prod.snd) ++ [sys.moves]
    rw [List.map_append, List.append_assoc]
    rfl
  have hnow : Took b (sys.deliver document tag accepted) (sys.store, sys.moves) := by
    refine ⟨⟨tag, rfl, hcheck⟩, ?_, ?_, Nat.le_refl _, fun _ ↦ rfl⟩
    · show (match (sys.delivered ++ [(document, sys.moves)]).getLast? with
        | some e => some e.1
        | none => sys.primed.bind fun e ↦ b.present e.1) = (b.read sys.store).map Prod.fst
      rw [List.getLast?_concat, hread]
      rfl
    · rw [hstamps, List.getLast?_concat]
  refine ⟨fun hnone ↦ absurd hnone (Option.some_ne_none _), fun _ ↦ ⟨_, rfl, hnow⟩, fun t ht ↦ ?_, ?_⟩
  · have hpoint : (if accepted then Point.check else Point.ended) = .read t := ht
    split at hpoint
    · cases hpoint
    · cases hpoint
  · rw [Once, hstamps, List.pairwise_append]
    refine ⟨h.once, List.pairwise_singleton _ _, fun x hx y hy ↦ ?_⟩
    -- The last of the stamps is that of the version taken, and the others come before it.
    obtain rfl := List.mem_singleton.1 hy
    have hle : x ≤ sys.stamps.getLast (List.ne_nil_of_mem hx) :=
      (h.once.imp Nat.le_of_lt).rel_getLast hx
    have hlast : sys.stamps.getLast (List.ne_nil_of_mem hx) = e.2 :=
      List.getLast_of_getLast?_eq_some htook.last
    omega

/-- A version with another token is one the store has moved to. -/
theorem Took.moved {e : σ × Nat} (h : Took b sys e) {tag seen : Tok} (hseen : sys.seen = some seen)
    (hcheck : b.check sys.store = some tag) (hne : seen ≠ tag) : e.2 < sys.moves := by
  refine Nat.lt_of_le_of_ne h.le fun hmoves ↦ hne ?_
  obtain ⟨taken, htaken, hcheck'⟩ := h.seen
  rw [h.unmoved hmoves, hcheck] at hcheck'
  rw [hseen] at htaken
  rw [Option.some.inj htaken, Option.some.inj hcheck']

/-! ### What one turn can do -/

/-- What a turn leaves behind. -/
inductive Effect (b : Backend σ ε D Tok) (sys : System σ D Tok) (turn : Turn ε) :
    System σ D Tok → Prop where
  | moved (event : ε) (store : σ) (hturn : turn = .store event)
      (hmove : b.move sys.store event = some store) :
      Effect b sys turn { sys with store, moves := sys.moves + 1 }
  | primed (tag : Tok) (hanswers : turn.Answers) (hseen : sys.seen = none)
      (hpoint : sys.point = .check)
      (hcheck : b.check sys.store = some tag) : Effect b sys turn (sys.prime tag)
  | unchanged (tag : Tok) (hanswers : turn.Answers) (hpoint : sys.point = .check)
      (hseen : sys.seen = some tag) (hcheck : b.check sys.store = some tag) :
      Effect b sys turn { sys with settled := some sys.moves }
  | changed (tag seen : Tok) (hseen : sys.seen = some seen) (hcheck : b.check sys.store = some tag)
      (hne : seen ≠ tag) : Effect b sys turn { sys with point := .read tag }
  | delivered (document : D) (tag : Tok) (current : Option Tok) (accepted : Bool)
      (hread : b.read sys.store = some (document, current))
      (hcheck : b.check sys.store = some tag)
      (hwhy : (∃ checked, sys.point = .read checked) ∨ ∃ seen, sys.seen = some seen ∧ seen ≠ tag) :
      Effect b sys turn (sys.deliver document tag accepted)
  | rested (point : Point Tok) (hpoint : ∀ tag, point ≠ .read tag) :
      Effect b sys turn { sys with point }

variable [DecidableEq Tok]

/-- **Every turn does one of these.** -/
theorem effect_of_step (hagrees : b.Agrees) {turn : Turn ε}
    (hstep : sys.step b turn = some sys') : Effect b sys turn sys' := by
  have hstay : sys.point = .check → Effect b sys turn sys := fun hpoint ↦
    Effect.rested sys.point fun tag htag ↦ by rw [hpoint] at htag; cases htag
  rcases turn with event | answers | ⟨answers, accepted⟩ | ⟨answers, accepted⟩ | -
  case store =>
    obtain ⟨store, hmove, rfl⟩ := Option.map_eq_some_iff.1 hstep
    exact Effect.moved event store rfl hmove
  case check =>
    rw [System.step] at hstep
    split at hstep
    · cases hstep
    · next hready =>
      have hpoint : sys.point = .check := not_ne_iff.1 fun hne ↦ hready (Or.inr hne)
      split at hstep
      · obtain rfl := Option.some.inj hstep
        exact hstay hpoint
      · next tag hanswer hseen =>
        obtain rfl := Option.some.inj hstep
        exact Effect.primed tag (answered hanswer).1 hseen hpoint (answered hanswer).2
      · next tag seen hanswer hseen =>
        split at hstep
        · next hsame =>
          obtain rfl := Option.some.inj hstep
          exact Effect.unchanged tag (answered hanswer).1 hpoint (hsame ▸ hseen) (answered hanswer).2
        · next hne =>
          obtain rfl := Option.some.inj hstep
          exact Effect.changed tag seen hseen (answered hanswer).2 hne
  case read =>
    rw [System.step] at hstep
    split at hstep
    · next tag hpoint =>
      split at hstep
      · obtain rfl := Option.some.inj hstep
        exact Effect.rested .check fun tag htag ↦ by cases htag
      · next document current hanswer =>
        obtain rfl := Option.some.inj hstep
        obtain ⟨t, rfl, hcheck⟩ := hagrees _ _ _ (answered hanswer).2
        exact Effect.delivered document t _ accepted (answered hanswer).2 hcheck
          (Or.inl ⟨tag, hpoint⟩)
    · cases hstep
  case tick =>
    rw [System.step] at hstep
    split at hstep
    · cases hstep
    · next hready =>
      have hpoint : sys.point = .check := not_ne_iff.1 fun hne ↦ hready (Or.inr hne)
      split at hstep
      · obtain rfl := Option.some.inj hstep
        exact hstay hpoint
      · obtain rfl := Option.some.inj hstep
        exact Effect.rested .ended fun tag htag ↦ by cases htag
      · next document tag hanswer hseen =>
        obtain rfl := Option.some.inj hstep
        obtain ⟨t, htag, hcheck⟩ := hagrees _ _ _ (answered hanswer).2
        obtain rfl := Option.some.inj htag
        exact Effect.primed tag (answered hanswer).1 hseen hpoint hcheck
      · next document tag seen hanswer hseen =>
        obtain ⟨t, htag, hcheck⟩ := hagrees _ _ _ (answered hanswer).2
        obtain rfl := Option.some.inj htag
        split at hstep
        · next hsame =>
          obtain rfl := Option.some.inj hstep
          exact Effect.unchanged tag (answered hanswer).1 hpoint (hsame ▸ hseen) hcheck
        · next hne =>
          obtain rfl := Option.some.inj hstep
          exact Effect.delivered document tag _ accepted (answered hanswer).2 hcheck
            (Or.inr ⟨seen, hseen, hne⟩)
  case stop =>
    obtain rfl := Option.some.inj hstep
    exact Effect.rested .ended fun tag htag ↦ by cases htag

/-- **One turn keeps it.** -/
theorem Kept.step (hagrees : b.Agrees) (h : Kept b sys) {turn : Turn ε}
    (hstep : sys.step b turn = some sys') : Kept b sys' := by
  rcases effect_of_step hagrees hstep with ⟨event, store, -, hmove⟩ | ⟨tag, -, hseen, hpoint, hcheck⟩ |
    ⟨tag, -, hpoint, hseen, hcheck⟩ | ⟨tag, seen, hseen, hcheck, hne⟩ |
    ⟨document, tag, current, accepted, hread, hcheck, hwhy⟩ | ⟨point, hpoint⟩
  · exact h.store store
  · exact h.prime hseen hpoint hcheck
  · exact h.rest (fun t ht ↦ by rw [hpoint] at ht; cases ht) _
  · obtain ⟨e, he, htook⟩ := h.taken (Option.isSome_iff_exists.2 ⟨seen, hseen⟩)
    have hmoved := htook.moved hseen hcheck hne
    refine ⟨h.unseen, fun _ ↦ ⟨e, he, ?_⟩, fun t _ ↦ ⟨e, he, ?_, hmoved⟩, h.once⟩
    · exact ⟨htook.seen, htook.latest, htook.last, htook.le, htook.unmoved⟩
    · exact ⟨htook.seen, htook.latest, htook.last, htook.le, htook.unmoved⟩
  · obtain ⟨e, htook, hlt⟩ : ∃ e, Took b sys e ∧ e.2 < sys.moves := by
      rcases hwhy with ⟨checked, hpoint⟩ | ⟨seen, hseen, hne⟩
      · obtain ⟨e, -, htook, hlt⟩ := h.reading checked hpoint
        exact ⟨e, htook, hlt⟩
      · obtain ⟨e, -, htook⟩ := h.taken (Option.isSome_iff_exists.2 ⟨seen, hseen⟩)
        exact ⟨e, htook, htook.moved hseen hcheck hne⟩
    exact h.deliver htook hlt hread hcheck accepted
  · exact h.rest hpoint sys.settled

theorem kept_of_run (hagrees : b.Agrees) {store : σ} {turns : List (Turn ε)}
    (h : run (System.step b) (System.start store) turns = some sys) : Kept b sys :=
  Transition.run_invariant (fun _ _ _ hstep hkept ↦ hkept.step hagrees hstep) h (kept_start store)

/-- **No version is delivered twice** without the store having moved in between. -/
theorem once_of_run (hagrees : b.Agrees) {store : σ} {turns : List (Turn ε)}
    (h : run (System.step b) (System.start store) turns = some sys) : Once sys :=
  (kept_of_run hagrees h).once

/-- Where the loop has nothing left to do, it has given what is stored. -/
structure Fresh (b : Backend σ ε D Tok) (sys : System σ D Tok) : Prop where
  kept : Kept b sys
  le : ∀ m, sys.settled = some m → m ≤ sys.moves
  neverStale : NeverStale b sys

/-- **One turn that recognises what is stored keeps the loop from settling on anything else.** -/
theorem Fresh.step (hagrees : b.Agrees) (h : Fresh b sys) {turn : Turn ε}
    (hrecognises : Recognises b sys turn) (hstep : sys.step b turn = some sys') : Fresh b sys' := by
  have hkept := h.kept.step hagrees hstep
  -- What has just been taken is what is stored.
  have htaken : ∀ {u : System σ D Tok}, Kept b u → u.seen.isSome →
      u.taken = some (u.store, u.moves) → NeverStale b u := by
    intro u hu hseen hnow _ d hd
    obtain ⟨e, he, htook⟩ := hu.taken hseen
    obtain rfl := Option.some.inj (hnow.symm.trans he)
    exact htook.latest.trans hd
  rcases effect_of_step hagrees hstep with ⟨event, store, -, hmove⟩ | ⟨tag, -, hseen, hpoint, hcheck⟩ |
    ⟨tag, hanswers, hpoint, hseen, hcheck⟩ | ⟨tag, seen, hseen, hcheck, hne⟩ |
    ⟨document, tag, current, accepted, hread, hcheck, hwhy⟩ | ⟨point, hpoint⟩
  · refine ⟨hkept, fun m hm ↦ Nat.le_succ_of_le (h.le m hm), fun hsettled ↦ ?_⟩
    have hle := h.le _ hsettled
    exact absurd hle (Nat.not_succ_le_self _)
  · exact ⟨hkept, fun m hm ↦ Nat.le_of_eq (Option.some.inj hm).symm, htaken hkept rfl rfl⟩
  · refine ⟨hkept, fun m hm ↦ ?_, fun _ d hd ↦ ?_⟩
    · exact Nat.le_of_eq (Option.some.inj hm).symm
    · obtain ⟨e, he, htook⟩ := h.kept.taken (Option.isSome_iff_exists.2 ⟨tag, hseen⟩)
      obtain ⟨seen, hseen', htag⟩ := htook.seen
      have hsame : b.check e.1 = b.check sys.store := by
        rw [htag, hcheck, ← hseen, hseen']
      exact htook.latest.trans (hrecognises hanswers e he hsame d hd)
  · exact ⟨hkept, h.le, h.neverStale⟩
  · exact ⟨hkept, fun m hm ↦ Nat.le_of_eq (Option.some.inj hm).symm, htaken hkept rfl rfl⟩
  · exact ⟨hkept, h.le, h.neverStale⟩

/-- **The loop does not settle on a document that is not the stored one**, where no check mistakes what
is stored for what was taken. -/
theorem neverStale_of_run (hagrees : b.Agrees) {store : σ} {turns : List (Turn ε)}
    (hrecognises : Along (System.step b) (Recognises b) (System.start store) turns)
    (h : run (System.step b) (System.start store) turns = some sys) : NeverStale b sys := by
  have hstart : Fresh b (System.start store : System σ D Tok) :=
    ⟨kept_start store, fun m hm ↦ absurd hm (Option.some_ne_none m).symm,
      fun hsettled ↦ absurd hsettled (Option.some_ne_none _).symm⟩
  exact (Transition.run_invariant_along
    (fun _ _ _ hturn hstep hfresh ↦ hfresh.step hagrees hturn hstep) hrecognises h hstart).neverStale

end Runs

/-! ### Stores with a lineage -/

section Lineage

variable {σ ε D Tok : Type} {b : Backend σ ε D Tok} {R : σ → σ → Prop}
  {sys sys' : System σ D Tok}

/-- The store has come from the version that was taken. -/
def System.Follows (R : σ → σ → Prop) (sys : System σ D Tok) : Prop :=
  ∀ e, sys.taken = some e → R e.1 sys.store

theorem follows_start (store : σ) : (System.start store : System σ D Tok).Follows R :=
  fun e he ↦ absurd he (Option.some_ne_none e).symm

variable [DecidableEq Tok]

/-- What a store can come to by its own moves, and by no move at all, it has come to. -/
theorem System.Follows.step (hagrees : b.Agrees) (hrefl : ∀ s, R s s)
    (hmove : ∀ s t event u, R s t → b.move t event = some u → R s u) (h : sys.Follows R)
    {turn : Turn ε} (hstep : sys.step b turn = some sys') : sys'.Follows R := by
  rcases effect_of_step hagrees hstep with ⟨event, store, -, hmoved⟩ | ⟨tag, -, hseen, hpoint, hcheck⟩ |
    ⟨tag, hanswers, hpoint, hseen, hcheck⟩ | ⟨tag, seen, hseen, hcheck, hne⟩ |
    ⟨document, tag, current, accepted, hread, hcheck, hwhy⟩ | ⟨point, hpoint⟩
  · exact fun e he ↦ hmove _ _ _ _ (h e he) hmoved
  · intro e he
    rw [← Option.some.inj he]
    exact hrefl sys.store
  · exact h
  · exact h
  · intro e he
    rw [← Option.some.inj he]
    exact hrefl sys.store
  · exact h

/-- **A store whose tokens cannot be mistaken along its own history is recognised** at every check. -/
theorem recognises_of_lineage (hagrees : b.Agrees) (hrefl : ∀ s, R s s)
    (hmove : ∀ s t event u, R s t → b.move t event = some u → R s u)
    (hsame : ∀ s t, R s t → b.check s = b.check t → ∀ d, b.present t = some d → b.present s = some d)
    (store : σ) (turns : List (Turn ε)) :
    Along (System.step b) (Recognises b) (System.start store) turns := by
  refine Transition.along_of_invariant (I := System.Follows R) (Q := fun _ ↦ True)
    (fun _ _ _ _ hstep hfollows ↦ hfollows.step hagrees hrefl hmove hstep)
    (fun s turn _ hfollows _ e he hcheck d hd ↦ ?_) (fun _ _ ↦ trivial) (follows_start store)
  exact hsame e.1 s.store (hfollows e he) hcheck d hd

end Lineage

end Polling
