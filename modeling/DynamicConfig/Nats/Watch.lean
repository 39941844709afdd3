import DynamicConfig.Nats.Program
import DynamicConfig.Telemetry.Exposition
import DynamicConfig.Transition.Run

/-!
# Watching NATS

What a run of a program that serves a NATS bucket comes to, whatever is written meanwhile and whenever
the source is replaced.

What it knows of the bucket (`Known`) is where each key was read and what the stream has handed over
since; what the slot says (`Current`) is the document applied last, and whether the store has answered.
Together they say what `on_change` is given (`followed_of_run`), when the slot holds the newest entry
(`served_iff_of_run`) and when the store reads as down (`reachable_of_run`).
-/

namespace DynamicConfig.Nats

open Compacted Documents
open Etcd (from_utf8)
open Remote (FailureStatus RemoteStatus word wrappingSucc saturatingSucc)
open Telemetry (reachable)
open Transition (run)

/-! ### What the program knows of the bucket -/

/-- A key held what was read of it, when it was read. -/
structure Reading.Was (bucket : List Entry) (r : Reading) : Prop where
  le : r.seen ≤ bucket.length
  newest : Newest (Entry.isOf r.key) (bucket.take r.seen) r.place
  text : textAt bucket r.place = some r.text

theorem Reading.Was.lt {bucket : List Entry} {r : Reading} (h : r.Was bucket) : r.place < r.seen :=
  (holds_take.1 h.newest.holds).1

theorem textAt_append {bucket : List Entry} {i : ℕ} (hlt : i < bucket.length) (more : List Entry) :
    textAt (bucket ++ more) i = textAt bucket i := by
  rw [textAt, List.getElem?_append_left hlt, textAt]

/-- What was read stays read. -/
theorem Reading.Was.append {bucket : List Entry} {r : Reading} (h : r.Was bucket) (more : List Entry) :
    r.Was (bucket ++ more) where
  le := by
    rw [List.length_append]
    exact Nat.le_add_right_of_le h.le
  newest := by
    rw [List.take_append_of_le_length h.le]
    exact h.newest
  text := by
    rw [textAt_append (Nat.lt_of_lt_of_le h.lt h.le)]
    exact h.text

namespace Program

variable {S : Type} {formats : Formats} {invalid : List UInt8 → String} {nats : Source}
  {s t : Program S}

/-- What the stream has handed over, as documents. -/
def heard (s : Program S) : List Brought :=
  (s.reader.map fun reader ↦ reader.handed.filterMap s.broughtAt).getD []

/-- Where the keys were read, what came of them, and where the stream has come to. -/
structure Known (formats : Formats) (nats : Source) (s : Program S) : Prop where
  keys : s.documents.map Reading.key = nats.keys.named.take s.documents.length
  was : ∀ r ∈ s.documents, r.Was s.bucket
  ordered : s.documents.Pairwise fun a b ↦ a.seen ≤ b.seen
  unread : s.point = .reading → s.brought = none
  brought : ∀ b, s.brought = some b → s.documents.length = nats.keys.named.length ∧
    b.places = s.documents.map Reading.place ∧
      InOrderMerge formats s.format (s.documents.map Reading.text) b.document
  unopened : s.point.isBefore = true → s.reader = none
  opened : ∀ reader, s.reader = some reader → ∀ r ∈ s.documents, r.seen ≤ reader.opened
  handed : ∀ reader, s.reader = some reader → ∀ i ∈ reader.handed, i < s.bucket.length
  keeps : ∀ reader key, s.reader = some reader → nats.keys = .one key →
    Keeps (Entry.isOf key) s.bucket reader
  given : s.given = s.heard

theorem known_start {kind : Remote.Kind S} {bucket : List Entry} (h : start nats kind bucket = .ok s) :
    Known formats nats s := by
  obtain ⟨format, -, hs⟩ := exists_of_bind_eq_ok h
  obtain rfl := Except.ok.inj hs
  exact ⟨by simp, by simp, .nil, fun _ ↦ rfl, by simp, fun _ ↦ rfl, by simp, by simp, by simp, rfl⟩

/-- A turn of the program that reads nothing and hears nothing knows what it knew. -/
theorem Known.moved (h : Known formats nats s) (slot : Remote.State S Brought) (replaced : ℕ)
    {point : Point} (hreading : point ≠ .reading) (hbefore : point.isBefore = true → s.reader = none) :
    Known formats nats { s with slot, replaced, point } :=
  ⟨h.keys, h.was, h.ordered, fun hpoint ↦ absurd hpoint hreading, h.brought, hbefore, h.opened,
    h.handed, h.keeps, h.given⟩

theorem Known.wrote (h : Known formats nats s) (entry : Entry) :
    Known formats nats { s with bucket := s.bucket ++ [entry] } where
  keys := h.keys
  was r hr := (h.was r hr).append _
  ordered := h.ordered
  unread := h.unread
  brought := h.brought
  unopened := h.unopened
  opened := h.opened
  handed reader hreader i hi := by
    rw [List.length_append]
    exact Nat.lt_add_right _ (h.handed reader hreader i hi)
  keeps reader key hreader hkeys := (h.keeps reader key hreader hkeys).append _
  given := by
    rw [h.given, heard, heard]
    cases hreader : s.reader with
    | none => rfl
    | some reader =>
      refine List.filterMap_congr fun i hi ↦ ?_
      rw [broughtAt, broughtAt, textAt_append (h.handed reader hreader i hi)]

theorem Known.read (h : Known formats nats s) {key text : String} {i : ℕ} (hpoint : s.point = .reading)
    (hkey : nats.keys.named[s.documents.length]? = some key)
    (hnewest : Newest (Entry.isOf key) s.bucket i) (htext : textAt s.bucket i = some text) :
    Known formats nats
      { s with documents := s.documents ++ [⟨s.bucket.length, i, key, text⟩] } where
  keys := by
    rw [List.map_append, h.keys, List.length_append, List.length_singleton, List.take_add_one, hkey]
    rfl
  was r hr := by
    rcases List.mem_append.1 hr with hr | hr
    · exact h.was r hr
    · obtain rfl := List.mem_singleton.1 hr
      refine ⟨Nat.le_refl _, ?_, htext⟩
      rw [List.take_length]
      exact hnewest
  ordered := by
    refine List.pairwise_append.2 ⟨h.ordered, List.pairwise_singleton _ _, fun r hr q hq ↦ ?_⟩
    rw [List.mem_singleton.1 hq]
    exact (h.was r hr).le
  unread := h.unread
  brought b hb := by
    have hnone : s.brought = some b := hb
    rw [h.unread hpoint] at hnone
    cases hnone
  unopened := h.unopened
  opened reader hreader := by
    have hnone : s.reader = some reader := hreader
    rw [h.unopened (by rw [hpoint]; rfl)] at hnone
    cases hnone
  handed := h.handed
  keeps := h.keeps
  given := h.given

/-- The stream hands over an entry. -/
theorem Known.hand (h : Known formats nats s) {key : String} {reader : Reader} {i : ℕ}
    (hreader : s.reader = some reader) (hkeys : nats.keys = .one key)
    (hoffers : Offers (Entry.isOf key) s.bucket reader i) {point : Point} {given : List Brought}
    (slot : Remote.State S Brought) (hreading : point ≠ .reading) (hbefore : point.isBefore = false)
    (hgiven : given = s.given ++ (s.broughtAt i).toList) :
    Known formats nats { s with reader := some (reader.hand i), given, slot, point } where
  keys := h.keys
  was := h.was
  ordered := h.ordered
  unread hpoint := absurd hpoint hreading
  brought := h.brought
  unopened hpoint := by rw [hbefore] at hpoint; cases hpoint
  opened later hlater := by
    obtain rfl := Option.some.inj hlater
    exact h.opened reader hreader
  handed later hlater j hj := by
    obtain rfl := Option.some.inj hlater
    rcases List.mem_append.1 hj with hj | hj
    · exact h.handed reader hreader j hj
    · rw [List.mem_singleton.1 hj]
      exact hoffers.2.lt
  keeps later key' hlater hkeys' := by
    obtain rfl := Option.some.inj hlater
    obtain rfl := Keys.one.inj (hkeys.symm.trans hkeys')
    exact (h.keeps reader key hreader hkeys).hand hoffers
  given := by
    rw [hgiven, h.given, heard, hreader]
    show _ = (reader.hand i).handed.filterMap s.broughtAt
    rw [Reader.handed_hand, List.filterMap_append]
    cases hb : s.broughtAt i with
    | none => simp [hb]
    | some b => simp [hb]

/-- **A turn keeps what is known.** -/
theorem Known.step (h : Known formats nats s) {turn : Turn S}
    (hstep : s.step formats invalid nats turn = some t) : Known formats nats t := by
  cases effect_of_step hstep with
  | wrote entry => exact h.wrote entry
  | replaced kind =>
    exact ⟨h.keys, h.was, h.ordered, h.unread, h.brought, h.unopened, h.opened, h.handed, h.keeps,
      h.given⟩
  | read hpoint hkey hnewest htext => exact h.read hpoint hkey hnewest htext
  | gathered hpoint hlength hmerged =>
    have hreader : s.reader = none := h.unopened (by rw [hpoint]; rfl)
    refine ⟨h.keys, h.was, h.ordered, fun hreading ↦ (by cases hreading), fun b hb ↦ ?_,
      fun _ ↦ hreader, h.opened, h.handed, h.keeps, h.given⟩
    obtain rfl := Option.some.inj hb
    exact ⟨hlength, rfl, hmerged⟩
  | stopped => exact h.moved s.slot s.replaced (by simp) fun hbefore ↦ by cases hbefore
  | @installed _ next _ hpoint =>
    refine h.moved _ s.replaced (by simp) fun hbefore ↦ h.unopened ?_
    rw [hpoint]
    cases next with
    | watch => rfl
    | message => cases hbefore
  | went => exact h.moved s.slot s.replaced (by simp) fun hbefore ↦ by cases hbefore
  | asked hpoint =>
    exact h.moved s.slot s.replaced (by simp) fun _ ↦ h.unopened (by rw [hpoint]; rfl)
  | established hpoint =>
    have hnone : s.reader = none := h.unopened (by rw [hpoint]; rfl)
    refine ⟨h.keys, h.was, h.ordered, fun hreading ↦ (by cases hreading), h.brought,
      fun hbefore ↦ (by cases hbefore), fun reader hreader r hr ↦ ?_, fun reader hreader i hi ↦ ?_,
      fun reader key hreader _ ↦ ?_, ?_⟩
    · obtain rfl := Option.some.inj hreader
      exact (h.was r hr).le
    · obtain rfl := Option.some.inj hreader
      cases hi
    · obtain rfl := Option.some.inj hreader
      exact keeps_opened _ _ _
    · show s.given = []
      rw [h.given, heard, hnone]
      rfl
  | lost => exact h.moved _ s.replaced (by simp) fun hbefore ↦ by cases hbefore
  | garbled hpoint hreader hkeys hoffers htext =>
    refine h.hand hreader hkeys hoffers _ (by simp) rfl ?_
    rw [broughtAt, htext, Option.map_none, Option.toList_none, List.append_nil]
  | skipped hpoint hreader hkeys hoffers htext =>
    refine h.hand hreader hkeys hoffers s.slot (by rw [hpoint]; simp) (by rw [hpoint]; rfl) ?_
    rw [broughtAt, htext, Option.map_none, Option.toList_none, List.append_nil]
  | handed hpoint hreader hkeys hoffers htext =>
    refine h.hand hreader hkeys hoffers s.slot (by simp) rfl ?_
    rw [broughtAt, htext, Option.map_some, Option.toList_some]

theorem known_of_run {kind : Remote.Kind S} {bucket : List Entry} {s₀ : Program S} {turns : List (Turn S)}
    (hstart : start nats kind bucket = .ok s₀)
    (hrun : run (step formats invalid nats) s₀ turns = some s) : Known formats nats s :=
  Transition.run_invariant (fun _ _ _ hstep h ↦ h.step hstep) hrun (known_start hstart)

end Program

/-! ### What is in the slot -/

namespace Program

variable {S : Type} {formats : Formats} {invalid : List UInt8 → String} {nats : Source}
  {s t : Program S}

/-- What has been applied last, as long as the program goes on. -/
def applied (s : Program S) : Option Brought :=
  match s.point with
  | .reading | .applying _ .watch => none
  | .applying _ .message => s.given.dropLast.getLast?.or s.brought
  | _ => s.given.getLast?.or s.brought

/-- What the status says of a store that has answered. -/
structure Told (s : Program S) : Prop where
  fetches : s.slot.status.fetches ≠ 0
  streak : s.slot.status.consecutiveFailures = if s.point.isLost then 1 else 0
  failure : ∀ error, s.point = .ended .lost error →
    ∃ now, s.slot.status.lastFailure = some (FailureStatus.of now error)

/-- What the slot holds, and what its status says. -/
structure Current (s : Program S) : Prop where
  sink : s.sink = 1
  generation : s.slot.generation = (s.sink + s.replaced) % word
  applying : ∀ b, s.point = .applying b .watch → s.brought = some b ∧ s.given = []
  hearing : ∀ b, s.point = .applying b .message → s.given.getLast? = some b
  fetched : s.brought = none → s.point = .reading ∨ s.point.isEnded = true
  served : s.replaced = 0 → s.point.isEnded = false → s.slot.fetched = s.applied
  told : s.replaced = 0 → s.slot.fetched ≠ none → s.Told
  unasked : s.slot.fetched = none → s.slot.status = RemoteStatus.empty
  lost : s.replaced = 0 → s.point.isLost = true → s.slot.fetched ≠ none
  gone : s.replaced ≠ 0 → s.slot.fetched = none

theorem current_start {kind : Remote.Kind S} {bucket : List Entry}
    (h : start nats kind bucket = .ok s) : Current s := by
  obtain ⟨format, -, hs⟩ := exists_of_bind_eq_ok h
  obtain rfl := Except.ok.inj hs
  exact ⟨rfl, rfl, by simp, by simp, fun _ ↦ .inl rfl, fun _ _ ↦ rfl, fun _ hne ↦ absurd rfl hne,
    fun _ ↦ rfl, fun _ hlost ↦ (by cases hlost), fun _ ↦ rfl⟩

/-- **The generation tells whether the source is the program's**, below the bound. -/
theorem Current.generation_eq_iff (h : Current s) (hbelow : s.replaced < word) :
    s.slot.generation = s.sink ↔ s.replaced = 0 := by
  have hword : word = 2 ^ 64 := rfl
  rw [h.generation, h.sink]
  constructor
  · intro heq
    rcases Nat.lt_or_ge (1 + s.replaced) word with hlt | hge
    · rw [Nat.mod_eq_of_lt hlt] at heq
      omega
    · have hfull : 1 + s.replaced = word := by omega
      rw [hfull, Nat.mod_self] at heq
      omega
  · intro hzero
    rw [hzero, Nat.add_zero]
    exact Nat.mod_eq_of_lt (by omega)

/-- A turn that changes neither the slot nor what was given, and lets the program go on. -/
theorem Current.moved (h : Current s) {point : Point} {reader : Option Reader}
    (hpoint : s.point = .reloading .message ∧ point = .message ∨
      s.point = .reloading .watch ∧ point = .establishing ∨
        s.point = .establishing ∧ point = .message ∨ s.point = .message ∧ point = .message) :
    Current { s with point, reader } where
  sink := h.sink
  generation := h.generation
  applying b hb := by
    rcases hpoint with ⟨-, rfl⟩ | ⟨-, rfl⟩ | ⟨-, rfl⟩ | ⟨-, rfl⟩ <;> cases hb
  hearing b hb := by
    rcases hpoint with ⟨-, rfl⟩ | ⟨-, rfl⟩ | ⟨-, rfl⟩ | ⟨-, rfl⟩ <;> cases hb
  fetched hnone := by
    have hbefore := h.fetched hnone
    rcases hpoint with ⟨heq, -⟩ | ⟨heq, -⟩ | ⟨heq, -⟩ | ⟨heq, -⟩ <;> simp [heq, Point.isEnded] at hbefore
  served hzero _ := by
    have hserved := h.served hzero
    rw [applied] at hserved ⊢
    rcases hpoint with ⟨heq, rfl⟩ | ⟨heq, rfl⟩ | ⟨heq, rfl⟩ | ⟨heq, rfl⟩ <;>
      · rw [heq] at hserved
        exact hserved rfl
  told hzero hne := by
    obtain ⟨hfetches, hstreak, -⟩ := h.told hzero hne
    rcases hpoint with ⟨heq, rfl⟩ | ⟨heq, rfl⟩ | ⟨heq, rfl⟩ | ⟨heq, rfl⟩ <;>
      · rw [heq] at hstreak
        exact ⟨hfetches, hstreak, fun error herror ↦ by cases herror⟩
  unasked := h.unasked
  lost _ hlost := by
    rcases hpoint with ⟨-, rfl⟩ | ⟨-, rfl⟩ | ⟨-, rfl⟩ | ⟨-, rfl⟩ <;> cases hlost
  gone := h.gone

theorem Current.stopped (h : Current s) {cause : Cause} {error : Error}
    (hlive : s.point.isLost = false) (hcause : cause ≠ .lost) :
    Current { s with point := .ended cause error } where
  sink := h.sink
  generation := h.generation
  applying b hb := by cases hb
  hearing b hb := by cases hb
  fetched _ := .inr rfl
  served _ hend := by cases hend
  told hzero hne := by
    obtain ⟨hfetches, hstreak, -⟩ := h.told hzero hne
    rw [hlive] at hstreak
    refine ⟨hfetches, ?_, fun found hfound ↦ absurd (Point.ended.inj hfound).1 hcause⟩
    cases cause with
    | lost => exact absurd rfl hcause
    | refused | unread | declined => exact hstreak
  unasked := h.unasked
  lost _ hlost := by
    cases cause with
    | lost => exact absurd rfl hcause
    | refused | unread | declined => cases hlost
  gone := h.gone

theorem Current.installed (h : Current s) (hbelow : s.replaced < word) {brought : Brought}
    {next : Next} {now : ℕ} (hpoint : s.point = .applying brought next)
    (hgeneration : s.slot.generation = s.sink) :
    Current { s with
      slot := { s.slot with fetched := some brought, status := s.slot.status.arrived none now }
      point := .reloading next } where
  sink := h.sink
  generation := h.generation
  applying b hb := by cases hb
  hearing b hb := by cases hb
  fetched hnone := by
    have hbefore := h.fetched hnone
    simp [hpoint, Point.isEnded] at hbefore
  served _ _ := by
    show some brought = s.given.getLast?.or s.brought
    cases next with
    | watch =>
      obtain ⟨hbrought, hgiven⟩ := h.applying brought hpoint
      rw [hbrought, hgiven]
      rfl
    | message =>
      rw [h.hearing brought hpoint]
      rfl
  told _ _ := by
    refine ⟨?_, rfl, fun error herror ↦ by cases herror⟩
    show saturatingSucc (word - 1) s.slot.status.fetches ≠ 0
    have hword : word = 2 ^ 64 := rfl
    rw [saturatingSucc]
    omega
  unasked hnone := by cases hnone
  lost _ hlost := by cases hlost
  gone hne := absurd ((h.generation_eq_iff hbelow).1 hgeneration) hne

/-- The watch fails, after a document was applied. -/
theorem Current.failing (h : Current s) (hbelow : s.replaced < word) {error : Error} {now : ℕ}
    (hpoint : s.point = .establishing ∨ s.point = .message) : Current (s.failing error now) := by
  have hended : s.point.isEnded = false := by rcases hpoint with heq | heq <;> rw [heq] <;> rfl
  have hlive : s.point.isLost = false := by rcases hpoint with heq | heq <;> rw [heq] <;> rfl
  have hheld : s.replaced = 0 → s.slot.fetched ≠ none := by
    intro hzero hnone
    have hserved : s.slot.fetched = s.given.getLast?.or s.brought := by
      have happlied := h.served hzero hended
      rcases hpoint with heq | heq <;>
        · rw [applied, heq] at happlied
          exact happlied
    rw [hnone] at hserved
    have hbrought := h.fetched (Option.or_eq_none_iff.1 hserved.symm).2
    rcases hpoint with heq | heq <;> simp [heq, Point.isEnded] at hbrought
  have hiff := h.generation_eq_iff hbelow
  rw [Program.failing, Remote.State.recordFetchFailure]
  split
  · next hne =>
    have hgone : s.replaced ≠ 0 := fun hzero ↦ hne (hiff.2 hzero)
    exact ⟨h.sink, h.generation, by simp, by simp, fun _ ↦ .inr rfl, fun hzero ↦ absurd hzero hgone,
      fun hzero ↦ absurd hzero hgone, h.unasked, fun hzero ↦ absurd hzero hgone, h.gone⟩
  · next heq =>
    have hzero : s.replaced = 0 := hiff.1 (not_not.1 heq)
    obtain ⟨hfetches, hstreak, -⟩ := h.told hzero (hheld hzero)
    rw [hlive] at hstreak
    refine ⟨h.sink, h.generation, by simp, by simp, fun _ ↦ .inr rfl, fun _ hend ↦ (by cases hend),
      fun _ _ ↦ ⟨hfetches, ?_, fun found hfound ↦ ⟨now, ?_⟩⟩, fun hnone ↦ absurd hnone (hheld hzero),
      fun _ _ ↦ hheld hzero, h.gone⟩
    · show saturatingSucc (2 ^ 32 - 1) s.slot.status.consecutiveFailures = 1
      rw [hstreak]
      rfl
    · rw [(Point.ended.inj hfound).2]
      rfl

/-- The source is only ever replaced. -/
theorem replaced_le {turn : Turn S} (hstep : s.step formats invalid nats turn = some t) :
    s.replaced ≤ t.replaced := by
  cases effect_of_step hstep with
  | replaced => exact Nat.le_succ _
  | _ => exact Nat.le_refl _

/-- **A turn keeps what the slot says.** -/
theorem Current.step (h : Current s) (hknown : Known formats nats s) (hbelow : s.replaced < word)
    {turn : Turn S} (hstep : s.step formats invalid nats turn = some t) : Current t := by
  cases effect_of_step hstep with
  | wrote | read =>
    exact ⟨h.sink, h.generation, h.applying, h.hearing, h.fetched, h.served,
      fun hzero hne ↦ ⟨(h.told hzero hne).1, (h.told hzero hne).2, (h.told hzero hne).3⟩, h.unasked,
      h.lost, h.gone⟩
  | replaced kind =>
    refine ⟨h.sink, ?_, h.applying, h.hearing, h.fetched, fun hzero ↦ (by cases hzero),
      fun hzero ↦ (by cases hzero), fun _ ↦ rfl, fun hzero ↦ (by cases hzero), fun _ ↦ rfl⟩
    show wrappingSucc s.slot.generation = (s.sink + (s.replaced + 1)) % word
    rw [wrappingSucc, h.generation, Nat.mod_add_mod]
    rfl
  | @gathered document hpoint =>
    have hgiven : s.given = [] := by
      rw [hknown.given, heard, hknown.unopened (by rw [hpoint]; rfl)]
      rfl
    have hserved := h.served
    rw [applied, hpoint] at hserved
    refine ⟨h.sink, h.generation, fun b hb ↦ ?_, fun b hb ↦ (by cases hb), fun hnone ↦ (by cases hnone),
      fun hzero _ ↦ hserved hzero rfl, fun hzero hne ↦ absurd (hserved hzero rfl) hne, h.unasked,
      fun _ hlost ↦ (by cases hlost), h.gone⟩
    obtain ⟨rfl, -⟩ := Point.applying.inj hb
    exact ⟨rfl, hgiven⟩
  | stopped hlive hcause => exact h.stopped hlive hcause
  | installed hpoint hgeneration => exact h.installed hbelow hpoint hgeneration
  | went hpoint => exact h.moved (.inl ⟨hpoint, rfl⟩)
  | asked hpoint => exact h.moved (.inr (.inl ⟨hpoint, rfl⟩))
  | established hpoint => exact h.moved (.inr (.inr (.inl ⟨hpoint, rfl⟩)))
  | lost hpoint => exact h.failing hbelow hpoint
  | @garbled _ reader i _ _ hpoint =>
    have hhanded : Current { s with point := .message, reader := some (reader.hand i) } :=
      h.moved (.inr (.inr (.inr ⟨hpoint, rfl⟩)))
    rw [← hpoint] at hhanded
    exact hhanded.failing hbelow (.inr hpoint)
  | @skipped _ reader i hpoint =>
    have hhanded : Current { s with point := .message, reader := some (reader.hand i) } :=
      h.moved (.inr (.inr (.inr ⟨hpoint, rfl⟩)))
    rw [← hpoint] at hhanded
    exact hhanded
  | @handed _ text _ i hpoint =>
    have hserved := h.served
    rw [applied, hpoint] at hserved
    refine ⟨h.sink, h.generation, fun b hb ↦ (by cases hb), fun b hb ↦ ?_, fun hnone ↦ ?_,
      fun hzero _ ↦ ?_, fun hzero hne ↦ ?_, h.unasked, fun _ hlost ↦ (by cases hlost), h.gone⟩
    · obtain ⟨rfl, -⟩ := Point.applying.inj hb
      exact List.getLast?_concat
    · have hbefore := h.fetched hnone
      simp [hpoint, Point.isEnded] at hbefore
    · rw [hserved hzero rfl]
      show _ = (s.given ++ [_]).dropLast.getLast?.or s.brought
      rw [List.dropLast_concat]
    · obtain ⟨hfetches, hstreak, -⟩ := h.told hzero hne
      rw [hpoint] at hstreak
      exact ⟨hfetches, hstreak, fun error herror ↦ by cases herror⟩

theorem current_of_run {kind : Remote.Kind S} {bucket : List Entry} {s₀ : Program S}
    {turns : List (Turn S)} (hstart : start nats kind bucket = .ok s₀)
    (hrun : run (step formats invalid nats) s₀ turns = some s) (hbelow : s.replaced < word) :
    Current s := by
  have hboth : Known formats nats s ∧ Current s :=
    Transition.run_invariant_below (I := fun s ↦ Known formats nats s ∧ Current s)
      (B := fun s ↦ s.replaced < word) (fun _ _ _ hstep ↦ Nat.lt_of_le_of_lt (replaced_le hstep))
      (fun _ _ _ hstep hlt h ↦ ⟨h.1.step hstep,
        h.2.step h.1 (Nat.lt_of_le_of_lt (replaced_le hstep) hlt) hstep⟩) hrun hbelow
      ⟨known_start hstart, current_start hstart⟩
  exact hboth.2

end Program

/-! ### What a run comes to -/

section Runs

open Program

variable {S : Type} {formats : Formats} {invalid : List UInt8 → String} {nats : Source}
  {kind : Remote.Kind S} {bucket : List Entry} {s₀ s : Program S} {turns : List (Turn S)}

/-- The entry a document of the stream is of. -/
theorem of_broughtAt {key : String} {i : ℕ} {b : Brought} (hholds : Holds (Entry.isOf key) s.bucket i)
    (hb : s.broughtAt i = some b) : ∃ entry text, b = ⟨⟨text, s.format⟩, [i]⟩ ∧
      s.bucket[i]? = some entry ∧ entry.key = key ∧ entry.operation = .put ∧
        from_utf8 entry.value = some text := by
  obtain ⟨text, htext, rfl⟩ := Option.map_eq_some_iff.1 hb
  obtain ⟨entry, hentry, hput⟩ := Option.bind_eq_some_iff.1 htext
  obtain ⟨found, hfound, hkey⟩ := hholds
  obtain rfl := Option.some.inj (hentry.symm.trans hfound)
  rw [Entry.text] at hput
  split at hput
  · next hoperation => exact ⟨entry, text, rfl, hentry, eq_of_beq hkey, hoperation, hput⟩
  · cases hput

/-- What `on_change` has been given of a key, since the watch was established. -/
structure Followed (key : String) (reader : Reader) (s : Program S) : Prop where
  /-- Every document is the text of an entry that was put since. -/
  put : ∀ b ∈ s.given, ∃ i entry text, b = ⟨⟨text, s.format⟩, [i]⟩ ∧ reader.opened ≤ i ∧
    s.bucket[i]? = some entry ∧ entry.key = key ∧ entry.operation = .put ∧
      from_utf8 entry.value = some text
  /-- They come as they were put, and none twice. -/
  ordered : s.given.Pairwise fun b c ↦ ∀ i ∈ b.places, ∀ j ∈ c.places, i < j
  /-- What was put and not given is superseded, or still to come. -/
  complete : ∀ i text, reader.opened ≤ i → Holds (Entry.isOf key) s.bucket i →
    textAt s.bucket i = some text → ⟨⟨text, s.format⟩, [i]⟩ ∈ s.given ∨
      (∃ j ∈ reader.handed, i < j) ∨ reader.next ≤ i

/-- **The watch hands on what was put since it was established**, in order, each once, and nothing
else: no deletion, no other key, and nothing the fetch may have seen. -/
theorem followed_of_run (hstart : start nats kind bucket = .ok s₀)
    (hrun : run (step formats invalid nats) s₀ turns = some s) {key : String}
    (hkeys : nats.keys = .one key) {reader : Reader} (hreader : s.reader = some reader) :
    Followed key reader s := by
  have hknown : Known formats nats s := known_of_run hstart hrun
  have hkeeps := hknown.keeps reader key hreader hkeys
  have hgiven : s.given = reader.handed.filterMap s.broughtAt := by
    rw [hknown.given, heard, hreader]
    rfl
  constructor
  · intro b hb
    rw [hgiven] at hb
    obtain ⟨i, hi, hbrought⟩ := List.mem_filterMap.1 hb
    obtain ⟨hopened, hholds⟩ := hkeeps.handed i hi
    obtain ⟨entry, text, hentry⟩ := of_broughtAt hholds hbrought
    exact ⟨i, entry, text, hentry.1, hopened, hentry.2⟩
  · rw [hgiven, List.pairwise_filterMap]
    refine hkeeps.ordered.imp fun {i j} hlt b hb c hc k hk l hl ↦ ?_
    obtain ⟨text, -, rfl⟩ := Option.map_eq_some_iff.1 hb
    obtain ⟨text', -, rfl⟩ := Option.map_eq_some_iff.1 hc
    rw [List.mem_singleton.1 hk, List.mem_singleton.1 hl]
    exact hlt
  · intro i text hopened hholds htext
    by_cases hhanded : i ∈ reader.handed
    · refine .inl ?_
      rw [hgiven]
      refine List.mem_filterMap.2 ⟨i, hhanded, ?_⟩
      rw [broughtAt, htext]
      rfl
    · exact .inr (Reader.superseded hopened hhanded)

/-- A bucket of JSON documents. -/
def databases (keys : Keys) : Source := ⟨"localhost", "databases", keys, some .json, none, "10s"⟩

/-- A text is put. -/
def putting (key text : String) : Entry := ⟨key, .put, Etcd.as_bytes text⟩

/-- What the parser and the writer of JSON make of an empty object. -/
def emptyObject : Formats where
  parse text _ := if text = "{}" then .ok (.table []) else .error "expected value"
  render _ _ := .ok "{}\n"

/-- The key is written once more before the watch is established, and three times after. -/
def writtenBetween : List (Turn String) :=
  [.get .answered, .merge, .apply 1, .reloaded (.returned (.ok ())), .write (putting "db.json" "[1]"),
    .watch none 2, .write (putting "other.json" "[]"), .write (putting "db.json" "[2]"),
    .write (putting "db.json" "[3]"), .entry 4 3, .apply 4, .reloaded (.returned (.ok ()))]

theorem exists_run_writtenBetween :
    ∃ s₀ s, start (databases (.one "db.json")) (.asynchronous "nats") [putting "db.json" "[0]"] =
        .ok s₀ ∧
      run (step emptyObject (fun _ ↦ "") (databases (.one "db.json"))) s₀ writtenBetween = some s ∧
        s.point = .message ∧ s.reader = some ⟨2, [4]⟩ ∧ s.replaced = 0 ∧
          s.given = [⟨⟨"[3]", .json⟩, [4]⟩] ∧ s.slot.fetched = some ⟨⟨"[3]", .json⟩, [4]⟩ ∧
            s.bucket = [putting "db.json" "[0]", putting "db.json" "[1]", putting "other.json" "[]",
              putting "db.json" "[2]", putting "db.json" "[3]"] := by
  have hcomes : ((run (step emptyObject (fun _ ↦ "") (databases (.one "db.json")))
      ⟨[putting "db.json" "[0]"], Remote.State.new.set (.asynchronous "nats"), 1, 0, .json, [], none,
        none, [], .reading⟩ writtenBetween).map fun s ↦ (s.point, s.reader, s.replaced)) =
      some (.message, some ⟨2, [4]⟩, 0) := by
    decide +kernel
  have hholds : ((run (step emptyObject (fun _ ↦ "") (databases (.one "db.json")))
      ⟨[putting "db.json" "[0]"], Remote.State.new.set (.asynchronous "nats"), 1, 0, .json, [], none,
        none, [], .reading⟩ writtenBetween).map fun s ↦ (s.given, s.slot.fetched, s.bucket)) =
      some ([⟨⟨"[3]", .json⟩, [4]⟩], some ⟨⟨"[3]", .json⟩, [4]⟩,
        [putting "db.json" "[0]", putting "db.json" "[1]", putting "other.json" "[]",
          putting "db.json" "[2]", putting "db.json" "[3]"]) := by
    decide +kernel
  obtain ⟨s, hrun, hcomes⟩ := Option.map_eq_some_iff.1 hcomes
  rw [hrun, Option.map_some, Option.some.injEq] at hholds
  simp only [Prod.mk.injEq] at hcomes hholds
  exact ⟨_, s, rfl, hrun, hcomes.1, hcomes.2.1, hcomes.2.2, hholds⟩

theorem followed_of_run_writtenBetween :
    ∃ s₀ s, run (step emptyObject (fun _ ↦ "") (databases (.one "db.json"))) s₀ writtenBetween =
        some s ∧
      s.given = [⟨⟨"[3]", .json⟩, [4]⟩] ∧ Followed "db.json" ⟨2, [4]⟩ s := by
  obtain ⟨s₀, s, hstart, hrun, -, hreader, -, hgiven, -⟩ := exists_run_writtenBetween
  exact ⟨s₀, s, hrun, hgiven, followed_of_run hstart hrun rfl hreader⟩

/-- What a fetch of one key brings is the text that was read. -/
theorem brought_of_one (hknown : Known formats nats s) {key : String} (hkeys : nats.keys = .one key)
    {b : Brought} (hb : s.brought = some b) :
    ∃ r, s.documents = [r] ∧ r.key = key ∧ b = ⟨⟨r.text, s.format⟩, [r.place]⟩ := by
  obtain ⟨hlength, hplaces, hmerged⟩ := hknown.brought b hb
  have hread := hknown.keys
  rw [hkeys] at hlength hread
  obtain ⟨r, hr⟩ := List.length_eq_one_iff.1 hlength
  rw [hr] at hread hplaces hmerged
  refine ⟨r, hr, List.singleton_inj.1 hread, ?_⟩
  obtain ⟨⟨text, format⟩, places⟩ := b
  rcases hmerged with ⟨htexts, hformat⟩ | ⟨hmany, -⟩
  · obtain rfl : r.text = text := List.singleton_inj.1 htexts
    obtain rfl : format = s.format := hformat
    obtain rfl : places = [r.place] := hplaces
    rfl
  · exact absurd hmany (by simp)

/-- **When the slot holds the newest.** A program that waits, has heard everything, and has not been
replaced serves the newest entry of its key just where that is a text that was put, and was put before
the fetch read the key or after the watch was established. What was put in between is missed. -/
theorem served_iff_of_run (hstart : start nats kind bucket = .ok s₀)
    (hrun : run (step formats invalid nats) s₀ turns = some s) {key : String}
    (hkeys : nats.keys = .one key) {reader : Reader} (hreader : s.reader = some reader)
    (hsource : s.replaced = 0) (hwaiting : s.point = .message)
    (hcaught : CaughtUp (Entry.isOf key) s.bucket reader) {i : ℕ}
    (hnewest : Newest (Entry.isOf key) s.bucket i) :
    ∃ r, s.documents = [r] ∧
      ((∃ text, textAt s.bucket i = some text ∧
          s.slot.fetched = some ⟨⟨text, s.format⟩, [i]⟩) ↔
        textAt s.bucket i ≠ none ∧ (i < r.seen ∨ reader.opened ≤ i)) := by
  have hknown : Known formats nats s := known_of_run hstart hrun
  have hcurrent : Current s := current_of_run hstart hrun (by rw [hsource]; decide)
  have hkeeps := hknown.keeps reader key hreader hkeys
  have hgiven : s.given = reader.handed.filterMap s.broughtAt := by
    rw [hknown.given, heard, hreader]
    rfl
  have hserved : s.slot.fetched = s.given.getLast?.or s.brought := by
    rw [hcurrent.served hsource (by rw [hwaiting]; rfl), applied, hwaiting]
  obtain ⟨b, hb⟩ : ∃ b, s.brought = some b := by
    refine Option.ne_none_iff_exists'.1 fun hnone ↦ ?_
    have hbefore := hcurrent.fetched hnone
    simp [hwaiting, Point.isEnded] at hbefore
  obtain ⟨r, hdocuments, hkey, rfl⟩ := brought_of_one hknown hkeys hb
  have hr : r ∈ s.documents := by
    rw [hdocuments]
    exact List.mem_singleton_self r
  have hwas := hknown.was r hr
  refine ⟨r, hdocuments, fun ⟨text, htext, hfetched⟩ ↦ ⟨by simp [htext], ?_⟩, fun ⟨hput, hin⟩ ↦ ?_⟩
  · rw [hserved] at hfetched
    cases hlast : s.given.getLast? with
    | none =>
      rw [hlast, Option.none_or, hb] at hfetched
      have hplace : [r.place] = [i] := congrArg Brought.places (Option.some.inj hfetched)
      exact .inl (List.singleton_inj.1 hplace ▸ hwas.lt)
    | some c =>
      rw [hlast, Option.some_or] at hfetched
      have hmem := List.mem_of_getLast? hlast
      rw [Option.some.inj hfetched, hgiven] at hmem
      obtain ⟨j, hj, hbrought⟩ := List.mem_filterMap.1 hmem
      obtain ⟨_, -, hsame⟩ := Option.map_eq_some_iff.1 hbrought
      have hplace : [j] = [i] := congrArg Brought.places hsame
      exact .inr (List.singleton_inj.1 hplace ▸ (hkeeps.handed j hj).1)
  · obtain ⟨text, htext⟩ := Option.ne_none_iff_exists'.1 hput
    refine ⟨text, htext, ?_⟩
    rw [hserved]
    rcases Nat.lt_or_ge i reader.opened with hold | hnew
    · -- The stream began behind it, and has had nothing to hand over.
      have hseen : i < r.seen := hin.resolve_right (Nat.not_le.2 hold)
      have hsame : r.place = i := hwas.newest.eq (hkey ▸ hnewest.take hseen)
      have hempty := hkeeps.handed_eq_nil hnewest hold
      have htexts : r.text = text := by
        have hread := hwas.text
        rw [hsame, htext] at hread
        exact (Option.some.inj hread).symm
      rw [hgiven, hempty, hb, hsame, htexts]
      rfl
    · have hlast := (hkeeps.getLast?_handed_eq_some_iff hcaught hnewest).2 hnew
      obtain ⟨before, hbefore⟩ := List.getLast?_eq_some_iff.1 hlast
      have hbrought : s.broughtAt i = some ⟨⟨text, s.format⟩, [i]⟩ := by
        rw [broughtAt, htext]
        rfl
      rw [hgiven, hbefore, List.filterMap_append, List.filterMap_cons_some hbrought,
        List.filterMap_nil, List.getLast?_concat]
      rfl

theorem served_iff_of_run_writtenBetween :
    ∃ s₀ s, run (step emptyObject (fun _ ↦ "") (databases (.one "db.json"))) s₀ writtenBetween =
        some s ∧
      s.slot.fetched = some ⟨⟨"[3]", .json⟩, [4]⟩ ∧ ∃ r, s.documents = [r] ∧
        ((∃ text, textAt s.bucket 4 = some text ∧
            s.slot.fetched = some ⟨⟨text, s.format⟩, [4]⟩) ↔
          textAt s.bucket 4 ≠ none ∧ (4 < r.seen ∨ 2 ≤ 4)) := by
  obtain ⟨s₀, s, hstart, hrun, hwaiting, hreader, hsource, -, hfetched, hbucket⟩ :=
    exists_run_writtenBetween
  have hcaught : CaughtUp (Entry.isOf "db.json") s.bucket ⟨2, [4]⟩ := by
    intro i hi
    have hlt := hi.lt
    rw [hbucket] at hlt
    exact hlt
  have hnewest : Newest (Entry.isOf "db.json") s.bucket 4 := by
    refine ⟨?_, fun j hj ↦ Nat.lt_succ_iff.1 (hcaught j hj)⟩
    rw [hbucket]
    decide
  exact ⟨s₀, s, hrun, hfetched,
    served_iff_of_run hstart hrun rfl hreader hsource hwaiting hcaught hnewest⟩

/-- **Whether the store is up.** In every run with fewer replacements than a word has values, the store
reads as up once a document of it is in the slot and as down once the watch has failed, with the failure
the watch ended on; a document that is refused does not count against it, and a source that replaced it
is told nothing. -/
theorem reachable_of_run (hstart : start nats kind bucket = .ok s₀)
    (hrun : run (step formats invalid nats) s₀ turns = some s) (hbelow : s.replaced < word) :
    (reachable s.slot.status = s.slot.fetched.map fun _ ↦ !s.point.isLost) ∧
      (s.replaced = 0 → ∀ error, s.point = .ended .lost error → s.slot.fetched ≠ none ∧
        ∃ now, s.slot.status.lastFailure = some (FailureStatus.of now error)) ∧
      (s.replaced ≠ 0 → s.slot.fetched = none ∧ s.slot.status = RemoteStatus.empty) := by
  have hcurrent : Current s := current_of_run hstart hrun hbelow
  refine ⟨?_, fun hzero error herror ↦ ?_, fun hgone ↦ ?_⟩
  · cases hfetched : s.slot.fetched with
    | none =>
      rw [hcurrent.unasked hfetched]
      rfl
    | some b =>
      have hzero : s.replaced = 0 := by
        by_contra hgone
        rw [hcurrent.gone hgone] at hfetched
        cases hfetched
      obtain ⟨hfetches, hstreak, -⟩ := hcurrent.told hzero (by rw [hfetched]; simp)
      rw [reachable, if_neg fun hboth ↦ hfetches hboth.1, hstreak]
      cases s.point.isLost with
      | false => rfl
      | true => rfl
  · have hheld := hcurrent.lost hzero (by rw [herror]; rfl)
    exact ⟨hheld, (hcurrent.told hzero hheld).failure error herror⟩
  · exact ⟨hcurrent.gone hgone, hcurrent.unasked (hcurrent.gone hgone)⟩

theorem reachable_of_run_closed :
    ∃ s₀ s, run (step emptyObject (fun _ ↦ "") (databases (.one "db.json"))) s₀
        (writtenBetween ++ [.closed 5]) = some s ∧
      s.replaced = 0 ∧ s.point.isLost = true ∧
        (reachable s.slot.status = s.slot.fetched.map fun _ ↦ !s.point.isLost) := by
  obtain ⟨s₀, s, hstart, hrun, hwaiting, -, hsource, -⟩ := exists_run_writtenBetween
  have hclosed : s.step emptyObject (fun _ ↦ "") (databases (.one "db.json")) (.closed 5) =
      some (s.failing (.remote ((databases (.one "db.json")).describe ++
        ": the watch ended; the stream was closed")) 5) := by
    simp only [step, hwaiting]
  have hall := Transition.run_trans hrun (Transition.run_cons_of_step hclosed [])
  exact ⟨s₀, _, hall, hsource, rfl,
    (reachable_of_run hstart hall (show s.replaced < word by rw [hsource]; decide)).1⟩

/-- **What a fetch of several keys brings.** The document is the in-order merge of texts that the keys
held one after the other, as they were read. Where nothing was written to a key between its own read and
the last, they held them together. -/
theorem brought_of_run (hstart : start nats kind bucket = .ok s₀)
    (hrun : run (step formats invalid nats) s₀ turns = some s) {b : Brought}
    (hb : s.brought = some b) :
    s.documents.map Reading.key = nats.keys.named ∧
      InOrderMerge formats s.format (s.documents.map Reading.text) b.document ∧
      (s.documents.Pairwise fun r q ↦ r.seen ≤ q.seen) ∧ (∀ r ∈ s.documents, r.Was s.bucket) ∧
      ∀ last ∈ s.documents.getLast?,
        (∀ r ∈ s.documents, ∀ i, r.seen ≤ i → i < last.seen → ¬ Holds (Entry.isOf r.key) s.bucket i) →
          ∀ r ∈ s.documents, Newest (Entry.isOf r.key) (s.bucket.take last.seen) r.place := by
  have hknown : Known formats nats s := known_of_run hstart hrun
  obtain ⟨hlength, -, hmerged⟩ := hknown.brought b hb
  refine ⟨?_, hmerged, hknown.ordered, hknown.was, fun last hlast hquiet r hr ↦ ?_⟩
  · rw [hknown.keys, hlength, List.take_length]
  · have hle : r.seen ≤ last.seen := by
      obtain ⟨before, hbefore⟩ := List.getLast?_eq_some_iff.1 hlast
      have hordered := hknown.ordered
      rw [hbefore] at hr hordered
      rcases List.mem_append.1 hr with hr | hr
      · exact (List.pairwise_append.1 hordered).2.2 r hr last (List.mem_singleton_self last)
      · rw [List.mem_singleton.1 hr]
    exact (hknown.was r hr).newest.extend hle (hquiet r hr)

/-- A key is written after it was read, and before the next one is. -/
def writtenAfter : List (Turn String) :=
  [.get .answered, .write (putting "base.json" "[1]"), .get .answered, .merge]

theorem brought_of_run_writtenAfter :
    ∃ s₀ s, run (step emptyObject (fun _ ↦ "") (databases (.several ["base.json", "local.json"]))) s₀
        writtenAfter = some s ∧
      s.brought = some ⟨⟨"{}\n", .json⟩, [0, 1]⟩ ∧
        InOrderMerge emptyObject s.format (s.documents.map Reading.text) ⟨"{}\n", .json⟩ := by
  have hruns : ((run (step emptyObject (fun _ ↦ "")
      (databases (.several ["base.json", "local.json"])))
        ⟨[putting "base.json" "{}", putting "local.json" "{}"],
          Remote.State.new.set (.asynchronous "nats"), 1, 0, .json, [], none, none, [], .reading⟩
            writtenAfter).map Program.brought) = some (some ⟨⟨"{}\n", .json⟩, [0, 1]⟩) := by
    decide +kernel
  obtain ⟨s, hrun, hbrought⟩ := Option.map_eq_some_iff.1 hruns
  have hstart : start (databases (.several ["base.json", "local.json"])) (.asynchronous "nats")
      [putting "base.json" "{}", putting "local.json" "{}"] =
    .ok ⟨[putting "base.json" "{}", putting "local.json" "{}"],
      Remote.State.new.set (.asynchronous "nats"), 1, 0, .json, [], none, none, [], .reading⟩ := rfl
  exact ⟨_, s, hrun, hbrought, (brought_of_run hstart hrun hbrought).2.1⟩

end Runs

end DynamicConfig.Nats
