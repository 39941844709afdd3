import DynamicConfig.Cell.Generation
import DynamicConfig.Server.Subscriptions

/-!
# Resumption across restarts

A process numbers its own installs from 1, and a client that reconnects claims the number it was told
by the process it fetched from. `History` is any number of processes, each a cell with everybody who
uses it; a client is a reader of one of them, and it may reconnect to another.

What a stream has to say is decided by the number the section shows when the stream is opened, and by
the number it shows once the stores in progress have published theirs, since each of them wakes the
stream (`emitted_of_rest`). Within one process the two together miss nothing. Across processes they miss a change exactly
where both are zero or the number the client claims: the counts of two processes coincide, and nothing
says that the installs they count do (`resumes_iff`).
-/

namespace DynamicConfig.Server

open Cell (Numbered Reader)
open Remote (word)
open Transition (run)

variable {T R W : Type}

/-! ### Histories -/

/-- The processes there have been, in the order they were started. -/
structure History (T R W : Type) where
  processes : List (Cell.System T R W)

/-- One process. -/
def History.new : History T R W := ⟨[Cell.System.new]⟩

/-- What happens next. -/
inductive Episode (T R W : Type) where
  /-- Another process is started. -/
  | restart
  /-- Somebody in a process takes a turn. -/
  | turn (i : Nat) (turn : Cell.Turn T R W)

def History.step [DecidableEq W] (history : History T R W) :
    Episode T R W → Option (History T R W)
  | .restart => some ⟨history.processes ++ [Cell.System.new]⟩
  | .turn i turn => history.processes[i]?.bind fun s ↦ (s.step turn).map fun t ↦
      ⟨history.processes.set i t⟩

/-- What a section will show, once the stores in progress have published. -/
def settled (s : Cell.System T R W) : Nat := s.calls.length % word

/-- The stream has an event for its client: when it is opened, or when the stores in progress are
done. -/
def Told (stream : Generations) (s : Cell.System T R W) : Prop :=
  stream.isNews (shown s) = true ∨ stream.isNews (settled s) = true

/-- The numbers of a process are the one a client claims, or none. -/
def Coincide (claimed : Nat) (s : Cell.System T R W) : Prop :=
  (shown s = 0 ∨ shown s = claimed) ∧ (settled s = 0 ∨ settled s = claimed)

/-! ### One process -/

/-- What holds of a process. -/
structure Serving (s : Cell.System T R W) : Prop where
  numbered : Numbered s
  readers : ∀ reader ∈ s.readers, reader.generation < word
  started : s.log.chain ≠ [] → s.calls ≠ []

theorem serving_new : Serving (Cell.System.new : Cell.System T R W) where
  numbered := ⟨Cell.recorded_new, fun _ hreader ↦ absurd hreader List.not_mem_nil⟩
  readers _ hreader := absurd hreader List.not_mem_nil
  started hchain := absurd rfl hchain

/-- A number that is published is a word. -/
theorem shown_lt {s : Cell.System T R W} (h : Cell.Recorded s) : shown s < word := by
  rw [shown, h.published]
  exact Nat.mod_lt _ (by decide)

/-- Once every store has returned, the section shows how many there were. -/
theorem shown_eq_settled {s : Cell.System T R W} (h : Cell.Recorded s) (hquiet : s.Quiet) :
    shown s = settled s := by
  have hlength := h.issued.length_of_quiet hquiet (by decide)
  rw [List.length_map] at hlength
  rw [shown, settled, h.published, hlength]

/-- No more calls have swapped than there are. -/
theorem swaps_le_calls {s : Cell.System T R W} (h : Cell.Recorded s) :
    s.log.swaps.length ≤ s.calls.length := by
  have hsub : s.log.swaps.map Cell.Arc.owner ⊆ List.range s.calls.length := by
    intro i hi
    obtain ⟨c, hc, -⟩ := (h.swaps.mem_iff i).1 hi
    exact List.mem_range.2 (List.getElem?_eq_some_iff.1 hc).1
  have hle := (h.swaps.nodup.subperm hsub).length_le
  rwa [List.length_map, List.length_range] at hle

section Process

variable [DecidableEq W] {s t : Cell.System T R W}

/-- One turn. -/
theorem Serving.step (h : Serving s) {turn : Cell.Turn T R W} (hstep : s.step turn = some t) :
    Serving t := by
  refine ⟨h.numbered.step hstep, ?_, ?_⟩
  · cases Cell.System.moves_of_step hstep with
    | generation =>
      intro reader hreader
      rcases List.mem_append.1 hreader with hold | hnew
      · exact h.readers reader hold
      · obtain rfl := List.mem_singleton.1 hnew
        exact shown_lt h.numbered.recorded
    | current hr hfresh =>
      have hread := h.readers _ (List.mem_of_getElem? hr)
      intro other hother
      rcases List.mem_or_eq_of_mem_set hother with hold | rfl
      · exact h.readers other hold
      · exact hread
    | _ => exact h.readers
  · cases Cell.System.moves_of_step hstep with
    | begin_ value reason => exact fun _ ↦ List.append_ne_nil_of_right_ne_nil _ (List.cons_ne_nil _ _)
    | store hc he =>
      intro _ hnil
      rw [List.set_eq_nil_iff] at hnil
      rw [hnil] at hc
      cases hc
    | _ => exact h.started

/-- One episode. -/
theorem History.serving_of_step {history later : History T R W} {episode : Episode T R W}
    (hstep : history.step episode = some later) (h : ∀ s ∈ history.processes, Serving s) :
    ∀ s ∈ later.processes, Serving s := by
  rcases episode with - | ⟨i, turn⟩
  · obtain rfl := Option.some.inj hstep
    intro s hs
    rcases List.mem_append.1 hs with hold | hnew
    · exact h s hold
    · exact List.mem_singleton.1 hnew ▸ serving_new
  · obtain ⟨s, hs, hstep⟩ := Option.bind_eq_some_iff.1 hstep
    obtain ⟨t, ht, rfl⟩ := Option.map_eq_some_iff.1 hstep
    have hmoved := (h s (List.mem_of_getElem? hs)).step ht
    intro u hu
    rcases List.mem_or_eq_of_mem_set hu with hold | rfl
    · exact h u hold
    · exact hmoved

theorem History.serving_of_run {history : History T R W} {episodes : List (Episode T R W)}
    (h : run History.step History.new episodes = some history) :
    ∀ s ∈ history.processes, Serving s := by
  refine Transition.run_invariant (I := fun history ↦ ∀ s ∈ history.processes, Serving s)
    (fun _ _ _ hstep hserving ↦ History.serving_of_step hstep hserving) h fun s hs ↦ ?_
  exact List.mem_singleton.1 hs ▸ serving_new

/-! ### What a reconnecting client is told -/

omit [DecidableEq W] in
/-- A client of a process with fewer than a word of stores, which its numbers leave untold, has fetched
what is installed. -/
theorem Serving.eq_of_coincide (h : Serving s) (hword : s.calls.length < word) {reader : Reader T}
    (hreader : reader ∈ s.readers) {n : Nat} {fetched now : Cell.Arc T}
    (hfetched : reader.installed = some (n, fetched)) (hnow : s.cell.inner = some now)
    (hcoincide : Coincide n s) : now = fetched := by
  have hrecorded := h.numbered.recorded
  have hpos : 0 < s.calls.length := by
    refine List.length_pos_iff.2 (h.started fun hnil ↦ ?_)
    rw [hrecorded.inner, hnil] at hnow
    cases hnow
  -- All the stores there are were made by the time the client read the number.
  have hcount : s.calls.length = n := by
    have hsettled := hcoincide.2
    rw [settled, Nat.mod_eq_of_lt hword] at hsettled
    omega
  have hle := swaps_le_calls hrecorded
  rcases (h.numbered.readers reader hreader).installed n fetched hfetched with hzero | ⟨k, hk, hn⟩
  · omega
  · obtain ⟨hlt, -⟩ := List.getElem?_eq_some_iff.1 hk
    obtain ⟨last, hlast, hat⟩ := hrecorded.inner_of_swaps (by omega)
    have hend : s.log.swaps.length - 1 = k := by omega
    rw [hend, hk] at hat
    rw [hnow] at hlast
    exact Option.some.inj (hlast.trans hat.symm)

omit [DecidableEq W] in
/-- An opening stream tells its client, unless the numbers coincide. -/
theorem told_iff {stream : Generations} {n : Nat} (hsent : stream.sent = none)
    (hresume : stream.resume = some n) : Told stream s ↔ ¬ Coincide n s := by
  have hnews : ∀ generation, stream.isNews generation = true ↔
      ¬ (generation = 0 ∨ generation = n) := fun generation ↦ by
    rw [Generations.isNews_of_opening hsent, hresume, not_or]
    exact and_congr_right fun _ ↦ not_congr (Option.some_inj.trans eq_comm)
  rw [Told, hnews, hnews, Coincide, not_and_or]

/-- A stream that has come to rest, with no store in progress, has told its client something unless the
numbers coincide. -/
theorem emitted_of_rest {sys : Streams T R W} {turns : List (StreamTurn T R W)}
    (hrun : run Streams.step Streams.new turns = some sys) {c : Subscription W}
    (hc : c ∈ sys.subscriptions) {n : Nat} (hresume : c.stream.resume = some n)
    (hword : sys.section_.log.issued.length < word) (hpending : c.point = .pending)
    (hquiet : sys.section_.Quiet)
    (hasleep : ∀ t, sys.section_.tasks[c.handle]? = some t → t.woken = false) :
    c.emitted ≠ [] ∨ settled sys.section_ = 0 ∨ settled sys.section_ = n := by
  have hattentive := attentive_of_run hrun
  obtain ⟨t, ht, hfollows⟩ := hattentive.follows c hc
  rw [← shown_eq_settled hattentive.attended.recorded hquiet]
  rcases hfollows.heard_or_woken hattentive.attended ht hword hpending with hheard | hwoken | howing
  · rcases hheard with hzero | hsent | ⟨-, hclaimed⟩
    · exact Or.inr (Or.inl hzero)
    · refine Or.inl fun hnil ↦ ?_
      rw [hfollows.sent, hnil] at hsent
      cases hsent
    · exact Or.inr (Or.inr (Option.some.inj (hclaimed.symm.trans hresume)))
  · rw [hasleep t ht] at hwoken
    cases hwoken
  · exact absurd howing (not_owing_of_quiet hquiet)

/-- **A client that reconnects misses a change exactly where it does so to another process, whose count
of installs is the number it claims, or to one that has made a word of them.** -/
theorem resumes_iff {history : History T R W} {episodes : List (Episode T R W)}
    (hrun : run History.step History.new episodes = some history) {i j : Nat}
    {process serving : Cell.System T R W} (hprocess : history.processes[i]? = some process)
    (hserving : history.processes[j]? = some serving) {reader : Reader T}
    (hreader : reader ∈ process.readers) {n : Nat} {fetched now : Cell.Arc T}
    (hfetched : reader.installed = some (n, fetched)) (hnow : serving.cell.inner = some now)
    {stream : Generations} (hsent : stream.sent = none)
    (hresume : stream.resume = lastEventId (idHeader n)) :
    Told stream serving ∨ now.value = fetched.value ↔
      (i = j ∧ serving.calls.length < word) ∨ ¬ Coincide n serving ∨ now.value = fetched.value := by
  have hall := History.serving_of_run hrun
  have hclaimed : stream.resume = some n := by
    obtain ⟨document, -, hpair⟩ := Option.map_eq_some_iff.1 hfetched
    obtain ⟨rfl, -⟩ := Prod.mk.inj hpair
    rw [hresume]
    exact lastEventId_idHeader ((hall process (List.mem_of_getElem? hprocess)).readers reader hreader)
  rw [told_iff hsent hclaimed]
  constructor
  · exact Or.inr
  · rintro (⟨rfl, hword⟩ | hcondition)
    · obtain rfl : process = serving := Option.some.inj (hprocess.symm.trans hserving)
      by_cases hcoincide : Coincide n process
      · have hsame := (hall process (List.mem_of_getElem? hprocess)).eq_of_coincide hword hreader
          hfetched hnow hcoincide
        exact Or.inr (congrArg Cell.Arc.value hsame)
      · exact Or.inl hcoincide
    · exact hcondition

end Process

/-! ### Two processes that installed once each -/

/-- A process installs `"old"`, and a client fetches it; another installs `"new"`. -/
def onceEach : List (Episode String Unit Nat) :=
  (.turn 0 (.begin_ "old" ())) :: (Cell.steps 0 0 9).map (.turn 0) ++
    [.turn 0 .generation, .turn 0 (.current 0), .restart, .turn 1 (.begin_ "new" ())] ++
      (Cell.steps 0 0 9).map (.turn 1)

/-- What a process shows, what has been fetched of it, and what it has installed. -/
structure Outline where
  shown : Nat
  settled : Nat
  fetched : List (Option (Nat × Cell.Arc String))
  installed : Option (Cell.Arc String)
  deriving DecidableEq

def outline (s : Cell.System String Unit Nat) : Outline :=
  ⟨shown s, settled s, s.readers.map Reader.installed, s.cell.inner⟩

theorem outline_onceEach : (run History.step History.new onceEach).map
    (fun history ↦ history.processes.map outline) =
      some [⟨1, 1, [some (1, ⟨0, "old"⟩)], some ⟨0, "old"⟩⟩, ⟨1, 1, [], some ⟨0, "new"⟩⟩] := by
  decide +kernel

/-- The two processes, and the client of the first. -/
theorem exists_onceEach : ∃ (history : History String Unit Nat) (old new : Cell.System String Unit Nat)
    (reader : Reader String), run History.step History.new onceEach = some history ∧
      history.processes[0]? = some old ∧ history.processes[1]? = some new ∧ reader ∈ old.readers ∧
        reader.installed = some (1, ⟨0, "old"⟩) ∧ old.cell.inner = some ⟨0, "old"⟩ ∧
          new.cell.inner = some ⟨0, "new"⟩ ∧ Coincide 1 new := by
  obtain ⟨history, hrun, houtline⟩ := Option.map_eq_some_iff.1 outline_onceEach
  obtain ⟨old, rest, hprocesses, hold, hrest⟩ := List.map_eq_cons_iff.1 houtline
  obtain ⟨new, last, rfl, hnew, -⟩ := List.map_eq_cons_iff.1 hrest
  obtain ⟨reader, others, hreaders, hfetched, -⟩ := List.map_eq_cons_iff.1 (congrArg Outline.fetched hold)
  refine ⟨history, old, new, reader, hrun, by rw [hprocesses]; rfl, by rw [hprocesses]; rfl, ?_,
    hfetched, congrArg Outline.installed hold, congrArg Outline.installed hnew,
    Or.inr (congrArg Outline.shown hnew), Or.inr (congrArg Outline.settled hnew)⟩
  rw [hreaders]
  exact List.mem_cons_self

/-- The stream of a client that claims an id. -/
def reopened (n : Nat) : Generations := ⟨"billing", "prod", 0, lastEventId (idHeader n), none⟩

/-- The other process installs `"newer"` as well. -/
def onceThenTwice : List (Episode String Unit Nat) :=
  onceEach ++ .turn 1 (.begin_ "newer" ()) :: (Cell.steps 1 0 9).map (.turn 1)

theorem outline_onceThenTwice : (run History.step History.new onceThenTwice).map
    (fun history ↦ history.processes.map outline) =
      some [⟨1, 1, [some (1, ⟨0, "old"⟩)], some ⟨0, "old"⟩⟩, ⟨2, 2, [], some ⟨1, "newer"⟩⟩] := by
  decide +kernel

/-- The client of the first process reconnects to the other, which has installed twice. -/
theorem resumes_onceThenTwice : ∃ (history : History String Unit Nat)
    (serving : Cell.System String Unit Nat),
    run History.step History.new onceThenTwice = some history ∧
      history.processes[1]? = some serving ∧ Told (reopened 1) serving := by
  obtain ⟨history, hrun, houtline⟩ := Option.map_eq_some_iff.1 outline_onceThenTwice
  obtain ⟨old, rest, hprocesses, hold, hrest⟩ := List.map_eq_cons_iff.1 houtline
  obtain ⟨serving, last, rfl, hserving, -⟩ := List.map_eq_cons_iff.1 hrest
  obtain ⟨reader, others, hreaders, hfetched, -⟩ := List.map_eq_cons_iff.1 (congrArg Outline.fetched hold)
  have hfirst : history.processes[0]? = some old := by
    rw [hprocesses]
    rfl
  have hsecond : history.processes[1]? = some serving := by
    rw [hprocesses]
    rfl
  have hreader : reader ∈ old.readers := by
    rw [hreaders]
    exact List.mem_cons_self
  have happart : ¬ Coincide 1 serving := by
    rintro ⟨hnone | hone, -⟩
    · exact absurd ((congrArg Outline.shown hserving).symm.trans hnone) (by decide)
    · exact absurd ((congrArg Outline.shown hserving).symm.trans hone) (by decide)
  refine ⟨history, serving, hrun, hsecond, ?_⟩
  have hresumes : Told (reopened 1) serving ∨ "newer" = "old" ↔ _ :=
    resumes_iff hrun hfirst hsecond hreader hfetched (congrArg Outline.installed hserving) rfl rfl
  exact (hresumes.2 (Or.inr (Or.inl happart))).resolve_right (by decide)

/-- **A client that was told 1 by one process is told nothing by another that has installed once.** -/
theorem not_resumes : ¬ ∀ (history : History String Unit Nat) (episodes : List (Episode String Unit Nat)),
    run History.step History.new episodes = some history →
      ∀ (i j : Nat) (process serving : Cell.System String Unit Nat),
        history.processes[i]? = some process → history.processes[j]? = some serving →
          ∀ reader ∈ process.readers, ∀ (n : Nat) (fetched now : Cell.Arc String),
            reader.installed = some (n, fetched) → serving.cell.inner = some now →
              ∀ stream : Generations, stream.sent = none → stream.resume = lastEventId (idHeader n) →
                Told stream serving ∨ now.value = fetched.value := by
  intro hall
  obtain ⟨history, old, new, reader, hrun, hold, hnew, hreader, hfetched, -, hnow, hcoincide⟩ :=
    exists_onceEach
  have hresume : lastEventId (idHeader 1) = some 1 := lastEventId_idHeader (by decide)
  rcases hall history onceEach hrun 0 1 old new hold hnew reader hreader 1 _ _ hfetched hnow
    (reopened 1) rfl rfl with htold | hsame
  · exact (told_iff rfl hresume).1 htold hcoincide
  · exact absurd hsame (by decide)

end DynamicConfig.Server
