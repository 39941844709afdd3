import DynamicConfig.Cell.Record

/-!
# The chain of installs

Each `store_with` call dispatches one event, whose `previous` is what its swap displaced. Whether an
install is the first one is told by comparing pointers: the call whose snapshot `get_or_init` put
into the cell finds that very snapshot displaced, and dispatches `previous: None`.

**It finds it only if nobody swaps in between.** Another call may swap after the `get_or_init` and
before the swap of the call that won it. Then the first call to swap displaces a snapshot that was
never swapped in, the winner displaces another's, and no event is the first one. `oneChain_iff` says
that this is the only way the chain breaks.
-/

namespace DynamicConfig.Cell

open Transition (run)

variable {T R W : Type}

/-- Every call has returned. -/
def System.Quiet (s : System T R W) : Prop :=
  ∀ (i : Nat) (c : StoreCall T R W), s.calls[i]? = some c → c.point = .returned

theorem quiet_of_all {s : System T R W}
    (h : s.calls.all (fun c ↦ decide (c.point = .returned)) = true) : s.Quiet := by
  intro i c hc
  exact of_decide_eq_true (List.all_eq_true.1 h c (List.mem_of_getElem? hc))

/-- When every call has returned, each has passed every step. -/
theorem Marks.length_of_quiet {s : System T R W} {p : Nat} {owners : List Nat}
    (h : Marks p owners s.calls) (hquiet : s.Quiet) (hp : p < StorePoint.returned.taken) :
    owners.length = s.calls.length := by
  have hall : owners.Perm (List.range s.calls.length) := by
    rw [List.perm_ext_iff_of_nodup h.nodup List.nodup_range]
    intro i
    rw [h.mem_iff, List.mem_range]
    constructor
    · rintro ⟨c, hc, -⟩
      exact (List.getElem?_eq_some_iff.1 hc).1
    · intro hlt
      have hc := List.getElem?_eq_getElem hlt
      exact ⟨_, hc, by rw [hquiet i _ hc]; exact hp⟩
  rw [hall.length_eq, List.length_range]

/-- What the `i`-th call dispatched. -/
def System.event (s : System T R W) (i : Nat) : Option (ReloadEvent T R) :=
  s.calls[i]?.bind StoreCall.event

/-- The events are one chain: it starts once, each other event goes on from what its swap displaced,
and each snapshot but the last is gone on from once. -/
structure OneChain (s : System T R W) : Prop where
  first : ∃! i, ∃ e, s.event i = some e ∧ e.previous = none
  displaced : ∀ i e a, s.event i = some e → e.previous = some a →
    ∃ j : Nat, s.log.swaps[j]? = some e.current ∧ s.log.chain[j]? = some a
  once : ∀ a ∈ s.log.swaps, s.cell.inner ≠ some a →
    ∃! i, ∃ e, s.event i = some e ∧ e.previous = some a

/-- The condition: the call that won the `get_or_init` is the first to swap. -/
def InitialiserFirst (log : Log T R) : Prop :=
  log.swaps.head?.map Arc.owner = log.chain.head?.map Arc.owner

section Swaps

variable {s : System T R W} {i j k : Nat} {a b : Arc T}

theorem getElem?_swaps (log : Log T R) (j : Nat) : log.swaps[j]? = log.chain[j + 1]? := by
  rw [Log.swaps, List.getElem?_tail]

/-- A call swaps once. -/
theorem Recorded.swap_inj (h : Recorded s) (ha : s.log.chain[j + 1]? = some a)
    (hb : s.log.chain[k + 1]? = some b) (howner : a.owner = b.owner) : j = k := by
  have hja : (s.log.swaps.map Arc.owner)[j]? = some a.owner := by
    rw [List.getElem?_map, getElem?_swaps, ha]
    rfl
  have hkb : (s.log.swaps.map Arc.owner)[k]? = some a.owner := by
    rw [List.getElem?_map, getElem?_swaps, hb, howner]
    rfl
  obtain ⟨hlt, -⟩ := List.getElem?_eq_some_iff.1 hja
  exact (List.getElem?_inj hlt h.swaps.nodup).1 (hja.trans hkb.symm)

/-- Whatever was swapped in is the snapshot of a call, which displaced what was there before. -/
theorem Recorded.swap_at (h : Recorded s) (ha : s.log.chain[j + 1]? = some a) :
    ∃ c, s.calls[a.owner]? = some c ∧ c.arc a.owner = a ∧ c.previous = s.log.chain[j]? := by
  have hmem : a.owner ∈ s.log.swaps.map Arc.owner := by
    refine List.mem_map_of_mem (List.mem_of_getElem? (i := j) ?_)
    rw [getElem?_swaps, ha]
  obtain ⟨c, hc, hpast⟩ := (h.swaps.mem_iff _).1 hmem
  obtain ⟨k, hown, hprevious⟩ := (h.calls _ c hc).swapped hpast
  obtain rfl : j = k := h.swap_inj ha hown rfl
  rw [ha] at hown
  exact ⟨c, hc, (Option.some.inj hown).symm, hprevious⟩

/-- What a call that has returned swapped, displaced and dispatched. -/
theorem Recorded.returned (h : Recorded s) (hquiet : s.Quiet) {c : StoreCall T R W}
    (hc : s.calls[i]? = some c) :
    ∃ j p e, s.log.chain[j + 1]? = some (c.arc i) ∧ s.log.chain[j]? = some p ∧
      s.event i = some e ∧ e.current = c.arc i ∧
        e.previous = if p.owner = i then none else some p := by
  have hrec := h.calls i c hc
  have hpoint := hquiet i c hc
  obtain ⟨j, hown, hprevious⟩ := hrec.swapped (by rw [hpoint]; decide)
  obtain ⟨m, -, hevent⟩ := hrec.event hpoint
  obtain ⟨hlt, -⟩ := List.getElem?_eq_some_iff.1 hown
  obtain ⟨p, hp⟩ : ∃ p, s.log.chain[j]? = some p := ⟨_, List.getElem?_eq_getElem (by omega)⟩
  have hdispatched : s.event i = c.event := by
    rw [System.event, hc]
    rfl
  refine ⟨j, p, _, hown, hp, hdispatched.trans hevent, rfl, ?_⟩
  show c.previous.filter _ = _
  rw [hprevious, hp, Option.filter_some]
  rcases eq_or_ne p.owner i with heq | hne
  · rw [if_pos heq, decide_eq_true heq]
    rfl
  · rw [if_neg hne, decide_eq_false hne]
    rfl

/-- Who dispatched an event has returned. -/
theorem exists_call_of_event {e : ReloadEvent T R} (he : s.event i = some e) :
    ∃ c, s.calls[i]? = some c := by
  obtain ⟨c, hc, -⟩ := Option.bind_eq_some_iff.1 he
  exact ⟨c, hc⟩

/-- A snapshot displaces its own only at the start of the chain. -/
theorem Recorded.eq_zero_of_owner (h : Recorded s) (ha : s.log.chain[j + 1]? = some a)
    (hp : s.log.chain[j]? = some b) (howner : b.owner = a.owner) : j = 0 := by
  rcases j with - | j
  · rfl
  · have hsame := h.swap_inj hp ha howner
    omega

/-- The condition, where a call has swapped. -/
theorem initialiserFirst_iff {log : Log T R} (h0 : log.chain[0]? = some a)
    (h1 : log.chain[1]? = some b) : InitialiserFirst log ↔ b.owner = a.owner := by
  have hswap : log.swaps.head? = some b := by
    rw [List.head?_eq_getElem?, getElem?_swaps, h1]
  rw [InitialiserFirst, hswap, List.head?_eq_getElem?, h0, Option.map_some, Option.map_some,
    Option.some_inj]

/-- A chain starts with the call that won the `get_or_init`. -/
theorem OneChain.initialiserFirst (hchain : OneChain s) (h : Recorded s) (hquiet : s.Quiet) :
    InitialiserFirst s.log := by
  obtain ⟨i, ⟨e, he, hnone⟩, -⟩ := hchain.first
  obtain ⟨c, hc⟩ := exists_call_of_event he
  obtain ⟨j, p, e', hown, hp, he', -, hprevious⟩ := h.returned hquiet hc
  obtain rfl : e = e' := Option.some.inj (he.symm.trans he')
  have howner : p.owner = i := by
    by_contra hne
    rw [if_neg hne, hnone] at hprevious
    cases hprevious
  obtain rfl : j = 0 := h.eq_zero_of_owner hown hp howner
  exact (initialiserFirst_iff hp hown).2 howner.symm

/-- If the call that won the `get_or_init` swaps first, the events are one chain. -/
theorem InitialiserFirst.oneChain (hfirst : InitialiserFirst s.log) (h : Recorded s)
    (hquiet : s.Quiet) (hcalls : s.calls ≠ []) : OneChain s := by
  obtain ⟨c₀, hc₀⟩ : ∃ c, s.calls[0]? = some c :=
    ⟨_, List.getElem?_eq_getElem (List.length_pos_iff.2 hcalls)⟩
  obtain ⟨j₀, -, -, hown₀, -⟩ := h.returned hquiet hc₀
  obtain ⟨hlt₀, -⟩ := List.getElem?_eq_some_iff.1 hown₀
  obtain ⟨a, ha⟩ : ∃ a, s.log.chain[0]? = some a := ⟨_, List.getElem?_eq_getElem (by omega)⟩
  obtain ⟨b, hb⟩ : ∃ b, s.log.chain[1]? = some b := ⟨_, List.getElem?_eq_getElem (by omega)⟩
  have hwinner : b.owner = a.owner := (initialiserFirst_iff ha hb).1 hfirst
  -- The event of the call whose snapshot is at a place of the chain.
  have hevent : ∀ {j : Nat} {x p : Arc T}, s.log.chain[j + 1]? = some x →
      s.log.chain[j]? = some p → ∃ e, s.event x.owner = some e ∧
        e.previous = if p.owner = x.owner then none else some p := by
    intro j x p hx hp
    obtain ⟨c, hc, -, -⟩ := h.swap_at hx
    obtain ⟨k, q, e, hk, hq, he, -, hprevious⟩ := h.returned hquiet hc
    obtain rfl : j = k := h.swap_inj hx hk rfl
    obtain rfl : p = q := Option.some.inj (hp.symm.trans hq)
    exact ⟨e, he, hprevious⟩
  refine ⟨?_, fun i e p he hp ↦ ?_, fun x hx hlast ↦ ?_⟩
  · obtain ⟨e, he, hprevious⟩ := hevent hb ha
    rw [if_pos hwinner.symm] at hprevious
    refine ⟨b.owner, ⟨e, he, hprevious⟩, ?_⟩
    rintro i ⟨e', he', hnone⟩
    obtain ⟨c, hc⟩ := exists_call_of_event he'
    obtain ⟨j, p, e'', hown, hp, he'', -, hprevious'⟩ := h.returned hquiet hc
    obtain rfl : e' = e'' := Option.some.inj (he'.symm.trans he'')
    have howner : p.owner = i := by
      by_contra hne
      rw [if_neg hne, hnone] at hprevious'
      cases hprevious'
    obtain rfl : j = 0 := h.eq_zero_of_owner hown hp howner
    rw [hb] at hown
    rw [Option.some.inj hown]
    rfl
  · obtain ⟨c, hc⟩ := exists_call_of_event he
    obtain ⟨j, q, e', hown, hq, he', hcurrent, hprevious⟩ := h.returned hquiet hc
    obtain rfl : e = e' := Option.some.inj (he.symm.trans he')
    rw [hp] at hprevious
    split at hprevious
    · cases hprevious
    · obtain rfl := Option.some.inj hprevious
      exact ⟨j, by rw [getElem?_swaps, hown, hcurrent], hq⟩
  · obtain ⟨k, hk⟩ := List.mem_iff_getElem?.1 hx
    rw [getElem?_swaps] at hk
    obtain ⟨hlt, -⟩ := List.getElem?_eq_some_iff.1 hk
    have hmore : k + 2 < s.log.chain.length := by
      by_contra hge
      refine hlast ?_
      rw [h.inner, List.getLast?_eq_getElem?, ← hk]
      congr 1
      omega
    obtain ⟨y, hy⟩ : ∃ y, s.log.chain[k + 1 + 1]? = some y := ⟨_, List.getElem?_eq_getElem hmore⟩
    obtain ⟨e, he, hprevious⟩ := hevent hy hk
    have hne : x.owner ≠ y.owner := by
      intro howner
      have hzero := h.eq_zero_of_owner hy hk howner
      omega
    rw [if_neg hne] at hprevious
    refine ⟨y.owner, ⟨e, he, hprevious⟩, ?_⟩
    rintro i ⟨e', he', hsome⟩
    obtain ⟨c, hc⟩ := exists_call_of_event he'
    obtain ⟨j, p, e'', hown, hp, he'', -, hprevious'⟩ := h.returned hquiet hc
    obtain rfl : e' = e'' := Option.some.inj (he'.symm.trans he'')
    rw [hsome] at hprevious'
    split at hprevious'
    · cases hprevious'
    · next hother =>
      obtain rfl := Option.some.inj hprevious'
      -- It displaced what was swapped in, not what `get_or_init` put there.
      have hj : j = k + 1 := by
        rcases j with - | j
        · obtain rfl : x = a := Option.some.inj (hp.symm.trans ha)
          obtain rfl : 0 = k := h.swap_inj hb hk hwinner
          rw [hb] at hown
          have howner : b.owner = i := by
            rw [Option.some.inj hown]
            rfl
          exact absurd (hwinner.symm.trans howner) hother
        · rw [h.swap_inj hp hk rfl]
      rw [hj, hy] at hown
      rw [Option.some.inj hown]
      rfl

end Swaps

variable [DecidableEq W]

/-- **The events are one chain exactly when the call that won the `get_or_init` swaps first.** -/
theorem oneChain_iff {s : System T R W} {turns : List (Turn T R W)}
    (h : run System.step System.new turns = some s) (hquiet : s.Quiet) (hcalls : s.calls ≠ []) :
    OneChain s ↔ InitialiserFirst s.log :=
  ⟨fun hchain ↦ hchain.initialiserFirst (recorded_of_run h) hquiet,
    fun hfirst ↦ hfirst.oneChain (recorded_of_run h) hquiet hcalls⟩

/-- Two calls are made. -/
def twoCalls (a b : T) (p q : R) : List (Turn T R W) := [.begin_ a p, .begin_ b q]

/-- A call takes some steps. -/
def steps (i now n : Nat) : List (Turn T R W) := List.replicate n (.store i now)

/-- A call by itself, from its first step to its last. -/
def stored (i : Nat) : List (Turn T R W) := steps i i 9

/-- One call after the other. -/
theorem oneChain_sequential : ∃ s : System String Unit Nat,
    run System.step System.new
        (twoCalls "first" "second" () () ++ stored 0 ++ stored 1) = some s ∧
      (OneChain s ↔ InitialiserFirst s.log) := by
  have hruns : (run System.step (System.new : System String Unit Nat)
      (twoCalls "first" "second" () () ++ stored 0 ++ stored 1)).map (fun s ↦
        (s.calls.all fun c ↦ decide (c.point = .returned), s.calls.length)) = some (true, 2) := by
    decide +kernel
  obtain ⟨s, hrun, hread⟩ := Option.map_eq_some_iff.1 hruns
  obtain ⟨hall, hcalls⟩ := Prod.mk.inj hread
  have hne : s.calls ≠ [] := by
    intro hnil
    rw [hnil] at hcalls
    cases hcalls
  exact ⟨s, hrun, oneChain_iff hrun (quiet_of_all hall) hne⟩

/-- **No install is the first.** Both calls find a slot, and the one that did not make it swaps
before the one that did. -/
theorem not_oneChain_of_race :
    let turns : List (Turn String Unit Nat) :=
      twoCalls "first" "second" () () ++ steps 0 0 1 ++ steps 1 1 2 ++ steps 0 2 8 ++
        steps 1 3 7
    ∃ s : System String Unit Nat, run System.step System.new turns = some s ∧ s.Quiet ∧
      s.calls ≠ [] ∧ s.calls.all (fun c ↦ (c.event.bind ReloadEvent.previous).isSome) = true ∧
        ¬ OneChain s := by
  intro turns
  have hruns : (run System.step (System.new : System String Unit Nat) turns).map (fun s ↦
      (s.calls.all fun c ↦ decide (c.point = .returned), s.calls.length,
        s.calls.all fun c ↦ (c.event.bind ReloadEvent.previous).isSome,
          s.log.swaps.head?.map Arc.owner, s.log.chain.head?.map Arc.owner)) =
      some (true, 2, true, some 1, some 0) := by
    decide +kernel
  obtain ⟨s, hrun, hread⟩ := Option.map_eq_some_iff.1 hruns
  simp only [Prod.mk.injEq] at hread
  obtain ⟨hall, hlength, hsome, hswap, hinitial⟩ := hread
  have hne : s.calls ≠ [] := by
    intro hnil
    rw [hnil] at hlength
    cases hlength
  refine ⟨s, hrun, quiet_of_all hall, hne, hsome, fun hchain ↦ ?_⟩
  have hsame := hchain.initialiserFirst (recorded_of_run hrun) (quiet_of_all hall)
  rw [InitialiserFirst, hswap, hinitial] at hsame
  cases hsame

end DynamicConfig.Cell
