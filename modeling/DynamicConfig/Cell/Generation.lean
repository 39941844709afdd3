import DynamicConfig.Cell.Chain

/-!
# The generation lags the value

The metadata is published after the swap, by a compare-and-swap that takes its number from what it
replaces. So the numbers come in order, each once, whatever the order of the swaps; and there are
never more of them than swaps, so a reader that reads the number first and the snapshot second gets
the snapshot of that install or of a later one: `Section::installed`.

The number is a `u64`. After as many installs as a word has values it starts again at zero
(`not_numbered_of_word`).
-/

namespace DynamicConfig.Cell

open Remote (word)
open Transition (run)

variable {T R W : Type}

/-- `Section::installed`: the generation a reader read, next to the document it loaded after. -/
def Reader.installed (reader : Reader T) : Option (Nat × Arc T) :=
  reader.document.join.map fun document ↦ (reader.generation, document)

/-- What holds of a reader. -/
structure ReaderRecord (log : Log T R) (reader : Reader T) : Prop where
  observed : reader.generation ≤ log.issued.length
  installed : ∀ n a, reader.installed = some (n, a) →
    n = 0 ∨ ∃ k, log.swaps[k]? = some a ∧ n ≤ k + 1

/-- What holds between turns. -/
structure Numbered (s : System T R W) : Prop where
  recorded : Recorded s
  readers : ∀ reader ∈ s.readers, ReaderRecord s.log reader

/-- What a reader saw stays true as the log goes on. -/
theorem ReaderRecord.mono {a b : Log T R} {reader : Reader T} (h : ReaderRecord a reader)
    (hle : a.Le b) : ReaderRecord b reader where
  observed := h.observed.trans hle.issued.length_le
  installed n x hx := by
    rcases h.installed n x hx with hzero | ⟨k, hk, hn⟩
    · exact Or.inl hzero
    · obtain ⟨rest, hrest⟩ := hle.chain
      rw [Log.swaps, List.getElem?_tail] at hk
      obtain ⟨hlt, -⟩ := List.getElem?_eq_some_iff.1 hk
      refine Or.inr ⟨k, ?_, hn⟩
      rw [Log.swaps, List.getElem?_tail, ← hrest, List.getElem?_append_left hlt, hk]

section Turns

variable {s t : System T R W}

/-- A reader reads the generation. -/
theorem Numbered.observe (h : Numbered s) :
    ReaderRecord s.log ⟨(s.cell.meta_.map fun m ↦ m.value.generation).getD 0, none⟩ where
  observed := by
    show (s.cell.meta_.map fun m ↦ m.value.generation).getD 0 ≤ _
    rw [h.recorded.published]
    exact Nat.mod_le _ _
  installed n a ha := nomatch ha

/-- A reader loads the cell, after it has read the generation. -/
theorem Numbered.load (h : Numbered s) {reader : Reader T} (hreader : ReaderRecord s.log reader) :
    ReaderRecord s.log { reader with document := some s.cell.inner } where
  observed := hreader.observed
  installed n a ha := by
    obtain ⟨document, hdocument, hpair⟩ := Option.map_eq_some_iff.1 ha
    obtain ⟨hn, rfl⟩ := Prod.mk.inj hpair
    have hinner : s.cell.inner = some document := hdocument
    have hbound : n ≤ s.log.swaps.length := by
      rw [← hn]
      exact hreader.observed.trans h.recorded.issued_le_swaps
    rcases Nat.eq_zero_or_pos n with hzero | hpos
    · exact Or.inl hzero
    · obtain ⟨x, hx, hlast⟩ := h.recorded.inner_of_swaps (hpos.trans_le hbound)
      obtain rfl : document = x := Option.some.inj (hinner.symm.trans hx)
      exact Or.inr ⟨s.log.swaps.length - 1, hlast, by omega⟩

variable [DecidableEq W]

/-- **One turn keeps the numbers and the readers.** -/
theorem Numbered.step (h : Numbered s) {turn : Turn T R W} (hstep : s.step turn = some t) :
    Numbered t := by
  refine ⟨h.recorded.step hstep, ?_⟩
  have hle := System.log_le_of_step hstep
  have hkept : ∀ reader ∈ s.readers, ReaderRecord t.log reader := fun reader hreader ↦
    (h.readers reader hreader).mono hle
  cases System.moves_of_step hstep with
  | generation =>
    intro reader hreader
    rcases List.mem_append.1 hreader with hold | hnew
    · exact hkept reader hold
    · obtain rfl := List.mem_singleton.1 hnew
      exact h.observe
  | current hr hfresh =>
    intro other hother
    rcases List.mem_or_eq_of_mem_set hother with hold | rfl
    · exact hkept other hold
    · exact h.load (h.readers _ (List.mem_of_getElem? hr))
  | _ => exact hkept

theorem numbered_of_run {turns : List (Turn T R W)}
    (h : run System.step System.new turns = some s) : Numbered s := by
  have hnew : Numbered (System.new : System T R W) :=
    ⟨recorded_new, fun reader hreader ↦ absurd hreader List.not_mem_nil⟩
  exact Transition.run_invariant (fun _ _ _ hstep hnumbered ↦ hnumbered.step hstep) h hnew

end Turns

/-- The numbers of the metadata that have been published, in order. -/
def Log.generations (log : Log T R) : List Nat := log.issued.map fun m ↦ m.value.generation

/-- The numbers of the first installs. -/
def upTo (k : Nat) : List Nat := List.range' 1 k

/-- Below a word, the numbers are the first ones. -/
theorem Recorded.generations_eq {s : System T R W} (h : Recorded s)
    (hbound : s.log.issued.length < word) : s.log.generations = upTo s.log.issued.length := by
  refine List.ext_getElem? fun j ↦ ?_
  rw [Log.generations, List.getElem?_map, upTo]
  rcases lt_or_ge j s.log.issued.length with hlt | hge
  · have hm := List.getElem?_eq_getElem hlt
    rw [hm, List.getElem?_range' hlt, Option.map_some, h.numbered j _ hm, Nat.mod_eq_of_lt (by omega)]
    congr 1
    omega
  · rw [List.getElem?_eq_none hge, List.getElem?_eq_none (by rw [List.length_range']; exact hge)]
    rfl

variable [DecidableEq W]

/-- **The generation lags the value and never leads it.** -/
theorem generation_lags {s : System T R W} {turns : List (Turn T R W)}
    (h : run System.step System.new turns = some s) :
    (s.log.issued.length < word → s.log.generations = upTo s.log.issued.length) ∧
      (s.log.issued.map Arc.owner).Nodup ∧
      (∀ m ∈ s.log.issued, ∃ c, s.calls[m.owner]? = some c ∧ c.installed = some m.value) ∧
      ∀ reader ∈ s.readers, ∀ n a, reader.installed = some (n, a) →
        n = 0 ∨ ∃ k, s.log.swaps[k]? = some a ∧ n ≤ k + 1 := by
  have hnumbered := numbered_of_run h
  have hrecorded := hnumbered.recorded
  refine ⟨hrecorded.generations_eq, hrecorded.issued.nodup, fun m hm ↦ ?_, fun reader hreader ↦
    (hnumbered.readers reader hreader).installed⟩
  obtain ⟨c, hc, hpast⟩ := (hrecorded.issued.mem_iff m.owner).1 (List.mem_map_of_mem hm)
  obtain ⟨m', hinstalled, hm'⟩ := (hrecorded.calls _ c hc).installed hpast
  have hsame : (⟨m.owner, m'⟩ : Arc SnapshotMeta) = m :=
    List.inj_on_of_nodup_map hrecorded.issued.nodup hm' hm rfl
  refine ⟨c, hc, hinstalled.trans ?_⟩
  rw [← hsame]

/-- A reader between the publications of two stores. -/
theorem generation_lags_between : ∃ s : System String Unit Nat,
    run System.step System.new
        (twoCalls "first" "second" () () ++ steps 0 0 4 ++ steps 1 1 1 ++
          (.generation :: steps 1 1 1 ++ [.current 0])) = some s ∧
      s.readers.map Reader.installed = [some (1, ⟨1, "second"⟩)] ∧
        (s.log.issued.length < word → s.log.generations = upTo s.log.issued.length) := by
  have hruns : (run System.step (System.new : System String Unit Nat)
      (twoCalls "first" "second" () () ++ steps 0 0 4 ++ steps 1 1 1 ++
        (.generation :: steps 1 1 1 ++ [.current 0]))).map
          (fun s ↦ s.readers.map Reader.installed) = some [some (1, ⟨1, "second"⟩)] := by
    decide +kernel
  obtain ⟨s, hrun, hread⟩ := Option.map_eq_some_iff.1 hruns
  exact ⟨s, hrun, hread, (generation_lags hrun).1⟩

/-! ### A word of installs -/

/-- One more install can always be made. -/
theorem exists_install (s : System T R W) (value : T) (reason : R) :
    ∃ turns t, run System.step s turns = some t ∧
      t.log.issued.length = s.log.issued.length + 1 := by
  have hnew : (s.calls ++ [StoreCall.new value reason])[s.calls.length]? =
      some (StoreCall.new value reason) := List.getElem?_concat_length
  obtain ⟨s₁, h₁, hcell₁, hcall₁, hlog₁⟩ := System.step_store
    (s := { s with calls := s.calls ++ [StoreCall.new value reason] }) (i := s.calls.length)
    0 hnew rfl
  obtain ⟨s₂, h₂, hcell₂, hcall₂, hlog₂⟩ := System.step_store 0 hcall₁ rfl
  obtain ⟨s₃, h₃, hcell₃, hcall₃, hlog₃⟩ := System.step_store 0 hcall₂ rfl
  have hsame : sameMeta s₂.cell.meta_ s₃.cell.meta_ = true := by
    rw [hcell₃]
    exact decide_eq_true rfl
  obtain ⟨s₄, h₄, -, -, hlog₄⟩ := System.step_store 0 hcall₃ (if_pos hsame)
  refine ⟨[.begin_ value reason, .store s.calls.length 0, .store s.calls.length 0,
    .store s.calls.length 0, .store s.calls.length 0], s₄, ?_, ?_⟩
  · have hbegin : s.step (.begin_ value reason) =
        some { s with calls := s.calls ++ [StoreCall.new value reason] } := rfl
    rw [Transition.run_cons, hbegin, Option.bind_some, Transition.run_cons, h₁, Option.bind_some,
      Transition.run_cons, h₂, Option.bind_some, Transition.run_cons, h₃, Option.bind_some,
      Transition.run_cons, h₄]
    rfl
  · have hissued : s₃.log.issued = s.log.issued := by
      rw [hlog₃, Log.after, hlog₂, Log.after, hlog₁]
      rfl
    rw [hlog₄, Log.after, ← hissued]
    exact List.length_append

/-- As many installs as one likes. -/
theorem exists_installs (value : T) (reason : R) (n : Nat) :
    ∃ (turns : List (Turn T R W)) (s : System T R W),
      run System.step System.new turns = some s ∧ s.log.issued.length = n := by
  induction n with
  | zero => exact ⟨[], System.new, rfl, rfl⟩
  | succ n ih =>
    obtain ⟨turns, s, hrun, hlength⟩ := ih
    obtain ⟨more, t, hmore, hlonger⟩ := exists_install s value reason
    exact ⟨turns ++ more, t, Transition.run_trans hrun hmore, by rw [hlonger, hlength]⟩

/-- **After a word of installs the number starts again.** -/
theorem not_numbered_of_word : ∃ (turns : List (Turn Unit Unit Nat)) (s : System Unit Unit Nat),
    run System.step System.new turns = some s ∧ s.log.issued.length = word ∧
      s.log.generations ≠ upTo s.log.issued.length := by
  obtain ⟨turns, s, hrun, hlength⟩ := exists_installs (W := Nat) () () word
  refine ⟨turns, s, hrun, hlength, fun hsame ↦ ?_⟩
  have hpos : 0 < word := by decide
  have hlast : word - 1 < s.log.issued.length := by omega
  have hm := List.getElem?_eq_getElem hlast
  have hnumber := (recorded_of_run hrun).numbered (word - 1) _ hm
  rw [Nat.sub_add_cancel hpos, Nat.mod_self] at hnumber
  have hread : s.log.generations[word - 1]? = some 0 := by
    rw [Log.generations, List.getElem?_map, hm, Option.map_some, hnumber]
  rw [hsame, upTo, List.getElem?_range' hlast] at hread
  have hzero := Option.some.inj hread
  omega

end DynamicConfig.Cell
