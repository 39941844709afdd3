import DynamicConfig.Tree.Path

/-!
# Filling one table of three

Three trees laid over each other show one tree, `stacked low own high`. A *fill* lays a single value
over the middle one, at a destination. What shows may change in more places than the destination: a
table is made of whatever leaf sits on the way to it, a leaf that stood in the middle tree hid what
the lowest one holds and hides it no longer, and the value may land on things that were there.

`Fitting` is the condition on a fill that excludes this, relative to the trees as they were before
any fill: no leaf shows on the way, and the value agrees with whatever of a *protected* set of paths
it lands on. `Kept.fill` is the step lemma: a fitting fill keeps every protected path and touches
nothing but the destinations. Where nothing lies over the middle tree the condition is necessary as
well (`Fitting.of_kept`).

A path is protected by the caller's choice; all that is asked is that something shows there.
-/

namespace LabelledTree

variable {κ τ α : Type} [DecidableEq κ]

/-- Three trees, each laid over the one before. -/
def stacked (low own high : LabelledTree κ τ α) : LabelledTree κ τ α :=
  (low.merge own).merge high

/-- Whether a tree laid over another settles what shows at a path. -/
def decides (t : LabelledTree κ τ α) (p : List κ) : Bool :=
  (t.peekAt p).isSome || t.blocks p

theorem peekAt_merge_of_decides {b : LabelledTree κ τ α} {p : List κ} (h : b.decides p = true)
    (a : LabelledTree κ τ α) : (a.merge b).peekAt p = b.peekAt p := by
  rw [peekAt_merge]
  rcases hb : b.peekAt p with - | x
  · rw [decides, hb] at h
    have hblocks : b.blocks p = true := h
    rw [hblocks]
    rfl
  · rfl

theorem peekAt_merge_of_not_decides {b : LabelledTree κ τ α} {p : List κ}
    (h : b.decides p = false) (a : LabelledTree κ τ α) : (a.merge b).peekAt p = a.peekAt p := by
  rw [decides, Bool.or_eq_false_iff] at h
  have hnone : b.peekAt p = none := Option.isSome_eq_false_iff.1 h.1 |> Option.isNone_iff_eq_none.1
  rw [peekAt_merge, hnone, h.2]
  rfl

/-- Over one and the same lower tree, equal readings show equally wherever something showed and
blocking has not increased. -/
theorem peekAt_merge_congr {a b b' : LabelledTree κ τ α} {p : List κ}
    (hpeek : b'.peekAt p = b.peekAt p) (hblocks : b.blocks p = false → b'.blocks p = false)
    (hshows : (a.merge b).peekAt p ≠ none) : (a.merge b').peekAt p = (a.merge b).peekAt p := by
  rw [peekAt_merge] at hshows ⊢
  rw [peekAt_merge, hpeek]
  rcases hb : b.peekAt p with - | x
  · rw [hb] at hshows
    rcases hbp : b.blocks p with - | -
    · rw [hblocks hbp]
    · rw [hbp] at hshows
      exact absurd rfl hshows
  · rfl

/-! ### One fill of a tree -/

/-- A tree with one value laid over it. -/
def filledAt (m t : τ) (own : LabelledTree κ τ α) (d : List κ) (v : LabelledTree κ τ α) :
    LabelledTree κ τ α :=
  own.merge (node t (chain m d v))

section OneFill

variable {m t : τ} {own : LabelledTree κ τ α} {d : List κ} {v : LabelledTree κ τ α}

/-- A path compares with the destination in one of three ways. -/
theorem prefix_cases (d p : List κ) :
    (∃ r, p = d ++ r) ∨ (∃ r, r ≠ [] ∧ d = p ++ r) ∨ (¬ d <+: p ∧ ¬ p <+: d) := by
  by_cases hdp : d <+: p
  · obtain ⟨r, rfl⟩ := hdp
    exact Or.inl ⟨r, rfl⟩
  · by_cases hpd : p <+: d
    · obtain ⟨r, rfl⟩ := hpd
      refine Or.inr (Or.inl ⟨r, ?_, rfl⟩)
      rintro rfl
      exact hdp ((List.append_nil p).symm ▸ List.prefix_refl p)
    · exact Or.inr (Or.inr ⟨hdp, hpd⟩)

theorem peekAt_filledAt_append (hd : d ≠ []) (r : List κ) :
    (filledAt m t own d v).peekAt (d ++ r) =
      (v.peekAt r).or (if v.blocks r then none else own.peekAt (d ++ r)) := by
  rw [filledAt, peekAt, get_merge_chain_append m t own hd, peekAt, peekAt]
  rcases v.get r with - | w
  · show Option.map peek (if v.blocks r then none else own.get (d ++ r)) = _
    split <;> rfl
  · exact congrArg some (peek_mergeOver _ w)

theorem peekAt_filledAt_above {p r : List κ} (hr : r ≠ []) (hp : d = p ++ r) :
    (filledAt m t own d v).peekAt p = some none :=
  peekAt_merge_chain_of_prefix m t own v hp hr

theorem get_filledAt_off (hd : d ≠ []) {p : List κ} (hdp : ¬ d <+: p) (hpd : ¬ p <+: d) :
    (filledAt m t own d v).get p = own.get p :=
  get_merge_chain_of_not_prefix m t own hd v hdp hpd

/-- Off the destination, or at a place of it the value leaves open, a fill blocks nothing new. -/
theorem blocks_filledAt_eq_false (hd : d ≠ []) {p : List κ}
    (hopen : ∀ r, p = d ++ r → v.blocks r = false) (hpd : ∀ r, r ≠ [] → d ≠ p ++ r)
    (h : own.blocks p = false) : (filledAt m t own d v).blocks p = false := by
  refine blocks_merge_eq_false h ?_
  rcases prefix_cases d p with ⟨r, rfl⟩ | ⟨r, hr, hp⟩ | ⟨hdp, hpd'⟩
  · rw [blocks_chain_append m t hd]
    exact hopen r rfl
  · exact absurd hp (hpd r hr)
  · obtain ⟨-, hblocks⟩ := get_chain_of_not_prefix m t hd v hdp hpd'
    exact hblocks

end OneFill

/-! ### Runs of fills -/

section Runs

variable (low own₀ high : LabelledTree κ τ α) (protected_ : List κ → Prop)

/-- What several fills have kept: every protected path shows what it showed, and what shows
differently lies at or below a destination, or is a table that was made on the way to one. -/
structure Kept (ds : List (List κ)) (own : LabelledTree κ τ α) : Prop where
  supplied : ∀ p, protected_ p → (stacked low own high).peekAt p = (stacked low own₀ high).peekAt p
  elsewhere : ∀ p, (stacked low own high).peekAt p ≠ (stacked low own₀ high).peekAt p →
    (∃ d ∈ ds, d <+: p) ∨
      ((∃ d ∈ ds, p <+: d) ∧ (stacked low own₀ high).peekAt p = none ∧
        (stacked low own high).peekAt p = some none)

/-- The condition on one fill, after fills of `ds`: a leaf on the way to the destination is none
that is protected, and sits where an earlier fill has been; and where the value lands on a protected
path it shows what shows there, or leaves it alone. -/
structure Fitting (ds : List (List κ)) (d : List κ) (v : LabelledTree κ τ α) : Prop where
  above : ∀ q r x, d = q ++ r → r ≠ [] → (low.merge own₀).peekAt q = some (some x) →
    ¬ protected_ q ∧ ∃ e ∈ ds, e <+: q
  landing : ∀ r, protected_ (d ++ r) → v.blocks r = false ∧
    (v.peekAt r = none ∨ v.peekAt r = (stacked low own₀ high).peekAt (d ++ r))

/-- Where the leaves of the filled tree come from. -/
def LeavesFrom (ds : List (List κ)) (own : LabelledTree κ τ α) : Prop :=
  ∀ q x, own.peekAt q = some (some x) → own₀.peekAt q = some (some x) ∨ ∃ d ∈ ds, d <+: q

variable {low own₀ high protected_} {ds : List (List κ)} {own : LabelledTree κ τ α}

theorem kept_nil : Kept low own₀ high protected_ [] own₀ where
  supplied _ _ := rfl
  elsewhere _ h := absurd rfl h

theorem LeavesFrom.fill (h : LeavesFrom own₀ ds own) (m t : τ) {d : List κ} (hd : d ≠ [])
    (v : LabelledTree κ τ α) : LeavesFrom own₀ (ds ++ [d]) (filledAt m t own d v) := by
  intro q x hq
  rcases prefix_cases d q with ⟨r, rfl⟩ | ⟨r, hr, hp⟩ | ⟨hdp, hpd⟩
  · exact Or.inr ⟨d, by simp, List.prefix_append d r⟩
  · rw [peekAt_filledAt_above hr hp] at hq
    cases hq
  · rw [peekAt, get_filledAt_off hd hdp hpd] at hq
    rcases h q x hq with hq | ⟨e, he, heq⟩
    · exact Or.inl hq
    · exact Or.inr ⟨e, List.mem_append_left _ he, heq⟩

/-- **Step, at the protected paths.** -/
theorem Kept.supplied_fill (h : Kept low own₀ high protected_ ds own)
    (hshows : ∀ p, protected_ p → (stacked low own₀ high).peekAt p ≠ none) (m t : τ) {d : List κ}
    (hd : d ≠ []) {v : LabelledTree κ τ α} (hfit : Fitting low own₀ high protected_ ds d v)
    {p : List κ} (hp : protected_ p) :
    (stacked low (filledAt m t own d v) high).peekAt p = (stacked low own₀ high).peekAt p := by
  rcases hdecides : high.decides p with - | -
  · have hown := h.supplied p hp
    have hsome := hshows p hp
    rw [stacked, peekAt_merge_of_not_decides hdecides] at hown
    rw [stacked, peekAt_merge_of_not_decides hdecides]
    rcases prefix_cases d p with ⟨r, rfl⟩ | ⟨r, hr, hpr⟩ | ⟨hdp, hpd⟩
    · obtain ⟨hopen, hlands⟩ := hfit.landing r hp
      have hfilled : (filledAt m t own d v).peekAt (d ++ r) =
          (v.peekAt r).or (own.peekAt (d ++ r)) := by
        rw [peekAt_filledAt_append hd, hopen]
        rfl
      rcases hv : v.peekAt r with - | y
      · rw [hv] at hfilled
        rw [← hown]
        refine peekAt_merge_congr hfilled (fun hblocks ↦ ?_) (hown ▸ hsome)
        refine blocks_filledAt_eq_false hd (fun r' hr' ↦ ?_) (fun r' hr' hsplit ↦ ?_) hblocks
        · rw [← List.append_cancel_left hr']
          exact hopen
        · have hlen := congrArg List.length hsplit
          have hpos := List.length_pos_of_ne_nil hr'
          rw [List.length_append, List.length_append] at hlen
          omega
      · have hsame : some y = (stacked low own₀ high).peekAt (d ++ r) := by
          rcases hlands with hnone | hsame
          · rw [hnone] at hv
            cases hv
          · rw [← hv]
            exact hsame
        rw [peekAt_merge, hfilled, hv]
        exact hsame
    · have htable : (stacked low own₀ high).peekAt p = some none := by
        rcases hpeek : (stacked low own₀ high).peekAt p with - | x | x
        · exact absurd hpeek hsome
        · rfl
        · rw [stacked, peekAt_merge_of_not_decides hdecides] at hpeek
          exact absurd hp (hfit.above p r x hpr hr hpeek).1
      rw [htable, peekAt_merge, peekAt_filledAt_above hr hpr]
      rfl
    · have hsame : (filledAt m t own d v).peekAt p = own.peekAt p := by
        rw [peekAt, get_filledAt_off hd hdp hpd]
        rfl
      rw [← hown]
      refine peekAt_merge_congr hsame (fun hblocks ↦ ?_) (hown ▸ hsome)
      refine blocks_filledAt_eq_false hd (fun r' hr' ↦ ?_) (fun r' _ hsplit ↦ ?_) hblocks
      · exact absurd (hr' ▸ List.prefix_append d r') hdp
      · exact absurd (hsplit ▸ List.prefix_append p r') hpd
  · rw [stacked, stacked, peekAt_merge_of_decides hdecides, peekAt_merge_of_decides hdecides]

/-- **Step, everywhere else.** -/
theorem Kept.elsewhere_fill (h : Kept low own₀ high protected_ ds own)
    (hleaves : LeavesFrom own₀ ds own) (m t : τ) {d : List κ}
    (hd : d ≠ []) {v : LabelledTree κ τ α} (hfit : Fitting low own₀ high protected_ ds d v)
    {p : List κ} (hp : (stacked low (filledAt m t own d v) high).peekAt p ≠
      (stacked low own₀ high).peekAt p) :
    (∃ e ∈ ds ++ [d], e <+: p) ∨
      ((∃ e ∈ ds ++ [d], p <+: e) ∧ (stacked low own₀ high).peekAt p = none ∧
        (stacked low (filledAt m t own d v) high).peekAt p = some none) := by
  have hearlier : (∃ e ∈ ds, e <+: p) → ∃ e ∈ ds ++ [d], e <+: p := by
    rintro ⟨e, he, hep⟩
    exact ⟨e, List.mem_append_left _ he, hep⟩
  rcases hdecides : high.decides p with - | -
  · rcases prefix_cases d p with ⟨r, rfl⟩ | ⟨r, hr, hpr⟩ | ⟨hdp, hpd⟩
    · exact Or.inl ⟨d, by simp, List.prefix_append d r⟩
    · have hmade : (stacked low (filledAt m t own d v) high).peekAt p = some none := by
        rw [stacked, peekAt_merge_of_not_decides hdecides, peekAt_merge,
          peekAt_filledAt_above hr hpr]
        rfl
      rcases hpeek : (stacked low own₀ high).peekAt p with - | x | x
      · exact Or.inr ⟨⟨d, by simp, hpr ▸ List.prefix_append p r⟩, rfl, hmade⟩
      · exact absurd (hmade.trans hpeek.symm) hp
      · rw [stacked, peekAt_merge_of_not_decides hdecides] at hpeek
        exact Or.inl (hearlier (hfit.above p r x hpr hr hpeek).2)
    · -- Off the destination only a leaf that went from above the path can make a difference.
      have hsame : (filledAt m t own d v).peekAt p = own.peekAt p := by
        rw [peekAt, get_filledAt_off hd hdp hpd]
        rfl
      have hopen : own.blocks p = false → (filledAt m t own d v).blocks p = false := fun hblocks ↦
        blocks_filledAt_eq_false hd (fun r' hr' ↦ absurd (hr' ▸ List.prefix_append d r') hdp)
          (fun r' _ hsplit ↦ absurd (hsplit ▸ List.prefix_append p r') hpd) hblocks
      by_cases hown : (stacked low own high).peekAt p = (stacked low own₀ high).peekAt p
      · rw [← hown, stacked, stacked, peekAt_merge_of_not_decides hdecides,
          peekAt_merge_of_not_decides hdecides, peekAt_merge, peekAt_merge, hsame] at hp
        have hblocks : own.blocks p = true := by
          by_contra hopen'
          rw [Bool.not_eq_true] at hopen'
          rw [hopen hopen', hopen'] at hp
          exact hp rfl
        obtain ⟨q, r, c, rfl, hr, hc, hleaf⟩ := blocks_eq_true_iff.1 hblocks
        obtain ⟨x, hx⟩ : ∃ x, own.peekAt q = some (some x) := by
          cases c with
          | leaf s x => exact ⟨x, by rw [peekAt, hc]; rfl⟩
          | node s es => cases hleaf
        have hqd : ∃ r', r' ≠ [] ∧ d = q ++ r' := by
          rcases prefix_cases d q with ⟨r', rfl⟩ | hq | ⟨hdq, hqd⟩
          · rw [List.append_assoc] at hdp
            exact absurd (List.prefix_append d _) hdp
          · exact hq
          · have hstill : (filledAt m t own d v).blocks (q ++ r) = true :=
              blocks_eq_true_iff.2 ⟨q, r, c, rfl, hr, by rw [get_filledAt_off hd hdq hqd, hc], hleaf⟩
            rw [hstill, hblocks] at hp
            exact absurd rfl hp
        obtain ⟨r', hr', hdq⟩ := hqd
        have hfrom : ∃ e ∈ ds, e <+: q := by
          rcases hleaves q x hx with hq₀ | hfilled
          · have hlow : (low.merge own₀).peekAt q = some (some x) := by
              rw [peekAt_merge, hq₀]
              rfl
            exact (hfit.above q r' x hdq hr' hlow).2
          · exact hfilled
        obtain ⟨e, he, heq⟩ := hfrom
        exact Or.inl (hearlier ⟨e, he, heq.trans (List.prefix_append q r)⟩)
      · rcases h.elsewhere p hown with hbelow | ⟨⟨e, he, hpe⟩, hnone, htable⟩
        · exact Or.inl (hearlier hbelow)
        · refine Or.inr ⟨⟨e, List.mem_append_left _ he, hpe⟩, hnone, ?_⟩
          rw [stacked, peekAt_merge_of_not_decides hdecides] at htable ⊢
          rw [← htable]
          exact peekAt_merge_congr hsame hopen (by rw [htable]; exact Option.some_ne_none none)
  · rw [stacked, stacked, peekAt_merge_of_decides hdecides, peekAt_merge_of_decides hdecides] at hp
    exact absurd rfl hp

/-- **A fitting fill keeps what was kept.** -/
theorem Kept.fill (h : Kept low own₀ high protected_ ds own) (hleaves : LeavesFrom own₀ ds own)
    (hshows : ∀ p, protected_ p → (stacked low own₀ high).peekAt p ≠ none) (m t : τ) {d : List κ}
    (hd : d ≠ []) {v : LabelledTree κ τ α} (hfit : Fitting low own₀ high protected_ ds d v) :
    Kept low own₀ high protected_ (ds ++ [d]) (filledAt m t own d v) where
  supplied _ hp := h.supplied_fill hshows m t hd hfit hp
  elsewhere _ hp := h.elsewhere_fill hleaves m t hd hfit hp

/-- **A fill that keeps everything is fitting**, where nothing lies over the filled tree. -/
theorem Fitting.of_kept (hhigh : ∀ p, p ≠ [] → high.decides p = false) (hroot : own₀.peek = none)
    (hshows : ∀ p, protected_ p → (stacked low own₀ high).peekAt p ≠ none) (m t : τ) {d : List κ}
    (hd : d ≠ []) {v : LabelledTree κ τ α}
    (h : Kept low own₀ high protected_ (ds ++ [d]) (filledAt m t own d v)) :
    Fitting low own₀ high protected_ ds d v where
  above := by
    intro q r x hq hr hleaf
    have hqne : q ≠ [] := by
      rintro rfl
      rw [peekAt, get_nil, Option.map_some, peek_merge, hroot] at hleaf
      cases hleaf
    have hbefore : (stacked low own₀ high).peekAt q = some (some x) := by
      rw [stacked, peekAt_merge_of_not_decides (hhigh q hqne), hleaf]
    have hafter : (stacked low (filledAt m t own d v) high).peekAt q = some none := by
      rw [stacked, peekAt_merge_of_not_decides (hhigh q hqne), peekAt_merge,
        peekAt_filledAt_above hr hq]
      rfl
    have hchanged : (stacked low (filledAt m t own d v) high).peekAt q ≠
        (stacked low own₀ high).peekAt q := by
      rw [hbefore, hafter]
      intro hsome
      cases hsome
    refine ⟨fun hp ↦ hchanged (h.supplied q hp), ?_⟩
    rcases h.elsewhere q hchanged with ⟨e, he, heq⟩ | ⟨-, hnone, -⟩
    · rcases List.mem_append.1 he with he | he
      · exact ⟨e, he, heq⟩
      · -- The destination itself is no prefix of a path strictly above it.
        obtain rfl := List.mem_singleton.1 he
        have hlen := heq.length_le
        have hpos := List.length_pos_of_ne_nil hr
        rw [hq, List.length_append] at hlen
        omega
    · rw [hbefore] at hnone
      cases hnone
  landing := by
    intro r hp
    have hne : d ++ r ≠ [] := by
      intro hnil
      exact hd (List.append_eq_nil_iff.1 hnil).1
    have hsame := h.supplied _ hp
    have hsome := hshows _ hp
    rw [← hsame, stacked, peekAt_merge_of_not_decides (hhigh _ hne), peekAt_merge] at hsome
    rw [stacked, peekAt_merge_of_not_decides (hhigh _ hne), peekAt_merge,
      peekAt_filledAt_append hd] at hsame
    rw [peekAt_filledAt_append hd] at hsome
    rcases hv : v.peekAt r with - | y
    · refine ⟨?_, Or.inl rfl⟩
      by_contra hblocks
      rw [Bool.not_eq_false] at hblocks
      have hchain : (filledAt m t own d v).blocks (d ++ r) = true := by
        obtain ⟨q, r', c, rfl, hr', hc, hleaf⟩ := blocks_eq_true_iff.1 hblocks
        refine blocks_eq_true_iff.2 ⟨d ++ q, r', c, (List.append_assoc d q r').symm, hr', ?_, hleaf⟩
        rw [filledAt, get_merge_chain_append m t own hd, hc]
        cases c with
        | leaf s x => exact congrArg some (mergeOver_leaf _ s x)
        | node s es => cases hleaf
      rw [hv, hblocks, hchain] at hsome
      exact hsome rfl
    · rw [hv] at hsame
      exact ⟨blocks_eq_false_of_peekAt hv, Or.inr hsame⟩

end Runs

end LabelledTree
