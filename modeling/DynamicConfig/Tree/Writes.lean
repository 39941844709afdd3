import DynamicConfig.Tree.Shown
import Mathlib.Data.List.Induction
import Mathlib.Data.List.Pairwise

/-!
# Several paths written one after the other

A write at a path decides three kinds of positions: at and below the path there is the value, and
above it a table, whatever was there. Everywhere else nothing changes, also where a leaf above the path
had to go, since nothing shows below a leaf. So what several writes come to can be read off the last
write that has to do with a position (`peekAt_insertPaths`).
-/

namespace LabelledTree

variable {κ τ α : Type} [DecidableEq κ]

/-- Whether a write at one path has to do with a position: one is above the other, or they are the
same. -/
def touches (p x : List κ) : Bool := decide (p <+: x ∨ x <+: p)

/-- What a position shows right after a write that has to do with it. -/
def shownBy (p : List κ) (v : LabelledTree κ τ α) (x : List κ) : Option (Option α) :=
  if p <+: x then v.peekAt (x.drop p.length) else some none

/-- A position is below a path, above it or beside it, and that is how a write is read. -/
theorem eq_of_touches {p x : List κ} {v : LabelledTree κ τ α} {shown before : Option (Option α)}
    (hbelow : ∀ r, p ++ r = x → shown = v.peekAt r)
    (habove : ∀ r, r ≠ [] → x ++ r = p → shown = some none)
    (hbeside : ¬ p <+: x → ¬ x <+: p → shown = before) :
    shown = if touches p x then shownBy p v x else before := by
  rw [touches, shownBy]
  by_cases hpx : p <+: x
  · rw [if_pos (decide_eq_true (Or.inl hpx)), if_pos hpx]
    obtain ⟨r, rfl⟩ := hpx
    rw [List.drop_left]
    exact hbelow r rfl
  · by_cases hxp : x <+: p
    · rw [if_pos (decide_eq_true (Or.inr hxp)), if_neg hpx]
      obtain ⟨r, hr⟩ := hxp
      refine habove r ?_ hr
      rintro rfl
      rw [List.append_nil] at hr
      exact hpx (hr ▸ List.prefix_rfl)
    · rw [if_neg (by simpa using ⟨hpx, hxp⟩)]
      exact hbeside hpx hxp

/-- Above what is written there are tables. -/
theorem peekAt_insertPath_above (d t : τ) (es : List (κ × LabelledTree κ τ α)) {x r : List κ}
    (hr : r ≠ []) (v : LabelledTree κ τ α) :
    (node t (insertPath d es (x ++ r) v)).peekAt x = some none := by
  have hp : x ++ r ≠ [] := List.append_ne_nil_of_right_ne_nil x hr
  have hshown : (node t (insertPath d es (x ++ r) v)).peekAt (x ++ r) = some v.peek := by
    have hget := get_insertPath_append d t es hp v []
    rw [List.append_nil, get_nil] at hget
    rw [peekAt, hget]
    rfl
  exact peekAt_of_append hr hshown

/-- Beside it nothing changes. -/
theorem peekAt_insertPath_beside (d t : τ) (es : List (κ × LabelledTree κ τ α)) {p x : List κ}
    (v : LabelledTree κ τ α) (hpx : ¬ p <+: x) (hxp : ¬ x <+: p) :
    (node t (insertPath d es p v)).peekAt x = (node t es).peekAt x := by
  induction p generalizing t es x with
  | nil => exact absurd List.nil_prefix hpx
  | cons k ks ih =>
    obtain ⟨m, ms, rfl⟩ : ∃ m ms, x = m :: ms := by
      rcases x with - | ⟨m, ms⟩
      · exact absurd List.nil_prefix hxp
      · exact ⟨m, ms, rfl⟩
    rw [peekAt_node_cons, peekAt_node_cons]
    by_cases hmk : m = k
    · subst hmk
      rw [List.cons_prefix_cons] at hpx hxp
      have hks : ks ≠ [] := by
        rintro rfl
        exact hpx ⟨rfl, List.nil_prefix⟩
      obtain ⟨l, ls, rfl⟩ := List.exists_cons_of_ne_nil hks
      have hms : ms ≠ [] := by
        rintro rfl
        exact hxp ⟨rfl, List.nil_prefix⟩
      obtain ⟨n, ns, rfl⟩ := List.exists_cons_of_ne_nil hms
      have hbelow : ∀ s sub, (node s (insertPath d sub (l :: ls) v)).peekAt (n :: ns) =
          (node s sub).peekAt (n :: ns) := fun s sub ↦
        ih s sub (fun h ↦ hpx ⟨rfl, h⟩) fun h ↦ hxp ⟨rfl, h⟩
      rw [insertPath]
      split
      · next s sub hlook =>
        rw [Entries.lookup_insert_self, hlook]
        exact hbelow s sub
      · next hno =>
        rw [Entries.lookup_insert_self, Option.bind_some, hbelow d []]
        rcases hlook : es.lookup m with - | ⟨s, w⟩ | ⟨s, sub⟩
        · rfl
        · rfl
        · exact absurd hlook (hno s sub)
    · have hother : (insertPath d es (k :: ks) v).lookup m = es.lookup m := by
        rcases ks with - | ⟨l, ls⟩
        · rw [insertPath, Entries.lookup_insert_of_ne hmk]
        · rw [insertPath]
          split <;> rw [Entries.lookup_insert_of_ne hmk]
      rw [hother]

/-- **What one write shows**, at every position. -/
theorem peekAt_insertPath_eq (d t : τ) (es : List (κ × LabelledTree κ τ α)) {p : List κ}
    (hp : p ≠ []) (v : LabelledTree κ τ α) (x : List κ) :
    (node t (insertPath d es p v)).peekAt x =
      if touches p x then shownBy p v x else (node t es).peekAt x := by
  refine eq_of_touches ?below ?above (peekAt_insertPath_beside d t es v)
  case below =>
    rintro r rfl
    rw [peekAt, get_insertPath_append d t es hp]
    rfl
  case above =>
    rintro r hr rfl
    exact peekAt_insertPath_above d t es hr v

/-- **What one merge shows**, where the value decides all there is below the path: as if it were
written. -/
theorem peekAt_merge_chain_eq (d t : τ) {a : LabelledTree κ τ α} {p : List κ} (hp : p ≠ [])
    {v : LabelledTree κ τ α}
    (hbelow : ∀ r, (a.merge (node t (chain d p v))).peekAt (p ++ r) = v.peekAt r) (x : List κ) :
    (a.merge (node t (chain d p v))).peekAt x =
      if touches p x then shownBy p v x else a.peekAt x := by
  refine eq_of_touches ?below ?above ?beside
  case below =>
    rintro r rfl
    exact hbelow r
  case above =>
    intro r hr hx
    exact peekAt_merge_chain_of_prefix d t a v hx.symm hr
  case beside =>
    intro hpx hxp
    rw [peekAt, get_merge_chain_of_not_prefix d t a hp _ hpx hxp]
    rfl

/-- A leaf decides it. -/
theorem peekAt_merge_chain_leaf (d s t : τ) (a : LabelledTree κ τ α) {p : List κ} (hp : p ≠ []) (v : α)
    (x : List κ) :
    (a.merge (node t (chain d p (leaf s v)))).peekAt x =
      if touches p x then shownBy p (leaf s v : LabelledTree κ τ α) x else a.peekAt x := by
  refine peekAt_merge_chain_eq d t hp (fun r ↦ ?_) x
  rw [peekAt, get_merge_chain_append d t a hp]
  rcases r with - | ⟨k, ks⟩
  · rw [get_nil]
    exact congrArg (fun b ↦ some b.peek) (mergeOver_leaf (a.get (p ++ [])) s v)
  · rw [get_leaf_cons, blocks_leaf_cons]
    rfl

/-- So does any value where nothing was at the path. -/
theorem peekAt_merge_chain_of_none (d t : τ) {a : LabelledTree κ τ α} {p : List κ} (hp : p ≠ [])
    (hnone : a.peekAt p = none) (v : LabelledTree κ τ α) (x : List κ) :
    (a.merge (node t (chain d p v))).peekAt x =
      if touches p x then shownBy p v x else a.peekAt x := by
  refine peekAt_merge_chain_eq d t hp (fun r ↦ ?_) x
  have hbelow : a.get (p ++ r) = none := Option.map_eq_none_iff.1 (peekAt_append_eq_none hnone r)
  rw [peekAt, get_merge_chain_append d t a hp, hbelow, peekAt]
  rcases v.get r with - | w
  · show Option.map peek (if v.blocks r = true then none else none) = none
    rw [ite_self]
    rfl
  · rfl

/-- Several writes, one after the other. -/
def insertPaths (d : τ) (es : List (κ × LabelledTree κ τ α))
    (ws : List (List κ × LabelledTree κ τ α)) : List (κ × LabelledTree κ τ α) :=
  ws.foldl (fun es w ↦ insertPath d es w.1 w.2) es

omit [DecidableEq κ] in
/-- Where a write either decides what is read or leaves it as it was, several come to the last one that
decides it. -/
theorem read_foldl_writes {σ ω ο : Type} {write : σ → ω → σ} (read : σ → ο) {decides : ω → Bool}
    {decided : ω → ο} {ws : List ω}
    (h : ∀ w ∈ ws, ∀ s, read (write s w) = if decides w then decided w else read s) (s : σ) :
    read (ws.foldl write s) = ((ws.filter decides).getLast?.map decided).getD (read s) := by
  induction ws generalizing s with
  | nil => rfl
  | cons w ws ih =>
    rw [List.foldl_cons, ih (fun v hv ↦ h v (List.mem_cons_of_mem w hv)), h w List.mem_cons_self]
    by_cases hdecides : decides w = true
    · rw [List.filter_cons_of_pos hdecides, List.getLast?_cons, if_pos hdecides]
      rcases (ws.filter decides).getLast? with - | last
      · rfl
      · rfl
    · rw [List.filter_cons_of_neg hdecides, if_neg hdecides]

/-- **What several writes show**: at every position, what the last of them that has to do with it
shows there, and where there is none, what was there. -/
theorem peekAt_insertPaths (d t : τ) (es : List (κ × LabelledTree κ τ α))
    {ws : List (List κ × LabelledTree κ τ α)} (hne : ∀ w ∈ ws, w.1 ≠ []) (x : List κ) :
    (node t (insertPaths d es ws)).peekAt x =
      ((ws.filter fun w ↦ touches w.1 x).getLast?.map fun w ↦ shownBy w.1 w.2 x).getD
        ((node t es).peekAt x) := by
  rw [insertPaths, read_foldl_writes fun es : List (κ × LabelledTree κ τ α) ↦ (node t es).peekAt x]
  intro w hw es
  exact peekAt_insertPath_eq d t es (hne w hw) w.2 x

/-! ### Writes that are apart -/

/-- No path is at or above another. -/
def Separate (ws : List (List κ × LabelledTree κ τ α)) : Prop :=
  ws.Pairwise fun v w ↦ ¬ v.1 <+: w.1 ∧ ¬ w.1 <+: v.1

/-- Several tables of one value each, laid over each other. -/
def mergeChains (d t : τ) (ws : List (List κ × LabelledTree κ τ α)) : LabelledTree κ τ α :=
  ws.foldl (fun a w ↦ a.merge (node t (chain d w.1 w.2))) (node t [])

/-- Where writes are apart, those that have to do with one position agree about it. -/
theorem shownBy_eq_of_separate {ws : List (List κ × LabelledTree κ τ α)} (h : Separate ws)
    {v w : List κ × LabelledTree κ τ α} (hv : v ∈ ws) (hw : w ∈ ws) {x : List κ}
    (hvx : touches v.1 x = true) (hwx : touches w.1 x = true) :
    shownBy v.1 v.2 x = shownBy w.1 w.2 x := by
  by_cases hsame : v = w
  · rw [hsame]
  · have : Std.Symm fun a b : List κ × LabelledTree κ τ α ↦ ¬ a.1 <+: b.1 ∧ ¬ b.1 <+: a.1 :=
      ⟨fun _ _ hab ↦ ⟨hab.2, hab.1⟩⟩
    obtain ⟨hvw, hwv⟩ := List.Pairwise.forall h hv hw hsame
    rw [touches, decide_eq_true_eq] at hvx hwx
    have hv' : ¬ v.1 <+: x := by
      intro hbelow
      rcases hwx with hw' | hw'
      · exact (List.prefix_or_prefix_of_prefix hbelow hw').elim hvw hwv
      · exact hvw (hbelow.trans hw')
    have hw' : ¬ w.1 <+: x := by
      intro hbelow
      rcases hvx with hvx | hvx
      · exact (List.prefix_or_prefix_of_prefix hbelow hvx).elim hwv hvw
      · exact hwv (hbelow.trans hvx)
    rw [shownBy, shownBy, if_neg hv', if_neg hw']

/-- Tables laid over each other show what the values show that are written one after the other, where
the paths are apart. -/
theorem peekAt_mergeChains (d t : τ) {ws : List (List κ × LabelledTree κ τ α)}
    (hne : ∀ w ∈ ws, w.1 ≠ []) (h : Separate ws) (x : List κ) :
    (mergeChains d t ws).peekAt x =
      ((ws.filter fun w ↦ touches w.1 x).getLast?.map fun w ↦ shownBy w.1 w.2 x).getD
        ((node t []).peekAt x) := by
  induction ws using List.reverseRecOn generalizing x with
  | nil => rfl
  | append_singleton ws w ih =>
    have hne' : ∀ v ∈ ws, v.1 ≠ [] := fun v hv ↦ hne v (List.mem_append_left _ hv)
    obtain ⟨hws, -, hlast⟩ := List.pairwise_append.1 h
    have hw : w.1 ≠ [] := hne w (List.mem_append_right _ (List.mem_singleton_self w))
    have hnone : (mergeChains d t ws).peekAt w.1 = none := by
      have hempty : (ws.filter fun v ↦ touches v.1 w.1) = [] := by
        refine List.filter_eq_nil_iff.2 fun v hv htouches ↦ ?_
        obtain ⟨hvw, hwv⟩ := hlast v hv w (List.mem_singleton_self w)
        exact (of_decide_eq_true htouches).elim hvw hwv
      rw [ih hne' hws, hempty]
      obtain ⟨k, ks, hk⟩ := List.exists_cons_of_ne_nil hw
      rw [hk]
      rfl
    rw [mergeChains, List.foldl_append, List.foldl_cons, List.foldl_nil]
    refine (peekAt_merge_chain_of_none d t hw hnone w.2 x).trans ?_
    rw [List.filter_append]
    by_cases htouches : touches w.1 x = true
    · rw [List.filter_cons_of_pos (by exact htouches), List.filter_nil, List.getLast?_concat,
        if_pos htouches]
      rfl
    · rw [List.filter_cons_of_neg (by exact htouches), List.filter_nil, List.append_nil,
        if_neg htouches]
      exact ih hne' hws x

/-- **Writes that are apart come to the same in any order**, be the values written one after the other
or laid over each other. -/
theorem peekAt_mergeChains_of_perm (d t : τ) {ws ws' : List (List κ × LabelledTree κ τ α)}
    (hne : ∀ w ∈ ws, w.1 ≠ []) (h : Separate ws) (hperm : ws'.Perm ws) (x : List κ) :
    (mergeChains d t ws').peekAt x = (node t (insertPaths d [] ws)).peekAt x := by
  have hne' : ∀ w ∈ ws', w.1 ≠ [] := fun w hw ↦ hne w (hperm.subset hw)
  have h' : Separate ws' := hperm.symm.pairwise h fun hab ↦ ⟨hab.2, hab.1⟩
  rw [peekAt_mergeChains d t hne' h', peekAt_insertPaths d t [] hne]
  have hfilter := hperm.filter fun w ↦ touches w.1 x
  rcases hlast : (ws.filter fun w ↦ touches w.1 x).getLast? with - | w
  · rw [List.getLast?_eq_none_iff] at hlast
    rw [hlast, List.perm_nil] at hfilter
    rw [hfilter, hlast]
  · have hw := List.mem_of_getLast? hlast
    rcases hlast' : (ws'.filter fun w ↦ touches w.1 x).getLast? with - | v
    · rw [List.getLast?_eq_none_iff] at hlast'
      rw [hlast', List.nil_perm] at hfilter
      rw [hfilter] at hw
      exact absurd hw List.not_mem_nil
    · have hv := hfilter.subset (List.mem_of_getLast? hlast')
      obtain ⟨hwmem, hwx⟩ := List.mem_filter.1 hw
      obtain ⟨hvmem, hvx⟩ := List.mem_filter.1 hv
      rw [hlast', hlast]
      exact shownBy_eq_of_separate h hvmem hwmem hvx hwx

end LabelledTree
