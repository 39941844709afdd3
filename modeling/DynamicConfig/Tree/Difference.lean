import DynamicConfig.Tree.Ordered
import DynamicConfig.Tree.Path
import DynamicConfig.Tree.Shown
import Mathlib.Data.List.Induction

/-!
# The difference of two trees

Two trees differ at a path where they do not show alike: something in one and nothing in the other, a
table in one and a leaf in the other, or two leaves that are not the same. Which leaves are the same
is a parameter. A difference is reported where it starts (`DiffersFrom`), at a path with nothing but
tables above it in both trees, and everything below belongs to it.

`changes` finds these paths by walking the two trees together. The list is empty exactly when the
trees show alike (`changes_eq_nil_iff`), it is the same from the other side (`perm_changes_swap`),
and taking the changes over turns the one tree into the other (`alike_applied`).
-/

namespace LabelledTree

variable {κ τ α : Type} [DecidableEq κ] {same : α → α → Bool} {a b : LabelledTree κ τ α}
  {p : List κ}

/-! ### Where two trees differ -/

/-- What happened at a path. -/
inductive ChangeKind where
  | added | removed | modified
  deriving DecidableEq, Repr

/-- What happened, seen from the other side. -/
def ChangeKind.reversed : ChangeKind → ChangeKind
  | added => removed
  | removed => added
  | modified => modified

/-- What happened between what a path showed and what it shows. -/
def kindOf {β : Type} : Option β → Option β → ChangeKind
  | none, _ => .added
  | some _, none => .removed
  | some _, some _ => .modified

/-- What two paths show is alike: nothing, or a table, or leaves that are the same. -/
def Alike (same : α → α → Bool) : Option (Option α) → Option (Option α) → Prop
  | none, none => True
  | some none, some none => True
  | some (some v), some (some w) => same v w = true
  | _, _ => False

/-- Two trees show alike at every path. -/
def AlikeShown (same : α → α → Bool) (a b : LabelledTree κ τ α) : Prop :=
  ∀ p, Alike same (a.peekAt p) (b.peekAt p)

/-- Above a path both trees have tables. -/
def TablesAbove (a b : LabelledTree κ τ α) (p : List κ) : Prop :=
  ∀ q r, p = q ++ r → r ≠ [] → a.peekAt q = some none ∧ b.peekAt q = some none

/-- A difference starts at a path. -/
def DiffersFrom (same : α → α → Bool) (a b : LabelledTree κ τ α) (p : List κ) : Prop :=
  TablesAbove a b p ∧ ¬ Alike same (a.peekAt p) (b.peekAt p)

omit [DecidableEq κ] in
theorem Alike.symm (hsymm : ∀ v w, same v w = same w v) {x y : Option (Option α)}
    (h : Alike same x y) : Alike same y x := by
  rcases x with - | - | v <;> rcases y with - | - | w
  · trivial
  · exact h
  · exact h
  · exact h
  · trivial
  · exact h
  · exact h
  · exact h
  · exact (hsymm w v).trans h

/-- What shows is alike to itself, if the leaf that shows is the same as itself. -/
theorem alike_self {x : Option (Option α)} (h : ∀ v, x = some (some v) → same v v = true) :
    Alike same x x := by
  rcases x with - | - | v
  · trivial
  · trivial
  · exact h v rfl

theorem kindOf_reversed {x y : Option (Option α)} (h : ¬ Alike same x y) :
    kindOf y x = (kindOf x y).reversed := by
  rcases x with - | x <;> rcases y with - | y
  · exact absurd trivial h
  · rfl
  · rfl
  · rfl

theorem tablesAbove_nil : TablesAbove a b [] := by
  intro q r heq hr
  exact absurd (List.append_eq_nil_iff.1 heq.symm).2 hr

/-- Under a path at which both trees have tables they have tables above. -/
theorem tablesAbove_concat_iff {k : κ} :
    TablesAbove a b (p ++ [k]) ↔ a.peekAt p = some none ∧ b.peekAt p = some none := by
  constructor
  · exact fun h ↦ h p [k] rfl (List.cons_ne_nil k [])
  · rintro ⟨ha, hb⟩ q r heq hr
    obtain ⟨r, l, rfl⟩ := (List.eq_nil_or_concat r).resolve_left hr
    rw [List.concat_eq_append, ← List.append_assoc] at heq
    obtain ⟨rfl, -⟩ := List.append_inj' heq rfl
    rcases eq_or_ne r [] with rfl | hr
    · rw [List.append_nil] at ha hb
      exact ⟨ha, hb⟩
    · exact ⟨peekAt_of_append hr ha, peekAt_of_append hr hb⟩

/-- Nothing below a difference is another one. -/
theorem DiffersFrom.eq_nil_of_append {r : List κ} (h : DiffersFrom same a b p)
    (h' : DiffersFrom same a b (p ++ r)) : r = [] := by
  by_contra hr
  obtain ⟨ha, hb⟩ := h'.1 p r rfl hr
  refine h.2 ?_
  rw [ha, hb]
  trivial

/-- **A difference starts somewhere**: where none starts at or above a path, the trees show alike. -/
theorem alike_of_not_differsFrom (h : ∀ q, q <+: p → ¬ DiffersFrom same a b q) :
    Alike same (a.peekAt p) (b.peekAt p) := by
  induction p using List.reverseRecOn with
  | nil =>
    by_contra hnot
    exact h [] List.nil_prefix ⟨tablesAbove_nil, hnot⟩
  | append_singleton p k ih =>
    have habove := ih fun q hq ↦ h q (hq.trans (List.prefix_append p [k]))
    rcases ha : a.peekAt p with - | - | v <;> rcases hb : b.peekAt p with - | - | w <;>
      rw [ha, hb] at habove
    · rw [peekAt_append_eq_none ha, peekAt_append_eq_none hb]
      trivial
    · exact habove.elim
    · exact habove.elim
    · exact habove.elim
    · by_contra hnot
      exact h (p ++ [k]) List.prefix_rfl ⟨tablesAbove_concat_iff.2 ⟨ha, hb⟩, hnot⟩
    · exact habove.elim
    · exact habove.elim
    · exact habove.elim
    · rw [peekAt_append_of_leaf ha (List.cons_ne_nil k []),
        peekAt_append_of_leaf hb (List.cons_ne_nil k [])]
      trivial

/-- A difference is one from either side. -/
theorem differsFrom_comm (hsymm : ∀ v w, same v w = same w v) :
    DiffersFrom same a b p ↔ DiffersFrom same b a p := by
  have hswap : ∀ {a b : LabelledTree κ τ α}, DiffersFrom same a b p → DiffersFrom same b a p :=
    fun h ↦ ⟨fun q r heq hr ↦ (h.1 q r heq hr).symm, fun halike ↦ h.2 (halike.symm hsymm)⟩
  exact ⟨hswap, hswap⟩

/-! ### The list of changes -/

mutual

/-- The paths at which two trees start to differ, with what happened there. -/
def changes (same : α → α → Bool) :
    LabelledTree κ τ α → LabelledTree κ τ α → List (List κ × ChangeKind)
  | node _ xs, node _ ys =>
    changesIn same xs ys ++
      (ys.filter fun e ↦ !Entries.hasKey xs e.1).map fun e ↦ ([e.1], .added)
  | leaf _ v, leaf _ w => if same v w then [] else [([], .modified)]
  | leaf _ _, node _ _ => [([], .modified)]
  | node _ _, leaf _ _ => [([], .modified)]

/-- The changes below the keys of the older table. -/
def changesIn (same : α → α → Bool) :
    List (κ × LabelledTree κ τ α) → List (κ × LabelledTree κ τ α) → List (List κ × ChangeKind)
  | [], _ => []
  | (k, a) :: xs, ys =>
    (match ys.lookup k with
      | some b => (changes same a b).map fun c ↦ (k :: c.1, c.2)
      | none => [([k], .removed)]) ++ changesIn same xs ys

end

section List

variable {xs ys : List (κ × LabelledTree κ τ α)} {kind : ChangeKind}

theorem mem_changesIn :
    (p, kind) ∈ changesIn same xs ys ↔ ∃ k a, (k, a) ∈ xs ∧
      ((∃ b q, ys.lookup k = some b ∧ (q, kind) ∈ changes same a b ∧ p = k :: q) ∨
        (ys.lookup k = none ∧ p = [k] ∧ kind = .removed)) := by
  induction xs with
  | nil =>
    rw [changesIn]
    exact ⟨fun h ↦ absurd h List.not_mem_nil, fun ⟨k, a, h, _⟩ ↦ absurd h List.not_mem_nil⟩
  | cons e xs ih =>
    obtain ⟨k, a⟩ := e
    rw [changesIn, List.mem_append, ih]
    constructor
    · rintro (hhere | ⟨l, c, hmem, hrest⟩)
      · refine ⟨k, a, List.mem_cons_self, ?_⟩
        rcases hb : ys.lookup k with - | b
        · rw [hb] at hhere
          obtain ⟨rfl, rfl⟩ := Prod.mk.inj (List.mem_singleton.1 hhere)
          exact Or.inr ⟨rfl, rfl, rfl⟩
        · rw [hb] at hhere
          obtain ⟨⟨q, kind'⟩, hq, heq⟩ := List.mem_map.1 hhere
          obtain ⟨rfl, rfl⟩ := Prod.mk.inj heq
          exact Or.inl ⟨b, q, rfl, hq, rfl⟩
      · exact ⟨l, c, List.mem_cons_of_mem _ hmem, hrest⟩
    · rintro ⟨l, c, hmem, hrest⟩
      rcases List.mem_cons.1 hmem with heq | hmem
      · obtain ⟨rfl, rfl⟩ := Prod.mk.inj heq
        refine Or.inl ?_
        rcases hrest with ⟨b, q, hb, hq, rfl⟩ | ⟨hb, rfl, rfl⟩
        · rw [hb]
          exact List.mem_map.2 ⟨(q, kind), hq, rfl⟩
        · rw [hb]
          exact List.mem_singleton_self _
      · exact Or.inr ⟨l, c, hmem, hrest⟩

theorem tablesAbove_cons_of_lookup {s t : τ} {k : κ} {ks : List κ} {c d : LabelledTree κ τ α}
    (hc : xs.lookup k = some c) (hd : ys.lookup k = some d) :
    TablesAbove (node s xs) (node t ys) (k :: ks) ↔ TablesAbove c d ks := by
  constructor
  · intro h q r heq hr
    have hboth := h (k :: q) r (congrArg (k :: ·) heq) hr
    rw [peekAt_node_cons, peekAt_node_cons, hc, hd] at hboth
    exact hboth
  · intro h q r heq hr
    rcases q with - | ⟨l, q⟩
    · exact ⟨rfl, rfl⟩
    · obtain ⟨rfl, hks⟩ := List.cons.inj heq
      rw [peekAt_node_cons, peekAt_node_cons, hc, hd]
      exact h q r hks hr

/-- Under a key that one of the tables does not have, only its own path has tables above. -/
theorem tablesAbove_cons_of_none {s t : τ} {k : κ} {ks : List κ}
    (hnone : xs.lookup k = none ∨ ys.lookup k = none) :
    TablesAbove (node s xs) (node t ys) (k :: ks) ↔ ks = [] := by
  constructor
  · intro h
    by_contra hks
    obtain ⟨hx, hy⟩ := h [k] ks rfl hks
    rw [peekAt_node_cons] at hx hy
    rcases hnone with hnone | hnone
    · rw [hnone] at hx
      cases hx
    · rw [hnone] at hy
      cases hy
  · rintro rfl
    exact (tablesAbove_concat_iff (p := [])).2 ⟨rfl, rfl⟩

/-- Below a leaf nothing has tables above. -/
theorem not_tablesAbove_of_leaf {k : κ} {ks : List κ} (h : a.peek ≠ none ∨ b.peek ≠ none) :
    ¬ TablesAbove a b (k :: ks) := by
  intro habove
  obtain ⟨ha, hb⟩ := habove [] (k :: ks) rfl (List.cons_ne_nil k ks)
  rw [peekAt_nil] at ha hb
  exact h.elim (fun h ↦ h (Option.some.inj ha)) fun h ↦ h (Option.some.inj hb)

/-- What is listed under a key of two tables. -/
theorem mem_changes_node_cons {s t : τ} {k : κ} {ks : List κ} (hkeys : (xs.map Prod.fst).Nodup) :
    (k :: ks, kind) ∈ changes same (node s xs) (node t ys) ↔
      (∃ c d, xs.lookup k = some c ∧ ys.lookup k = some d ∧ (ks, kind) ∈ changes same c d) ∨
        ((xs.lookup k).isSome ∧ ys.lookup k = none ∧ ks = [] ∧ kind = .removed) ∨
          (xs.lookup k = none ∧ (ys.lookup k).isSome ∧ ks = [] ∧ kind = .added) := by
  rw [changes, List.mem_append, mem_changesIn, ← or_assoc]
  refine or_congr ⟨?_, ?_⟩ ⟨?_, ?_⟩
  · rintro ⟨l, c, hc, ⟨d, q, hd, hq, heq⟩ | ⟨hd, heq, rfl⟩⟩
    · obtain ⟨rfl, rfl⟩ := List.cons.inj heq
      exact Or.inl ⟨c, d, Entries.lookup_of_mem hkeys hc, hd, hq⟩
    · obtain ⟨rfl, rfl⟩ := List.cons.inj heq
      have hlookup : xs.lookup k = some c := Entries.lookup_of_mem hkeys hc
      exact Or.inr ⟨Option.isSome_iff_exists.2 ⟨c, hlookup⟩, hd, rfl, rfl⟩
  · rintro (⟨c, d, hc, hd, hq⟩ | ⟨hc, hd, rfl, rfl⟩)
    · exact ⟨k, c, Entries.mem_of_lookup hc, Or.inl ⟨d, ks, hd, hq, rfl⟩⟩
    · obtain ⟨c, hc⟩ := Option.isSome_iff_exists.1 hc
      exact ⟨k, c, Entries.mem_of_lookup hc, Or.inr ⟨hd, rfl, rfl⟩⟩
  · intro h
    obtain ⟨e, he, heq⟩ := List.mem_map.1 h
    obtain ⟨hpath, rfl⟩ := Prod.mk.inj heq
    obtain ⟨rfl, rfl⟩ := List.cons.inj hpath
    obtain ⟨hmem, hnew⟩ := List.mem_filter.1 he
    rw [Bool.not_eq_true'] at hnew
    refine ⟨Entries.hasKey_eq_false_iff.1 hnew, ?_, rfl, rfl⟩
    exact Entries.isSome_lookup_iff_mem.2 (List.mem_map_of_mem hmem)
  · rintro ⟨hc, hd, rfl, rfl⟩
    obtain ⟨d, hd⟩ := Option.isSome_iff_exists.1 hd
    refine List.mem_map.2 ⟨(k, d), List.mem_filter.2 ⟨Entries.mem_of_lookup hd, ?_⟩, rfl⟩
    rw [Bool.not_eq_true']
    exact Entries.hasKey_eq_false_iff.2 hc

/-- A leaf is listed at the root, if at all. -/
theorem not_mem_changes_of_leaf {k : κ} {ks : List κ} (h : a.peek ≠ none ∨ b.peek ≠ none) :
    (k :: ks, kind) ∉ changes same a b := by
  have hroot : ∀ kind', (k :: ks, kind) ∉ [(([] : List κ), kind')] := by
    intro kind' hmem
    exact List.cons_ne_nil k ks (Prod.mk.inj (List.mem_singleton.1 hmem)).1
  rcases a with ⟨s, v⟩ | ⟨s, xs⟩ <;> rcases b with ⟨t, w⟩ | ⟨t, ys⟩
  · rw [changes]
    split
    · exact List.not_mem_nil
    · exact hroot _
  · rw [changes]
    exact hroot _
  · rw [changes]
    exact hroot _
  · exact absurd rfl (h.elim id id)

end List

/-- **The list is complete and exact**, for a tree without keys twice. -/
theorem mem_changes (hdistinct : a.Distinct) {kind : ChangeKind} :
    (p, kind) ∈ changes same a b ↔
      DiffersFrom same a b p ∧ kind = kindOf (a.peekAt p) (b.peekAt p) := by
  induction p generalizing a b with
  | nil =>
    rw [DiffersFrom, peekAt_nil, peekAt_nil, and_iff_right tablesAbove_nil]
    rcases a with ⟨s, v⟩ | ⟨s, xs⟩ <;> rcases b with ⟨t, w⟩ | ⟨t, ys⟩
    · rw [changes]
      show _ ↔ ¬ same v w = true ∧ kind = .modified
      split
      · next hsame => exact iff_of_false List.not_mem_nil fun h ↦ h.1 hsame
      · next hdiffer =>
        rw [List.mem_singleton, Prod.mk.injEq, and_iff_right rfl]
        exact (and_iff_right hdiffer).symm
    · rw [changes, List.mem_singleton, Prod.mk.injEq, and_iff_right rfl]
      exact (and_iff_right id).symm
    · rw [changes, List.mem_singleton, Prod.mk.injEq, and_iff_right rfl]
      exact (and_iff_right id).symm
    · refine iff_of_false ?_ fun h ↦ h.1 trivial
      rw [changes, List.mem_append, mem_changesIn, List.mem_map]
      rintro (⟨k, c, -, ⟨d, q, -, -, hp⟩ | ⟨-, hp, -⟩⟩ | ⟨e, -, heq⟩)
      · exact List.cons_ne_nil k q hp.symm
      · exact List.cons_ne_nil k [] hp.symm
      · exact List.cons_ne_nil e.1 [] (Prod.mk.inj heq).1
  | cons k ks ih =>
    by_cases hleaf : a.peek ≠ none ∨ b.peek ≠ none
    · exact iff_of_false (not_mem_changes_of_leaf hleaf) fun h ↦ not_tablesAbove_of_leaf hleaf h.1.1
    · rcases a with ⟨s, v⟩ | ⟨s, xs⟩
      · exact absurd (Or.inl (Option.some_ne_none v)) hleaf
      rcases b with ⟨t, w⟩ | ⟨t, ys⟩
      · exact absurd (Or.inr (Option.some_ne_none w)) hleaf
      rw [mem_changes_node_cons hdistinct.nodup, DiffersFrom, peekAt_node_cons, peekAt_node_cons]
      rcases hc : xs.lookup k with - | c <;> rcases hd : ys.lookup k with - | d
      · simp [Alike]
      · rw [tablesAbove_cons_of_none (Or.inl hc)]
        rcases ks with - | ⟨l, ks⟩
        · simp [Alike, kindOf, peekAt_nil]
        · simp
      · rw [tablesAbove_cons_of_none (Or.inr hd)]
        rcases ks with - | ⟨l, ks⟩
        · simp [Alike, kindOf, peekAt_nil]
        · simp
      · rw [tablesAbove_cons_of_lookup hc hd]
        have hbelow := ih (b := d) (hdistinct.child hc)
        rw [DiffersFrom] at hbelow
        simpa using hbelow

/-! ### Each change once -/

/-- A path listed below a table starts with one of its keys. -/
theorem exists_of_mem_map_changesIn {xs ys : List (κ × LabelledTree κ τ α)}
    (h : p ∈ (changesIn same xs ys).map Prod.fst) : ∃ k a q, (k, a) ∈ xs ∧ p = k :: q := by
  obtain ⟨⟨p, kind⟩, hp, rfl⟩ := List.mem_map.1 h
  obtain ⟨k, a, hmem, ⟨b, q, -, -, hpath⟩ | ⟨-, hpath, -⟩⟩ := mem_changesIn.1 hp
  · exact ⟨k, a, q, hmem, hpath⟩
  · exact ⟨k, a, [], hmem, hpath⟩

mutual

/-- **No path is listed twice.** -/
theorem nodup_changes (a b : LabelledTree κ τ α) (ha : a.Distinct) (hb : b.Distinct) :
    ((changes same a b).map Prod.fst).Nodup := by
  match a, b with
  | leaf s v, leaf t w =>
    rw [changes]
    split
    · exact List.nodup_nil
    · exact List.pairwise_singleton _ _
  | leaf s v, node t ys => rw [changes]; exact List.pairwise_singleton _ _
  | node s xs, leaf t w => rw [changes]; exact List.pairwise_singleton _ _
  | node s xs, node t ys =>
    rw [changes, List.map_append]
    have hbelow := nodup_changesIn xs ys ha.nodup
      (fun e he ↦ ha.child (Entries.lookup_of_mem ha.nodup he)) fun k d hd ↦ hb.child hd
    have hnew : (((ys.filter fun e ↦ !Entries.hasKey xs e.1).map
        fun e ↦ ([e.1], ChangeKind.added)).map Prod.fst).Nodup := by
      have hkeys : ((ys.filter fun e ↦ !Entries.hasKey xs e.1).map Prod.fst).Nodup :=
        hb.nodup.sublist (List.filter_sublist.map _)
      have hpaths : (((ys.filter fun e ↦ !Entries.hasKey xs e.1).map Prod.fst).map
          fun k ↦ [k]).Nodup :=
        List.Pairwise.map _ (fun _ _ hne heq ↦ hne (List.cons.inj heq).1) hkeys
      rw [List.map_map] at hpaths ⊢
      exact hpaths
    refine List.nodup_append.2 ⟨hbelow, hnew, fun p hp q hq heq ↦ ?_⟩
    -- A path below starts with a key of the older table, a new one does not.
    obtain ⟨k, a, q', hmem, rfl⟩ := exists_of_mem_map_changesIn hp
    rw [List.map_map] at hq
    obtain ⟨e, he, rfl⟩ := List.mem_map.1 hq
    obtain ⟨rfl, -⟩ := List.cons.inj heq
    have hnot := (List.mem_filter.1 he).2
    rw [Bool.not_eq_true'] at hnot
    have hnone := Entries.lookup_eq_none_iff_not_mem.1 (Entries.hasKey_eq_false_iff.1 hnot)
    have hkey : (e.1, a).1 ∈ xs.map Prod.fst := List.mem_map_of_mem hmem
    exact hnone hkey

theorem nodup_changesIn (xs ys : List (κ × LabelledTree κ τ α)) (hkeys : (xs.map Prod.fst).Nodup)
    (hx : ∀ e ∈ xs, e.2.Distinct) (hy : ∀ k d, ys.lookup k = some d → d.Distinct) :
    ((changesIn same xs ys).map Prod.fst).Nodup := by
  match xs with
  | [] => rw [changesIn]; exact List.nodup_nil
  | (k, a) :: xs =>
    rw [List.map_cons, List.nodup_cons] at hkeys
    rw [changesIn, List.map_append]
    have hrest := nodup_changesIn xs ys hkeys.2 (fun e he ↦ hx e (List.mem_cons_of_mem _ he)) hy
    have hapart : ∀ q, k :: q ∉ (changesIn same xs ys).map Prod.fst := by
      intro q hq
      obtain ⟨l, c, q', hmem, heq⟩ := exists_of_mem_map_changesIn hq
      obtain ⟨rfl, -⟩ := List.cons.inj heq
      have hkey : (k, c).1 ∈ xs.map Prod.fst := List.mem_map_of_mem hmem
      exact hkeys.1 hkey
    rcases hd : ys.lookup k with - | d
    · refine List.nodup_append.2 ⟨List.pairwise_singleton _ _, hrest, fun p hp q hq heq ↦ ?_⟩
      obtain rfl : p = [k] := List.mem_singleton.1 hp
      exact hapart [] (heq ▸ hq)
    · have hhere := nodup_changes a d (hx (k, a) List.mem_cons_self) (hy k d hd)
      have hbelow : (((changes same a d).map Prod.fst).map (k :: ·)).Nodup :=
        List.Pairwise.map _ (fun _ _ hne heq ↦ hne (List.cons.inj heq).2) hhere
      rw [List.map_map] at hbelow
      show (((changes same a d).map fun c ↦ (k :: c.1, c.2)).map Prod.fst ++ _).Nodup
      rw [List.map_map]
      refine List.nodup_append.2 ⟨hbelow, hrest, fun p hp q hq heq ↦ ?_⟩
      obtain ⟨c, -, rfl⟩ := List.mem_map.1 hp
      subst heq
      exact hapart c.1 hq

end

/-! ### Either side -/

/-- Nothing is listed exactly when the trees show alike. -/
theorem changes_eq_nil_iff (hdistinct : a.Distinct) : changes same a b = [] ↔ AlikeShown same a b := by
  rw [List.eq_nil_iff_forall_not_mem]
  constructor
  · intro h p
    exact alike_of_not_differsFrom fun q _ hdiffers ↦
      h (q, _) ((mem_changes hdistinct).2 ⟨hdiffers, rfl⟩)
  · rintro h ⟨p, kind⟩ hmem
    exact ((mem_changes hdistinct).1 hmem).1.2 (h p)

/-- **From the other side** the list has the same paths, with what was added and what was removed
exchanged. -/
theorem perm_changes_swap (hsymm : ∀ v w, same v w = same w v) (ha : a.Distinct) (hb : b.Distinct) :
    (changes same b a).Perm ((changes same a b).map fun c ↦ (c.1, c.2.reversed)) := by
  have hpaths : ∀ cs : List (List κ × ChangeKind), (cs.map Prod.fst).Nodup → cs.Nodup :=
    fun cs h ↦ List.Pairwise.of_map Prod.fst (fun _ _ hne heq ↦ hne (congrArg Prod.fst heq)) h
  have hnodup : ((changes same a b).map fun c ↦ (c.1, c.2.reversed)).Nodup := by
    refine hpaths _ ?_
    rw [List.map_map]
    exact nodup_changes a b ha hb
  refine (List.perm_ext_iff_of_nodup (hpaths _ (nodup_changes b a hb ha)) hnodup).2 ?_
  rintro ⟨p, kind⟩
  rw [mem_changes hb, differsFrom_comm hsymm, List.mem_map]
  constructor
  · rintro ⟨hdiffers, rfl⟩
    refine ⟨(p, kindOf (a.peekAt p) (b.peekAt p)), (mem_changes ha).2 ⟨hdiffers, rfl⟩, ?_⟩
    rw [kindOf_reversed hdiffers.2]
  · rintro ⟨⟨q, kind'⟩, hmem, heq⟩
    obtain ⟨rfl, rfl⟩ := Prod.mk.inj heq
    obtain ⟨hdiffers, rfl⟩ := (mem_changes ha).1 hmem
    exact ⟨hdiffers, (kindOf_reversed hdiffers.2).symm⟩

/-! ### Taking the changes over -/

/-- Take one change over from the entries of the newer tree. -/
def takeOver (d : τ) (ys es : List (κ × LabelledTree κ τ α)) (c : List κ × ChangeKind) :
    List (κ × LabelledTree κ τ α) :=
  match c.2 with
  | .removed => erasePath es c.1
  | _ =>
    match (node d ys).get c.1 with
    | some v => insertPath d es c.1 v
    | none => es

/-- A change that can be taken over: it has tables above it, and its path has something in the newer
tree exactly if it was not removed. -/
structure Fits (d : τ) (ys es : List (κ × LabelledTree κ τ α)) (c : List κ × ChangeKind) :
    Prop where
  ne_nil : c.1 ≠ []
  tables : ∀ q r, c.1 = q ++ r → r ≠ [] → (node d es).peekAt q = some none
  removed : c.2 = .removed ↔ (node d ys).peekAt c.1 = none

section Taking

variable {d : τ} {ys es : List (κ × LabelledTree κ τ α)} {c : List κ × ChangeKind}

/-- **One step.** At and below the path the newer tree is taken over, elsewhere nothing changes. -/
theorem peekAt_takeOver (h : Fits d ys es c) (q : List κ) :
    (c.1 <+: q → (node d (takeOver d ys es c)).peekAt q = (node d ys).peekAt q) ∧
      (¬ c.1 <+: q → (node d (takeOver d ys es c)).peekAt q = (node d es).peekAt q) := by
  obtain ⟨p, kind⟩ := c
  by_cases hremoved : kind = .removed
  · subst hremoved
    refine ⟨?_, fun hq ↦ peekAt_erasePath d es hq⟩
    rintro ⟨r, rfl⟩
    rw [peekAt_append_eq_none (h.removed.1 rfl)]
    show ((node d (erasePath es p)).get (p ++ r)).map peek = none
    rw [get_erasePath_append d es h.ne_nil, Option.map_none]
  · have hsome : (node d ys).get p ≠ none := fun hnone ↦
      hremoved (h.removed.2 (Option.map_eq_none_iff.2 hnone))
    obtain ⟨v, hv⟩ := Option.ne_none_iff_exists'.1 hsome
    have htaken : takeOver d ys es (p, kind) = insertPath d es p v := by
      rcases kind with - | - | -
      · rw [takeOver, hv]
      · exact absurd rfl hremoved
      · rw [takeOver, hv]
    rw [htaken]
    refine ⟨?_, fun hq ↦ peekAt_insertPath h.tables hq⟩
    rintro ⟨r, rfl⟩
    show ((node d (insertPath d es p v)).get (p ++ r)).map peek = _
    rw [get_insertPath_append d d es h.ne_nil, peekAt_append, hv]
    rfl

/-- Changes of which none is at or below another. -/
def Apart (cs : List (List κ × ChangeKind)) : Prop :=
  cs.Pairwise fun c c' ↦ ¬ c.1 <+: c'.1 ∧ ¬ c'.1 <+: c.1

/-- **All of them**: what is at or below one of the paths is as in the newer tree, the rest is as it
was. -/
theorem peekAt_foldl_takeOver {cs : List (List κ × ChangeKind)} (hfits : ∀ c ∈ cs, Fits d ys es c)
    (hapart : Apart cs) (q : List κ) :
    ((∃ c ∈ cs, c.1 <+: q) →
        (node d (cs.foldl (takeOver d ys) es)).peekAt q = (node d ys).peekAt q) ∧
      ((∀ c ∈ cs, ¬ c.1 <+: q) →
        (node d (cs.foldl (takeOver d ys) es)).peekAt q = (node d es).peekAt q) := by
  induction cs generalizing es with
  | nil => exact ⟨fun ⟨c, hc, _⟩ ↦ absurd hc List.not_mem_nil, fun _ ↦ rfl⟩
  | cons c cs ih =>
    obtain ⟨hhere, hrest⟩ := List.pairwise_cons.1 hapart
    have hstep := peekAt_takeOver (hfits c List.mem_cons_self)
    have hfits' : ∀ c' ∈ cs, Fits d ys (takeOver d ys es c) c' := by
      intro c' hc'
      have hfit := hfits c' (List.mem_cons_of_mem c hc')
      refine ⟨hfit.ne_nil, fun s r heq hr ↦ ?_, hfit.removed⟩
      have hoff : ¬ c.1 <+: s := fun hs ↦ (hhere c' hc').1 (hs.trans ⟨r, heq.symm⟩)
      exact ((hstep s).2 hoff).trans (hfit.tables s r heq hr)
    obtain ⟨hat, hoff⟩ := ih hfits' hrest
    rw [List.foldl_cons]
    refine ⟨?_, fun h ↦ ?_⟩
    · rintro ⟨c', hc', hq⟩
      rcases List.mem_cons.1 hc' with rfl | hc'
      · refine (hoff fun c' hc' hq' ↦ ?_).trans ((hstep q).1 hq)
        exact (List.prefix_or_prefix_of_prefix hq hq').elim (hhere c' hc').1 (hhere c' hc').2
      · exact hat ⟨c', hc', hq⟩
    · exact (hoff fun c' hc' ↦ h c' (List.mem_cons_of_mem c hc')).trans
        ((hstep q).2 (h c List.mem_cons_self))

end Taking

section Applied

variable {d : τ} {xs ys : List (κ × LabelledTree κ τ α)}

theorem fits_of_mem_changes (hx : (node d xs).Distinct) {c : List κ × ChangeKind}
    (h : c ∈ changes same (node d xs) (node d ys)) : Fits d ys xs c := by
  obtain ⟨hdiffers, hkind⟩ := (mem_changes hx (p := c.1)).1 h
  refine ⟨?_, fun q r heq hr ↦ (hdiffers.1 q r heq hr).1, ?_⟩
  · intro hnil
    refine hdiffers.2 ?_
    rw [hnil, peekAt_nil, peekAt_nil]
    trivial
  · rw [hkind]
    rcases hxp : (node d xs).peekAt c.1 with - | x <;> rcases hyp : (node d ys).peekAt c.1 with - | y
    · refine absurd ?_ hdiffers.2
      rw [hxp, hyp]
      trivial
    · exact iff_of_false (fun h ↦ (by cases h)) (Option.some_ne_none y)
    · exact iff_of_true rfl rfl
    · exact iff_of_false (fun h ↦ (by cases h)) (Option.some_ne_none y)

theorem apart_changes (ha : a.Distinct) (hb : b.Distinct) : Apart (changes same a b) := by
  have hnodup : ((changes same a b).map Prod.fst).Nodup := nodup_changes a b ha hb
  rw [List.Nodup, List.pairwise_map] at hnodup
  refine hnodup.imp_of_mem fun {c c'} hc hc' hne ↦ ?_
  have hdiffers := ((mem_changes ha (p := c.1)).1 hc).1
  have hdiffers' := ((mem_changes ha (p := c'.1)).1 hc').1
  constructor
  · rintro ⟨r, heq⟩
    rw [← heq] at hdiffers'
    rw [hdiffers.eq_nil_of_append hdiffers', List.append_nil] at heq
    exact hne heq
  · rintro ⟨r, heq⟩
    rw [← heq] at hdiffers
    rw [hdiffers'.eq_nil_of_append hdiffers, List.append_nil] at heq
    exact hne heq.symm

/-- **The changes make the newer tree of the older one**, taken over in whatever order. -/
theorem alike_applied (hx : (node d xs).Distinct) (hy : (node d ys).Distinct)
    (hself : ∀ p v, (node d ys).peekAt p = some (some v) → same v v = true)
    {cs : List (List κ × ChangeKind)} (hcs : cs.Perm (changes same (node d xs) (node d ys))) :
    AlikeShown same (node d (cs.foldl (takeOver d ys) xs)) (node d ys) := by
  have hapart : Apart cs :=
    (hcs.pairwise_iff fun {c c'} h ↦ ⟨h.2, h.1⟩).2 (apart_changes hx hy)
  intro q
  obtain ⟨hat, hoff⟩ := peekAt_foldl_takeOver
    (fun c hc ↦ fits_of_mem_changes hx (hcs.mem_iff.1 hc)) hapart q
  by_cases hsome : ∃ c ∈ cs, c.1 <+: q
  · rw [hat hsome]
    exact alike_self (hself q)
  · have hnone : ∀ c ∈ cs, ¬ c.1 <+: q := fun c hc hq ↦ hsome ⟨c, hc, hq⟩
    rw [hoff hnone]
    refine alike_of_not_differsFrom fun p hp hdiffers ↦ ?_
    have hmem := (mem_changes hx).2 ⟨hdiffers, rfl⟩
    exact hnone _ (hcs.mem_iff.2 hmem) hp

end Applied

end LabelledTree
