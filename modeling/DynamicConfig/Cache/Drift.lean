import DynamicConfig.Cache.RoundTrip
import DynamicConfig.Tree.Leaves
import DynamicConfig.Values.Diff

/-!
# What a drift report says

A fingerprint holds the dotted leaf paths of a snapshot and a hash of its values. A start that finds
one compares both with what the sources resolve to now. The paths are compared as text: with a dot in
a key two leaves of one side can have the same, and then it is listed as often as the side has it.
-/

namespace DynamicConfig

/-! ### The fingerprint -/

/-- `fingerprint_of`: a hash of the crate's own values. -/
def fingerprintOf (digest : Value → String) (values : Dict) : String :=
  digest values.toValue

namespace SnapshotTree

/-- A text is the dotted path of a leaf. -/
def HasLeafPath (a : SnapshotTree) (key : String) : Prop :=
  ∃ p, p ≠ [] ∧ joined p = key ∧ LabelledTree.LeafAt a.values.root p

/-- `Snapshot::leaf_paths`. -/
def leafPaths (a : SnapshotTree) : List String := DynamicConfig.leafPaths a.values

/-- Two snapshots with the same dotted leaf paths. -/
def SameLeafPaths (a b : SnapshotTree) : Prop := ∀ key, a.HasLeafPath key ↔ b.HasLeafPath key

end SnapshotTree

/-- What a report says, and everything it says. -/
structure DriftReport (before after : SnapshotTree) (moved : List String) : Prop where
  /-- Nothing moved when the values are the same ones. -/
  nothing : moved = [nothingMoved] ↔ before.values.toValue = after.values.toValue
  /-- The same keys, when the values are not and the leaf paths are. -/
  same : moved = [sameKeys] ↔
    before.SameLeafPaths after ∧ before.values.toValue ≠ after.values.toValue
  /-- And otherwise the leaf paths of one side only. -/
  listed : ¬ before.SameLeafPaths after → ∀ line, line ∈ moved ↔
    (∃ key, before.HasLeafPath key ∧ ¬ after.HasLeafPath key ∧ line = key ++ " is gone") ∨
      ∃ key, after.HasLeafPath key ∧ ¬ before.HasLeafPath key ∧ line = key ++ " is new"

/-- Each as often as its side has it. -/
def EachAsOften (before after : SnapshotTree) (moved : List String) : Prop :=
  ∀ key, (¬ after.HasLeafPath key →
      moved.count (key ++ " is gone") = before.leafPaths.count key) ∧
    (¬ before.HasLeafPath key → moved.count (key ++ " is new") = after.leafPaths.count key)

/-! ### Leaf paths -/

mutual

theorem leavesOf_eq (path : List String) (node : Node) :
    leavesOf path node = (LabelledTree.leaves node).map fun p ↦ joined (path ++ p) := by
  match node with
  | .leaf tag v => rw [leavesOf, LabelledTree.leaves, List.map_singleton, List.append_nil]
  | .node tag [] => rw [leavesOf, LabelledTree.leaves, List.map_singleton, List.append_nil]
  | .node tag (e :: es) => rw [leavesOf, LabelledTree.leaves, leavesIn_eq]

theorem leavesIn_eq (path : List String) (values : Dict) :
    leavesIn path values = (LabelledTree.leavesBelow values).map fun p ↦ joined (path ++ p) := by
  match values with
  | [] => rw [leavesIn, LabelledTree.leavesBelow]; rfl
  | (key, value) :: values =>
    rw [leavesIn, LabelledTree.leavesBelow, List.map_append, leavesOf_eq, leavesIn_eq path values,
      List.map_map]
    simp only [List.append_assoc, List.singleton_append]
    rfl

end

mutual

/-- What a value is taken over as has its leaves. -/
theorem leaves_taken (node : Node) :
    LabelledTree.leaves (Node.taken node) = LabelledTree.leaves node := by
  match node with
  | .leaf tag v => rw [taken_leaf, LabelledTree.leaves, LabelledTree.leaves]
  | .node tag [] => rfl
  | .node tag (e :: es) =>
    have hbelow := leavesBelow_taken (e :: es)
    rw [taken_node, LabelledTree.leaves, ← hbelow]
    rfl

theorem leavesBelow_taken (values : Dict) :
    LabelledTree.leavesBelow (Entries.mapValues Node.taken values) =
      LabelledTree.leavesBelow values := by
  match values with
  | [] => rfl
  | (key, value) :: values =>
    show LabelledTree.leavesBelow ((key, Node.taken value) :: Entries.mapValues Node.taken values) = _
    rw [LabelledTree.leavesBelow, LabelledTree.leavesBelow, leaves_taken value,
      leavesBelow_taken values]

end

/-- The same values have the same leaf paths. -/
theorem leafPaths_congr {a b : Dict} (h : a.toValue = b.toValue) : leafPaths a = leafPaths b := by
  have htaken : Node.taken a.root = Node.taken b.root := by
    rw [← toFigment_toValue, ← toFigment_toValue, h]
  rw [Dict.root, Dict.root, taken_node, taken_node] at htaken
  have hentries := (LabelledTree.node.inj htaken).2
  rw [leafPaths, leafPaths, leavesIn_eq, leavesIn_eq, ← leavesBelow_taken a, hentries,
    leavesBelow_taken b]

namespace SnapshotTree

variable {a b : SnapshotTree} {key : String}

theorem mem_leafPaths : key ∈ a.leafPaths ↔ a.HasLeafPath key := by
  rw [leafPaths, DynamicConfig.leafPaths, leavesIn_eq, List.mem_map, HasLeafPath]
  refine exists_congr fun p ↦ ?_
  rw [LabelledTree.mem_leavesBelow_iff a.distinct, and_assoc, and_comm (a := joined _ = key)]
  exact Iff.rfl

/-- Without dots in its keys a snapshot has no leaf path twice. -/
theorem Undotted.nodup_leafPaths (h : a.Undotted) : a.leafPaths.Nodup := by
  have hnodup := LabelledTree.nodup_leavesBelow a.values a.distinct.nodup
    fun e he ↦ a.distinct.child (Entries.lookup_of_mem a.distinct.nodup he)
  rw [leafPaths, DynamicConfig.leafPaths, leavesIn_eq]
  have hpaths : ∀ p ∈ LabelledTree.leavesBelow a.values, segments (joined p) = p := by
    intro p hp
    obtain ⟨hne, hleaf⟩ := (LabelledTree.mem_leavesBelow_iff a.distinct).1 hp
    exact segments_joined hne (h p hleaf.1)
  refine (List.nodup_map_iff_inj_on hnodup).2 fun p hp q hq heq ↦ ?_
  rw [← hpaths p hp, ← hpaths q hq]
  exact congrArg segments heq

end SnapshotTree

/-! ### The lines of a report -/

/-- A line ends as its suffix does. -/
theorem getLast?_append (key : String) {suffix : String} {c : Char}
    (h : suffix.toList.getLast? = some c) : (key ++ suffix).toList.getLast? = some c := by
  rw [String.toList_append, List.getLast?_append, h]
  rfl

theorem gone_ne_new (key key' : String) : key ++ " is gone" ≠ key' ++ " is new" := by
  intro heq
  have hends := congrArg (fun s : String ↦ s.toList.getLast?) heq
  have hgone : (key ++ " is gone").toList.getLast? = some 'e' := getLast?_append key (by decide)
  have hnew : (key' ++ " is new").toList.getLast? = some 'w' := getLast?_append key' (by decide)
  rw [hgone, hnew] at hends
  exact absurd (Option.some.inj hends) (by decide)

variable {before after : List String} {line key : String}

theorem perm_movedKeys (before after : List String) :
    (movedKeys before after).Perm
      ((before.filter fun key ↦ !after.contains key).map (· ++ " is gone") ++
        (after.filter fun key ↦ !before.contains key).map (· ++ " is new")) :=
  List.mergeSort_perm _ _

theorem mem_filter_not_contains {xs ys : List String} :
    key ∈ xs.filter (fun key ↦ !ys.contains key) ↔ key ∈ xs ∧ key ∉ ys := by
  rw [List.mem_filter, Bool.not_eq_true', Bool.eq_false_iff, Ne, List.contains_iff_mem]

/-- A line is about a key of one side only. -/
theorem mem_movedKeys : line ∈ movedKeys before after ↔
    (∃ key ∈ before, key ∉ after ∧ line = key ++ " is gone") ∨
      ∃ key ∈ after, key ∉ before ∧ line = key ++ " is new" := by
  rw [(perm_movedKeys before after).mem_iff, List.mem_append, List.mem_map, List.mem_map]
  refine or_congr ⟨?_, ?_⟩ ⟨?_, ?_⟩
  · rintro ⟨key, hkey, rfl⟩
    obtain ⟨hmem, hnot⟩ := mem_filter_not_contains.1 hkey
    exact ⟨key, hmem, hnot, rfl⟩
  · rintro ⟨key, hmem, hnot, rfl⟩
    exact ⟨key, mem_filter_not_contains.2 ⟨hmem, hnot⟩, rfl⟩
  · rintro ⟨key, hkey, rfl⟩
    obtain ⟨hmem, hnot⟩ := mem_filter_not_contains.1 hkey
    exact ⟨key, hmem, hnot, rfl⟩
  · rintro ⟨key, hmem, hnot, rfl⟩
    exact ⟨key, mem_filter_not_contains.2 ⟨hmem, hnot⟩, rfl⟩

/-- There are no lines exactly when the keys are the same. -/
theorem movedKeys_eq_nil_iff : movedKeys before after = [] ↔ ∀ key, key ∈ before ↔ key ∈ after := by
  rw [List.eq_nil_iff_forall_not_mem]
  constructor
  · intro h key
    constructor
    · intro hkey
      by_contra hnot
      exact h _ (mem_movedKeys.2 (Or.inl ⟨key, hkey, hnot, rfl⟩))
    · intro hkey
      by_contra hnot
      exact h _ (mem_movedKeys.2 (Or.inr ⟨key, hkey, hnot, rfl⟩))
  · rintro h line hline
    rcases mem_movedKeys.1 hline with ⟨key, hkey, hnot, -⟩ | ⟨key, hkey, hnot, -⟩
    · exact hnot ((h key).1 hkey)
    · exact hnot ((h key).2 hkey)

/-- No line is one of the two that say no key has moved. -/
theorem getLast?_of_mem_movedKeys (h : line ∈ movedKeys before after) :
    line.toList.getLast? = some 'e' ∨ line.toList.getLast? = some 'w' := by
  rcases mem_movedKeys.1 h with ⟨key, -, -, rfl⟩ | ⟨key, -, -, rfl⟩
  · exact Or.inl (getLast?_append key (by decide))
  · exact Or.inr (getLast?_append key (by decide))

theorem movedKeys_ne_singleton {said : String} {c : Char} (hsaid : said.toList.getLast? = some c)
    (he : c ≠ 'e') (hw : c ≠ 'w') : movedKeys before after ≠ [said] := by
  intro heq
  have hmem : said ∈ movedKeys before after := heq ▸ List.mem_cons_self
  rcases getLast?_of_mem_movedKeys hmem with h | h
  · exact he (Option.some.inj (hsaid.symm.trans h))
  · exact hw (Option.some.inj (hsaid.symm.trans h))

theorem count_filter_not_contains (x : List String) {y : List String} (h : key ∉ y) :
    (x.filter fun key ↦ !y.contains key).count key = x.count key := by
  refine List.count_filter ?_
  rw [Bool.not_eq_true', Bool.eq_false_iff, Ne, List.contains_iff_mem]
  exact h

/-- As many lines as the one side has the key. -/
theorem count_gone (h : key ∉ after) :
    (movedKeys before after).count (key ++ " is gone") = before.count key := by
  have hnew : key ++ " is gone" ∉
      (after.filter fun key ↦ !before.contains key).map (· ++ " is new") := by
    intro hmem
    obtain ⟨key', -, heq⟩ := List.mem_map.1 hmem
    exact gone_ne_new key key' heq.symm
  rw [(perm_movedKeys before after).count_eq, List.count_append, List.count_eq_zero.2 hnew,
    Nat.add_zero, ← count_filter_not_contains before h]
  exact List.count_map_of_injective _ _ (fun _ _ heq ↦ (String.append_left_inj _).1 heq) _

theorem count_new (h : key ∉ before) :
    (movedKeys before after).count (key ++ " is new") = after.count key := by
  have hgone : key ++ " is new" ∉
      (before.filter fun key ↦ !after.contains key).map (· ++ " is gone") := by
    intro hmem
    obtain ⟨key', -, heq⟩ := List.mem_map.1 hmem
    exact gone_ne_new key' key heq
  rw [(perm_movedKeys before after).count_eq, List.count_append, List.count_eq_zero.2 hgone,
    Nat.zero_add, ← count_filter_not_contains after h]
  exact List.count_map_of_injective _ _ (fun _ _ heq ↦ (String.append_left_inj _).1 heq) _

/-- No line comes twice where no key does. -/
theorem nodup_movedKeys (hbefore : before.Nodup) (hafter : after.Nodup) :
    (movedKeys before after).Nodup := by
  rw [(perm_movedKeys before after).nodup_iff]
  refine List.nodup_append.2 ⟨?_, ?_, fun line hline line' hline' heq ↦ ?_⟩
  · exact (hbefore.filter _).map fun _ _ heq ↦ (String.append_left_inj _).1 heq
  · exact (hafter.filter _).map fun _ _ heq ↦ (String.append_left_inj _).1 heq
  · obtain ⟨key, -, rfl⟩ := List.mem_map.1 hline
    obtain ⟨key', -, rfl⟩ := List.mem_map.1 hline'
    exact gone_ne_new key key' heq

/-! ### The report -/

section Report

variable {digest : Value → String} {values cached : Dict} {secrets : List String}

/-- What is read of a fingerprint: the paths and the hash it was written with. -/
theorem getAs_keys (h : Dict.SameValues cached
      (cacheDocument (fingerprintOf digest) .fingerprint values secrets)) :
    cached.getAs Leaf.asStrings "keys" = some (leafPaths values) := by
  have hsegments : segments "keys" = ["keys"] := by decide
  have hkeys : ∀ keys : List String,
      (keys.map fun key ↦ Value.scalar (.string key)).mapM Value.asString = some keys := by
    intro keys
    induction keys with
    | nil => rfl
    | cons key keys ih =>
      rw [List.map_cons, List.mapM_cons, ih]
      rfl
  rw [getAs_eq, hsegments, h, cacheDocument_eq, peekAt_insert_off (by decide)]
  exact hkeys _

theorem getAs_fingerprint (h : Dict.SameValues cached
      (cacheDocument (fingerprintOf digest) .fingerprint values secrets)) :
    cached.getAs Leaf.asString "fingerprint" = some (digest values.toValue) := by
  have hsegments : segments "fingerprint" = ["fingerprint"] := by decide
  rw [getAs_eq, hsegments, h, cacheDocument_eq, peekAt_insert_off (by decide)]
  rfl

variable {before after : SnapshotTree}

theorem movedKeys_leafPaths_eq_nil_iff :
    movedKeys before.leafPaths after.leafPaths = [] ↔ before.SameLeafPaths after := by
  rw [movedKeys_eq_nil_iff]
  exact forall_congr' fun key ↦ iff_congr SnapshotTree.mem_leafPaths SnapshotTree.mem_leafPaths

/-- What is reported, of the paths and the values themselves. -/
theorem drift_eq (h : Dict.SameValues cached
      (cacheDocument (fingerprintOf digest) .fingerprint before.values secrets)) :
    drift (fingerprintOf digest) cached (some after.values) =
      some (if movedKeys before.leafPaths after.leafPaths = [] then
        (if digest before.values.toValue = digest after.values.toValue then [nothingMoved]
          else [sameKeys])
        else movedKeys before.leafPaths after.leafPaths) := by
  rw [drift, getAs_keys h, getAs_fingerprint h, Option.map_some, Option.getD_some]
  simp only [Option.some.injEq]
  rfl

/-- A report with lines in it is none of the two. -/
theorem driftReport_movedKeys (hmoved : ¬ before.SameLeafPaths after) :
    DriftReport before after (movedKeys before.leafPaths after.leafPaths) where
  nothing := by
    refine iff_of_false (movedKeys_ne_singleton (c := 'y') (by decide) (by decide) (by decide)) ?_
    intro hvalues
    refine hmoved fun key ↦ ?_
    rw [← SnapshotTree.mem_leafPaths, ← SnapshotTree.mem_leafPaths]
    exact iff_of_eq (congrArg (key ∈ ·) (leafPaths_congr hvalues))
  same := iff_of_false (movedKeys_ne_singleton (c := 's') (by decide) (by decide) (by decide))
    fun h ↦ hmoved h.1
  listed _ line := by
    rw [mem_movedKeys]
    simp only [SnapshotTree.mem_leafPaths]

/-- The two reports that say no key has moved. -/
theorem driftReport_same (hsame : before.SameLeafPaths after)
    (hdigest : digest before.values.toValue = digest after.values.toValue ↔
      before.values.toValue = after.values.toValue) :
    DriftReport before after
      (if digest before.values.toValue = digest after.values.toValue then [nothingMoved]
        else [sameKeys]) where
  nothing := by
    split
    · next hhash => exact iff_of_true rfl (hdigest.1 hhash)
    · next hhash => exact iff_of_false (by decide) fun hvalues ↦ hhash (hdigest.2 hvalues)
  same := by
    split
    · next hhash => exact iff_of_false (by decide) fun h ↦ h.2 (hdigest.1 hhash)
    · next hhash => exact iff_of_true rfl ⟨hsame, fun hvalues ↦ hhash (hdigest.2 hvalues)⟩
  listed hmoved := absurd hsame hmoved

end Report

/-- What a report says, and how often. -/
structure CountedReport (before after : SnapshotTree) (moved : List String) : Prop extends
    DriftReport before after moved where
  /-- A leaf path of one side only comes as often as that side has it. -/
  often : ¬ before.SameLeafPaths after → EachAsOften before after moved
  /-- And so once, where no key has a dot in it. -/
  once : before.Undotted → after.Undotted → moved.Nodup

/-- **A drift report is exact**, up to the leaf paths that one side has more than once. -/
theorem countedReport_drift (digest : Value → String) (before after : SnapshotTree)
    (secrets : List String) (cached : Dict)
    (hcollide : digest before.values.toValue = digest after.values.toValue →
      before.values.toValue = after.values.toValue)
    (hcached : Dict.SameValues cached
      (cacheDocument (fingerprintOf digest) .fingerprint before.values secrets)) :
    ∃ moved, drift (fingerprintOf digest) cached (some after.values) = some moved ∧
      CountedReport before after moved := by
  rw [drift_eq hcached]
  by_cases hsame : before.SameLeafPaths after
  · have hdigest : digest before.values.toValue = digest after.values.toValue ↔
        before.values.toValue = after.values.toValue := ⟨hcollide, congrArg digest⟩
    rw [if_pos (movedKeys_leafPaths_eq_nil_iff.2 hsame)]
    refine ⟨_, rfl, driftReport_same hsame hdigest, fun hmoved ↦ absurd hsame hmoved, fun _ _ ↦ ?_⟩
    split <;> exact List.pairwise_singleton _ _
  · rw [if_neg fun hnil ↦ hsame (movedKeys_leafPaths_eq_nil_iff.1 hnil)]
    refine ⟨_, rfl, driftReport_movedKeys hsame, fun _ key ↦ ⟨fun hafter ↦ ?_, fun hbefore ↦ ?_⟩,
      fun hbefore hafter ↦ nodup_movedKeys hbefore.nodup_leafPaths hafter.nodup_leafPaths⟩
    · exact count_gone fun hmem ↦ hafter (SnapshotTree.mem_leafPaths.1 hmem)
    · exact count_new fun hmem ↦ hbefore (SnapshotTree.mem_leafPaths.1 hmem)

/-! ### Two leaves with one path -/

theorem distinct_nothing : (LabelledTree.node none [] : Node).Distinct :=
  LabelledTree.distinct_node List.nodup_nil fun _ _ h ↦ absurd h.symm (Option.some_ne_none _)

/-- A snapshot with nothing in it. -/
def nothingSet : SnapshotTree where
  values := []
  distinct := distinct_nothing

/-- A snapshot with `b` in a table `a`, and a setting named `a.b`. -/
def twiceSet : SnapshotTree where
  values := [("a", .node none [("b", Node.scalar (.int 2))]), ("a.b", Node.scalar (.int 1))]
  distinct := by
    have hinner : (LabelledTree.node none [("b", Node.scalar (.int 2))] : Node).Distinct := by
      refine LabelledTree.distinct_node (List.pairwise_singleton _ _) fun k child hchild ↦ ?_
      obtain ⟨-, rfl⟩ := Prod.mk.inj (List.mem_singleton.1 (Entries.mem_of_lookup hchild))
      exact LabelledTree.distinct_leaf _ _
    refine LabelledTree.distinct_node (by decide) fun k child hchild ↦ ?_
    rcases List.mem_cons.1 (Entries.mem_of_lookup hchild) with heq | hmem
    · obtain ⟨-, rfl⟩ := Prod.mk.inj heq
      exact hinner
    · obtain ⟨-, rfl⟩ := Prod.mk.inj (List.mem_singleton.1 hmem)
      exact LabelledTree.distinct_leaf _ _

/-- A hash that tells nothing from something. -/
def anySet : Value → String
  | .table [] => "0000000000000000"
  | _ => "0000000000000001"

/-- The report on the two settings that are gone. -/
theorem countedReport_drift_twiceSet :
    ∃ moved, drift (fingerprintOf anySet)
        (cacheDocument (fingerprintOf anySet) .fingerprint twiceSet.values []) (some nothingSet.values) =
          some moved ∧ CountedReport twiceSet nothingSet moved :=
  countedReport_drift anySet twiceSet nothingSet [] _ (fun h ↦ absurd h (by decide)) fun _ ↦ rfl

/-- **It says so twice.** -/
theorem not_nodup_drift_twiceSet :
    (anySet twiceSet.values.toValue = anySet nothingSet.values.toValue →
        twiceSet.values.toValue = nothingSet.values.toValue) ∧
      ∃ moved, drift (fingerprintOf anySet)
        (cacheDocument (fingerprintOf anySet) .fingerprint twiceSet.values []) (some nothingSet.values) =
          some moved ∧ ¬ (DriftReport twiceSet nothingSet moved ∧ moved.Nodup) := by
  refine ⟨fun h ↦ absurd h (by decide), _, drift_eq fun _ ↦ rfl, ?_⟩
  rintro ⟨-, hnodup⟩
  have hgone : "a.b" ∉ nothingSet.leafPaths := List.not_mem_nil
  have hcount : (movedKeys twiceSet.leafPaths nothingSet.leafPaths).count ("a.b" ++ " is gone") =
      twiceSet.leafPaths.count "a.b" := count_gone hgone
  have htwice : twiceSet.leafPaths.count "a.b" = 2 := by decide
  have hlines : movedKeys twiceSet.leafPaths nothingSet.leafPaths ≠ [] := by
    intro hnil
    rw [hnil, htwice] at hcount
    cases hcount
  rw [if_neg hlines] at hnodup
  have honce := List.nodup_iff_count_le_one.1 hnodup ("a.b" ++ " is gone")
  omega

end DynamicConfig
