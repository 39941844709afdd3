import DynamicConfig.Values.Folding
import DynamicConfig.Values.Overlap

/-!
# Folding a prefix

The keys under a prefix come in whatever order the server lists them, so no two of them may supply
the same path: `Overlap::Refused`. Each document is held against the merge of those before it, which
comes to the same as holding every two against each other (`foldDocuments_ok_iff`), and so to the
same whatever the order.

A refusal says which paths both sides supply, and names an earlier key. The merge does not know whose
a path is, so the key is looked for in the documents, by the text of the first path, and that is not
always where the path leads: with a dot in a key it leads elsewhere. What is named is right where an
earlier document overlaps at the very path the text reads as (`realCulprit_iff`).
-/

namespace DynamicConfig

/-- What happens when two of a source's keys supply the same path. -/
inductive Overlap where
  | laterWins | refused
  deriving DecidableEq, Repr

namespace Documents

/-! ### The fold -/

/-- How many colliding paths a refusal names before it stops counting. -/
def mostReportedPaths : Nat := 8

/-- What a refusal says: the two keys, the paths, and how many more there are. -/
structure Collision where
  earlier : String
  key : String
  named : List String
  more : Nat

/-- The steps a dotted path takes down a value. -/
def walk : Value → List String → Option Value
  | v, [] => some v
  | .table entries, key :: rest => (entries.lookup key).bind fun v ↦ walk v rest
  | _, _ :: _ => none

/-- `Value::get`: the empty path is the value itself. -/
def getAt (v : Value) (path : String) : Option Value :=
  if path = "" then some v else walk v (segments path)

/-- The documents before the first one with a key. -/
def before (parsed : List (String × Value)) (key : String) : List (String × Value) :=
  parsed.takeWhile fun e ↦ !decide (e.1 = key)

/-- The earlier key a refusal names: the nearest one whose document has something at the first
path. -/
def earlierKey (parsed : List (String × Value)) (key : String) (clashes : List String) : String :=
  ((clashes.head?.bind fun path ↦
    (before parsed key).reverse.find? fun e ↦ (getAt e.2 path).isSome).map Prod.fst).getD
      "an earlier key"

/-- What two overlapping keys earn: `collision`. -/
def collision (parsed : List (String × Value)) (key : String) (clashes : List String) :
    Collision where
  earlier := earlierKey parsed key clashes
  key := key
  named := clashes.take mostReportedPaths
  more := clashes.length - (clashes.take mostReportedPaths).length

/-- The report as text. -/
def Collision.error (c : Collision) (described : String) : Error :=
  .remote (described ++ ": `" ++ c.earlier ++ "` and `" ++ c.key ++ "` both supply " ++
    ", ".intercalate c.named ++
    (if c.more = 0 then "" else " (and " ++ toString c.more ++ " more)") ++
    "; keys read as a prefix are sections that must not overlap, and the order a server lists " ++
    "them in is not a precedence — name the keys instead if one is meant to win")

/-- Folds the rest of the documents into the merge of those before. -/
def foldRest (overlap : Overlap) (parsed : List (String × Value)) :
    Value → List (String × Value) → Except Collision Value
  | tree, [] => .ok tree
  | tree, (key, value) :: rest =>
    if overlap = .refused ∧ tree.overlappingPaths value ≠ [] then
      .error (collision parsed key (tree.overlappingPaths value))
    else foldRest overlap parsed (tree.merge value) rest

/-- The merge of parsed documents, of which there is a first. -/
def foldParsed (overlap : Overlap) (first : String × Value) (rest : List (String × Value)) :
    Except Collision Value :=
  foldRest overlap (first :: rest) first.2 rest

/-- Several documents, parsed and merged under a policy: `folded`. -/
def foldedUnder (formats : Formats) (documents : List (String × String)) (format : Format)
    (overlap : Overlap) (described : String) : Except Error Value := do
  match ← documents.mapM fun e ↦ (parsed formats format described e).map fun v ↦ (e.1, v) with
  | [] => .error (.remote described)
  | first :: rest => (foldParsed overlap first rest).mapError fun c ↦ c.error described

/-! ### Documents that do not overlap -/

open LabelledTree (SameShown Compatible)

/-- A document with the key it was stored under. -/
abbrev Stored := String × ValueTree

/-- A stored document as it was parsed. -/
def Stored.parsed (e : Stored) : String × Value := (e.1, e.2.value)

/-- A stored document as the tree it shows. -/
def Stored.tree (e : Stored) : Node := e.2.value.toFigment

/-- The fold of stored documents under `Overlap::Refused`. -/
def foldDocuments (first : Stored) (rest : List Stored) : Except Collision Value :=
  foldParsed .refused first.parsed (rest.map Stored.parsed)

/-- Some two of the documents both supply a value at one path, and one of the values is no table. -/
def SomeOverlap (documents : List Stored) : Prop :=
  ∃ (i j : Nat) (u v : Stored), i < j ∧ documents[i]? = some u ∧ documents[j]? = some v ∧
    ∃ p, ValueTree.OverlapAt u.2 v.2 p

theorem not_someOverlap_iff {documents : List Stored} :
    ¬ SomeOverlap documents ↔ (documents.map Stored.tree).Pairwise Compatible := by
  rw [List.pairwise_map, List.pairwise_iff_getElem]
  constructor
  · intro h i j hi hj hlt p hclash
    exact h ⟨i, j, documents[i], documents[j], hlt, List.getElem?_eq_getElem hi,
      List.getElem?_eq_getElem hj, p, ValueTree.overlapAt_iff.2 hclash⟩
  · rintro h ⟨i, j, u, v, hlt, hu, hv, p, hoverlap⟩
    obtain ⟨hi, rfl⟩ := List.getElem?_eq_some_iff.1 hu
    obtain ⟨hj, rfl⟩ := List.getElem?_eq_some_iff.1 hv
    exact h i j hi hj hlt p (ValueTree.overlapAt_iff.1 hoverlap)

/-- The merge of stored documents shows what the merge of their trees shows. -/
theorem sameShown_foldl_merge (t : ValueTree) (rest : List Stored) :
    (rest.foldl (fun tree e ↦ tree.merge e.2) t).value.toFigment.SameShown
      ((rest.map Stored.tree).foldl LabelledTree.merge t.value.toFigment) := by
  have hshown : ∀ (t : ValueTree) (shown : Node), t.value.toFigment.SameShown shown →
      (rest.foldl (fun tree e ↦ tree.merge e.2) t).value.toFigment.SameShown
        ((rest.map Stored.tree).foldl LabelledTree.merge shown) := by
    induction rest with
    | nil => exact fun t shown h ↦ h
    | cons e rest ih =>
      intro t shown h
      refine ih (t.merge e.2) (shown.merge e.tree) fun p ↦ ?_
      exact (ValueTree.shows_merge t e.2 p).trans (h.merge (SameShown.refl _) p)
  exact hshown t _ (SameShown.refl _)

/-- **One check after the other** comes to all of them: the fold goes through exactly when no two of
the trees clash, and is their merge then. -/
theorem foldRest_ok_iff (parsed : List (String × Value)) (t : ValueTree) (rest : List Stored)
    (m : Value) :
    foldRest .refused parsed t.value (rest.map Stored.parsed) = .ok m ↔
      (t.value.toFigment :: rest.map Stored.tree).Pairwise Compatible ∧
        m = (rest.foldl (fun tree e ↦ tree.merge e.2) t).value := by
  induction rest generalizing t with
  | nil =>
    rw [List.map_nil, foldRest, Except.ok.injEq]
    exact ⟨fun h ↦ ⟨List.pairwise_singleton _ _, h.symm⟩, fun h ↦ h.2.symm⟩
  | cons e rest ih =>
    rw [List.map_cons, Stored.parsed, foldRest]
    by_cases hnil : t.value.overlappingPaths e.2.value = []
    · have hcompatible : Compatible t.value.toFigment e.tree :=
        ValueTree.overlappingPaths_eq_nil_iff.1 hnil
      rw [if_neg fun h ↦ h.2 hnil]
      have hstep := ih (t.merge e.2)
      have hpairwise : ((t.merge e.2).value.toFigment :: rest.map Stored.tree).Pairwise Compatible ↔
          (t.value.toFigment :: e.tree :: rest.map Stored.tree).Pairwise Compatible := by
        rw [← LabelledTree.pairwise_compatible_merge_iff hcompatible, List.pairwise_cons,
          List.pairwise_cons]
        have hmerge : SameShown (t.merge e.2).value.toFigment
            (t.value.toFigment.merge e.tree) := ValueTree.shows_merge t e.2
        refine and_congr_left fun _ ↦ forall₂_congr fun u _ ↦ forall_congr' fun p ↦ ?_
        exact not_congr hmerge.clashes_iff
      rw [hpairwise] at hstep
      exact hstep
    · rw [if_pos ⟨rfl, hnil⟩]
      refine iff_of_false (fun h ↦ (by cases h)) fun h ↦ hnil ?_
      exact ValueTree.overlappingPaths_eq_nil_iff.2
        ((List.pairwise_cons.1 h.1).1 e.tree List.mem_cons_self)

/-- **When a prefix folds**: exactly when no two of its documents overlap. -/
theorem foldDocuments_ok_iff (first : Stored) (rest : List Stored) (m : Value) :
    foldDocuments first rest = .ok m ↔ ¬ SomeOverlap (first :: rest) ∧
      m = (rest.foldl (fun tree e ↦ tree.merge e.2) first.2).value := by
  rw [not_someOverlap_iff]
  exact foldRest_ok_iff _ first.2 rest m

/-- Two folds with one outcome: the same tree, or a refusal. -/
def SameOutcome : Except Collision Value → Except Collision Value → Prop
  | .ok m, .ok m' => m.toFigment.SameShown m'.toFigment
  | .error _, .error _ => True
  | _, _ => False

/-- **The order of the keys does not matter**, and two that overlap are refused in every order. -/
theorem foldDocuments_perm (first first' : Stored) (rest rest' : List Stored)
    (h : (first :: rest).Perm (first' :: rest')) :
    SameOutcome (foldDocuments first rest) (foldDocuments first' rest') ∧
      ((∃ c, foldDocuments first rest = .error c) ↔ SomeOverlap (first :: rest)) := by
  have htrees : ((first :: rest).map Stored.tree).Perm ((first' :: rest').map Stored.tree) :=
    h.map Stored.tree
  have hoverlap : SomeOverlap (first :: rest) ↔ SomeOverlap (first' :: rest') := by
    rw [← not_iff_not, not_someOverlap_iff, not_someOverlap_iff]
    exact htrees.pairwise_iff fun hcompatible ↦ hcompatible.symm
  rcases hfold : foldDocuments first rest with c | m
  · have hover : SomeOverlap (first :: rest) := by
      by_contra hnot
      rw [(foldDocuments_ok_iff first rest _).2 ⟨hnot, rfl⟩] at hfold
      cases hfold
    refine ⟨?_, iff_of_true ⟨c, rfl⟩ hover⟩
    rcases hfold' : foldDocuments first' rest' with c' | m'
    · trivial
    · exact absurd (hoverlap.1 hover) ((foldDocuments_ok_iff first' rest' m').1 hfold').1
  · obtain ⟨hnot, rfl⟩ := (foldDocuments_ok_iff first rest m).1 hfold
    have hfold' := (foldDocuments_ok_iff first' rest' _).2 ⟨fun hover ↦ hnot (hoverlap.2 hover), rfl⟩
    refine ⟨?_, iff_of_false (fun ⟨c, hc⟩ ↦ (by cases hc)) hnot⟩
    rw [hfold']
    have hpairwise := not_someOverlap_iff.1 hnot
    have hpairwise' := (htrees.pairwise_iff fun hcompatible ↦ hcompatible.symm).1 hpairwise
    intro p
    rw [sameShown_foldl_merge first.2 rest p, sameShown_foldl_merge first'.2 rest' p]
    refine Option.ext fun x ↦ ?_
    have hshown := LabelledTree.peekAt_foldl_merge_eq_some_iff (p := p) (x := x) hpairwise
    have hshown' := LabelledTree.peekAt_foldl_merge_eq_some_iff (p := p) (x := x) hpairwise'
    refine hshown.trans (Iff.trans ?_ hshown'.symm)
    exact exists_congr fun u ↦ and_congr_left fun _ ↦ htrees.mem_iff

/-! ### Two documents and their order -/

/-- A stored document of one section with one setting. -/
def storedSetting (key section_ setting value : String) : Stored :=
  (key, ⟨(oneSetting section_ setting value).toValue, by
    rw [toFigment_toValue]
    exact (ordered_taken (ordered_oneSetting section_ setting value)).distinct⟩)

/-- Two sections that do not overlap fold to one tree in either order. -/
theorem foldDocuments_perm_sections :
    SameOutcome
        (foldDocuments (storedSetting "app/db" "db" "host" "a")
          [storedSetting "app/server" "server" "port" "1"])
        (foldDocuments (storedSetting "app/server" "server" "port" "1")
          [storedSetting "app/db" "db" "host" "a"]) ∧
      ((∃ c, foldDocuments (storedSetting "app/db" "db" "host" "a")
          [storedSetting "app/server" "server" "port" "1"] = .error c) ↔
        SomeOverlap [storedSetting "app/db" "db" "host" "a",
          storedSetting "app/server" "server" "port" "1"]) :=
  foldDocuments_perm _ _ _ _ (List.Perm.swap _ _ _)

/-! ### Who is named -/

section Culprit

/-- What a refusal is about: an earlier document of a name overlaps the new one, at a path of this
text. -/
def OverlapsAs (earlier : List Stored) (name : String) (value : ValueTree) (text : String) : Prop :=
  ∃ d ∈ earlier, d.1 = name ∧ ∃ p, joined p = text ∧ ValueTree.OverlapAt d.2 value p

/-- The paths a refusal names are paths that both sides supply. -/
def NamesBoth (earlier : List Stored) (value : ValueTree) (c : Collision) : Prop :=
  ∀ s ∈ c.named, ∃ p, joined p = s ∧ (∃ d ∈ earlier, d.2.Has p) ∧ value.Has p

/-- A refusal names paths that both sides supply, and an earlier document that overlaps at the first
of them. -/
def RealCulprit (earlier : List Stored) (value : ValueTree) (c : Collision) : Prop :=
  NamesBoth earlier value c ∧
    ∃ s, c.named.head? = some s ∧ OverlapsAs earlier c.earlier value s

/-- The text of the first overlap of a document with the earlier ones. -/
def FirstOverlap (earlier : List Stored) (value : ValueTree) (text : String) : Prop :=
  (∃ d ∈ earlier, ∃ p, joined p = text ∧ ValueTree.OverlapAt d.2 value p) ∧
    ∀ d ∈ earlier, ∀ p, ValueTree.OverlapAt d.2 value p → text ≤ joined p

/-- The path a text reads as, split at its dots. The empty text is the root. -/
def readAs (text : String) : List String := if text = "" then [] else segments text

/-- The documents before the first one stored under a key. -/
def sooner (documents : List Stored) (key : String) : List Stored :=
  documents.takeWhile fun e ↦ !decide (e.1 = key)

/-- The condition, on the documents: one that comes before any under the new document's key overlaps it
at the path the text reads as. -/
def ReadsBack (documents : List Stored) (key : String) (value : ValueTree) (text : String) : Prop :=
  ∃ d ∈ sooner documents key, ValueTree.OverlapAt d.2 value (readAs text)

/-- Documents under keys of their own, none of which spells two of its paths by this text, or has for
its key the words a refusal has where it finds no document. -/
structure Plain (earlier : List Stored) (text : String) : Prop where
  keys : (earlier.map Prod.fst).Nodup
  worded : "an earlier key" ∉ earlier.map Prod.fst
  once : ∀ d ∈ earlier, ∀ p q, d.2.Has p → d.2.Has q → joined p = text → joined q = text → p = q

theorem joined_readAs (text : String) : joined (readAs text) = text := by
  rw [readAs]
  split
  · next hempty => exact hempty.symm
  · exact joined_segments text

theorem isSome_walk_iff (v : Value) (p : List String) :
    (walk v p).isSome ↔ (v.toFigment.peekAt p).isSome := by
  induction p generalizing v with
  | nil => rw [walk.eq_def, LabelledTree.peekAt_nil]; exact Iff.rfl
  | cons k ks ih =>
    rcases v with s | items | entries
    · rw [walk.eq_def, Value.toFigment]
      exact Iff.rfl
    · rw [walk.eq_def, Value.toFigment]
      exact Iff.rfl
    · rw [walk, Value.toFigment, LabelledTree.peekAt_node_cons, lookup_toFigmentTable]
      rcases entries.lookup k with - | child
      · exact Iff.rfl
      · exact ih child

theorem isSome_getAt_iff (e : Stored) (text : String) :
    (getAt e.parsed.2 text).isSome ↔ e.2.Has (readAs text) := by
  rw [getAt, readAs]
  split
  · exact iff_of_true rfl (Option.some_ne_none _)
  · rw [isSome_walk_iff, Option.isSome_iff_ne_none]
    exact Iff.rfl

theorem before_parsed (documents : List Stored) (key : String) :
    before (documents.map Stored.parsed) key = (sooner documents key).map Stored.parsed := by
  rw [before, sooner, List.takeWhile_map]
  rfl

/-- No document under the new one's key is sooner, nor is the new one. -/
theorem sooner_subset {earlier post : List Stored} {key : String} {value : ValueTree} :
    sooner (earlier ++ (key, value) :: post) key ⊆ earlier := by
  intro d hd
  by_cases hall : ∀ e ∈ earlier, (!decide (e.1 = key)) = true
  · rw [sooner, List.takeWhile_append_of_pos hall, List.takeWhile_cons_of_neg (by simp),
      List.append_nil] at hd
    exact hd
  · rw [sooner, List.takeWhile_append, if_neg] at hd
    · exact (List.takeWhile_prefix _).subset hd
    · intro hlength
      exact hall (List.takeWhile_eq_self_iff.1
        ((List.takeWhile_prefix _).eq_of_length hlength))

/-- **Who is looked for.** Where any sooner document has something at the path the text reads as, the
key named is that of such a document; else it is none. -/
theorem earlierKey_spec (documents : List Stored) (key text : String) (others : List String) :
    (∃ e ∈ sooner documents key, e.2.Has (readAs text) ∧
        earlierKey (documents.map Stored.parsed) key (text :: others) = e.1) ∨
      (∀ e ∈ sooner documents key, ¬ e.2.Has (readAs text)) ∧
        earlierKey (documents.map Stored.parsed) key (text :: others) = "an earlier key" := by
  rw [earlierKey, List.head?_cons, Option.bind_some, before_parsed]
  rcases hfound : ((sooner documents key).map Stored.parsed).reverse.find?
      fun e ↦ (getAt e.2 text).isSome with - | found
  · refine Or.inr ⟨fun e he hhas ↦ ?_, by rw [hfound]; rfl⟩
    have hnone := List.find?_eq_none.1 hfound e.parsed
      (List.mem_reverse.2 (List.mem_map_of_mem he))
    exact hnone ((isSome_getAt_iff e text).2 hhas)
  · have hmem := List.mem_of_find?_eq_some hfound
    obtain ⟨e, he, rfl⟩ := List.mem_map.1 (List.mem_reverse.1 hmem)
    have hleads := List.find?_some (p := fun e : String × Value ↦ (getAt e.2 text).isSome) hfound
    exact Or.inl ⟨e, he, (isSome_getAt_iff e text).1 hleads, by rw [hfound]; rfl⟩

/-- A refused fold, with the documents before the one it was refused at. -/
theorem exists_of_foldRest_error (parsed : List (String × Value)) (t : ValueTree)
    (rest : List Stored) (c : Collision)
    (h : foldRest .refused parsed t.value (rest.map Stored.parsed) = .error c) :
    ∃ mid e post, rest = mid ++ e :: post ∧
      (t.value.toFigment :: mid.map Stored.tree).Pairwise Compatible ∧
        ∃ clashes, clashes ≠ [] ∧ c = collision parsed e.1 clashes ∧ clashes =
          ValueTree.overlappingPaths (mid.foldl (fun tree e ↦ tree.merge e.2) t) e.2 := by
  induction rest generalizing t with
  | nil => cases h
  | cons e rest ih =>
    rw [List.map_cons, Stored.parsed, foldRest] at h
    by_cases hnil : t.value.overlappingPaths e.2.value = []
    · rw [if_neg fun h ↦ h.2 hnil] at h
      obtain ⟨mid, e', post, rfl, hpairwise, hclash⟩ := ih (t.merge e.2) h
      have hcompatible : Compatible t.value.toFigment e.tree :=
        ValueTree.overlappingPaths_eq_nil_iff.1 hnil
      have hmerge : SameShown (t.merge e.2).value.toFigment (t.value.toFigment.merge e.tree) :=
        ValueTree.shows_merge t e.2
      refine ⟨e :: mid, e', post, rfl, ?_, hclash⟩
      rw [List.map_cons, ← LabelledTree.pairwise_compatible_merge_iff hcompatible]
      rw [List.pairwise_cons] at hpairwise ⊢
      exact ⟨fun u hu p hclash ↦ hpairwise.1 u hu p (hmerge.clashes_iff.2 hclash), hpairwise.2⟩
    · rw [if_pos ⟨rfl, hnil⟩] at h
      exact ⟨[], e, rest, rfl, List.pairwise_singleton _ _, _, hnil, (Except.error.inj h).symm, rfl⟩

/-- What overlaps the merge of documents that do not overlap each other overlaps one of them. -/
theorem overlapAt_foldl_iff {first : Stored} {mid : List Stored} {value : ValueTree}
    {p : List String} (h : ((first :: mid).map Stored.tree).Pairwise Compatible) :
    ValueTree.OverlapAt (mid.foldl (fun tree e ↦ tree.merge e.2) first.2) value p ↔
      ∃ d ∈ first :: mid, ValueTree.OverlapAt d.2 value p := by
  rw [ValueTree.overlapAt_iff, (sameShown_foldl_merge first.2 mid).clashes_iff]
  have hlist := LabelledTree.clashes_foldl_merge_iff (c := value.value.toFigment) (p := p) h
  refine hlist.trans ⟨?_, ?_⟩
  · rintro ⟨u, hu, hclash⟩
    have hmember : u ∈ (first :: mid).map Stored.tree := hu
    obtain ⟨d, hd, rfl⟩ := List.mem_map.1 hmember
    exact ⟨d, hd, ValueTree.overlapAt_iff.2 hclash⟩
  · rintro ⟨d, hd, hoverlap⟩
    exact ⟨d.tree, List.mem_map_of_mem hd, ValueTree.overlapAt_iff.1 hoverlap⟩

/-- Of documents that do not overlap each other, one that has something where another overlaps a third
overlaps it there as well. -/
theorem overlapAt_of_has {earlier : List Stored} {value : ValueTree} {d e : Stored}
    {p : List String} (hearlier : ¬ SomeOverlap earlier) (hd : d ∈ earlier) (he : e ∈ earlier)
    (hoverlap : ValueTree.OverlapAt d.2 value p) (hhas : e.2.Has p) :
    ValueTree.OverlapAt e.2 value p := by
  refine ⟨hhas, hoverlap.2.1, fun ⟨htable, htable'⟩ ↦ ?_⟩
  -- The new document has a table there, so the other has a leaf, and overlaps this one too.
  have hleaf : ¬ d.2.Table p := fun hd ↦ hoverlap.2.2 ⟨hd, htable'⟩
  have hne : d ≠ e := fun hde ↦ hleaf (hde ▸ htable)
  have hcompatible := not_someOverlap_iff.1 hearlier
  rw [List.pairwise_map] at hcompatible
  have hboth : ValueTree.OverlapAt d.2 e.2 p := ⟨hoverlap.1, hhas, fun h ↦ hleaf h.1⟩
  have : Std.Symm fun a b : Stored ↦ Compatible a.tree b.tree := ⟨fun _ _ h ↦ h.symm⟩
  exact hcompatible.forall hd he hne p (ValueTree.overlapAt_iff.1 hboth)

variable {earlier post : List Stored} {key : String} {value : ValueTree} {text : String}

/-- Where the text reads back, the key named is a culprit's. -/
theorem overlapsAs_of_readsBack (hearlier : ¬ SomeOverlap earlier)
    (h : ReadsBack (earlier ++ (key, value) :: post) key value text) (others : List String) :
    OverlapsAs earlier
      (earlierKey ((earlier ++ (key, value) :: post).map Stored.parsed) key (text :: others)) value
        text := by
  obtain ⟨d, hd, hoverlap⟩ := h
  rcases earlierKey_spec (earlier ++ (key, value) :: post) key text others with
    ⟨e, he, hhas, hnamed⟩ | ⟨hnone, -⟩
  · rw [hnamed]
    exact ⟨e, sooner_subset he, rfl, readAs text, joined_readAs text,
      overlapAt_of_has hearlier (sooner_subset hd) (sooner_subset he) hoverlap hhas⟩
  · exact absurd hoverlap.1 (hnone d hd)

/-- Among plain documents, where the key named is a culprit's the text reads back. -/
theorem readsBack_of_overlapsAs (hplain : Plain earlier text) {others : List String}
    (h : OverlapsAs earlier
      (earlierKey ((earlier ++ (key, value) :: post).map Stored.parsed) key (text :: others)) value
        text) : ReadsBack (earlier ++ (key, value) :: post) key value text := by
  obtain ⟨d, hd, hname, p, hp, hoverlap⟩ := h
  rcases earlierKey_spec (earlier ++ (key, value) :: post) key text others with
    ⟨e, he, hhas, hnamed⟩ | ⟨-, hnamed⟩
  · obtain rfl : d = e := List.inj_on_of_nodup_map hplain.keys hd (sooner_subset he)
      (hname.trans hnamed)
    obtain rfl := hplain.once d hd p (readAs text) hoverlap.1 hhas hp (joined_readAs text)
    exact ⟨d, he, hoverlap⟩
  · exact absurd (hname.trans hnamed ▸ List.mem_map_of_mem hd) hplain.worded

end Culprit

/-- **When a refusal names a real culprit.** It is about the first document that overlaps one before
it, and the paths it names are paths both sides supply. The earlier key is one that overlaps at the
first of them where the text of that path reads back to an overlap; and only there, among documents
whose texts and keys are not ambiguous. -/
theorem realCulprit_iff (first : Stored) (rest : List Stored) (c : Collision)
    (h : foldDocuments first rest = .error c) :
    ∃ earlier value post text, first :: rest = earlier ++ (c.key, value) :: post ∧
      ¬ SomeOverlap earlier ∧ FirstOverlap earlier value text ∧ NamesBoth earlier value c ∧
        (ReadsBack (first :: rest) c.key value text → RealCulprit earlier value c) ∧
          (Plain earlier text →
            (RealCulprit earlier value c ↔ ReadsBack (first :: rest) c.key value text)) := by
  obtain ⟨mid, e, post, rfl, hpairwise, clashes, hclashes, rfl, heq⟩ :=
    exists_of_foldRest_error _ first.2 rest c h
  have hmem : ∀ s, s ∈ clashes ↔ ∃ d ∈ first :: mid, ∃ p, joined p = s ∧
      ValueTree.OverlapAt d.2 e.2 p := by
    intro s
    rw [heq, (ValueTree.perm_overlappingPaths _ _).mem_iff, List.mem_map]
    constructor
    · rintro ⟨p, hp, rfl⟩
      obtain ⟨d, hd, hoverlap⟩ := (overlapAt_foldl_iff hpairwise).1 (ValueTree.mem_clashList_iff.1 hp)
      exact ⟨d, hd, p, rfl, hoverlap⟩
    · rintro ⟨d, hd, p, rfl, hoverlap⟩
      exact ⟨p, ValueTree.mem_clashList_iff.2 ((overlapAt_foldl_iff hpairwise).2 ⟨d, hd, hoverlap⟩),
        rfl⟩
  obtain ⟨text, others, rfl⟩ := List.exists_cons_of_ne_nil hclashes
  have hfirst : ∀ s ∈ others, text ≤ s := by
    have hsorted : (text :: others).Pairwise (· ≤ ·) := heq ▸ pairwise_sortedTexts _
    exact (List.pairwise_cons.1 hsorted).1
  have hearlier : ¬ SomeOverlap (first :: mid) := not_someOverlap_iff.2 hpairwise
  have hnamed : NamesBoth (first :: mid) e.2
      (collision ((first :: (mid ++ e :: post)).map Stored.parsed) e.1 (text :: others)) := by
    intro s hs
    obtain ⟨d, hd, p, hp, hoverlap⟩ := (hmem s).1 (List.mem_of_mem_take hs)
    exact ⟨p, hp, ⟨d, hd, hoverlap.1⟩, hoverlap.2.1⟩
  have hreal : ReadsBack (first :: mid ++ e :: post) e.1 e.2 text → RealCulprit (first :: mid) e.2
      (collision ((first :: (mid ++ e :: post)).map Stored.parsed) e.1 (text :: others)) :=
    fun hback ↦ ⟨hnamed, text, rfl, overlapsAs_of_readsBack hearlier hback others⟩
  refine ⟨first :: mid, e.2, post, text, rfl, hearlier,
    ⟨(hmem text).1 List.mem_cons_self, fun d hd p hoverlap ↦ ?_⟩, hnamed, hreal,
    fun hplain ↦ ⟨?_, hreal⟩⟩
  · rcases List.mem_cons.1 ((hmem (joined p)).2 ⟨d, hd, p, rfl, hoverlap⟩) with hsame | hlater
    · exact le_of_eq hsame.symm
    · exact hfirst _ hlater
  · rintro ⟨-, s, hs, hoverlap⟩
    obtain rfl : text = s := Option.some.inj hs
    exact readsBack_of_overlapsAs hplain hoverlap

/-! ### A key with a dot in it -/

/-- Three keys of one store. The first and the last have one setting named `a.b`, the one between has
`b` in a table `a`. -/
def dottedOne : Stored := ("app/one", ValueTree.settingAt ["a.b"] (.int 1))

/-- The one between. -/
def nestedTwo : Stored := ("app/two", ValueTree.settingAt ["a", "b"] (.int 2))

/-- And the last. -/
def dottedThree : Stored := ("app/three", ValueTree.settingAt ["a.b"] (.int 3))

/-- What a refusal of the three says. -/
def refusedDotted : Collision :=
  { earlier := "app/two", key := "app/three", named := ["a.b"], more := 0 }

/-- How the fold of the three is refused. -/
theorem foldDocuments_dotted :
    foldDocuments dottedOne [nestedTwo, dottedThree] = .error refusedDotted := by
  have hfirst : dottedOne.2.value.overlappingPaths nestedTwo.2.value = [] := by
    rw [Value.overlappingPaths, show Value.overlaps [] dottedOne.2.value nestedTwo.2.value = []
      by decide, sortedTexts, List.mergeSort_nil]
  have hsecond : (dottedOne.2.value.merge nestedTwo.2.value).overlappingPaths dottedThree.parsed.2 =
      ["a.b"] := by
    rw [Value.overlappingPaths, show Value.overlaps [] (dottedOne.2.value.merge nestedTwo.2.value)
      dottedThree.parsed.2 = ["a.b"] by decide, sortedTexts, List.mergeSort_singleton]
  show foldRest .refused _ dottedOne.2.value [nestedTwo.parsed, dottedThree.parsed] = _
  rw [Stored.parsed, foldRest, if_neg fun h ↦ h.2 hfirst, Stored.parsed, foldRest]
  dsimp only
  rw [hsecond, if_pos ⟨rfl, List.cons_ne_nil _ _⟩]
  rfl

/-- The condition of this refusal. -/
theorem realCulprit_iff_dotted :
    ∃ earlier value post text, [dottedOne, nestedTwo, dottedThree] =
        earlier ++ ("app/three", value) :: post ∧ ¬ SomeOverlap earlier ∧
      FirstOverlap earlier value text ∧ NamesBoth earlier value refusedDotted ∧
        (ReadsBack [dottedOne, nestedTwo, dottedThree] "app/three" value text →
          RealCulprit earlier value refusedDotted) ∧
          (Plain earlier text → (RealCulprit earlier value refusedDotted ↔
            ReadsBack [dottedOne, nestedTwo, dottedThree] "app/three" value text)) :=
  realCulprit_iff dottedOne [nestedTwo, dottedThree] _ foldDocuments_dotted

/-- The key it names is that of a document that does not overlap. -/
theorem not_realCulprit_dotted :
    ∃ c, foldDocuments dottedOne [nestedTwo, dottedThree] = .error c ∧
      ¬ RealCulprit [dottedOne, nestedTwo] dottedThree.2 c := by
  refine ⟨_, foldDocuments_dotted, ?_⟩
  rintro ⟨-, s, hs, d, hd, hname, p, hp, hboth, hnew, -⟩
  obtain rfl : "a.b" = s := Option.some.inj hs
  rcases List.mem_cons.1 hd with rfl | hd
  · exact absurd hname (by decide)
  · obtain rfl := List.mem_singleton.1 hd
    have hnested : p <+: ["a", "b"] := ValueTree.has_settingAt_iff.1 hboth
    have hdotted : p <+: ["a.b"] := ValueTree.has_settingAt_iff.1 hnew
    rcases p with - | ⟨k, ks⟩
    · exact absurd hp (by decide)
    · have hkey := (List.cons_prefix_cons.1 hnested).1.symm.trans (List.cons_prefix_cons.1 hdotted).1
      exact absurd hkey (by decide)

end Documents

end DynamicConfig
