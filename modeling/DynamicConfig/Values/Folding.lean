import DynamicConfig.Loader.Isolation
import DynamicConfig.Tree.Shown
import DynamicConfig.Values.Document

/-!
# Folding documents before the load

Two documents can be merged by whoever holds them, as values, and rendered as one; or a load can be
given both, and merge them itself, section by section. The two come to the same where they merge
the same tables. A section is filed under a profile, which is compared without regard to ASCII
case, and a value's keys are compared as they are: two keys of one section that differ in case alone
are layered by the load and stand beside each other in the folded document, where the later one in
the order of the keys is kept. `foldsLikeLayers_iff` says when that is all the same.
-/

namespace DynamicConfig

open LabelledTree (SameShown)

/-! ### A load of several documents -/

/-- A source that supplies a document, whole, under one profile. -/
inductive Supplies (host : Host) (document : Dict) : Source → Prop
  | file (path : String) (format : Format) (h : Reads (host.fileProvider format path) document) :
    Supplies host document (.file path format)
  | encrypted (path : String) (format : Format) (plaintext : String)
    (hdecrypted : host.decrypted path = .ok (some plaintext))
    (h : Reads (host.textProvider format plaintext) document) :
    Supplies host document (.encrypted path format)
  | inline (text : String) (format : Format) (h : Reads (host.textProvider format text) document) :
    Supplies host document (.inline text format)

/-- The table of a document that a section is loaded from. -/
def keptTable (key : String) (document : Dict) : Dict :=
  ((lastFolding key (document.map Prod.fst)).map (tableUnder document)).getD []

section Supplied

variable {host : Host} {document : Dict} {source : Source}

/-- Merging such a source merges one provider, the document's. -/
theorem Supplies.exists_provider (h : Supplies host document source) :
    ∃ (p : Provider) (profile : Profile), p.data = sectionsData ⟨none⟩ [] [(profile, document)] ∧
      ∀ (Fig : Type) [Figment Fig] (figment : Fig),
        mergeSource host figment source ⟨none⟩ = .ok (Figment.merge figment p) := by
  rcases h with ⟨path, format, profile, h⟩ | ⟨path, format, plaintext, hdecrypted, profile, h⟩ |
    ⟨text, format, profile, h⟩
  · refine ⟨sections (host.fileProvider format path) ⟨none⟩, profile, ?_, fun Fig _ figment ↦ rfl⟩
    rw [sections, h]
  · refine ⟨named (sections (host.textProvider format plaintext) ⟨none⟩) path (some path), profile,
      ?_, fun Fig _ figment ↦ ?_⟩
    · rw [named, sections, h]
    · rw [mergeSource, mergeEncryptedFile, hdecrypted]
      rfl
  · refine ⟨sections (host.textProvider format text) ⟨none⟩, profile, ?_, fun Fig _ figment ↦ rfl⟩
    rw [sections, h]

/-- A listed source, without a profile to look for a variant of. -/
def mergeListedSource {Fig : Type} [Figment Fig] (host : Host) (figment : Fig) (source : Source) :
    Except Error Fig := do
  let figment ← mergeSource host figment source ⟨none⟩
  match source.path, source.format with
  | some path, some format => mergeProfileVariant host figment path format none ⟨none⟩
  | _, _ => .ok figment

theorem mergeListedSource_eq {Fig : Type} [Figment Fig] {figment merged : Fig}
    (h : mergeSource host figment source ⟨none⟩ = .ok merged) :
    mergeListedSource host figment source = .ok merged := by
  rw [mergeListedSource, h]
  rcases source with ⟨path, format⟩ | ⟨path, format⟩ | ⟨text, format⟩ | p <;> rfl

/-- What a provider of a document's sections supplies to a section: the table that is kept. -/
theorem suppliedTable_of_sections {p : Provider} {profile : Profile}
    (hdata : p.data = sectionsData ⟨none⟩ [] [(profile, document)])
    (htables : ∀ e ∈ document, e.2.isTable = true) (hkeys : (document.map Prod.fst).Nodup) :
    ∃ filed, p.data = .ok filed ∧
      (∀ key, suppliedTable p.metadata filed (sectionProfile key) =
        LabelledTree.mapTagEntries (labelled p.metadata) (keptTable key document)) ∧
        suppliedTable p.metadata filed Profile.default = [] ∧
          suppliedTable p.metadata filed Profile.global = [] := by
  obtain ⟨filed, hfiled, hlookup, hother⟩ := exists_sectionsOf htables hkeys []
  refine ⟨filed, ?_, fun key ↦ ?_, ?_, ?_⟩
  · rw [hdata, sectionsData, hfiled]
    rfl
  · rw [suppliedTable, hlookup, List.lookup_nil, Option.or_none, keptTable]
  · rw [suppliedTable, hother Profile.default default_ne_sectionProfile, List.lookup_nil]
    rfl
  · rw [suppliedTable, hother Profile.global global_ne_sectionProfile, List.lookup_nil]
    rfl

/-- A figment that holds nothing but a section, and shows there what a tree shows. -/
def Holds {Fig : Type} [Figment Fig] (key : String) (figment : Fig) (shown : Node) : Prop :=
  ∃ tables : Profile → Dict, Figment.data figment = .ok tables ∧
    tables Profile.default = [] ∧ tables Profile.global = [] ∧
      (tables (sectionProfile key)).root.SameShown shown

/-- **One more document** is laid over what the section showed. -/
theorem Holds.merge {Fig : Type} [Figment Fig] [LawfulFigment Fig] {key : String} {figment : Fig}
    {shown : Node} (h : Holds key figment shown) {p : Provider} {profile : Profile}
    (hdata : p.data = sectionsData ⟨none⟩ [] [(profile, document)])
    (htables : ∀ e ∈ document, e.2.isTable = true) (hkeys : (document.map Prod.fst).Nodup) :
    Holds key (Figment.merge figment p) (shown.merge (keptTable key document).root) := by
  obtain ⟨tables, htable, hdefault, hglobal, hshown⟩ := h
  obtain ⟨filed, hfiled, hsupplied, hnodefault, hnoglobal⟩ :=
    suppliedTable_of_sections hdata htables hkeys
  have hvalues : (Figment.stack figment).values = .ok tables := htable
  refine ⟨fun q ↦ LabelledTree.mergeTables (tables q) (suppliedTable p.metadata filed q), ?_, ?_,
    ?_, ?_⟩
  · show (Figment.stack (Figment.merge figment p)).values = _
    rw [LawfulFigment.stack_merge]
    show mergeData (Figment.stack figment).values p = _
    simp only [mergeData, hvalues, hfiled]
  · show LabelledTree.mergeTables _ _ = []
    rw [hdefault, hnodefault, LabelledTree.mergeTables_nil_left]
  · show LabelledTree.mergeTables _ _ = []
    rw [hglobal, hnoglobal, LabelledTree.mergeTables_nil_left]
  · show (Dict.root (LabelledTree.mergeTables _ _)).SameShown _
    rw [Dict.root_mergeTables, hsupplied]
    exact hshown.merge fun q ↦ peekAt_mapTagEntries p.metadata _ q

/-- **A load of several documents** lays the tables of its section over each other, in order. -/
theorem exists_snapshot_of_supplies (Fig : Type) [Figment Fig] [LawfulFigment Fig] (key : String)
    {documents : List Dict} {sources : List Source} (hne : sources ≠ [])
    (h : List.Forall₂ (fun document source ↦ Supplies host document source) documents sources)
    (htables : ∀ d ∈ documents, ∀ e ∈ d, e.2.isTable = true)
    (hkeys : ∀ d ∈ documents, (d.map Prod.fst).Nodup) :
    ∃ resolved, snapshot Fig host { key, sources } = .ok resolved ∧
      resolved.root.SameShown (documents.foldl
        (fun shown document ↦ shown.merge (keptTable key document).root) (Dict.root [])) := by
  have hfold : ∀ (figment : Fig) (shown : Node), Holds key figment shown → ∃ merged,
      sources.foldlM (mergeListedSource host) figment = .ok merged ∧
        Holds key merged (documents.foldl
          (fun shown document ↦ shown.merge (keptTable key document).root) shown) := by
    clear hne
    induction h with
    | nil => exact fun figment shown hholds ↦ ⟨figment, rfl, hholds⟩
    | @cons document source documents sources hsupplies _ ih =>
      intro figment shown hholds
      obtain ⟨p, profile, hdata, hmerge⟩ := hsupplies.exists_provider
      obtain ⟨merged, hmerged, hholds'⟩ := ih
        (fun d hd ↦ htables d (List.mem_cons_of_mem _ hd))
        (fun d hd ↦ hkeys d (List.mem_cons_of_mem _ hd)) (Figment.merge figment p) _
        (hholds.merge hdata (htables document List.mem_cons_self)
          (hkeys document List.mem_cons_self))
      refine ⟨merged, ?_, hholds'⟩
      rw [List.foldlM_cons, mergeListedSource_eq (hmerge Fig figment)]
      exact hmerged
  have hnew : Holds key (Figment.new : Fig) (Dict.root []) := by
    refine ⟨fun _ ↦ [], ?_, rfl, rfl, SameShown.refl _⟩
    show (Figment.stack (Figment.new : Fig)).values = _
    rw [LawfulFigment.stack_new]
    rfl
  obtain ⟨merged, hmerged, tables, hdata, hdefault, hglobal, hshown⟩ := hfold Figment.new _ hnew
  have hbuild : build host { key, sources } = .ok merged := by
    obtain ⟨first, rest, rfl⟩ := List.exists_cons_of_ne_nil hne
    show (List.foldlM (mergeListedSource host) (Figment.new : Fig) (first :: rest) >>= _) = _
    rw [hmerged]
    rfl
  refine ⟨_, snapshot_of_data hbuild hdata, fun p ↦ ?_⟩
  rw [root_combine_sectionProfile, hdefault, hglobal, ← Dict.root_mergeTables,
    peekAt_merge_of_nil, Dict.root_mergeTables, peekAt_merge_nil]
  exact hshown p

end Supplied

/-! ### Folding two documents -/

/-- What figment documents of the text parsers: a text a format accepts is one document, filed under
the default profile, and its tables are ordered maps. -/
def Host.ReadsWhole (host : Host) : Prop :=
  ∀ format text data, (host.textProvider format text).data = .ok data →
    ∃ document : Dict, data = [(Profile.default, document)] ∧ document.root.Ordered

/-- A source that hands over a text: as it is, or out of a file. -/
inductive HandsOver (host : Host) (format : Format) (text : String) : Source → Prop
  | file (path : String)
    (h : (host.fileProvider format path).data = (host.textProvider format text).data) :
    HandsOver host format text (.file path format)
  | encrypted (path : String) (h : host.decrypted path = .ok (some text)) :
    HandsOver host format text (.encrypted path format)
  | inline : HandsOver host format text (.inline text format)

/-- The top-level keys of a document. -/
def Value.keys : Value → List String
  | .table entries => entries.map Prod.fst
  | _ => []

/-- What a document holds under a top-level key. -/
def Value.under (v : Value) (key : String) : Node :=
  (v.toFigment.get [key]).getD (Dict.root [])

/-- Every top-level key of a document is a table. -/
def Value.Sectioned (v : Value) : Prop :=
  ∀ k x, v.toFigment.peekAt [k] = some x → x = none

/-- Rendering a value and parsing it again gives the value back. -/
def RendersBack (host : Host) (serializer : Format → Dict → Except Error String) (format : Format)
    (v : Value) : Prop :=
  ∀ text, v.render serializer format = .ok text → ∃ back, Value.parse host text format = .ok back ∧
    back.toFigment.SameShown v.toFigment

/-- A section of the folded document is the section the two documents are layered to. -/
def FoldsLikeLayers (Fig : Type) [Figment Fig] (host : Host) (key : String)
    (source₁ source₂ source : Source) : Prop :=
  ∃ folded layered, snapshot Fig host { key, sources := [source] } = .ok folded ∧
    snapshot Fig host { key, sources := [source₁, source₂] } = .ok layered ∧
      folded.toValue.toFigment.SameShown layered.toValue.toFigment

/-- The condition on the two documents. Where both have the section, they have it under the same
key; or the one under the later key is all there is to the two: it decides whatever the first one
shows, or shows whatever the second one does. -/
def FoldsCleanly (key : String) (one two : Value) : Prop :=
  ∀ k₁ ∈ lastFolding key one.keys, ∀ k₂ ∈ lastFolding key two.keys,
    k₁ = k₂ ∨
      (k₁ < k₂ ∧ ∀ p, ((one.under k₁).peekAt p).isSome → (two.under k₂).decides p = true) ∨
        (k₂ < k₁ ∧ ∀ p x, (two.under k₂).peekAt p = some x → (one.under k₁).peekAt p = some x)

/-- The value a section is loaded from. -/
def Value.kept (key : String) (v : Value) : Node :=
  ((lastFolding key v.keys).map v.under).getD (Dict.root [])

/-! ### Documents and their values -/

theorem taken_congr {a b : Node} (h : a.SameShown b) : (Node.taken a).SameShown (Node.taken b) := by
  intro p
  rw [peekAt_taken, peekAt_taken, h p]

/-- Taking over commutes with merging. -/
theorem taken_merge (a b : Node) :
    (Node.taken (a.merge b)).SameShown ((Node.taken a).merge (Node.taken b)) := by
  intro p
  rw [LabelledTree.peekAt_merge, peekAt_taken, peekAt_taken, peekAt_taken, blocks_taken,
    LabelledTree.peekAt_merge]
  rcases b.peekAt p with - | x
  · rw [Option.none_or, Option.map_none, Option.none_or]
    split <;> rfl
  · rfl

theorem keys_toValue (document : Dict) : document.toValue.keys = document.map Prod.fst := by
  rw [Dict.toValue, Value.keys, Dict.fromFigment_eq_mapValues, Entries.mapValues, List.map_map]
  rfl

/-- A text that parses to a value is a document, and the value is what it is taken over as. -/
theorem exists_document {host : Host} (hwhole : host.ReadsWhole) {text : String} {format : Format}
    {v : Value} (h : Value.parse host text format = .ok v) :
    ∃ document : Dict, (host.textProvider format text).data = .ok [(Profile.default, document)] ∧
      document.root.Ordered ∧ v = document.toValue := by
  rw [Value.parse, parseDocument] at h
  rcases hdata : (host.textProvider format text).data with e | data
  · rw [hdata] at h
    cases h
  · obtain ⟨document, rfl, hordered⟩ := hwhole format text data hdata
    rw [hdata] at h
    exact ⟨document, rfl, hordered, (Except.ok.inj h).symm⟩

theorem HandsOver.supplies {host : Host} {format : Format} {text : String} {source : Source}
    {document : Dict} (h : HandsOver host format text source)
    (hdata : (host.textProvider format text).data = .ok [(Profile.default, document)]) :
    Supplies host document source := by
  rcases h with ⟨path, h⟩ | ⟨path, h⟩ | -
  · exact Supplies.file path format ⟨Profile.default, h.trans hdata⟩
  · exact Supplies.encrypted path format text h ⟨Profile.default, hdata⟩
  · exact Supplies.inline text format ⟨Profile.default, hdata⟩

section Documents

variable {document : Dict}

/-- A sectioned document is a document of tables. -/
theorem isTable_of_sectioned (hordered : document.root.Ordered)
    (h : document.toValue.Sectioned) : ∀ e ∈ document, e.2.isTable = true := by
  intro e he
  have hlookup : document.lookup e.1 = some e.2 := Entries.lookup_of_mem hordered.nodup he
  have hshown : document.toValue.toFigment.peekAt [e.1] = some (e.2.peek.map Leaf.fromFigment) := by
    rw [toFigment_toValue, peekAt_taken, LabelledTree.peekAt, Dict.root, LabelledTree.get_node_cons,
      hlookup, Option.bind_some, LabelledTree.get_nil]
    rfl
  have hnone := Option.map_eq_none_iff.1 (h e.1 _ hshown)
  rw [LabelledTree.isTable, hnone]
  rfl

/-- The table a section is loaded from, as a value. -/
theorem taken_keptTable (htables : ∀ e ∈ document, e.2.isTable = true) (key : String) :
    Node.taken (keptTable key document).root = document.toValue.kept key := by
  rw [keptTable, Value.kept, keys_toValue]
  rcases hlast : lastFolding key (document.map Prod.fst) with - | last
  · rw [Option.map_none, Option.map_none, Option.getD_none, Option.getD_none, Dict.root, taken_node]
    rfl
  · obtain ⟨value, hvalue⟩ := Option.isSome_iff_exists.1
      (Entries.isSome_lookup_iff_mem.2 (mem_of_lastFolding hlast).1)
    have htable := htables (last, value) (Entries.mem_of_lookup hvalue)
    rcases value with ⟨tag, leaf⟩ | ⟨tag, table⟩
    · cases htable
    · have hget : document.root.get [last] = some (.node tag table) := by
        rw [Dict.root, LabelledTree.get_node_cons, hvalue, Option.bind_some, LabelledTree.get_nil]
      rw [Option.map_some, Option.map_some, Option.getD_some, Option.getD_some, Value.under,
        tableUnder, hvalue, toFigment_toValue, get_taken, hget, Option.map_some, Option.getD_some,
        taken_node]
      exact taken_node none table

end Documents

/-! ### The section of the folded document -/

/-- Of the keys of two documents that name a section, the folded document keeps the later. -/
def laterKey (k₁ k₂ : Option String) : Option String :=
  match k₁, k₂ with
  | none, k₂ => k₂
  | k₁, none => k₁
  | some k₁, some k₂ => some (if k₁ < k₂ then k₂ else k₁)

theorem lastFolding_eq_some_iff {key last : String} {keys : List String}
    (hsorted : keys.Pairwise (· < ·)) :
    lastFolding key keys = some last ↔ last ∈ keys ∧ filedAs key last = true ∧
      ∀ other ∈ keys, filedAs key other = true → other = last ∨ other < last := by
  have hfiltered : (keys.filter (filedAs key)).Pairwise (· < ·) := hsorted.filter _
  constructor
  · intro hlast
    obtain ⟨hmem, hfiled⟩ := mem_of_lastFolding hlast
    refine ⟨hmem, hfiled, fun other hother hfold ↦ ?_⟩
    exact eq_or_lt_getLast hfiltered hlast (List.mem_filter.2 ⟨hother, hfold⟩)
  · rintro ⟨hmem, hfiled, hlater⟩
    have hin : last ∈ keys.filter (filedAs key) := List.mem_filter.2 ⟨hmem, hfiled⟩
    rcases hkept : lastFolding key keys with - | kept
    · rw [List.getLast?_eq_none_iff.1 hkept] at hin
      exact absurd hin List.not_mem_nil
    · obtain ⟨hkeptmem, hkeptfiled⟩ := mem_of_lastFolding hkept
      rcases hlater kept hkeptmem hkeptfiled with rfl | hlt
      · rfl
      · rcases eq_or_lt_getLast hfiltered hkept hin with rfl | hgt
        · rfl
        · exact absurd hgt (lt_asymm hlt)

theorem lastFolding_eq_none_iff {key : String} {keys : List String} :
    lastFolding key keys = none ↔ ∀ other ∈ keys, filedAs key other = false := by
  rw [lastFolding, List.getLast?_eq_none_iff, List.filter_eq_nil_iff]
  exact ⟨fun h other ho ↦ Bool.eq_false_iff.2 (h other ho),
    fun h other ho ↦ Bool.eq_false_iff.1 (h other ho)⟩

/-- **The key that is kept of all** is the later of the two that are kept of each. -/
theorem lastFolding_union {key : String} {keys keys₁ keys₂ : List String}
    (hsorted : keys.Pairwise (· < ·)) (hsorted₁ : keys₁.Pairwise (· < ·))
    (hsorted₂ : keys₂.Pairwise (· < ·)) (hmem : ∀ k, k ∈ keys ↔ k ∈ keys₁ ∨ k ∈ keys₂) :
    lastFolding key keys = laterKey (lastFolding key keys₁) (lastFolding key keys₂) := by
  rcases h₁ : lastFolding key keys₁ with - | k₁
  · rw [lastFolding_eq_none_iff] at h₁
    rcases h₂ : lastFolding key keys₂ with - | k₂
    · rw [lastFolding_eq_none_iff] at h₂
      refine lastFolding_eq_none_iff.2 fun other hother ↦ ?_
      exact ((hmem other).1 hother).elim (h₁ other) (h₂ other)
    · obtain ⟨hin, hfiled, hlater⟩ := (lastFolding_eq_some_iff hsorted₂).1 h₂
      refine (lastFolding_eq_some_iff hsorted).2
        ⟨(hmem k₂).2 (Or.inr hin), hfiled, fun other hother hfold ↦ ?_⟩
      rcases (hmem other).1 hother with hother | hother
      · exact absurd ((h₁ other hother).symm.trans hfold) Bool.false_ne_true
      · exact hlater other hother hfold
  · obtain ⟨hin₁, hfiled₁, hlater₁⟩ := (lastFolding_eq_some_iff hsorted₁).1 h₁
    rcases h₂ : lastFolding key keys₂ with - | k₂
    · rw [lastFolding_eq_none_iff] at h₂
      refine (lastFolding_eq_some_iff hsorted).2
        ⟨(hmem k₁).2 (Or.inl hin₁), hfiled₁, fun other hother hfold ↦ ?_⟩
      rcases (hmem other).1 hother with hother | hother
      · exact hlater₁ other hother hfold
      · exact absurd ((h₂ other hother).symm.trans hfold) Bool.false_ne_true
    · obtain ⟨hin₂, hfiled₂, hlater₂⟩ := (lastFolding_eq_some_iff hsorted₂).1 h₂
      refine (lastFolding_eq_some_iff hsorted).2 ?_
      by_cases hlt : k₁ < k₂
      · rw [if_pos hlt]
        refine ⟨(hmem k₂).2 (Or.inr hin₂), hfiled₂, fun other hother hfold ↦ ?_⟩
        rcases (hmem other).1 hother with hother | hother
        · rcases hlater₁ other hother hfold with rfl | hbefore
          · exact Or.inr hlt
          · exact Or.inr (lt_trans hbefore hlt)
        · exact hlater₂ other hother hfold
      · rw [if_neg hlt]
        refine ⟨(hmem k₁).2 (Or.inl hin₁), hfiled₁, fun other hother hfold ↦ ?_⟩
        rcases (hmem other).1 hother with hother | hother
        · exact hlater₁ other hother hfold
        · rcases hlater₂ other hother hfold with rfl | hbefore
          · exact eq_or_lt_of_le (not_lt.1 hlt)
          · exact Or.inr (lt_of_lt_of_le hbefore (not_lt.1 hlt))

section Under

variable {v : Value} {key k : String}

/-- A document is a table, with its keys in order. -/
def Value.IsDocument (v : Value) : Prop :=
  ∃ entries, v = .table entries ∧ v.toFigment.Ordered

theorem Value.IsDocument.keys_sorted (h : v.IsDocument) : v.keys.Pairwise (· < ·) := by
  obtain ⟨entries, rfl, hordered⟩ := h
  rw [Value.toFigment] at hordered
  have hkeys := hordered.keys
  rw [Value.toFigmentTable_eq_mapValues, Entries.mapValues, List.map_map] at hkeys
  exact hkeys

/-- What shows below a key of a document. -/
theorem Value.IsDocument.peekAt_cons (h : v.IsDocument) (p : List String) :
    v.toFigment.peekAt (k :: p) = if k ∈ v.keys then (v.under k).peekAt p else none := by
  obtain ⟨entries, rfl, -⟩ := h
  rw [Value.keys, Value.under, Value.toFigment, LabelledTree.peekAt, LabelledTree.get_node_cons,
    LabelledTree.get_node_cons, lookup_toFigmentTable]
  by_cases hk : k ∈ entries.map Prod.fst
  · obtain ⟨value, hvalue⟩ := Option.isSome_iff_exists.1 (Entries.isSome_lookup_iff_mem.2 hk)
    rw [if_pos hk, hvalue, Option.map_some, Option.bind_some, Option.bind_some,
      LabelledTree.get_nil, Option.getD_some]
    rfl
  · rw [if_neg hk, Entries.lookup_eq_none_iff_not_mem.2 hk]
    rfl

/-- What is blocked below a key of a document. -/
theorem Value.IsDocument.blocks_cons (h : v.IsDocument) (p : List String) :
    v.toFigment.blocks (k :: p) = if k ∈ v.keys then (v.under k).blocks p else false := by
  obtain ⟨entries, rfl, -⟩ := h
  rw [Value.keys, Value.under, Value.toFigment, LabelledTree.blocks_node_cons,
    LabelledTree.get_node_cons, lookup_toFigmentTable]
  by_cases hk : k ∈ entries.map Prod.fst
  · obtain ⟨value, hvalue⟩ := Option.isSome_iff_exists.1 (Entries.isSome_lookup_iff_mem.2 hk)
    rw [if_pos hk, hvalue, Option.map_some, Option.bind_some, LabelledTree.get_nil,
      Option.getD_some]
    rfl
  · rw [if_neg hk, Entries.lookup_eq_none_iff_not_mem.2 hk]
    rfl

theorem Value.IsDocument.mem_keys_iff (h : v.IsDocument) :
    k ∈ v.keys ↔ (v.toFigment.peekAt [k]).isSome := by
  rw [h.peekAt_cons]
  by_cases hk : k ∈ v.keys
  · rw [if_pos hk, LabelledTree.peekAt_nil]
    exact iff_of_true hk rfl
  · rw [if_neg hk]
    exact iff_of_false hk Bool.false_ne_true

/-- What is kept for a section is a table. -/
theorem Value.Sectioned.peek_kept (hsectioned : v.Sectioned) (h : v.IsDocument) :
    (v.kept key).peek = none := by
  rw [Value.kept]
  rcases hlast : lastFolding key v.keys with - | last
  · rfl
  · have hshown : v.toFigment.peekAt [last] = some (v.under last).peek := by
      rw [h.peekAt_cons, if_pos (mem_of_lastFolding hlast).1, LabelledTree.peekAt_nil]
    exact hsectioned last _ hshown

theorem isDocument_toValue {document : Dict} (hordered : document.root.Ordered) :
    document.toValue.IsDocument := by
  refine ⟨document.fromFigment, rfl, ?_⟩
  rw [toFigment_toValue]
  exact ordered_taken hordered

/-- What is kept for a section that a document does not have is an empty table. -/
theorem Value.kept_of_none (h : lastFolding key v.keys = none) : v.kept key = Dict.root [] := by
  rw [Value.kept, h]
  rfl

theorem Value.kept_of_some (h : lastFolding key v.keys = some k) : v.kept key = v.under k := by
  rw [Value.kept, h]
  rfl

end Under

/-- An empty table under another changes nothing. -/
theorem empty_merge (b : Node) : ((Dict.root []).merge b).SameShown b := by
  intro p
  rw [LabelledTree.peekAt_merge]
  rcases hb : b.peekAt p with - | x
  · rw [Option.none_or]
    split
    · rfl
    · rcases p with - | ⟨k, ks⟩
      · rw [LabelledTree.peekAt_nil] at hb
        cases hb
      · rfl
  · rfl

/-- And neither does one over a table. -/
theorem merge_empty {a : Node} (h : a.peek = none) : (a.merge (Dict.root [])).SameShown a := by
  intro p
  rw [LabelledTree.peekAt_merge]
  rcases p with - | ⟨k, ks⟩
  · rw [LabelledTree.peekAt_nil, LabelledTree.peekAt_nil, h]
    rfl
  · rfl

section Folded

variable {key : String} {one two back : Value}

/-- What the folded document holds under a key: what the two hold there, laid over each other. -/
theorem under_folded (h₁ : one.IsDocument) (h₂ : two.IsDocument) (hback : back.IsDocument)
    (hsame : back.toFigment.SameShown (one.merge two).toFigment) {k : String}
    (hk : k ∈ back.keys) :
    (k ∈ one.keys → k ∈ two.keys →
        (back.under k).SameShown ((one.under k).merge (two.under k))) ∧
      (k ∈ one.keys → k ∉ two.keys → (back.under k).SameShown (one.under k)) ∧
        (k ∉ one.keys → k ∈ two.keys → (back.under k).SameShown (two.under k)) := by
  obtain ⟨entries, -, hordered⟩ := id h₂
  have hread : ∀ p, (back.under k).peekAt p =
      (if k ∈ two.keys then (two.under k).peekAt p else none).or
        (if (if k ∈ two.keys then (two.under k).blocks p else false) = true then none
          else if k ∈ one.keys then (one.under k).peekAt p else none) := by
    intro p
    have hshown := hsame (k :: p)
    rw [hback.peekAt_cons, if_pos hk, peekAt_toFigment_merge hordered.distinct, LabelledTree.peekAt_merge,
      h₂.peekAt_cons, h₂.blocks_cons, h₁.peekAt_cons] at hshown
    exact hshown
  refine ⟨fun hone htwo p ↦ ?_, fun hone htwo p ↦ ?_, fun hone htwo p ↦ ?_⟩
  · rw [hread, if_pos hone, if_pos htwo, if_pos htwo, LabelledTree.peekAt_merge]
  · rw [hread, if_pos hone, if_neg htwo, if_neg htwo, Option.none_or, if_neg Bool.false_ne_true]
  · rw [hread, if_neg hone, if_pos htwo, if_pos htwo, ite_self, Option.or_none]

/-- The keys of the folded document are those of the two. -/
theorem mem_keys_folded (h₁ : one.IsDocument) (h₂ : two.IsDocument) (hback : back.IsDocument)
    (hsame : back.toFigment.SameShown (one.merge two).toFigment) (k : String) :
    k ∈ back.keys ↔ k ∈ one.keys ∨ k ∈ two.keys := by
  obtain ⟨entries, -, hordered⟩ := id h₂
  rw [hback.mem_keys_iff, h₁.mem_keys_iff, h₂.mem_keys_iff, hsame [k],
    peekAt_toFigment_merge hordered.distinct, LabelledTree.peekAt_merge]
  have hblocks : two.toFigment.blocks [k] = false := by
    rw [h₂.blocks_cons, LabelledTree.blocks_nil, ite_self]
  rw [hblocks, if_neg Bool.false_ne_true]
  rcases two.toFigment.peekAt [k] with - | x
  · rw [Option.none_or]
    exact ⟨Or.inl, fun h ↦ h.resolve_right Bool.false_ne_true⟩
  · exact ⟨fun _ ↦ Or.inr rfl, fun _ ↦ rfl⟩

/-- **The section of the folded document is the layered one** under the condition, and only then. -/
theorem sameShown_kept_iff (h₁ : one.IsDocument) (h₂ : two.IsDocument) (hback : back.IsDocument)
    (hsectioned₁ : one.Sectioned) (hsame : back.toFigment.SameShown (one.merge two).toFigment) :
    (back.kept key).SameShown ((one.kept key).merge (two.kept key)) ↔
      FoldsCleanly key one two := by
  have hlast : lastFolding key back.keys = _ := lastFolding_union hback.keys_sorted h₁.keys_sorted
    h₂.keys_sorted (mem_keys_folded h₁ h₂ hback hsame)
  have hunder : ∀ {k}, lastFolding key back.keys = some k → _ := fun hk ↦
    under_folded h₁ h₂ hback hsame (mem_of_lastFolding hk).1
  rw [FoldsCleanly]
  rcases hl₁ : lastFolding key one.keys with - | k₁
  · refine iff_of_true ?_ fun k₁ hk₁ ↦ absurd hk₁ (Option.some_ne_none k₁).symm
    rw [Value.kept_of_none hl₁]
    refine SameShown.trans ?_ (empty_merge _).symm
    rw [hl₁] at hlast
    rcases hl₂ : lastFolding key two.keys with - | k₂
    · rw [hl₂] at hlast
      rw [Value.kept_of_none hlast, Value.kept_of_none hl₂]
      exact SameShown.refl _
    · rw [hl₂] at hlast
      have hnot : k₂ ∉ one.keys := fun hin ↦ absurd
        ((lastFolding_eq_none_iff.1 hl₁ k₂ hin).symm.trans (mem_of_lastFolding hl₂).2)
        Bool.false_ne_true
      rw [Value.kept_of_some hlast, Value.kept_of_some hl₂]
      exact (hunder hlast).2.2 hnot (mem_of_lastFolding hl₂).1
  · obtain ⟨hin₁, hfiled₁, hlater₁⟩ := (lastFolding_eq_some_iff h₁.keys_sorted).1 hl₁
    rcases hl₂ : lastFolding key two.keys with - | k₂
    · refine iff_of_true ?_ fun k₁ _ k₂ hk₂ ↦ absurd hk₂ (Option.some_ne_none k₂).symm
      rw [hl₁, hl₂] at hlast
      have hnot : k₁ ∉ two.keys := fun hin ↦ absurd
        ((lastFolding_eq_none_iff.1 hl₂ k₁ hin).symm.trans hfiled₁) Bool.false_ne_true
      rw [Value.kept_of_none hl₂]
      refine SameShown.trans ?_ (merge_empty (hsectioned₁.peek_kept h₁)).symm
      rw [Value.kept_of_some hlast, Value.kept_of_some hl₁]
      exact (hunder hlast).2.1 hin₁ hnot
    · obtain ⟨hin₂, hfiled₂, hlater₂⟩ := (lastFolding_eq_some_iff h₂.keys_sorted).1 hl₂
      rw [hl₁, hl₂] at hlast
      have hlater : lastFolding key back.keys = some (if k₁ < k₂ then k₂ else k₁) := hlast
      rw [Value.kept_of_some hl₁, Value.kept_of_some hl₂]
      simp only [Option.mem_def, Option.some.injEq, forall_eq']
      rcases lt_trichotomy k₁ k₂ with hlt | rfl | hgt
      · -- The second document's key is kept, and the first document does not have it.
        rw [if_pos hlt] at hlater
        have hnot : k₂ ∉ one.keys := fun hin ↦ by
          rcases hlater₁ k₂ hin hfiled₂ with heq | hbefore
          · exact ne_of_gt hlt heq
          · exact lt_asymm hlt hbefore
        have hkept := (hunder hlater).2.2 hnot hin₂
        rw [Value.kept_of_some hlater]
        have hiff : (back.under k₂).SameShown ((one.under k₁).merge (two.under k₂)) ↔
            (two.under k₂).SameShown ((one.under k₁).merge (two.under k₂)) :=
          ⟨hkept.symm.trans, hkept.trans⟩
        rw [hiff, LabelledTree.sameShown_merge_right_iff]
        exact ⟨fun h ↦ Or.inr (Or.inl ⟨hlt, h⟩), fun h ↦
          ((h.resolve_left (ne_of_lt hlt)).resolve_right fun h ↦ lt_asymm hlt h.1).2⟩
      · rw [if_neg (lt_irrefl k₁)] at hlater
        rw [Value.kept_of_some hlater]
        exact iff_of_true ((hunder hlater).1 hin₁ hin₂) (Or.inl rfl)
      · -- The first document's key is kept, and the second document does not have it.
        rw [if_neg (lt_asymm hgt)] at hlater
        have hnot : k₁ ∉ two.keys := fun hin ↦ by
          rcases hlater₂ k₁ hin hfiled₁ with heq | hbefore
          · exact ne_of_gt hgt heq
          · exact lt_asymm hgt hbefore
        have hkept := (hunder hlater).2.1 hin₁ hnot
        rw [Value.kept_of_some hlater]
        have hiff : (back.under k₁).SameShown ((one.under k₁).merge (two.under k₂)) ↔
            (one.under k₁).SameShown ((one.under k₁).merge (two.under k₂)) :=
          ⟨hkept.symm.trans, hkept.trans⟩
        rw [hiff, LabelledTree.sameShown_merge_left_iff]
        exact ⟨fun h ↦ Or.inr (Or.inr ⟨hgt, h⟩), fun h ↦
          ((h.resolve_left (ne_of_gt hgt)).resolve_left fun h ↦ lt_asymm hgt h.1).2⟩

end Folded

/-- **When folding is layering**: exactly when the section stands under one key of the two documents,
or the one under the later key is all there is to the two. -/
theorem foldsLikeLayers_iff {Fig : Type} [Figment Fig] [LawfulFigment Fig] (host : Host)
    (serializer : Format → Dict → Except Error String) (format : Format) (key : String)
    (text₁ text₂ text : String) (one two : Value) (source₁ source₂ source : Source)
    (hwhole : host.ReadsWhole) (h₁ : Value.parse host text₁ format = .ok one)
    (h₂ : Value.parse host text₂ format = .ok two) (hsectioned₁ : one.Sectioned)
    (hsectioned₂ : two.Sectioned) (htext : (one.merge two).render serializer format = .ok text)
    (hback : RendersBack host serializer format (one.merge two))
    (hsource₁ : HandsOver host format text₁ source₁)
    (hsource₂ : HandsOver host format text₂ source₂)
    (hsource : HandsOver host format text source) :
    FoldsLikeLayers Fig host key source₁ source₂ source ↔ FoldsCleanly key one two := by
  obtain ⟨document₁, hdata₁, hordered₁, rfl⟩ := exists_document hwhole h₁
  obtain ⟨document₂, hdata₂, hordered₂, rfl⟩ := exists_document hwhole h₂
  obtain ⟨back, hparsed, hsame⟩ := hback text htext
  obtain ⟨document, hdata, hordered, rfl⟩ := exists_document hwhole hparsed
  have hdoc₁ := isDocument_toValue hordered₁
  have hdoc₂ := isDocument_toValue hordered₂
  have hdoc := isDocument_toValue hordered
  have htables₁ := isTable_of_sectioned hordered₁ hsectioned₁
  have htables₂ := isTable_of_sectioned hordered₂ hsectioned₂
  have hsectioned : document.toValue.Sectioned := by
    intro k x hx
    obtain ⟨entries, -, hordered₂'⟩ := id hdoc₂
    rw [hsame [k], peekAt_toFigment_merge hordered₂'.distinct, LabelledTree.peekAt_merge] at hx
    rcases hk : document₂.toValue.toFigment.peekAt [k] with - | y
    · rw [hk, Option.none_or] at hx
      split at hx
      · cases hx
      · exact hsectioned₁ k x hx
    · rw [hk] at hx
      exact hsectioned₂ k x (hk.trans hx)
  have htables := isTable_of_sectioned hordered hsectioned
  obtain ⟨folded, hfolded, hshown⟩ := exists_snapshot_of_supplies Fig key
    (List.cons_ne_nil source []) (List.Forall₂.cons (hsource.supplies hdata) List.Forall₂.nil)
    (List.forall_mem_singleton.2 htables) (List.forall_mem_singleton.2 hordered.nodup)
  obtain ⟨layered, hlayered, hshown'⟩ := exists_snapshot_of_supplies Fig key
    (List.cons_ne_nil source₁ [source₂]) (List.Forall₂.cons (hsource₁.supplies hdata₁)
      (List.Forall₂.cons (hsource₂.supplies hdata₂) List.Forall₂.nil))
    (List.forall_mem_cons.2 ⟨htables₁, List.forall_mem_singleton.2 htables₂⟩)
    (List.forall_mem_cons.2 ⟨hordered₁.nodup, List.forall_mem_singleton.2 hordered₂.nodup⟩)
  have hkept : folded.toValue.toFigment.SameShown (document.toValue.kept key) := by
    have hone : folded.root.SameShown
        ((Dict.root []).merge (keptTable key document).root) := hshown
    rw [toFigment_toValue, ← taken_keptTable htables]
    exact taken_congr (hone.trans (empty_merge _))
  have hmerged : layered.toValue.toFigment.SameShown
      ((document₁.toValue.kept key).merge (document₂.toValue.kept key)) := by
    rw [toFigment_toValue, ← taken_keptTable htables₁, ← taken_keptTable htables₂]
    refine (taken_congr (hshown'.trans ?_)).trans (taken_merge _ _)
    exact (empty_merge _).merge (SameShown.refl _)
  rw [← sameShown_kept_iff hdoc₁ hdoc₂ hdoc hsectioned₁ hsame]
  constructor
  · rintro ⟨folded', layered', hfolded', hlayered', hboth⟩
    obtain rfl := Except.ok.inj (hfolded.symm.trans hfolded')
    obtain rfl := Except.ok.inj (hlayered.symm.trans hlayered')
    exact hkept.symm.trans (hboth.trans hmerged)
  · intro hboth
    exact ⟨folded, layered, hfolded, hlayered, hkept.trans (hboth.trans hmerged.symm)⟩

/-! ### Two documents in one spelling, and in two -/

/-- A machine that reads a few texts, as the documents they are. -/
def readingAll (documents : List (String × Dict)) : Host :=
  { Host.bare with
    textProvider := fun _ text ↦
      { metadata := Metadata.named inlineSuffix
        data := match documents.lookup text with
          | some document => .ok [(Profile.default, document)]
          | none => .error { kind := .message "expected value at line 1 column 1" } } }

theorem readsWhole_readingAll {documents : List (String × Dict)}
    (h : ∀ e ∈ documents, (Dict.root e.2).Ordered) : (readingAll documents).ReadsWhole := by
  intro format text data hdata
  have hlookup : (match documents.lookup text with
      | some document => Except.ok [(Profile.default, document)]
      | none => .error ({ kind := .message "expected value at line 1 column 1" } : FigmentError)) =
      .ok data := hdata
  rcases hfound : documents.lookup text with - | document
  · rw [hfound] at hlookup
    cases hlookup
  · rw [hfound] at hlookup
    exact ⟨document, (Except.ok.inj hlookup).symm, h (text, document) (Entries.mem_of_lookup hfound)⟩

/-- A document of one section with one setting. -/
def oneSetting (section_ setting value : String) : Dict :=
  [(section_, .node none [(setting, Node.text value)])]

theorem ordered_oneSetting (section_ setting value : String) :
    (oneSetting section_ setting value).root.Ordered := by
  refine LabelledTree.ordered_node (List.pairwise_singleton _ _) fun e he ↦ ?_
  rw [List.mem_singleton.1 he]
  refine LabelledTree.ordered_node (List.pairwise_singleton _ _) fun e he ↦ ?_
  rw [List.mem_singleton.1 he]
  exact LabelledTree.ordered_leaf _ _

/-- The text of such a document. -/
def settingText (section_ setting value : String) : String :=
  "\x7b\"" ++ section_ ++ "\": \x7b\"" ++ setting ++ "\": \"" ++ value ++ "\"\x7d\x7d"

/-- Two settings in one section, as folded documents are written. -/
def foldedText : String :=
  "\x7b\n  \"db\": \x7b\n    \"host\": \"a\",\n    \"port\": \"1\"\n  \x7d\n\x7d"

/-- The same two in two sections, whose keys differ in case. -/
def besideText : String :=
  "\x7b\n  \"DB\": \x7b\n    \"host\": \"a\"\n  \x7d,\n  \"db\": \x7b\n    \"port\": \"1\"\n" ++
    "  \x7d\n\x7d"

/-- The documents of a machine where both texts spell the section alike. -/
def alike : List (String × Dict) :=
  [(settingText "db" "host" "a", oneSetting "db" "host" "a"),
    (settingText "db" "port" "1", oneSetting "db" "port" "1"),
    (foldedText ++ "\n", [("db", .node none [("host", Node.text "a"), ("port", Node.text "1")])])]

/-- The documents of a machine where the first text spells it in capitals. -/
def capital : List (String × Dict) :=
  [(settingText "DB" "host" "a", oneSetting "DB" "host" "a"),
    (settingText "db" "port" "1", oneSetting "db" "port" "1"),
    (besideText ++ "\n", oneSetting "DB" "host" "a" ++ oneSetting "db" "port" "1")]

theorem ordered_alike : ∀ e ∈ alike, (Dict.root e.2).Ordered := by
  refine List.forall_mem_cons.2 ⟨ordered_oneSetting _ _ _, List.forall_mem_cons.2
    ⟨ordered_oneSetting _ _ _, List.forall_mem_singleton.2 ?_⟩⟩
  refine LabelledTree.ordered_node (List.pairwise_singleton _ _) (List.forall_mem_singleton.2 ?_)
  refine LabelledTree.ordered_node (by decide) (List.forall_mem_cons.2
    ⟨LabelledTree.ordered_leaf _ _, List.forall_mem_singleton.2 (LabelledTree.ordered_leaf _ _)⟩)

theorem ordered_capital : ∀ e ∈ capital, (Dict.root e.2).Ordered := by
  refine List.forall_mem_cons.2 ⟨ordered_oneSetting _ _ _, List.forall_mem_cons.2
    ⟨ordered_oneSetting _ _ _, List.forall_mem_singleton.2 ?_⟩⟩
  refine LabelledTree.ordered_node (by decide) (List.forall_mem_cons.2
    ⟨?_, List.forall_mem_singleton.2 ?_⟩)
  · exact LabelledTree.ordered_node (List.pairwise_singleton _ _)
      (List.forall_mem_singleton.2 (LabelledTree.ordered_leaf _ _))
  · exact LabelledTree.ordered_node (List.pairwise_singleton _ _)
      (List.forall_mem_singleton.2 (LabelledTree.ordered_leaf _ _))

/-- A document of one section is sectioned. -/
theorem sectioned_oneSetting (section_ setting value : String) :
    (oneSetting section_ setting value).toValue.Sectioned := by
  intro k x hx
  rw [toFigment_toValue, peekAt_taken, oneSetting, LabelledTree.peekAt, Dict.root,
    LabelledTree.get_node_cons, Entries.lookup_cons_eq] at hx
  split at hx
  · exact (Option.some.inj hx).symm
  · cases hx

/-- Two documents that spell the section alike fold to what they are layered to. -/
theorem foldsLikeLayers_alike :
    FoldsLikeLayers Stack (readingAll alike) "db" (.inline (settingText "db" "host" "a") .json)
      (.inline (settingText "db" "port" "1") .json) (.inline (foldedText ++ "\n") .json) :=
  (foldsLikeLayers_iff (readingAll alike) (fun _ _ ↦ .ok foldedText) .json "db"
    (settingText "db" "host" "a") (settingText "db" "port" "1") (foldedText ++ "\n")
    (oneSetting "db" "host" "a").toValue (oneSetting "db" "port" "1").toValue _ _ _
    (readsWhole_readingAll ordered_alike) rfl rfl (sectioned_oneSetting _ _ _)
    (sectioned_oneSetting _ _ _) rfl
    (fun _ htext ↦ ⟨_, by rw [← Except.ok.inj htext]; rfl, fun _ ↦ rfl⟩)
    .inline .inline .inline).2
    fun k₁ hk₁ k₂ hk₂ ↦ Or.inl (Option.some.inj (hk₁.symm.trans hk₂))

/-- **Two that do not**, do not: the folded document keeps one of them. -/
theorem not_foldsLikeLayers_capital :
    (readingAll capital).ReadsWhole ∧ ∃ one two, one.Sectioned ∧ two.Sectioned ∧
      Value.parse (readingAll capital) (settingText "DB" "host" "a") .json = .ok one ∧
      Value.parse (readingAll capital) (settingText "db" "port" "1") .json = .ok two ∧
        (one.merge two).render (fun _ _ ↦ .ok besideText) .json = .ok (besideText ++ "\n") ∧
          RendersBack (readingAll capital) (fun _ _ ↦ .ok besideText) .json (one.merge two) ∧
            ¬ FoldsLikeLayers Stack (readingAll capital) "db"
              (.inline (settingText "DB" "host" "a") .json)
              (.inline (settingText "db" "port" "1") .json)
              (.inline (besideText ++ "\n") .json) := by
  refine ⟨readsWhole_readingAll ordered_capital, (oneSetting "DB" "host" "a").toValue,
    (oneSetting "db" "port" "1").toValue, sectioned_oneSetting _ _ _, sectioned_oneSetting _ _ _,
    rfl, rfl, rfl, fun _ htext ↦ ⟨_, by rw [← Except.ok.inj htext]; rfl, fun _ ↦ rfl⟩, ?_⟩
  rintro ⟨folded, layered, hfolded, hlayered, hsame⟩
  have hhost := hsame ["host"]
  rw [← Except.ok.inj hfolded, ← Except.ok.inj hlayered] at hhost
  cases hhost

end DynamicConfig
