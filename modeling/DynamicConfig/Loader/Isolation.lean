import DynamicConfig.Cache.Write

/-!
# Sections of one document

A sectioned document is filed into a map keyed by figment's profiles, one top-level key after the
other, and a profile compares without regard to ASCII case where the document does not. Two keys of
a document that differ in case alone are one section, and the later of the two in the order of the
keys is the one that is kept: `lastFolding` is that key.

So a section is isolated from its neighbours exactly when no neighbour comes out ahead of it
(`isolates_iff`).
-/

namespace DynamicConfig

/-! ### What is filed -/

/-- The fields of a table. -/
def Node.fields : Node → Option Dict
  | .leaf _ _ => none
  | .node _ dict => some dict

/-- The table a document holds under a top-level key. -/
def tableUnder (document : Dict) (key : String) : Dict :=
  ((document.lookup key).bind Node.fields).getD []

/-- Whether a top-level key of a document is filed as a section. -/
def filedAs (key other : String) : Bool :=
  !decide (other = schemaKey) && decide (Text.lower other = Text.lower key)

/-- The top-level key that is kept as a section: of those filed as it, the last. -/
def lastFolding (key : String) (keys : List String) : Option String :=
  (keys.filter (filedAs key)).getLast?

theorem sectionProfile_eq_iff (a b : String) :
    sectionProfile a = sectionProfile b ↔ Text.lower a = Text.lower b := by
  rw [sectionProfile, sectionProfile, Profile.from, Profile.from, Profile.mk.injEq,
    Text.lower, Text.lower, String.ofList_inj, String.ofList_inj, String.toList_append,
    String.toList_append, List.map_append, List.map_append, List.append_right_inj]

theorem filedAs_eq_true_iff {key other : String} :
    filedAs key other = true ↔ other ≠ schemaKey ∧ sectionProfile other = sectionProfile key := by
  rw [filedAs, sectionProfile_eq_iff, Bool.and_eq_true, Bool.not_eq_true', decide_eq_false_iff_not,
    decide_eq_true_iff]

theorem lastFolding_cons (key other : String) (keys : List String) :
    lastFolding key (other :: keys) =
      (lastFolding key keys).or (if filedAs key other then some other else none) := by
  rw [lastFolding, lastFolding, List.filter_cons]
  split
  · rw [List.getLast?_cons]
    rcases (keys.filter (filedAs key)).getLast? with - | last
    · rfl
    · rfl
  · exact (Option.or_none).symm

/-- The key that is kept is one of the document's. -/
theorem mem_of_lastFolding {key last : String} {keys : List String}
    (h : lastFolding key keys = some last) : last ∈ keys ∧ filedAs key last = true :=
  List.mem_filter.1 (List.mem_of_getLast? h)

/-- **A document of tables is filed, and under a section stands the last of the keys that fold to
it.** -/
theorem exists_sectionsOf {document : Dict} (htables : ∀ e ∈ document, e.2.isTable = true)
    (hkeys : (document.map Prod.fst).Nodup) (filed : List (Profile × Dict)) :
    ∃ sections, sectionsOf filed document = .ok sections ∧
      (∀ key, sections.lookup (sectionProfile key) =
        ((lastFolding key (document.map Prod.fst)).map (tableUnder document)).or
          (filed.lookup (sectionProfile key))) ∧
      ∀ q, (∀ key, q ≠ sectionProfile key) → sections.lookup q = filed.lookup q := by
  induction document generalizing filed with
  | nil => exact ⟨filed, rfl, fun key ↦ rfl, fun q _ ↦ rfl⟩
  | cons e document ih =>
    obtain ⟨other, value⟩ := e
    rw [List.map_cons, List.nodup_cons] at hkeys
    have hrest : ∀ e ∈ document, e.2.isTable = true := fun e he ↦
      htables e (List.mem_cons_of_mem _ he)
    -- What is filed later is a key of the rest, and reads the same in the whole.
    have hsame : ∀ key, (lastFolding key (document.map Prod.fst)).map (tableUnder document) =
        (lastFolding key (document.map Prod.fst)).map
          (tableUnder ((other, value) :: document)) := by
      intro key
      rcases hlast : lastFolding key (document.map Prod.fst) with - | last
      · rfl
      · have hne : last ≠ other := by
          rintro rfl
          exact hkeys.1 (mem_of_lastFolding hlast).1
        rw [Option.map_some, Option.map_some, tableUnder, tableUnder, List.lookup_cons,
          beq_false_of_ne hne]
    by_cases hschema : other = schemaKey
    · obtain ⟨sections, hfiled, hlookup, hother⟩ := ih hrest hkeys.2 filed
      refine ⟨sections, ?_, fun key ↦ ?_, hother⟩
      · rw [sectionsOf.eq_def]
        exact (if_pos hschema).trans hfiled
      · have hnot : filedAs key other = false := by
          rw [filedAs, decide_eq_true hschema]
          rfl
        rw [hlookup, hsame, List.map_cons, lastFolding_cons, hnot, if_neg Bool.false_ne_true,
          Option.or_none]
    · have hvalue := htables (other, value) List.mem_cons_self
      rcases value with ⟨tag, leaf⟩ | ⟨tag, dict⟩
      · cases hvalue
      · obtain ⟨sections, hfiled, hlookup, hother⟩ :=
          ih hrest hkeys.2 (Entries.insert (sectionProfile other) dict filed)
        refine ⟨sections, ?_, fun key ↦ ?_, fun q hq ↦ ?_⟩
        · rw [sectionsOf, if_neg hschema]
          exact hfiled
        · rw [hlookup, hsame, List.map_cons, lastFolding_cons, Entries.lookup_insert]
          rcases lastFolding key (document.map Prod.fst) with - | last
          · have hown : tableUnder ((other, .node tag dict) :: document) other = dict := by
              rw [tableUnder, List.lookup_cons, beq_self_eq_true]
              rfl
            rcases hfold : filedAs key other with - | -
            · have hne : sectionProfile key ≠ sectionProfile other := fun heq ↦
                Bool.false_ne_true (hfold.symm.trans (filedAs_eq_true_iff.2 ⟨hschema, heq.symm⟩))
              rw [if_neg hne]
              rfl
            · rw [if_pos (filedAs_eq_true_iff.1 hfold).2.symm, if_pos rfl]
              show some dict = some (tableUnder ((other, .node tag dict) :: document) other)
              rw [hown]
          · rfl
        · rw [hother q hq, Entries.lookup_insert, if_neg (hq other)]

/-! ### A load of one document -/

/-- figment's reading of one document: the whole of it, under one profile. -/
def Reads (inner : Provider) (document : Dict) : Prop :=
  ∃ profile, inner.data = .ok [(profile, document)]

/-- A load of one section of one sectioned document, and of nothing else. -/
inductive ReadsAlone (host : Host) (key : String) (document : Dict) : LoadSpec → Prop
  | file (path : String) (format : Format) (h : Reads (host.fileProvider format path) document) :
    ReadsAlone host key document { key, sources := [.file path format] }
  | encrypted (path : String) (format : Format) (plaintext : String)
    (hdecrypted : host.decrypted path = .ok (some plaintext))
    (h : Reads (host.textProvider format plaintext) document) :
    ReadsAlone host key document { key, sources := [.encrypted path format] }
  | inline (text : String) (format : Format) (h : Reads (host.textProvider format text) document) :
    ReadsAlone host key document { key, sources := [.inline text format] }
  | remote (fetched : Fetched) (describe : Option String)
    (h : Reads (host.textProvider fetched.format fetched.text) document) :
    ReadsAlone host key document { key, remote := some ⟨some fetched, describe⟩ }

/-- The section is isolated from its neighbours, in every document with these top-level keys: a load
of it from the document alone resolves the table the document holds under its own key. -/
def Isolates (Fig : Type) [Figment Fig] (keys : List String) (key : String) : Prop :=
  ∀ (host : Host) (document : Dict) (spec : LoadSpec), document.map Prod.fst = keys →
    (∀ e ∈ document, e.2.isTable = true) → ReadsAlone host key document spec →
      ∃ resolved, snapshot Fig host spec = .ok resolved ∧
        Dict.SameValues resolved (tableUnder document key)

section Loads

variable {host : Host} {key : String} {document : Dict} {spec : LoadSpec}

/-- Such a load merges one provider, the document's. -/
theorem ReadsAlone.build_eq (h : ReadsAlone host key document spec) :
    spec.key = key ∧ spec.aliases = none ∧ ∃ (p : Provider) (profile : Profile),
      p.data = sectionsData ⟨none⟩ [] [(profile, document)] ∧
        ∀ (Fig : Type) [Figment Fig],
          build host spec = .ok (Figment.merge (Figment.new : Fig) p) := by
  rcases h with ⟨path, format, profile, h⟩ | ⟨path, format, plaintext, hdecrypted, profile, h⟩ |
    ⟨text, format, profile, h⟩ | ⟨fetched, describe, profile, h⟩
  · refine ⟨rfl, rfl, sections (host.fileProvider format path) ⟨none⟩, profile, ?_,
      fun Fig _ ↦ rfl⟩
    rw [sections, h]
  · refine ⟨rfl, rfl, named (sections (host.textProvider format plaintext) ⟨none⟩) path (some path),
      profile, ?_, fun Fig _ ↦ ?_⟩
    · rw [named, sections, h]
    · have hmerge : mergeEncryptedFile host (Figment.new : Fig) path format ⟨none⟩ =
          .ok (Figment.merge Figment.new
            (named (sections (host.textProvider format plaintext) ⟨none⟩) path (some path))) := by
        rw [mergeEncryptedFile, hdecrypted]
        rfl
      have hlisted : mergeListed host { key, sources := [.encrypted path format] }
          (Figment.new : Fig) = .ok (Figment.merge Figment.new
            (named (sections (host.textProvider format plaintext) ⟨none⟩) path (some path))) := by
        show ((mergeEncryptedFile host (Figment.new : Fig) path format ⟨none⟩ >>= _) >>= _) = _
        rw [hmerge]
        rfl
      show (mergeListed host _ (Figment.new : Fig) >>= _) = _
      rw [hlisted]
      rfl
  · refine ⟨rfl, rfl, sections (host.textProvider format text) ⟨none⟩, profile, ?_,
      fun Fig _ ↦ rfl⟩
    rw [sections, h]
  · refine ⟨rfl, rfl, named (sections (host.textProvider fetched.format fetched.text) ⟨none⟩)
      (remotePrefix ++ describe.getD "(unnamed)") none, profile, ?_, fun Fig _ ↦ rfl⟩
    rw [named, sections, h]

/-- A table laid over nothing shows what it shows. -/
theorem peekAt_merge_nil (table : Dict) (p : List String) :
    ((Dict.root []).merge table.root).peekAt p = table.root.peekAt p := by
  rw [LabelledTree.peekAt_merge]
  rcases p with - | ⟨k, ks⟩
  · rfl
  · have hnone : (Dict.root []).peekAt (k :: ks) = none := rfl
    rw [hnone, ite_self, Option.or_none]

/-- Nothing laid over a table changes what it shows. -/
theorem peekAt_merge_of_nil (table : Dict) (p : List String) :
    (table.root.merge (Dict.root [])).peekAt p = table.root.peekAt p := by
  rw [LabelledTree.peekAt_merge]
  rcases p with - | ⟨k, ks⟩
  · rfl
  · have hnone : (Dict.root []).peekAt (k :: ks) = none := rfl
    have hblocks : (Dict.root []).blocks (k :: ks) = false := rfl
    rw [hnone, hblocks, if_neg Bool.false_ne_true, Option.none_or]

/-- A table shows the same whoever is said to have supplied it. -/
theorem peekAt_mapTagEntries (metadata : Metadata) (table : Dict) (p : List String) :
    (Dict.root (LabelledTree.mapTagEntries (labelled metadata) table)).peekAt p =
      table.root.peekAt p := by
  have hlabelled := LabelledTree.peekAt_mapTag (labelled metadata) table.root p
  rw [Dict.root, LabelledTree.mapTag] at hlabelled
  rcases p with - | ⟨k, ks⟩
  · exact hlabelled
  · exact hlabelled

/-- **What a load of one document resolves**: the table under the last of the keys that fold to the
section's. -/
theorem ReadsAlone.snapshot_eq (Fig : Type) [Figment Fig] [LawfulFigment Fig]
    (h : ReadsAlone host key document spec) (htables : ∀ e ∈ document, e.2.isTable = true)
    (hkeys : (document.map Prod.fst).Nodup) :
    ∃ resolved, snapshot Fig host spec = .ok resolved ∧ Dict.SameValues resolved
      (((lastFolding key (document.map Prod.fst)).map (tableUnder document)).getD []) := by
  obtain ⟨hkey, haliases, p, profile, hdata, hbuild⟩ := h.build_eq
  obtain ⟨filed, hfiled, hlookup, hother⟩ := exists_sectionsOf htables hkeys []
  have hp : p.data = .ok filed := by
    rw [hdata, sectionsData, hfiled]
    rfl
  let tables : Profile → Dict := fun q ↦
    LabelledTree.mergeTables [] (suppliedTable p.metadata filed q)
  have hmerged : Figment.data (applyAliases (Figment.merge (Figment.new : Fig) p) spec) =
      .ok tables := by
    rw [applyAliases, haliases]
    show (Figment.stack (Figment.merge (Figment.new : Fig) p)).values = _
    rw [LawfulFigment.stack_merge, LawfulFigment.stack_new]
    show mergeData (.ok fun _ ↦ []) p = _
    simp only [mergeData, hp]
    rfl
  refine ⟨_, snapshot_of_data (hbuild Fig) hmerged, fun q ↦ ?_⟩
  -- The reserved profiles hold nothing, since no section is filed under them.
  have hdefault : tables Profile.default = [] := by
    have hnone := hother Profile.default default_ne_sectionProfile
    simp only [tables, suppliedTable, hnone, List.lookup_nil]
    rfl
  have hglobal : tables Profile.global = [] := by
    have hnone := hother Profile.global global_ne_sectionProfile
    simp only [tables, suppliedTable, hnone, List.lookup_nil]
    rfl
  have hsection : filed.lookup (sectionProfile key) =
      (lastFolding key (document.map Prod.fst)).map (tableUnder document) := by
    rw [hlookup, List.lookup_nil, Option.or_none]
  rw [hkey, root_combine_sectionProfile, hdefault, hglobal, ← Dict.root_mergeTables,
    peekAt_merge_of_nil, Dict.root_mergeTables, peekAt_merge_nil]
  show (Dict.root (LabelledTree.mergeTables [] _)).peekAt q = _
  rw [Dict.root_mergeTables, peekAt_merge_nil, suppliedTable, hsection]
  exact peekAt_mapTagEntries p.metadata _ q

end Loads

/-! ### When a section is isolated -/

section Keys

variable {keys : List String} {key : String}

/-- The key stands alone in a document: it is not the one that is no section, and no other that folds
to it is kept in its place. -/
def StandsAlone (keys : List String) (key : String) : Prop :=
  (key = schemaKey → key ∉ keys) ∧
    ∀ other ∈ keys, other ≠ schemaKey → Text.lower other = Text.lower key →
      other = key ∨ key ∈ keys ∧ other < key

instance (keys : List String) (key : String) : Decidable (StandsAlone keys key) :=
  inferInstanceAs (Decidable (_ ∧ _))

theorem mem_filter_filedAs {other : String} : other ∈ keys.filter (filedAs key) ↔
    other ∈ keys ∧ other ≠ schemaKey ∧ Text.lower other = Text.lower key := by
  rw [List.mem_filter, filedAs_eq_true_iff, sectionProfile_eq_iff]

/-- The last of a sorted list has the rest before it. -/
theorem eq_or_lt_getLast {l : List String} (hsorted : l.Pairwise (· < ·)) {last x : String}
    (hlast : l.getLast? = some last) (hx : x ∈ l) : x = last ∨ x < last := by
  have hl : l = l.dropLast ++ [last] := (List.dropLast_append_getLast? last hlast).symm
  rw [hl] at hx hsorted
  rcases List.mem_append.1 hx with hinit | hend
  · exact Or.inr ((List.pairwise_append.1 hsorted).2.2 x hinit last (List.mem_singleton_self last))
  · exact Or.inl (List.mem_singleton.1 hend)

/-- The key that is kept is the section's own exactly when the section stands alone. -/
theorem lastFolding_eq_iff (hsorted : keys.Pairwise (· < ·)) :
    lastFolding key keys = (if key ∈ keys then some key else none) ↔ StandsAlone keys key := by
  have hfiltered : (keys.filter (filedAs key)).Pairwise (· < ·) := hsorted.filter _
  constructor
  · intro hkept
    by_cases hmem : key ∈ keys
    · rw [if_pos hmem] at hkept
      have hown := mem_filter_filedAs.1 (List.mem_of_getLast? hkept)
      refine ⟨fun hschema ↦ absurd hschema hown.2.1, fun other hother hne hfold ↦ ?_⟩
      exact (eq_or_lt_getLast hfiltered hkept (mem_filter_filedAs.2 ⟨hother, hne, hfold⟩)).imp_right
        fun hlt ↦ ⟨hmem, hlt⟩
    · rw [if_neg hmem] at hkept
      have hnil := List.getLast?_eq_none_iff.1 hkept
      refine ⟨fun _ ↦ hmem, fun other hother hne hfold ↦ ?_⟩
      have hin := mem_filter_filedAs.2 ⟨hother, hne, hfold⟩
      rw [hnil] at hin
      exact absurd hin List.not_mem_nil
  · rintro ⟨hschema, halone⟩
    by_cases hmem : key ∈ keys
    · rw [if_pos hmem]
      have hown : key ∈ keys.filter (filedAs key) :=
        mem_filter_filedAs.2 ⟨hmem, fun hkey ↦ hschema hkey hmem, rfl⟩
      rcases hlast : lastFolding key keys with - | last
      · rw [List.getLast?_eq_none_iff.1 hlast] at hown
        exact absurd hown List.not_mem_nil
      · obtain ⟨hin, hne, hfold⟩ := mem_filter_filedAs.1 (List.mem_of_getLast? hlast)
        -- The last is no later than the key, and the key no later than the last.
        rcases halone last hin hne hfold with hsame | ⟨-, hlt⟩
        · rw [hsame]
        · rcases eq_or_lt_getLast hfiltered hlast hown with hsame | hgt
          · rw [hsame]
          · exact absurd hgt (lt_asymm hlt)
    · rw [if_neg hmem]
      refine List.getLast?_eq_none_iff.2 (List.eq_nil_iff_forall_not_mem.2 fun other hother ↦ ?_)
      obtain ⟨hin, hne, hfold⟩ := mem_filter_filedAs.1 hother
      rcases halone other hin hne hfold with hsame | ⟨hkey, -⟩
      · exact hmem (hsame ▸ hin)
      · exact hmem hkey

/-- A document whose tables each say the key they stand under. -/
def saysItsKey (keys : List String) : Dict :=
  keys.map fun k ↦ (k, .node none [("name", Node.text k)])

/-- A machine whose documents are this one. -/
def reading (document : Dict) : Host :=
  { Host.bare with
    textProvider := fun _ _ ↦
      Provider.table (Metadata.named inlineSuffix) Profile.default document }

theorem readsAlone_reading (document : Dict) (key : String) :
    ReadsAlone (reading document) key document { key, sources := [.inline "" .json] } :=
  ReadsAlone.inline "" .json ⟨Profile.default, rfl⟩

theorem keys_saysItsKey (keys : List String) : (saysItsKey keys).map Prod.fst = keys := by
  rw [saysItsKey, List.map_map]
  exact List.map_id keys

theorem isTable_saysItsKey (keys : List String) : ∀ e ∈ saysItsKey keys, e.2.isTable = true := by
  intro e he
  obtain ⟨k, -, rfl⟩ := List.mem_map.1 he
  rfl

theorem tableUnder_saysItsKey (k : String) : tableUnder (saysItsKey keys) k =
    if k ∈ keys then [("name", Node.text k)] else [] := by
  induction keys with
  | nil => rfl
  | cons l keys ih =>
    rw [tableUnder] at ih
    rw [tableUnder, saysItsKey, List.map_cons, List.lookup_cons]
    rcases heq : k == l with - | -
    · have hne : k ≠ l := ne_of_beq_false heq
      simp only [List.mem_cons, hne, false_or]
      exact ih
    · have hsame : k = l := eq_of_beq heq
      rw [hsame, if_pos List.mem_cons_self]
      rfl

variable {Fig : Type} [Figment Fig] [LawfulFigment Fig]

/-- A section that stands alone is isolated. -/
theorem StandsAlone.isolates (halone : StandsAlone keys key) (hsorted : keys.Pairwise (· < ·)) :
    Isolates Fig keys key := by
  intro host document spec hkeys htables hreads
  have hnodup : (document.map Prod.fst).Nodup := by
    rw [hkeys]
    exact hsorted.imp fun hlt ↦ ne_of_lt hlt
  obtain ⟨resolved, hresolved, hsame⟩ := hreads.snapshot_eq Fig htables hnodup
  refine ⟨resolved, hresolved, ?_⟩
  rw [hkeys, (lastFolding_eq_iff hsorted).2 halone] at hsame
  by_cases hmem : key ∈ keys
  · rw [if_pos hmem] at hsame
    exact hsame
  · rw [if_neg hmem] at hsame
    have hnone : document.lookup key = none := by
      rw [List.lookup_eq_none_iff]
      intro e he
      have hin : e.1 ∈ keys := hkeys ▸ List.mem_map_of_mem he
      exact bne_iff_ne.2 fun heq ↦ hmem (heq ▸ hin)
    rw [tableUnder, hnone]
    exact hsame

/-- An isolated section stands alone: of the document whose tables say their keys, its load says its
own. -/
theorem Isolates.standsAlone (hisolates : Isolates Fig keys key)
    (hsorted : keys.Pairwise (· < ·)) : StandsAlone keys key := by
  have hkeys := keys_saysItsKey keys
  have hnodup : ((saysItsKey keys).map Prod.fst).Nodup := by
    rw [hkeys]
    exact hsorted.imp fun hlt ↦ ne_of_lt hlt
  have hreads := readsAlone_reading (saysItsKey keys) key
  obtain ⟨resolved, hresolved, hown⟩ :=
    hisolates _ _ _ hkeys (isTable_saysItsKey keys) hreads
  obtain ⟨resolved', hresolved', hkept⟩ :=
    hreads.snapshot_eq Fig (isTable_saysItsKey keys) hnodup
  obtain rfl : resolved = resolved' := Except.ok.inj (hresolved.symm.trans hresolved')
  have hname := (hkept ["name"]).symm.trans (hown ["name"])
  rw [hkeys, tableUnder_saysItsKey] at hname
  rw [← lastFolding_eq_iff hsorted]
  rcases hlast : lastFolding key keys with - | last
  · rw [hlast] at hname
    by_cases hmem : key ∈ keys
    · rw [if_pos hmem] at hname
      cases hname
    · rw [if_neg hmem]
  · rw [hlast, Option.map_some, Option.getD_some, tableUnder_saysItsKey,
      if_pos (mem_of_lastFolding hlast).1] at hname
    by_cases hmem : key ∈ keys
    · rw [if_pos hmem] at hname
      rw [if_pos hmem]
      cases hname
      rfl
    · rw [if_neg hmem] at hname
      cases hname

/-- **A section is isolated exactly when its key stands alone** among the document's. -/
theorem isolates_iff (hsorted : keys.Pairwise (· < ·)) :
    Isolates Fig keys key ↔ StandsAlone keys key :=
  ⟨fun hisolates ↦ hisolates.standsAlone hsorted, fun halone ↦ halone.isolates hsorted⟩

/-- Keys that differ by more than case. -/
theorem isolates_db : Isolates Stack ["cache", "db"] "db" :=
  (isolates_iff (by decide)).2 (by decide)

/-- **One section takes the place of another.** Of the sections `DB` and `db` the second is kept, and
a load of the first resolves it. -/
theorem not_isolates_of_case : ¬ Isolates Stack ["DB", "db"] "DB" := by
  intro hisolates
  have halone := hisolates.standsAlone (by decide)
  exact absurd halone (by decide)

end Keys

end DynamicConfig
