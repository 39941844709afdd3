import DynamicConfig.Loader.Recover
import DynamicConfig.Stores.Documents
import DynamicConfig.Tree.Sorted
import DynamicConfig.Tree.Writes

/-!
# A directory of secrets

One file per key: the name of the file spells the key, and what is in the file is the value. The
operating system lists a directory in any order, so what it lists is sorted first, and then every file
is laid over the ones before it.

So the order of a listing is forgotten (`dict_eq_of_perm`). What the sort does not undo is that two names
may spell the same key, or one a key below the other's: the later file then takes the place of the
earlier one, and nothing is said of it. A directory keeps every value exactly when no two of its files
spell keys of which one is at or above the other, unless they agree to the letter (`secretsKept_iff`).
-/

namespace DynamicConfig.Secrets

/-! ### What is in a directory -/

/-- The name of a directory entry: text, or bytes that are none. -/
inductive OsName
  | utf8 (text : String)
  | other (bytes : ByteArray) (invalid : ¬ bytes.IsValidUTF8)

/-- What names are compared by. -/
def OsName.bytes : OsName → List ℕ
  | .utf8 text => text.toByteArray.data.toList.map UInt8.toNat
  | .other bytes _ => bytes.data.toList.map UInt8.toNat

/-- What is found behind a name, links followed. -/
inductive Found
  /-- Nothing any more: a dangling link. -/
  | missing
  | denied (message : String)
  /-- A directory, or anything else that is no regular file. -/
  | other
  /-- A regular file: its text, or why it cannot be read as text. -/
  | file (text : Except String String)

structure DirEntry where
  name : OsName
  found : Found

/-- The contents of a directory: no name is there twice. -/
structure Directory where
  entries : List DirEntry
  names_nodup : (entries.map DirEntry.name).Nodup

/-- What listing a directory comes to. -/
inductive ReadDir
  | missing
  | failed (message : String)
  | entries (listing : List DirEntry)

/-! ### Reading it -/

/-- An I/O failure naming the path. -/
def io (path message : String) : Error := { kind := .io, message, origin := .file path }

/-- The path behind a name, and the key the name spells, if it spells one. -/
def spelled (base nest : String) : OsName → Option (String × String)
  | .utf8 text =>
    let path := String.ofList (UnixPath.join base.toList text.toList)
    (keyOf path nest).map (path, ·)
  | .other _ _ => none

/-- One entry: the path of a key file, and its text. -/
def readEntry (base nest : String) (entry : DirEntry) : Except Error (Option (String × String)) :=
  match spelled base nest entry.name with
  | none => .ok none
  | some (path, _) =>
    match entry.found with
    | .missing | .other => .ok none
    | .denied message | .file (.error message) => .error (io path message)
    | .file (.ok text) => .ok (some (path, text))

/-- `paths.sort()`. The paths are siblings, so they compare as their names do. -/
def sorted (listing : List DirEntry) : List DirEntry :=
  listing.mergeSort fun a b ↦ decide (a.name.bytes ≤ b.name.bytes)

/-- The key files of one directory level with their text, in path order. -/
def secretFiles (base nest : String) : ReadDir → Except Error (Option (List (String × String)))
  | .missing => .ok none
  | .failed message => .error (io base message)
  | .entries listing =>
    ((sorted listing).mapM (readEntry base nest)).map fun files ↦ some (files.filterMap id)

/-- A machine on which a directory is listed so. -/
def mounting (host : Host) (nest : String) (directory : ReadDir) : Host :=
  { host with secretFiles := fun base ↦ secretFiles base nest directory }

/-- The dict `merge_secrets_dir` contributes to the section, unless the load is refused. -/
def dict (host : Host) (spec : LoadSpec) (base : String) (directory : ReadDir) : Option Dict :=
  let merged : Except Error Stack :=
    mergeSecretsDir (mounting host spec.nest directory) { spec with secretsDir := some base } Stack.new
  match merged with
  | .ok figment => figment.values.toOption.map fun values ↦ values (sectionProfile spec.key)
  | .error _ => none

/-! ### The order of a listing -/

theorem OsName.bytes_injective : Function.Injective OsName.bytes := by
  have hdata : ∀ a b : ByteArray,
      a.data.toList.map UInt8.toNat = b.data.toList.map UInt8.toNat → a = b := by
    intro a b h
    refine ByteArray.ext (Array.toList_inj.1 ?_)
    exact List.map_injective_iff.2 (fun _ _ ↦ UInt8.toNat_inj.1) h
  rintro (s | ⟨a, ha⟩) (t | ⟨b, hb⟩) h
  · exact congrArg OsName.utf8 (String.toByteArray_inj.1 (hdata _ _ h))
  · exact absurd (hdata _ _ h ▸ s.isValidUTF8) hb
  · exact absurd ((hdata _ _ h).symm ▸ t.isValidUTF8) ha
  · obtain rfl := hdata a b h
    rfl

/-- Whatever order a directory is listed in, it is sorted to one. -/
theorem Directory.sorted_eq (directory : Directory) {listing : List DirEntry}
    (h : listing.Perm directory.entries) : sorted listing = sorted directory.entries := by
  have hnodup : (directory.entries.map fun entry ↦ entry.name.bytes).Nodup := by
    have hmap := directory.names_nodup.map OsName.bytes_injective
    rwa [List.map_map] at hmap
  exact (Entries.mergeSort_eq_of_perm h.symm hnodup).symm

/-- **The order of a listing is forgotten.** -/
theorem dict_eq_of_perm (host : Host) (spec : LoadSpec) (base : String) (directory : Directory)
    {listing : List DirEntry} (h : listing.Perm directory.entries) :
    dict host spec base (.entries listing) = dict host spec base (.entries directory.entries) := by
  have hfiles : ∀ path, secretFiles path spec.nest (.entries listing) =
      secretFiles path spec.nest (.entries directory.entries) := by
    intro path
    rw [secretFiles, secretFiles, directory.sorted_eq h]
  have hmounting : mounting host spec.nest (.entries listing) =
      mounting host spec.nest (.entries directory.entries) := by
    rw [mounting, mounting, funext hfiles]
  rw [dict, hmounting]
  rfl

/-! ### What a directory contributes -/

/-- One mounted secret. -/
structure Secret where
  path : String
  key : String
  value : String

/-- How its provider names itself. -/
def Secret.metadata (secret : Secret) : Metadata :=
  { name := secretsPrefix ++ secret.path, source := some (.file secret.path) }

def Secret.provider (sectionKey : String) (secret : Secret) : Provider :=
  secretProvider secret.key secret.path secret.value sectionKey

/-- The table of one secret, labelled with where it is from. -/
def Secret.dict (secret : Secret) : Dict :=
  LabelledTree.chain (some secret.metadata) (segments secret.key)
    (.leaf (some secret.metadata) (.scalar (.string secret.value)))

/-- The secrets of some key files. -/
def secretsOf (nest : String) (files : List (String × String)) : List Secret :=
  files.filterMap fun file ↦
    (keyOf file.1 nest).map fun key ↦ ⟨file.1, key, trimOneNewline file.2⟩

theorem values_mergeAll_secrets (sectionKey : String) (secrets : List Secret) {s : Stack}
    {before : Profile → Dict} (h : s.values = .ok before) :
    ∃ values, (mergeAll s (secrets.map (Secret.provider sectionKey))).values = .ok values ∧
      values (sectionProfile sectionKey) =
        (secrets.map Secret.dict).foldl LabelledTree.mergeTables (before (sectionProfile sectionKey)) := by
  induction secrets generalizing s before with
  | nil => exact ⟨before, h, rfl⟩
  | cons secret secrets ih =>
    have hvalues : (Figment.merge s (secret.provider sectionKey)).values = .ok fun p ↦
        LabelledTree.mergeTables (before p) (suppliedTable secret.metadata
          [(sectionProfile sectionKey, insertPath [] secret.key (Node.text secret.value))] p) := by
      show mergeData s.values _ = _
      rw [h]
      rfl
    have hsupplied : suppliedTable secret.metadata
        [(sectionProfile sectionKey, insertPath [] secret.key (Node.text secret.value))]
        (sectionProfile sectionKey) = secret.dict := by
      have hchain : insertPath [] secret.key (Node.text secret.value) =
          LabelledTree.chain none (segments secret.key) (Node.text secret.value) := rfl
      rw [suppliedTable, List.lookup_cons_self, Option.getD_some, hchain,
        LabelledTree.mapTagEntries_chain]
      rfl
    obtain ⟨values, hmerged, hdict⟩ := ih hvalues
    refine ⟨values, hmerged, ?_⟩
    rw [hdict, hsupplied]
    rfl

/-- What a secret shows, once all of them are laid over each other: as if each had been written. -/
theorem peekAt_foldl_secrets (secrets : List Secret) (x : List String) :
    (Dict.root ((secrets.map Secret.dict).foldl LabelledTree.mergeTables [])).peekAt x =
      ((secrets.filter fun secret ↦ LabelledTree.touches (segments secret.key) x).getLast?.map fun secret ↦
        LabelledTree.shownBy (segments secret.key)
          (.leaf (some secret.metadata) (.scalar (.string secret.value)) : Node) x).getD
        ((Dict.root []).peekAt x) := by
  rw [List.foldl_map, LabelledTree.read_foldl_writes fun table : Dict ↦ (Dict.root table).peekAt x]
  intro secret _ table
  rw [Dict.root_mergeTables]
  exact LabelledTree.peekAt_merge_chain_leaf (some secret.metadata) (some secret.metadata) none
    (Dict.root table) (segments_ne_nil secret.key) (.scalar (.string secret.value)) x

/-! ### What the claims of a directory are -/

/-- A directory entry is a key file: its name spells a key, and it is a file with some text. -/
def DirEntry.Holds (base nest : String) (entry : DirEntry) (path key text : String) : Prop :=
  spelled base nest entry.name = some (path, key) ∧ entry.found = .file (.ok text)

/-- A directory entry makes a load fail: its name spells a key, and what is behind it cannot be
read. -/
def DirEntry.Refuses (base nest : String) (entry : DirEntry) : Prop :=
  (∃ spelling, spelled base nest entry.name = some spelling) ∧
    ((∃ message, entry.found = .denied message) ∨ ∃ message, entry.found = .file (.error message))

theorem keyOf_of_spelled {base nest path key : String} {name : OsName}
    (h : spelled base nest name = some (path, key)) : keyOf path nest = some key := by
  rcases name with text | ⟨bytes, invalid⟩
  · rw [spelled] at h
    obtain ⟨k, hk, hpair⟩ := Option.map_eq_some_iff.1 h
    obtain ⟨rfl, rfl⟩ := Prod.mk.inj hpair
    exact hk
  · exact absurd h (Option.some_ne_none _).symm

theorem readEntry_eq_some_iff {base nest : String} {entry : DirEntry} {path text : String} :
    readEntry base nest entry = .ok (some (path, text)) ↔ ∃ key, entry.Holds base nest path key text := by
  simp only [readEntry, DirEntry.Holds]
  rcases spelled base nest entry.name with - | ⟨p, key⟩
  · simp
  · rcases entry.found with - | message | - | (message | t) <;> simp

theorem readEntry_isError_iff {base nest : String} {entry : DirEntry} :
    (∃ e, readEntry base nest entry = .error e) ↔ entry.Refuses base nest := by
  rw [readEntry, DirEntry.Refuses]
  rcases spelled base nest entry.name with - | spelling
  · simp
  · rcases entry.found with - | message | - | (message | text) <;> simp

/-- A list of computations fails when one of them does. -/
theorem mapM_isError_iff {ε α β : Type} {f : α → Except ε β} {xs : List α} :
    (∃ e, xs.mapM f = .error e) ↔ ∃ x ∈ xs, ∃ e, f x = .error e := by
  induction xs with
  | nil => simp [pure, Except.pure]
  | cons x xs ih =>
    rw [List.mapM_cons, List.exists_mem_cons_iff, ← ih]
    rcases f x with e | y
    · exact ⟨fun _ ↦ .inl ⟨e, rfl⟩, fun _ ↦ ⟨e, rfl⟩⟩
    · rcases xs.mapM f with e | ys
      · exact ⟨fun _ ↦ .inr ⟨e, rfl⟩, fun _ ↦ ⟨e, rfl⟩⟩
      · simp [bind, Except.bind, pure, Except.pure]

/-- **What is read of a directory**: nothing where an entry refuses, and otherwise its key files. -/
theorem secretFiles_cases (base nest : String) (directory : Directory) :
    ((∃ entry ∈ directory.entries, entry.Refuses base nest) ∧
      ∃ e, secretFiles base nest (.entries directory.entries) = .error e) ∨
    (¬ (∃ entry ∈ directory.entries, entry.Refuses base nest) ∧
      ∃ files, secretFiles base nest (.entries directory.entries) = .ok (some files) ∧
        ∀ path text, (path, text) ∈ files ↔
          ∃ entry ∈ directory.entries, ∃ key, entry.Holds base nest path key text) := by
  have hmem : ∀ entry, entry ∈ sorted directory.entries ↔ entry ∈ directory.entries := fun _ ↦
    List.mem_mergeSort
  have hrefuses : (∃ e, (sorted directory.entries).mapM (readEntry base nest) = .error e) ↔
      ∃ entry ∈ directory.entries, entry.Refuses base nest := by
    simp only [mapM_isError_iff, readEntry_isError_iff, hmem]
  rcases hread : (sorted directory.entries).mapM (readEntry base nest) with e | found
  · refine .inl ⟨hrefuses.1 ⟨e, hread⟩, e, ?_⟩
    rw [secretFiles, hread]
    rfl
  · refine .inr ⟨fun h ↦ ?_, found.filterMap id, ?_, fun path text ↦ ?_⟩
    · obtain ⟨e, he⟩ := hrefuses.2 h
      rw [hread] at he
      cases he
    · rw [secretFiles, hread]
      rfl
    · have hall : (sorted directory.entries).map (readEntry base nest) = found.map .ok := by
        rw [← List.forall₂_eq_eq_eq, List.forall₂_map_left_iff, List.forall₂_map_right_iff]
        exact mapM_eq_ok_iff.1 hread
      have hfound : some (path, text) ∈ found ↔
          ∃ entry ∈ directory.entries, readEntry base nest entry = .ok (some (path, text)) := by
        have hok : some (path, text) ∈ found ↔
            (.ok (some (path, text)) : Except Error _) ∈ found.map .ok := by
          simp
        rw [hok, ← hall, List.mem_map]
        simp only [hmem]
      rw [List.mem_filterMap]
      simp only [id, exists_eq_right, hfound, readEntry_eq_some_iff]

/-- What is merged of a directory that is listed so. -/
theorem mergeSecretsDir_mounting (host : Host) (spec : LoadSpec) (base : String) (directory : ReadDir) :
    mergeSecretsDir (mounting host spec.nest directory) { spec with secretsDir := some base } Stack.new =
      (secretFiles base spec.nest directory).map fun files ↦
        mergeAll Stack.new ((secretsOf spec.nest (files.getD [])).map (Secret.provider spec.key)) := by
  show (secretProviders _ base _ >>= _) = _
  have hlisted : (mounting host spec.nest directory).secretFiles base =
      secretFiles base spec.nest directory := rfl
  rw [secretProviders, hlisted]
  rcases secretFiles base spec.nest directory with e | - | files
  · rfl
  · rfl
  · show Except.ok (mergeAll Stack.new _) = Except.ok (mergeAll Stack.new _)
    rw [Option.getD_some, secretsOf, List.map_filterMap]
    simp only [Option.map_map]
    rfl

/-- **What a directory contributes**: nothing where an entry refuses, and otherwise its secrets, laid
over each other. -/
theorem dict_cases (host : Host) (spec : LoadSpec) (base : String) (directory : Directory) :
    ((∃ entry ∈ directory.entries, entry.Refuses base spec.nest) ∧
      dict host spec base (.entries directory.entries) = none) ∨
    (¬ (∃ entry ∈ directory.entries, entry.Refuses base spec.nest) ∧
      ∃ secrets : List Secret,
        (∀ path key value, ⟨path, key, value⟩ ∈ secrets ↔ ∃ entry ∈ directory.entries, ∃ text,
          entry.Holds base spec.nest path key text ∧ trimOneNewline text = value) ∧
        dict host spec base (.entries directory.entries) =
          some ((secrets.map Secret.dict).foldl LabelledTree.mergeTables [])) := by
  obtain ⟨hrefuses, e, he⟩ | ⟨hrefuses, files, hfiles, hmem⟩ := secretFiles_cases base spec.nest directory
  · refine .inl ⟨hrefuses, ?_⟩
    rw [dict, mergeSecretsDir_mounting, he]
    rfl
  · refine .inr ⟨hrefuses, secretsOf spec.nest files, fun path key value ↦ ?_, ?_⟩
    · rw [secretsOf, List.mem_filterMap]
      constructor
      · rintro ⟨⟨p, text⟩, hfile, hsecret⟩
        obtain ⟨k, hk, heq⟩ := Option.map_eq_some_iff.1 hsecret
        obtain ⟨rfl, rfl, rfl⟩ := Secret.mk.inj heq
        obtain ⟨entry, hentry, k', hholds⟩ := (hmem p text).1 hfile
        have hkey : k' = k := Option.some.inj ((keyOf_of_spelled hholds.1).symm.trans hk)
        exact ⟨entry, hentry, text, hkey ▸ hholds, rfl⟩
      · rintro ⟨entry, hentry, text, hholds, rfl⟩
        refine ⟨(path, text), (hmem path text).2 ⟨entry, hentry, key, hholds⟩, ?_⟩
        rw [keyOf_of_spelled hholds.1]
        rfl
    · obtain ⟨values, hvalues, hdict⟩ := values_mergeAll_secrets spec.key (secretsOf spec.nest files)
        (rfl : Stack.new.values = .ok fun _ ↦ [])
      rw [dict, mergeSecretsDir_mounting, hfiles]
      show (mergeAll Stack.new ((secretsOf spec.nest files).map (Secret.provider spec.key))).values.toOption.map
        _ = _
      rw [hvalues, ← hdict]
      rfl

/-! ### When every value is kept -/

/-- A secrets directory is a set: what it contributes is the same for every order it is listed in, and
every key file's value is there. -/
def SecretsKept (host : Host) (spec : LoadSpec) (base : String) (directory : Directory) : Prop :=
  (∀ listing, listing.Perm directory.entries →
    dict host spec base (.entries listing) = dict host spec base (.entries directory.entries)) ∧
  ∀ values, dict host spec base (.entries directory.entries) = some values →
    ∀ entry ∈ directory.entries, ∀ path key text, entry.Holds base spec.nest path key text →
      (Dict.root values).peekAt (segments key) = some (Node.text (trimOneNewline text)).peek

/-- No two key files spell keys of which one is at or above the other, unless the keys are the same and
the values too. -/
def Directory.Apart (base nest : String) (directory : Directory) : Prop :=
  ∀ a ∈ directory.entries, ∀ b ∈ directory.entries, ∀ path key text path' key' text',
    a.Holds base nest path key text → b.Holds base nest path' key' text' →
      segments key <+: segments key' → key = key' ∧ trimOneNewline text = trimOneNewline text'

theorem peek_text_inj {a b : String} (h : (Node.text a).peek = (Node.text b).peek) : a = b :=
  Scalar.string.inj (Leaf.scalar.inj (Option.some.inj h))

/-- Where every value is there, the files are apart: nothing shows below a value. -/
theorem apart_of_kept {base nest : String} {directory : Directory} {values : Dict}
    (h : ∀ entry ∈ directory.entries, ∀ path key text, entry.Holds base nest path key text →
      (Dict.root values).peekAt (segments key) = some (Node.text (trimOneNewline text)).peek) :
    directory.Apart base nest := by
  intro a ha b hb path key text path' key' text' hholds hholds' hprefix
  have hshown := h a ha path key text hholds
  have hshown' := h b hb path' key' text' hholds'
  obtain ⟨rest, hrest⟩ := hprefix
  rcases rest with - | ⟨k, ks⟩
  · rw [List.append_nil] at hrest
    rw [hrest, hshown'] at hshown
    exact ⟨segments_injective hrest, (peek_text_inj (Option.some.inj hshown)).symm⟩
  · have hbelow := LabelledTree.peekAt_append_of_leaf hshown (List.cons_ne_nil k ks)
    rw [hrest, hshown'] at hbelow
    exact absurd hbelow (Option.some_ne_none _)

/-- **When every value is kept**: exactly when the load is refused, or the files of the directory are
apart. -/
theorem secretsKept_iff (host : Host) (spec : LoadSpec) (base : String) (directory : Directory) :
    SecretsKept host spec base directory ↔
      (∃ entry ∈ directory.entries, entry.Refuses base spec.nest) ∨
        directory.Apart base spec.nest := by
  rw [SecretsKept, and_iff_right fun listing h ↦ dict_eq_of_perm host spec base directory h]
  obtain ⟨hrefuses, hnone⟩ | ⟨hrefuses, secrets, hsecrets, hdict⟩ := dict_cases host spec base directory
  · rw [hnone]
    exact ⟨fun _ ↦ .inl hrefuses, fun _ values hvalues ↦ absurd hvalues (Option.some_ne_none _).symm⟩
  · rw [or_iff_right hrefuses, hdict]
    constructor
    · intro h
      exact apart_of_kept fun entry hentry path key text hholds ↦ h _ rfl entry hentry path key text hholds
    · intro hapart values hvalues entry hentry path key text hholds
      obtain rfl := Option.some.inj hvalues
      have hself : (⟨path, key, trimOneNewline text⟩ : Secret) ∈ secrets.filter fun secret ↦
          LabelledTree.touches (segments secret.key) (segments key) := by
        refine List.mem_filter.2 ⟨(hsecrets _ _ _).2 ⟨entry, hentry, text, hholds, rfl⟩, ?_⟩
        exact decide_eq_true (.inl List.prefix_rfl)
      rw [peekAt_foldl_secrets]
      rcases hlast : (secrets.filter fun secret ↦
          LabelledTree.touches (segments secret.key) (segments key)).getLast? with - | last
      · rw [List.getLast?_eq_none_iff.1 hlast] at hself
        exact absurd hself List.not_mem_nil
      · obtain ⟨hmem, htouches⟩ := List.mem_filter.1 (List.mem_of_getLast? hlast)
        obtain ⟨other, hother, text', hholds', hvalue⟩ := (hsecrets _ _ _).1 hmem
        have hsame : last.key = key ∧ last.value = trimOneNewline text := by
          rw [← hvalue]
          rcases of_decide_eq_true htouches with hprefix | hprefix
          · exact hapart other hother entry hentry _ _ _ _ _ _ hholds' hholds hprefix
          · obtain ⟨hkey, htext⟩ := hapart entry hentry other hother _ _ _ _ _ _ hholds hholds' hprefix
            exact ⟨hkey.symm, htext.symm⟩
        rw [hlast, Option.map_some, Option.getD_some, hsame.1, hsame.2, LabelledTree.shownBy,
          if_pos List.prefix_rfl, List.drop_length]
        rfl

/-- Two files, one of which spells a key below the other's. -/
def nested : Directory where
  entries := [⟨.utf8 "db", .file (.ok "a")⟩, ⟨.utf8 "db__password", .file (.ok "b")⟩]
  names_nodup := by
    simp

/-- **A value is lost**, and the load is not refused. -/
theorem not_secretsKept_nested :
    ¬ SecretsKept Host.bare { key := "app" } "/run/secrets" nested := by
  intro h
  have hdb : (⟨.utf8 "db", .file (.ok "a")⟩ : DirEntry).Holds "/run/secrets" defaultNest
      "/run/secrets/db" "db" "a" := ⟨by decide, rfl⟩
  have hpassword : (⟨.utf8 "db__password", .file (.ok "b")⟩ : DirEntry).Holds "/run/secrets" defaultNest
      "/run/secrets/db__password" "db.password" "b" := ⟨by decide, rfl⟩
  obtain ⟨⟨entry, hentry, -, hfound⟩, -⟩ | ⟨-, secrets, -, hdict⟩ :=
    dict_cases Host.bare { key := "app" } "/run/secrets" nested
  · revert hfound
    rcases List.mem_pair.1 hentry with rfl | rfl
    · simp
    · simp
  · have hsame := apart_of_kept (h.2 _ hdict) _ List.mem_cons_self _
      (List.mem_cons_of_mem _ List.mem_cons_self) _ _ _ _ _ _ hdb hpassword (by decide)
    exact absurd hsame.1 (by decide)

end DynamicConfig.Secrets
