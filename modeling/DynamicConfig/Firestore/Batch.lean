import DynamicConfig.Firestore.Value
import DynamicConfig.Stores.Documents
import Mathlib.Data.List.Nodup

/-!
# Several documents in one request

`batchGet` takes the names of the documents and answers in any order, with what was found and what is
missing. `batch` holds what was found by its path, refuses what it did not ask for and what it was told
twice, and puts the rest back into the order of the call.

A name is told by its path, which is the name without the root of the database before it. A name that
is not under the root is its own path, so a name that is just a path that was asked for is taken for the
document at that path. `batch_eq_ok_iff` is what is accepted, in terms of paths, and
`batch_asAsked_iff` is where that is the documents that were asked for.
-/

namespace DynamicConfig.Firestore

/-- What a source reads: one document, or several named ones. -/
inductive Keys where
  | one (path : String)
  | several (paths : List String)
  deriving DecidableEq

/-- `describe`. -/
def Keys.describe : Keys → String
  | .one path => path
  | .several paths => "documents " ++ ", ".intercalate paths

/-- A source of documents in Firestore. -/
structure Source where
  project : String
  database : String
  keys : Keys
  /-- The section the fields of a document are put under. -/
  key : String
  endpoint : Option String

/-- A request: its address, what is posted, and what comes back. -/
abbrev Post := String → Value → Except Error Value

/-- `Value::get`, of a table by its key. -/
def member (key : String) : Value → Option Value
  | .table entries => entries.lookup key
  | .array _ | .scalar _ => none

/-- `Value::as_str`. -/
def asStr : Value → Option String
  | .scalar (.string text) => some text
  | .scalar _ | .array _ | .table _ => none

namespace Source

variable (source : Source) (print : Value → String)

/-- `describe`. -/
def describe : String :=
  match source.endpoint with
  | some endpoint => "firestore " ++ endpoint ++ " " ++ source.project ++ "/" ++ source.keys.describe
  | none => "firestore " ++ source.project ++ "/" ++ source.keys.describe

/-- `host`: the emulator's if one was named, otherwise Google's. -/
def host : String := source.endpoint.getD "https://firestore.googleapis.com"

/-- Where the documents of this database live. -/
def root : String := "projects/" ++ source.project ++ "/databases/" ++ source.database ++ "/documents"

/-- `batch_url`. -/
def batchUrl : String := source.host ++ "/v1/" ++ source.root ++ ":batchGet"

/-- The full resource name `batchGet` asks for: `name_of`. -/
def nameOf (path : String) : String := source.root ++ "/" ++ path

/-- The path inside the database, from a full resource name: `path_of`. A name that is not under this
database's documents is returned whole. -/
def pathOf (name : String) : String := (stripPrefix name (source.root ++ "/")).getD name

/-- One document's fields under the section key, as text, and its update time: `section_of`. -/
def sectionOf (body : Value) (path : String) : Except Error (String × Option String) :=
  match member "fields" body with
  | none => .error (.remote (source.describe ++ ": \x60" ++ path ++
      "\x60 answered without \x60fields\x60; is that a document?"))
  | some fields =>
    .ok (print (.table [(source.key, toJson fields)]), (member "updateTime" body).bind asStr)

/-- The document an entry of the answer found, and its name. -/
def foundIn (entry : Value) : Except Error (Value × String) :=
  match (member "missing" entry).bind asStr with
  | some missing => .error (.remote (source.describe ++ ": \x60" ++ source.pathOf missing ++
      "\x60 holds no document"))
  | none =>
    match member "found" entry with
    | none => .error (.remote (source.describe ++
        ": a batch result is neither \x60found\x60 nor \x60missing\x60"))
    | some found =>
      match (member "name" found).bind asStr with
      | none => .error (.remote (source.describe ++ ": a batch result names no document"))
      | some name => .ok (found, name)

/-- One entry: it was asked for, nothing was held for its path, and it is a document. -/
def accept (paths : List String) (held : List (String × String)) (entry : Value) :
    Except Error (List (String × String)) := do
  let (found, name) ← source.foundIn entry
  if source.pathOf name ∉ paths then
    .error (.remote (source.describe ++ ": the store answered with \x60" ++ source.pathOf name ++
      "\x60, which is not one of the documents that were asked for"))
  else if source.pathOf name ∈ held.map Prod.fst then
    .error (.remote (source.describe ++ ": the store answered for \x60" ++ source.pathOf name ++
      "\x60 twice"))
  else do
    let (text, _) ← source.sectionOf print found (source.pathOf name)
    .ok (held ++ [(source.pathOf name, text)])

/-- What is held after all of the entries. -/
def hold (paths : List String) :
    List (String × String) → List Value → Except Error (List (String × String))
  | held, [] => .ok held
  | held, entry :: entries => do
    let held ← source.accept print paths held entry
    hold paths held entries

/-- What is held for a path. -/
def heldFor (held : List (String × String)) (path : String) : Except Error (String × String) :=
  match held.find? fun e ↦ decide (e.1 = path) with
  | some e => .ok e
  | none => .error (.remote (source.describe ++ ": the store answered nothing at all about \x60" ++
      path ++ "\x60"))

/-- Every named document, in one request, put back into call order. -/
def batch (post : Post) (paths : List String) : Except Error (List (String × String)) := do
  match ← post source.batchUrl
      (.table [("documents", .array (paths.map fun path ↦ string (source.nameOf path)))]) with
  | .array entries => do
    let held ← source.hold print paths [] entries
    paths.mapM (source.heldFor held)
  | .table _ | .scalar _ => .error (.remote (source.describe ++
      ": the batch response is not a list of results"))

end Source

/-- A store that answers a request with a list of entries. -/
def answering (entries : List Value) : Post := fun _ _ ↦ .ok (.array entries)

/-! ### Names and paths -/

variable {source : Source} {print : Value → String} {paths : List String}

theorem toList_nameOf (path : String) :
    (source.nameOf path).toList = (source.root ++ "/").toList ++ path.toList := by
  rw [Source.nameOf, String.toList_append]

/-- The path of a name under the root is what it was made of. -/
theorem pathOf_nameOf (path : String) : source.pathOf (source.nameOf path) = path := by
  have hunder : (source.root ++ "/").toList <+: (source.nameOf path).toList := by
    rw [toList_nameOf]
    exact List.prefix_append _ _
  rw [Source.pathOf, stripPrefix, if_pos hunder, toList_nameOf, List.drop_left, String.ofList_toList,
    Option.getD_some]

/-- A name under the root is the name of its path. -/
theorem nameOf_pathOf {name : String} (h : (source.root ++ "/").toList <+: name.toList) :
    source.nameOf (source.pathOf name) = name := by
  obtain ⟨rest, hrest⟩ := h
  have hname : name = source.nameOf (String.ofList rest) := by
    refine String.toList_injective ?_
    rw [toList_nameOf, String.toList_ofList, hrest]
  rw [hname, pathOf_nameOf]

/-! ### What is accepted -/

/-- The name and the text of a document that an entry found. -/
def answered (source : Source) (print : Value → String) (entry : Value) : Option (String × String) :=
  match source.foundIn entry with
  | .error _ => none
  | .ok (found, name) =>
    match source.sectionOf print found (source.pathOf name) with
    | .error _ => none
    | .ok (text, _) => some (name, text)

theorem answered_of_foundIn {entry found : Value} {name : String}
    (h : source.foundIn entry = .ok (found, name)) :
    answered source print entry =
      match source.sectionOf print found (source.pathOf name) with
      | .error _ => none
      | .ok (text, _) => some (name, text) := by
  rw [answered, h]

/-- What accepting an entry does. -/
theorem accept_eq_ok_iff {held held' : List (String × String)} {entry : Value} :
    source.accept print paths held entry = .ok held' ↔
      ∃ name text, answered source print entry = some (name, text) ∧ source.pathOf name ∈ paths ∧
        source.pathOf name ∉ held.map Prod.fst ∧ held' = held ++ [(source.pathOf name, text)] := by
  rw [Source.accept]
  rcases hfound : source.foundIn entry with error | ⟨found, name⟩
  · rw [answered, hfound]
    exact iff_of_false (fun h ↦ by cases h) fun ⟨_, _, h, _⟩ ↦ Option.some_ne_none _ h.symm
  · rw [answered_of_foundIn hfound]
    show (if source.pathOf name ∉ paths then _ else if source.pathOf name ∈ held.map Prod.fst then _
      else (do
        let (text, _) ← source.sectionOf print found (source.pathOf name)
        .ok (held ++ [(source.pathOf name, text)]))) = _ ↔ _
    rcases source.sectionOf print found (source.pathOf name) with error | ⟨text, updated⟩
    · -- It is no document, whatever comes first to be wrong with it.
      refine iff_of_false (fun h ↦ ?_) fun ⟨_, _, h, _⟩ ↦ Option.some_ne_none _ h.symm
      split_ifs at h
      cases h
    · constructor
      · intro h
        by_cases hasked : source.pathOf name ∈ paths
        · by_cases hheld : source.pathOf name ∈ held.map Prod.fst
          · rw [if_neg (not_not.2 hasked), if_pos hheld] at h
            cases h
          · rw [if_neg (not_not.2 hasked), if_neg hheld] at h
            exact ⟨name, text, rfl, hasked, hheld, (Except.ok.inj h).symm⟩
        · rw [if_pos hasked] at h
          cases h
      · rintro ⟨_, _, h, hasked, hheld, rfl⟩
        obtain ⟨rfl, rfl⟩ := Prod.mk.inj (Option.some.inj h)
        rw [if_neg (not_not.2 hasked), if_neg hheld]
        rfl

/-- The documents as they are held: the path, then the text. -/
def heldAs (source : Source) (docs : List (String × String)) : List (String × String) :=
  docs.map fun doc ↦ (source.pathOf doc.1, doc.2)

/-- The paths documents are held under. -/
def heldPaths (source : Source) (docs : List (String × String)) : List String :=
  docs.map fun doc ↦ source.pathOf doc.1

theorem map_fst_heldAs (docs : List (String × String)) :
    (heldAs source docs).map Prod.fst = heldPaths source docs := by
  rw [heldAs, heldPaths, List.map_map]
  rfl

/-- **All entries are held where each of them is a document that was asked for**, and no two are of one
path. -/
theorem hold_eq_ok_iff {held held' : List (String × String)} {entries : List Value} :
    source.hold print paths held entries = .ok held' ↔
      ∃ docs, entries.map (answered source print) = docs.map some ∧
        (∀ path ∈ heldPaths source docs, path ∈ paths ∧ path ∉ held.map Prod.fst) ∧
        (heldPaths source docs).Nodup ∧ held' = held ++ heldAs source docs := by
  induction entries generalizing held held' with
  | nil =>
    rw [Source.hold]
    constructor
    · intro h
      exact ⟨[], rfl, fun _ hpath ↦ absurd hpath List.not_mem_nil, List.nodup_nil,
        (Except.ok.inj h).symm.trans (List.append_nil held).symm⟩
    · rintro ⟨docs, hdocs, -, -, rfl⟩
      obtain rfl := List.map_eq_nil_iff.1 hdocs.symm
      exact congrArg Except.ok (List.append_nil held).symm
  | cons entry entries ih =>
    rw [Source.hold]
    constructor
    · intro h
      obtain ⟨next, haccept, h⟩ := exists_of_bind_eq_ok h
      obtain ⟨name, text, hanswered, hasked, hheld, rfl⟩ := accept_eq_ok_iff.1 haccept
      obtain ⟨docs, hdocs, hall, hnodup, rfl⟩ := ih.1 h
      -- What comes later is not held for the path of the first.
      have hlater : ∀ path ∈ heldPaths source docs,
          path ∈ paths ∧ path ∉ held.map Prod.fst ∧ path ≠ source.pathOf name := by
        intro path hpath
        obtain ⟨hpaths, hnot⟩ := hall path hpath
        rw [List.map_append, List.mem_append, not_or] at hnot
        exact ⟨hpaths, hnot.1, fun heq ↦ hnot.2 (List.mem_singleton.2 heq)⟩
      refine ⟨(name, text) :: docs, ?_, ?_, ?_, ?_⟩
      · rw [List.map_cons, List.map_cons, hanswered, hdocs]
      · intro path hpath
        rcases List.mem_cons.1 hpath with rfl | hpath
        · exact ⟨hasked, hheld⟩
        · exact ⟨(hlater path hpath).1, (hlater path hpath).2.1⟩
      · exact List.nodup_cons.2 ⟨fun hmem ↦ (hlater _ hmem).2.2 rfl, hnodup⟩
      · rw [List.append_assoc]
        rfl
    · rintro ⟨docs, hdocs, hall, hnodup, rfl⟩
      obtain ⟨⟨name, text⟩, docs, rfl⟩ : ∃ doc docs', docs = doc :: docs' := by
        rcases docs with - | ⟨doc, docs⟩
        · exact absurd hdocs (List.cons_ne_nil _ _)
        · exact ⟨doc, docs, rfl⟩
      obtain ⟨hanswered, hdocs⟩ := List.cons.inj hdocs
      obtain ⟨hfirst, hrest⟩ := List.forall_mem_cons.1 hall
      obtain ⟨hnew, hnodup⟩ := List.nodup_cons.1 hnodup
      have haccept : source.accept print paths held entry =
          .ok (held ++ [(source.pathOf name, text)]) :=
        accept_eq_ok_iff.2 ⟨name, text, hanswered, hfirst.1, hfirst.2, rfl⟩
      have hthen : source.hold print paths (held ++ [(source.pathOf name, text)]) entries =
          .ok (held ++ [(source.pathOf name, text)] ++ heldAs source docs) := by
        refine ih.2 ⟨docs, hdocs, fun path hpath ↦ ⟨(hrest path hpath).1, ?_⟩, hnodup, rfl⟩
        rw [List.map_append, List.mem_append, not_or]
        refine ⟨(hrest path hpath).2, fun heq ↦ hnew ?_⟩
        rw [show path = source.pathOf name from List.mem_singleton.1 heq] at hpath
        exact hpath
      rw [haccept]
      show source.hold print paths (held ++ [(source.pathOf name, text)]) entries = _
      rw [hthen, List.append_assoc]
      rfl

theorem heldFor_eq_ok_iff {held : List (String × String)} (hnodup : (held.map Prod.fst).Nodup)
    {path : String} {e : String × String} :
    source.heldFor held path = .ok e ↔ e ∈ held ∧ e.1 = path := by
  have hfind : source.heldFor held path = .ok e ↔
      held.find? (fun e ↦ decide (e.1 = path)) = some e := by
    rw [Source.heldFor]
    generalize held.find? (fun e ↦ decide (e.1 = path)) = found
    rcases found with - | found
    · exact iff_of_false (fun h ↦ by cases h) fun h ↦ Option.some_ne_none _ h.symm
    · exact ⟨fun h ↦ congrArg some (Except.ok.inj h), fun h ↦ congrArg Except.ok (Option.some.inj h)⟩
  rw [hfind]
  constructor
  · intro h
    have hpath := List.find?_some (p := fun e : String × String ↦ decide (e.1 = path)) h
    exact ⟨List.mem_of_find?_eq_some h, of_decide_eq_true hpath⟩
  · rintro ⟨hmem, rfl⟩
    rcases hfound : held.find? (fun e' ↦ decide (e'.1 = e.1)) with - | e'
    · exact absurd (decide_eq_true rfl) (List.find?_eq_none.1 hfound e hmem)
    · have hkey : e'.1 = e.1 := of_decide_eq_true
        (List.find?_some (p := fun e' : String × String ↦ decide (e'.1 = e.1)) hfound)
      exact hfound.trans (congrArg some
        (List.inj_on_of_nodup_map hnodup (List.mem_of_find?_eq_some hfound) hmem hkey))

theorem exists_of_forall₂ {α β : Type} {R : α → β → Prop} {xs : List α} {ys : List β}
    (h : List.Forall₂ R xs ys) {x : α} (hx : x ∈ xs) : ∃ y ∈ ys, R x y := by
  induction h with
  | nil => exact absurd hx List.not_mem_nil
  | cons hfirst _ ih =>
    rcases List.mem_cons.1 hx with rfl | hx
    · exact ⟨_, List.mem_cons_self, hfirst⟩
    · obtain ⟨y, hy, hxy⟩ := ih hx
      exact ⟨y, List.mem_cons_of_mem _ hy, hxy⟩

/-- The entries are documents, each of another path, and the paths are those that were asked for. -/
def Accepted (source : Source) (print : Value → String) (paths : List String) (entries : List Value) :
    Prop :=
  ∃ docs, entries.map (answered source print) = docs.map some ∧ (heldPaths source docs).Nodup ∧
    ∀ path, path ∈ heldPaths source docs ↔ path ∈ paths

/-- **What comes back**: for every path, in the order of the call, the document that is held for it. -/
theorem batch_eq_ok_iff {entries : List Value} {result : List (String × String)} :
    source.batch print (answering entries) paths = .ok result ↔
      ∃ docs, entries.map (answered source print) = docs.map some ∧ (heldPaths source docs).Nodup ∧
        (∀ path, path ∈ heldPaths source docs ↔ path ∈ paths) ∧
        List.Forall₂ (fun path e ↦ e ∈ heldAs source docs ∧ e.1 = path) paths result := by
  have hbatch : source.batch print (answering entries) paths =
      (source.hold print paths [] entries >>= fun held ↦ paths.mapM (source.heldFor held)) := rfl
  rw [hbatch]
  constructor
  · intro h
    obtain ⟨held, hhold, h⟩ := exists_of_bind_eq_ok h
    obtain ⟨docs, hdocs, hall, hnodup, rfl⟩ := hold_eq_ok_iff.1 hhold
    rw [List.nil_append] at h
    have hkeys : ((heldAs source docs).map Prod.fst).Nodup := by rwa [map_fst_heldAs]
    have hlists := (mapM_eq_ok_iff.1 h).imp fun _ _ h ↦ (heldFor_eq_ok_iff hkeys).1 h
    refine ⟨docs, hdocs, hnodup, fun path ↦ ⟨fun hpath ↦ (hall path hpath).1, fun hpath ↦ ?_⟩, hlists⟩
    obtain ⟨e, -, hmem, rfl⟩ := exists_of_forall₂ hlists hpath
    rw [← map_fst_heldAs]
    exact List.mem_map_of_mem hmem
  · rintro ⟨docs, hdocs, hnodup, hpaths, hlists⟩
    have hhold : source.hold print paths [] entries = .ok (heldAs source docs) :=
      hold_eq_ok_iff.2 ⟨docs, hdocs, fun path hpath ↦ ⟨(hpaths path).1 hpath, List.not_mem_nil⟩,
        hnodup, (List.nil_append _).symm⟩
    have hkeys : ((heldAs source docs).map Prod.fst).Nodup := by rwa [map_fst_heldAs]
    rw [hhold]
    exact mapM_eq_ok_iff.2 (hlists.imp fun _ _ h ↦ (heldFor_eq_ok_iff hkeys).2 h)

/-- What is accepted has a result. -/
theorem exists_batch_eq_ok {entries : List Value} (h : Accepted source print paths entries) :
    ∃ result, source.batch print (answering entries) paths = .ok result := by
  obtain ⟨docs, hdocs, hnodup, hpaths⟩ := h
  have hevery : ∀ asked : List String, (∀ path ∈ asked, path ∈ heldPaths source docs) →
      ∃ result, List.Forall₂ (fun path e ↦ e ∈ heldAs source docs ∧ e.1 = path) asked result := by
    intro asked hasked
    induction asked with
    | nil => exact ⟨[], .nil⟩
    | cons path asked ih =>
      obtain ⟨hpath, hrest⟩ := List.forall_mem_cons.1 hasked
      obtain ⟨result, hresult⟩ := ih hrest
      rw [← map_fst_heldAs] at hpath
      obtain ⟨e, he, rfl⟩ := List.mem_map.1 hpath
      exact ⟨e :: result, .cons ⟨he, rfl⟩ hresult⟩
  obtain ⟨result, hresult⟩ := hevery paths fun path hpath ↦ (hpaths path).2 hpath
  exact ⟨result, batch_eq_ok_iff.2 ⟨docs, hdocs, hnodup, hpaths, hresult⟩⟩

/-- **The order of an answer makes no difference.** -/
theorem batch_perm {entries entries' : List Value} {result : List (String × String)}
    (h : source.batch print (answering entries) paths = .ok result) (hperm : entries.Perm entries') :
    source.batch print (answering entries') paths = .ok result := by
  obtain ⟨docs, hdocs, hnodup, hpaths, hlists⟩ := batch_eq_ok_iff.1 h
  -- The documents of the other order are those of this one in that order.
  obtain ⟨docs', hdocs', hsame⟩ : ∃ docs', entries'.map (answered source print) = docs'.map some ∧
      docs.Perm docs' := by
    have hmap := hperm.map (answered source print)
    rw [hdocs] at hmap
    refine ⟨(entries'.map (answered source print)).filterMap id, ?_, ?_⟩
    · have hsome : ∀ x ∈ entries'.map (answered source print), ∃ doc, x = some doc := by
        intro x hx
        obtain ⟨doc, -, rfl⟩ := List.mem_map.1 (hmap.mem_iff.2 hx)
        exact ⟨doc, rfl⟩
      generalize entries'.map (answered source print) = xs at hsome
      induction xs with
      | nil => rfl
      | cons x xs ih =>
        obtain ⟨⟨doc, rfl⟩, hrest⟩ := List.forall_mem_cons.1 hsome
        exact congrArg (some doc :: ·) (ih hrest)
    · have hfilter := hmap.filterMap id
      rw [List.filterMap_map] at hfilter
      simpa using hfilter
  have hheld : (heldPaths source docs).Perm (heldPaths source docs') := hsame.map _
  refine batch_eq_ok_iff.2 ⟨docs', hdocs', hheld.nodup_iff.1 hnodup, fun path ↦ ?_, ?_⟩
  · rw [← hheld.mem_iff]
    exact hpaths path
  · exact hlists.imp fun path e h ↦ ⟨(hsame.map _).mem_iff.1 h.1, h.2⟩

/-! ### What was asked for -/

/-- The name of the document an entry found. -/
def foundName (entry : Value) : Option String :=
  ((member "found" entry).bind (member "name")).bind asStr

/-- An answer is exactly what was asked for. -/
structure AsAsked (source : Source) (print : Value → String) (paths : List String)
    (entries : List Value) (result : List (String × String)) : Prop where
  /-- One entry found the document of each path, by its name. -/
  once : ∀ path ∈ paths, (entries.map foundName).count (some (source.nameOf path)) = 1
  /-- And no entry is about anything else. -/
  nothingElse : ∀ entry ∈ entries, ∃ path ∈ paths, foundName entry = some (source.nameOf path)
  /-- In the order of the call, the sections of these entries are listed. -/
  inOrder : List.Forall₂ (fun path e ↦ e.1 = path ∧ ∃ entry ∈ entries, ∃ found updated,
    foundName entry = some (source.nameOf path) ∧ member "found" entry = some found ∧
      source.sectionOf print found path = .ok (e.2, updated)) paths result
  /-- In any other order the answer has this result too. -/
  anyOrder : ∀ entries', entries.Perm entries' →
    source.batch print (answering entries') paths = .ok result

theorem foundName_of_foundIn {entry found : Value} {name : String}
    (h : source.foundIn entry = .ok (found, name)) :
    member "found" entry = some found ∧ foundName entry = some name := by
  rw [Source.foundIn] at h
  split at h
  · cases h
  · split at h
    · cases h
    · next found' hfound =>
      split at h
      · cases h
      · next name' hname =>
        obtain ⟨rfl, rfl⟩ := Prod.mk.inj (Except.ok.inj h)
        rw [foundName, hfound]
        exact ⟨rfl, hname⟩

/-- The document of an entry, its name and its section. -/
theorem exists_of_answered {entry : Value} {doc : String × String}
    (h : answered source print entry = some doc) :
    foundName entry = some doc.1 ∧ ∃ found updated, member "found" entry = some found ∧
      source.sectionOf print found (source.pathOf doc.1) = .ok (doc.2, updated) := by
  rcases hin : source.foundIn entry with error | ⟨found, name⟩
  · rw [answered, hin] at h
    exact absurd h.symm (Option.some_ne_none _)
  · rw [answered_of_foundIn hin] at h
    obtain ⟨hfound, hname⟩ := foundName_of_foundIn hin
    rcases hsection : source.sectionOf print found (source.pathOf name) with error | ⟨text, updated⟩ <;>
      rw [hsection] at h
    · exact absurd h.symm (Option.some_ne_none _)
    · obtain rfl := Option.some.inj h
      exact ⟨hname, found, updated, hfound, hsection⟩

section Entries

variable {entries : List Value} {docs : List (String × String)}

theorem exists_doc (hdocs : entries.map (answered source print) = docs.map some) {entry : Value}
    (h : entry ∈ entries) :
    ∃ doc ∈ docs, answered source print entry = some doc := by
  have hmem : answered source print entry ∈ docs.map some := hdocs ▸ List.mem_map_of_mem h
  obtain ⟨doc, hdoc, heq⟩ := List.mem_map.1 hmem
  exact ⟨doc, hdoc, heq.symm⟩

theorem exists_entry (hdocs : entries.map (answered source print) = docs.map some)
    {doc : String × String} (h : doc ∈ docs) :
    ∃ entry ∈ entries, answered source print entry = some doc := by
  have hmem : some doc ∈ entries.map (answered source print) := hdocs ▸ List.mem_map_of_mem h
  exact List.mem_map.1 hmem

theorem map_foundName (hdocs : entries.map (answered source print) = docs.map some) :
    entries.map foundName = docs.map fun doc ↦ some doc.1 := by
  have hnames : entries.map foundName =
      (entries.map (answered source print)).map fun doc ↦ doc.map Prod.fst := by
    rw [List.map_map]
    refine List.map_congr_left fun entry hentry ↦ ?_
    obtain ⟨doc, -, hanswered⟩ := exists_doc hdocs hentry
    rw [(exists_of_answered hanswered).1, Function.comp_apply, hanswered]
    rfl
  rw [hnames, hdocs, List.map_map]
  rfl

end Entries

/-- **An answer that is accepted is what was asked for just where every document in it is named under
the root of the database.** Then its names are those of the paths; a name that is not under the root is
held for the path that reads like it. -/
theorem batch_asAsked_iff (source : Source) (print : Value → String) (paths : List String)
    (entries : List Value) :
    (∀ result, source.batch print (answering entries) paths = .ok result →
        AsAsked source print paths entries result) ↔
      (Accepted source print paths entries →
        ∀ entry ∈ entries, ∀ name, foundName entry = some name →
          (source.root ++ "/").toList <+: name.toList) := by
  constructor
  · intro h haccepted entry hentry name hname
    obtain ⟨result, hresult⟩ := exists_batch_eq_ok haccepted
    obtain ⟨path, -, hpath⟩ := (h result hresult).nothingElse entry hentry
    rw [Option.some.inj (hname.symm.trans hpath), toList_nameOf]
    exact List.prefix_append _ _
  · intro hunder result hresult
    obtain ⟨docs, hdocs, hnodup, hpaths, hlists⟩ := batch_eq_ok_iff.1 hresult
    have hname : ∀ doc ∈ docs, source.nameOf (source.pathOf doc.1) = doc.1 := by
      intro doc hdoc
      obtain ⟨entry, hentry, hanswered⟩ := exists_entry hdocs hdoc
      exact nameOf_pathOf (hunder ⟨docs, hdocs, hnodup, hpaths⟩ entry hentry doc.1
        (exists_of_answered hanswered).1)
    have hnames : (docs.map fun doc ↦ some doc.1).Nodup := by
      refine List.Nodup.of_map (fun name ↦ name.map source.pathOf) ?_
      have hpathsOf : (docs.map fun doc ↦ some doc.1).map (fun name ↦ name.map source.pathOf) =
          (heldPaths source docs).map some := by
        rw [heldPaths, List.map_map, List.map_map]
        rfl
      rw [hpathsOf]
      exact hnodup.map (Option.some_injective _)
    refine ⟨fun path hpath ↦ ?_, fun entry hentry ↦ ?_, ?_, fun _ hperm ↦ batch_perm hresult hperm⟩
    · obtain ⟨doc, hdoc, rfl⟩ := List.mem_map.1 ((hpaths path).2 hpath)
      rw [map_foundName hdocs, hname doc hdoc]
      exact List.count_eq_one_of_mem hnames (List.mem_map_of_mem hdoc)
    · obtain ⟨doc, hdoc, hanswered⟩ := exists_doc hdocs hentry
      refine ⟨source.pathOf doc.1, (hpaths _).1 (List.mem_map_of_mem hdoc), ?_⟩
      rw [hname doc hdoc, (exists_of_answered hanswered).1]
    · refine hlists.imp fun path e h ↦ ⟨h.2, ?_⟩
      obtain ⟨doc, hdoc, rfl⟩ := List.mem_map.1 h.1
      obtain rfl : source.pathOf doc.1 = path := h.2
      obtain ⟨entry, hentry, hanswered⟩ := exists_entry hdocs hdoc
      obtain ⟨hfoundName, found, updated, hfound, hsection⟩ := exists_of_answered hanswered
      exact ⟨entry, hentry, found, updated, (hname doc hdoc).symm ▸ hfoundName, hfound, hsection⟩

/-- A source of one document in a list. -/
def sampleSource : Source where
  project := "my-project"
  database := "(default)"
  keys := .several ["config/db"]
  key := "db"
  endpoint := none

/-- An answer whose document is named by its path, with no root before it. -/
def bareEntry : Value :=
  .table [("found", .table [("fields", .table []), ("name", string "config/db")])]

/-- It is taken for the document at that path. -/
theorem not_batch_asAsked_bareEntry :
    sampleSource.batch (fun _ ↦ "") (answering [bareEntry]) ["config/db"] = .ok [("config/db", "")] ∧
      ¬ ∀ result, sampleSource.batch (fun _ ↦ "") (answering [bareEntry]) ["config/db"] = .ok result →
        AsAsked sampleSource (fun _ ↦ "") ["config/db"] [bareEntry] result := by
  have hok : sampleSource.batch (fun _ ↦ "") (answering [bareEntry]) ["config/db"] =
      .ok [("config/db", "")] := rfl
  refine ⟨hok, fun h ↦ ?_⟩
  obtain ⟨path, hpath, hname⟩ := (h _ hok).nothingElse bareEntry List.mem_cons_self
  rw [List.mem_singleton.1 hpath] at hname
  exact absurd (Option.some.inj hname) (by decide)

end DynamicConfig.Firestore
