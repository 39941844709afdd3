import DynamicConfig.Schema.Pointer
import Mathlib.Data.List.Induction
import Mathlib.Data.List.Nodup

/-!
# The schema of a file

A struct's schema describes one section, and a file is a map of sections: `section_` puts the schema
under its key, without the lists of what is required and with its secrets marked, and `merge` puts
several under one root.

References are pointers from the root of a document, and neither rewrites them. What a reference
names has moved under `properties` and the section's key, and the pointer now starts at the file.
`closed_iff` says which references still land where they did: those that happen to go through
`properties` and the key of a section to an equal value, or to name an equal `$schema` or `type`. A
reference to a shared definition, under `$defs`, never does (`not_closed_of_elsewhere`).
-/

namespace DynamicConfig.Schema

/-! ### Sections -/

/-- The draft every emitted schema declares. -/
def draft : String := "https://json-schema.org/draft/2020-12/schema"

/-- A string as a value. -/
def text (s : String) : Value := .scalar (.string s)

mutual

/-- Removes every `required` list, however deep. -/
def dropRequired : Value → Value
  | .scalar s => .scalar s
  | .array items => .array (dropRequiredItems items)
  | .table fields => .table (dropRequiredFields fields)

def dropRequiredItems : List Value → List Value
  | [] => []
  | item :: items => dropRequired item :: dropRequiredItems items

def dropRequiredFields : List (String × Value) → List (String × Value)
  | [] => []
  | (key, value) :: fields =>
    if key = "required" then dropRequiredFields fields
    else (key, dropRequired value) :: dropRequiredFields fields

end

/-- Marks one property, if it is there and has a schema of its own. -/
def markSecret (properties : List (String × Value)) (secret : String) : List (String × Value) :=
  match properties.lookup secret with
  | some (.table property) =>
    Entries.insert secret (.table (inserted "writeOnly" (.scalar (.bool true)) property)) properties
  | _ => properties

/-- Sets `writeOnly` on the named properties. -/
def markSecrets (schema : Value) (secrets : List String) : Value :=
  match schema with
  | .table fields =>
    match fields.lookup "properties" with
    | some (.table properties) =>
      if secrets = [] then schema
      else .table (Entries.insert "properties" (.table (secrets.foldl markSecret properties)) fields)
    | _ => schema
  | .scalar _ | .array _ => schema

/-- What is not a list of required names stays where it is. -/
theorem lookup_dropRequiredFields {key : String} (hkey : key ≠ "required")
    (fields : List (String × Value)) :
    (dropRequiredFields fields).lookup key = (fields.lookup key).map dropRequired := by
  induction fields with
  | nil => rfl
  | cons e fields ih =>
    obtain ⟨k, v⟩ := e
    rw [dropRequiredFields, Entries.lookup_cons_eq]
    split
    · next hk => rw [ih, if_neg (hk ▸ hkey)]
    · rw [Entries.lookup_cons_eq, ih]
      split
      · rfl
      · rfl

theorem getElem?_dropRequiredItems (items : List Value) (i : Nat) :
    (dropRequiredItems items)[i]? = (items[i]?).map dropRequired := by
  induction items generalizing i with
  | nil => rfl
  | cons item items ih =>
    rw [dropRequiredItems]
    rcases i with - | i
    · rfl
    · exact ih i

/-- **A definition is found where it was**, without what it required. -/
theorem pointer_dropRequired {p : List String} (hp : "required" ∉ p) (v : Value) :
    pointer (dropRequired v) p = (pointer v p).map dropRequired := by
  induction p generalizing v with
  | nil => rw [pointer_nil, pointer_nil, Option.map_some]
  | cons token tokens ih =>
    obtain ⟨htoken, htokens⟩ := not_or.1 (mt List.mem_cons.2 hp)
    rcases v with s | items | fields
    · rw [dropRequired, pointer_scalar]
      rfl
    · rw [dropRequired, pointer_array, pointer_array]
      rcases index token with - | i
      · rfl
      · rw [Option.bind_some, Option.bind_some, getElem?_dropRequiredItems]
        rcases items[i]? with - | item
        · rfl
        · exact ih htokens item
    · rw [dropRequired, pointer_table, pointer_table,
        lookup_dropRequiredFields (Ne.symm htoken)]
      rcases fields.lookup token with - | field
      · rfl
      · exact ih htokens field

/-- The root of a file's schema, over its sections. -/
def root (properties : List (String × Value)) : Value :=
  .table (inserted "properties" (.table properties)
    (inserted "type" (text "object") (inserted "$schema" (text draft) [])))

/-- `schema::section`: wraps one struct's schema as the section it occupies in a file. -/
def section_ (key : String) (schema : Value) (secrets : List String) : Value :=
  root (inserted key (markSecrets (dropRequired schema) secrets) [])

/-- The sections of a file's schema. -/
def sectionsOf : Value → List (String × Value)
  | .table fields =>
    match fields.lookup "properties" with
    | some (.table sections) => sections
    | _ => []
  | .scalar _ | .array _ => []

/-- `Map::extend`. -/
def extended (properties sections : List (String × Value)) : List (String × Value) :=
  sections.foldl (fun properties e ↦ inserted e.1 e.2 properties) properties

/-- `schema::merge`: combines several section schemas into one for the file they share. -/
def merge (schemas : List Value) : Value :=
  root (schemas.foldl (fun properties schema ↦ extended properties (sectionsOf schema)) [])

/-! ### References -/

/-- What a section is made of. -/
structure Section where
  key : String
  schema : Value
  secrets : List String

namespace Section

/-- The schema as it is put into the file. -/
def moved (s : Section) : Value := markSecrets (dropRequired s.schema) s.secrets

/-- What `section_` returns of it. -/
def file (s : Section) : Value := section_ s.key s.schema s.secrets

end Section

/-- A pointer of a section's schema leads, from the root of a file, to what it named there. -/
def Lands (file : Value) (s : Section) (p : List String) : Prop :=
  ∃ definition, pointer s.moved p = some definition ∧ pointer file p = some definition

/-- **Every local reference of the sections of a file lands on its definition.** -/
def Closed (file : Value) (sections : List Section) : Prop :=
  ∀ s ∈ sections, ∀ p ∈ localRefs s.moved, Lands file s p

/-- A pointer that stays right where its section is put under its key: it names an equal `$schema`
or `type`, or goes through the sections of the file to an equal value. -/
def Stays (sections : List Section) (s : Section) (p : List String) : Prop :=
  p = ["$schema"] ∧ pointer s.moved p = some (text draft) ∨
    p = ["type"] ∧ pointer s.moved p = some (text "object") ∨
      ∃ other ∈ sections, ∃ rest definition, p = "properties" :: other.key :: rest ∧
        pointer other.moved rest = some definition ∧ pointer s.moved p = some definition

/-! ### The root of a file -/

theorem pointer_root (properties : List (String × Value)) (token : String) (tokens : List String) :
    pointer (root properties) (token :: tokens) =
      if token = "properties" then pointer (.table properties) tokens
      else if token = "type" then pointer (text "object") tokens
      else if token = "$schema" then pointer (text draft) tokens
      else none := by
  rw [root, pointer_table, lookup_inserted, lookup_inserted, lookup_inserted]
  split
  · rfl
  · split
    · rfl
    · split
      · rfl
      · rfl

theorem sectionsOf_file (s : Section) : sectionsOf s.file = [(s.key, s.moved)] := by
  have hlookup : ((inserted "properties" (.table (inserted s.key s.moved []))
      (inserted "type" (text "object") (inserted "$schema" (text draft) []))).lookup "properties") =
        some (.table [(s.key, s.moved)]) := by
    rw [lookup_inserted, if_pos rfl]
    rfl
  show sectionsOf (root (inserted s.key s.moved [])) = _
  rw [root, sectionsOf, hlookup]

/-- The sections of a file, each under its key. -/
def placed (sections : List Section) : List (String × Value) :=
  sections.foldl (fun properties s ↦ inserted s.key s.moved properties) []

/-- **What merging makes of the sections.** -/
theorem merge_files (sections : List Section) :
    merge (sections.map Section.file) = root (placed sections) := by
  rw [merge, List.foldl_map, placed]
  refine congrArg root (List.foldl_ext _ _ [] fun properties s _ ↦ ?_)
  exact congrArg (extended properties) (sectionsOf_file s)

/-- **A section alone is a merge of one.** -/
theorem merge_singleton (s : Section) : merge [s.file] = s.file :=
  merge_files [s]

theorem lookup_placed_append (sections : List Section) (s : Section) (key : String) :
    (placed (sections ++ [s])).lookup key =
      if key = s.key then some s.moved else (placed sections).lookup key := by
  rw [placed, List.foldl_append]
  exact lookup_inserted s.key key s.moved _

/-- What is under a key is a section of that key. -/
theorem section_of_lookup {sections : List Section} {key : String} {v : Value}
    (h : (placed sections).lookup key = some v) : ∃ s ∈ sections, s.key = key ∧ s.moved = v := by
  induction sections using List.reverseRecOn with
  | nil => exact absurd h.symm (Option.some_ne_none v)
  | append_singleton sections s ih =>
    rw [lookup_placed_append] at h
    split at h
    · next hkey =>
      exact ⟨s, List.mem_append_right _ (List.mem_singleton.2 rfl), hkey.symm, Option.some.inj h⟩
    · obtain ⟨other, hother, hkey, hmoved⟩ := ih h
      exact ⟨other, List.mem_append_left _ hother, hkey, hmoved⟩

/-- **Every section is under its key**, where no two claim one. -/
theorem lookup_placed {sections : List Section} (hkeys : (sections.map Section.key).Nodup)
    {s : Section} (hs : s ∈ sections) : (placed sections).lookup s.key = some s.moved := by
  induction sections using List.reverseRecOn with
  | nil => exact absurd hs List.not_mem_nil
  | append_singleton sections last ih =>
    rw [List.map_append, List.nodup_append] at hkeys
    obtain ⟨hbefore, -, hapart⟩ := hkeys
    rw [lookup_placed_append]
    rcases List.mem_append.1 hs with hold | hnew
    · have hne : s.key ≠ last.key :=
        hapart s.key (List.mem_map.2 ⟨s, hold, rfl⟩) last.key (List.mem_singleton.2 rfl)
      rw [if_neg hne]
      exact ih hbefore hold
    · rw [List.mem_singleton.1 hnew, if_pos rfl]

/-! ### Where references land -/

section Landing

variable {sections : List Section} {s : Section} {p : List String}

/-- A pointer that stays right lands. -/
theorem lands_of_stays (hkeys : (sections.map Section.key).Nodup) (h : Stays sections s p) :
    Lands (root (placed sections)) s p := by
  rcases h with ⟨rfl, hdraft⟩ | ⟨rfl, htype⟩ | ⟨other, hother, rest, definition, rfl, hmoved, hnamed⟩
  · refine ⟨_, hdraft, ?_⟩
    rw [pointer_root]
    rfl
  · refine ⟨_, htype, ?_⟩
    rw [pointer_root]
    rfl
  · refine ⟨definition, hnamed, ?_⟩
    rw [pointer_root, if_pos rfl, pointer_table, lookup_placed hkeys hother]
    exact hmoved

/-- No section holds the whole of its file's sections. -/
theorem not_holds_itself (hkeys : (sections.map Section.key).Nodup) (hs : s ∈ sections)
    (p : List String) : pointer s.moved p ≠ some (.table (placed sections)) := by
  intro h
  have hle := sizeOf_pointer h
  have hlt := sizeOf_lookup (lookup_placed hkeys hs)
  simp only [Value.table.sizeOf_spec] at hle
  omega

/-- **A pointer that lands stays right.** -/
theorem stays_of_lands (hkeys : (sections.map Section.key).Nodup) (hs : s ∈ sections) (hp : p ≠ [])
    (h : Lands (root (placed sections)) s p) : Stays sections s p := by
  obtain ⟨definition, hnamed, hlands⟩ := h
  obtain ⟨token, tokens, rfl⟩ := List.exists_cons_of_ne_nil hp
  have hscalar : ∀ t, pointer (text t) tokens = some definition →
      tokens = [] ∧ definition = text t := by
    intro t ht
    rcases tokens with - | ⟨next, rest⟩
    · rw [pointer_nil] at ht
      exact ⟨rfl, (Option.some.inj ht).symm⟩
    · rw [text, pointer_scalar] at ht
      exact absurd ht.symm (Option.some_ne_none definition)
  rw [pointer_root] at hlands
  split at hlands
  · next htoken =>
    subst htoken
    rcases tokens with - | ⟨key, rest⟩
    · -- all the sections: they hold this one, and this one does not hold them
      rw [pointer_nil] at hlands
      obtain rfl := Option.some.inj hlands
      exact absurd hnamed (not_holds_itself hkeys hs _)
    · rw [pointer_table] at hlands
      obtain ⟨v, hv, hrest⟩ := Option.bind_eq_some_iff.1 hlands
      obtain ⟨other, hother, rfl, rfl⟩ := section_of_lookup hv
      exact .inr (.inr ⟨other, hother, rest, definition, rfl, hrest, hnamed⟩)
  · split at hlands
    · next htoken =>
      obtain ⟨rfl, rfl⟩ := hscalar "object" hlands
      exact .inr (.inl ⟨congrArg (· :: []) htoken, hnamed⟩)
    · split at hlands
      · next htoken =>
        obtain ⟨rfl, rfl⟩ := hscalar draft hlands
        exact .inl ⟨congrArg (· :: []) htoken, hnamed⟩
      · exact absurd hlands.symm (Option.some_ne_none definition)

end Landing

/-! ### Local references have tokens -/

theorem ne_nil_of_localPointer {reference : String} {p : List String}
    (h : localPointer reference = some p) : p ≠ [] := by
  rw [localPointer] at h
  split at h
  · next cs _ =>
    obtain rfl := Option.some.inj h
    exact fun hnil ↦ List.splitOn_ne_nil '/' cs (List.map_eq_nil_iff.1 hnil)
  · exact absurd h.symm (Option.some_ne_none p)

theorem ne_nil_of_entryPointer {key : String} {v : Value} {p : List String}
    (h : entryPointer key v = some p) : p ≠ [] := by
  rcases v with (t | c | b | n | x | -) | items | entries
  · rw [entryPointer] at h
    split at h
    · exact ne_nil_of_localPointer h
    · exact absurd h.symm (Option.some_ne_none p)
  all_goals exact absurd h.symm (Option.some_ne_none p)

mutual

theorem ne_nil_of_localRefs : ∀ {v : Value} {p : List String}, p ∈ localRefs v → p ≠ []
  | .scalar _, _, h => absurd h (by rw [localRefs]; exact List.not_mem_nil)
  | .array _, _, h => ne_nil_of_localRefsItems (by rw [localRefs] at h; exact h)
  | .table _, _, h => ne_nil_of_localRefsEntries (by rw [localRefs] at h; exact h)

theorem ne_nil_of_localRefsItems : ∀ {items : List Value} {p : List String},
    p ∈ localRefsItems items → p ≠ []
  | [], _, h => absurd h (by rw [localRefsItems]; exact List.not_mem_nil)
  | item :: items, p, h => by
    rw [localRefsItems] at h
    rcases List.mem_append.1 h with hitem | hitems
    · exact ne_nil_of_localRefs hitem
    · exact ne_nil_of_localRefsItems hitems

theorem ne_nil_of_localRefsEntries : ∀ {entries : List (String × Value)} {p : List String},
    p ∈ localRefsEntries entries → p ≠ []
  | [], _, h => absurd h (by rw [localRefsEntries]; exact List.not_mem_nil)
  | (key, value) :: entries, p, h => by
    rw [localRefsEntries] at h
    rcases List.mem_append.1 h with hhere | hentries
    · rcases List.mem_append.1 hhere with hentry | hvalue
      · exact ne_nil_of_entryPointer (Option.mem_toList.1 hentry)
      · exact ne_nil_of_localRefs hvalue
    · exact ne_nil_of_localRefsEntries hentries

end

theorem mem_localRefsEntries {entries : List (String × Value)} {p : List String}
    (h : p ∈ localRefsEntries entries) :
    ∃ e ∈ entries, entryPointer e.1 e.2 = some p ∨ p ∈ localRefs e.2 := by
  induction entries with
  | nil => exact absurd (by rwa [localRefsEntries] at h) List.not_mem_nil
  | cons e entries ih =>
    rw [localRefsEntries] at h
    rcases List.mem_append.1 h with hhere | hentries
    · rcases List.mem_append.1 hhere with hentry | hvalue
      · exact ⟨e, List.mem_cons_self, .inl (Option.mem_toList.1 hentry)⟩
      · exact ⟨e, List.mem_cons_self, .inr hvalue⟩
    · obtain ⟨e', he', hp⟩ := ih hentries
      exact ⟨e', List.mem_cons_of_mem _ he', hp⟩

theorem mem_inserted {key : String} {value : Value} {entries : List (String × Value)}
    {e : String × Value} (h : e ∈ inserted key value entries) : e = (key, value) ∨ e ∈ entries := by
  induction entries with
  | nil => exact .inl (List.mem_singleton.1 h)
  | cons e' entries ih =>
    rw [inserted] at h
    split at h
    · exact List.mem_cons.1 h
    · split at h
      · exact (List.mem_cons.1 h).imp_right (List.mem_cons_of_mem _)
      · rcases List.mem_cons.1 h with rfl | h
        · exact .inr List.mem_cons_self
        · exact (ih h).imp_right (List.mem_cons_of_mem _)

theorem mem_placed {sections : List Section} {e : String × Value} (h : e ∈ placed sections) :
    ∃ s ∈ sections, e = (s.key, s.moved) := by
  induction sections using List.reverseRecOn with
  | nil => exact absurd h List.not_mem_nil
  | append_singleton sections s ih =>
    rw [placed, List.foldl_append] at h
    rcases mem_inserted h with hnew | hold
    · exact ⟨s, List.mem_append_right _ (List.mem_singleton.2 rfl), hnew⟩
    · obtain ⟨other, hother, heq⟩ := ih hold
      exact ⟨other, List.mem_append_left _ hother, heq⟩

/-- A table is no reference by itself. -/
theorem entryPointer_table (key : String) (fields : List (String × Value)) :
    entryPointer key (.table fields) = none := rfl

/-- **The local references of a file are those of its sections**, where each is of a struct. -/
theorem localRefs_merge {sections : List Section}
    (hstructs : ∀ s ∈ sections, ∃ fields, s.moved = .table fields) {p : List String}
    (h : p ∈ localRefs (merge (sections.map Section.file))) : ∃ s ∈ sections, p ∈ localRefs s.moved := by
  rw [merge_files, root, localRefs] at h
  obtain ⟨e, he, hp⟩ := mem_localRefsEntries h
  rcases mem_inserted he with rfl | he
  · rcases hp with hentry | hin
    · exact absurd hentry.symm (Option.some_ne_none p)
    · rw [localRefs] at hin
      obtain ⟨e', he', hp'⟩ := mem_localRefsEntries hin
      obtain ⟨s, hs, rfl⟩ := mem_placed he'
      obtain ⟨fields, hfields⟩ := hstructs s hs
      rcases hp' with hentry | hmoved
      · rw [hfields, entryPointer_table] at hentry
        exact absurd hentry.symm (Option.some_ne_none p)
      · exact ⟨s, hs, hmoved⟩
  · -- the two texts next to the sections are no references
    exfalso
    have htext : ∀ key t, key ≠ "$ref" → e = (key, text t) → False := by
      rintro key t hkey rfl
      rcases hp with hentry | hin
      · rw [text, entryPointer, if_neg hkey] at hentry
        exact absurd hentry.symm (Option.some_ne_none p)
      · rw [text, localRefs] at hin
        exact List.not_mem_nil hin
    rcases mem_inserted he with heq | he
    · exact htext "type" "object" (by decide) heq
    · exact htext "$schema" draft (by decide) (List.mem_singleton.1 he)

/-! ### Which files are closed -/

/-- **A file of sections with distinct keys is closed exactly if every local reference stays right
where its section is put**, and so is the file of one section. -/
theorem closed_iff (sections : List Section) (hkeys : (sections.map Section.key).Nodup) :
    (∀ s : Section, Closed s.file [s] ↔ ∀ p ∈ localRefs s.moved, Stays [s] s p) ∧
      (Closed (merge (sections.map Section.file)) sections ↔
        ∀ s ∈ sections, ∀ p ∈ localRefs s.moved, Stays sections s p) := by
  have hmerge : ∀ sections : List Section, (sections.map Section.key).Nodup →
      (Closed (merge (sections.map Section.file)) sections ↔
        ∀ s ∈ sections, ∀ p ∈ localRefs s.moved, Stays sections s p) := by
    intro sections hkeys
    rw [merge_files, Closed]
    refine forall₂_congr fun s hs ↦ forall₂_congr fun p hp ↦ ?_
    exact ⟨stays_of_lands hkeys hs (ne_nil_of_localRefs hp), lands_of_stays hkeys⟩
  refine ⟨fun s ↦ ?_, hmerge sections hkeys⟩
  have hsingle := hmerge [s] (List.nodup_singleton s.key)
  rw [List.map_singleton, merge_singleton] at hsingle
  rw [hsingle]
  exact List.forall_mem_singleton

/-- The schema of a pool's limits, in the struct of a database and in a section of their own. -/
def limits : Value :=
  .table [("properties", .table [("max", .table [("type", text "integer")])]), ("type", text "object")]

/-- A struct that refers to its own field of the limits, next to the section of that name. -/
def besideLimits : List Section :=
  [⟨"db", .table [("properties", .table [("burst", .table [("$ref", text "#/properties/limits")]),
      ("limits", limits), ("password", .table [("type", text "string")])]),
      ("required", .array [text "password"]), ("type", text "object")], ["password"]⟩,
    ⟨"limits", limits, []⟩]

/-- Its reference leads through the other section to the same schema. -/
theorem closed_besideLimits : Closed (merge (besideLimits.map Section.file)) besideLimits := by
  refine (closed_iff besideLimits (by decide)).2.2 fun s hs p hp ↦ ?_
  rcases List.mem_cons.1 hs with rfl | hs
  · obtain rfl : p = ["properties", "limits"] := List.mem_singleton.1 hp
    refine .inr (.inr ⟨⟨"limits", limits, []⟩, ?_, [], limits, rfl, rfl, rfl⟩)
    exact List.mem_cons_of_mem _ (List.mem_singleton_self _)
  · obtain rfl := List.mem_singleton.1 hs
    exact absurd hp List.not_mem_nil

/-! ### Where they do not stay -/

/-- **A file with a reference to anywhere else, as to a shared definition, is not closed.** -/
theorem not_closed_of_elsewhere {sections : List Section}
    (hkeys : (sections.map Section.key).Nodup) {s : Section} (hs : s ∈ sections) {token : String}
    {tokens : List String} (hp : token :: tokens ∈ localRefs s.moved)
    (helsewhere : token ≠ "properties" ∧ token ≠ "type" ∧ token ≠ "$schema") :
    ¬Closed (merge (sections.map Section.file)) sections := by
  intro hclosed
  have hlands := hclosed s hs _ hp
  rw [merge_files] at hlands
  obtain ⟨hproperties, htype, hschema⟩ := helsewhere
  rcases stays_of_lands hkeys hs (List.cons_ne_nil _ _) hlands with ⟨heq, -⟩ | ⟨heq, -⟩ |
    ⟨other, -, rest, definition, heq, -⟩
  · exact hschema (List.cons.inj heq).1
  · exact htype (List.cons.inj heq).1
  · exact hproperties (List.cons.inj heq).1

/-- A struct with a table of its own type, which `schema_for!` puts under `$defs`. -/
def pooled : Section where
  key := "db"
  schema := .table
    [("$defs", .table [("Pool", .table [("type", text "object")])]),
      ("properties", .table [("pool", .table [("$ref", text "#/$defs/Pool")])]),
      ("type", text "object")]
  secrets := []

/-- **Its reference named a definition, and names nothing in the file.** -/
theorem not_closed_pooled :
    pointer pooled.schema ["$defs", "Pool"] = some (.table [("type", text "object")]) ∧
      pointer pooled.file ["$defs", "Pool"] = none ∧ ¬Closed pooled.file [pooled] := by
  refine ⟨rfl, ?_, ?_⟩
  · exact pointer_root _ "$defs" ["Pool"]
  · have hrefs : ["$defs", "Pool"] ∈ localRefs pooled.moved := by decide
    have hkeys : ([pooled].map Section.key).Nodup := List.nodup_singleton pooled.key
    have hopen := not_closed_of_elsewhere hkeys (List.mem_singleton.2 rfl) hrefs (by decide)
    rwa [List.map_singleton, merge_singleton] at hopen

end DynamicConfig.Schema
