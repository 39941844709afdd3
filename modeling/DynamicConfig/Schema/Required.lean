import DynamicConfig.Schema.File
import DynamicConfig.Tree.Ordered

/-!
# What is not required

In a schema `required` is a keyword. Elsewhere it is a word: the name of a property, or a key of some
data, as of a default. `withoutRequired` takes the keyword out where it is one. `drop_required` takes
the word out wherever it is a key.

So a struct with a field named `required` has a schema that no longer describes it, and a default
with such a key is another default. `keepsRest_iff` says that these are all.
-/

namespace DynamicConfig.Schema

/-! ### Where a word is a keyword -/

/-- What a value is in a schema: a schema, or several of them in a list; schemas by name; or data. -/
inductive Place where
  | schema | names | data
  deriving DecidableEq, Repr

/-- The keywords that hold schemas by name. -/
def namingKeywords : List String :=
  ["properties", "patternProperties", "$defs", "definitions", "dependentSchemas", "dependencies"]

/-- The keywords that hold a schema, or a list of them. -/
def schemaKeywords : List String :=
  ["items", "prefixItems", "additionalItems", "contains", "additionalProperties", "propertyNames",
    "unevaluatedItems", "unevaluatedProperties", "anyOf", "oneOf", "allOf", "not", "if", "then",
    "else", "contentSchema"]

/-- What is under a key. -/
def Place.under : Place → String → Place
  | .schema, key =>
    if key ∈ namingKeywords then .names else if key ∈ schemaKeywords then .schema else .data
  | .names, _ => .schema
  | .data, _ => .data

/-- What an element of a list is. -/
def Place.item : Place → Place
  | .schema => .schema
  | .names | .data => .data

mutual

/-- The value without the keyword `required`. -/
def withoutRequired (place : Place) : Value → Value
  | .scalar s => .scalar s
  | .array items => .array (withoutRequiredItems place items)
  | .table fields => .table (withoutRequiredFields place fields)

def withoutRequiredItems (place : Place) : List Value → List Value
  | [] => []
  | item :: items => withoutRequired place.item item :: withoutRequiredItems place items

def withoutRequiredFields (place : Place) : List (String × Value) → List (String × Value)
  | [] => []
  | (key, value) :: fields =>
    if key = "required" ∧ place = .schema then withoutRequiredFields place fields
    else (key, withoutRequired (place.under key) value) :: withoutRequiredFields place fields

end

mutual

/-- `required` is a key only where it is a keyword. -/
def clear (place : Place) : Value → Bool
  | .scalar _ => true
  | .array items => clearItems place items
  | .table fields => clearFields place fields

def clearItems (place : Place) : List Value → Bool
  | [] => true
  | item :: items => clear place.item item && clearItems place items

def clearFields (place : Place) : List (String × Value) → Bool
  | [] => true
  | (key, value) :: fields =>
    (if key = "required" then decide (place = .schema) else clear (place.under key) value) &&
      clearFields place fields

end

/-- Whether a value is a boolean. -/
def isBool : Value → Bool
  | .scalar (.bool _) => true
  | _ => false

mutual

/-- The keyword `writeOnly` holds a boolean. -/
def flagged (place : Place) : Value → Bool
  | .scalar _ => true
  | .array items => flaggedItems place items
  | .table fields => flaggedFields place fields

def flaggedItems (place : Place) : List Value → Bool
  | [] => true
  | item :: items => flagged place.item item && flaggedItems place items

def flaggedFields (place : Place) : List (String × Value) → Bool
  | [] => true
  | (key, value) :: fields =>
    (if key = "writeOnly" ∧ place = .schema then isBool value
      else flagged (place.under key) value) && flaggedFields place fields

end

/-- The JSON Schema of a struct. Of what makes a document one, only what the marks on secrets depend
on is asked for. -/
structure StructSchema where
  value : Value
  flags : flagged .schema value = true

/-- **What is meant to be returned**: the schema under its key, without the keyword `required`, and
with its secrets marked. -/
def KeepsRest (key : String) (schema : StructSchema) (secrets : List String) : Prop :=
  section_ key schema.value secrets =
    root (inserted key (markSecrets (withoutRequired .schema schema.value) secrets) [])

/-! ### Without the word -/

mutual

theorem clear_dropRequired (v : Value) : clear .data (dropRequired v) = true := by
  match v with
  | .scalar s => rfl
  | .array items =>
    rw [dropRequired, clear]
    exact clearItems_dropRequired items
  | .table fields =>
    rw [dropRequired, clear]
    exact clearFields_dropRequired fields

theorem clearItems_dropRequired (items : List Value) :
    clearItems .data (dropRequiredItems items) = true := by
  match items with
  | [] => rfl
  | item :: items =>
    rw [dropRequiredItems, clearItems, Bool.and_eq_true]
    exact ⟨clear_dropRequired item, clearItems_dropRequired items⟩

theorem clearFields_dropRequired (fields : List (String × Value)) :
    clearFields .data (dropRequiredFields fields) = true := by
  match fields with
  | [] => rfl
  | (key, value) :: fields =>
    rw [dropRequiredFields]
    split
    · exact clearFields_dropRequired fields
    · next hkey =>
      rw [clearFields, if_neg hkey, Bool.and_eq_true]
      exact ⟨clear_dropRequired value, clearFields_dropRequired fields⟩

end

mutual

/-- Where the word is no key, nothing is dropped. -/
theorem dropRequired_of_clear (v : Value) (h : clear .data v = true) : dropRequired v = v := by
  match v with
  | .scalar s => rfl
  | .array items =>
    rw [clear] at h
    rw [dropRequired, dropRequiredItems_of_clear items h]
  | .table fields =>
    rw [clear] at h
    rw [dropRequired, dropRequiredFields_of_clear fields h]

theorem dropRequiredItems_of_clear (items : List Value) (h : clearItems .data items = true) :
    dropRequiredItems items = items := by
  match items with
  | [] => rfl
  | item :: items =>
    rw [clearItems, Bool.and_eq_true] at h
    rw [dropRequiredItems, dropRequired_of_clear item h.1, dropRequiredItems_of_clear items h.2]

theorem dropRequiredFields_of_clear (fields : List (String × Value))
    (h : clearFields .data fields = true) : dropRequiredFields fields = fields := by
  match fields with
  | [] => rfl
  | (key, value) :: fields =>
    rw [clearFields, Bool.and_eq_true] at h
    obtain ⟨hhere, hfields⟩ := h
    rw [dropRequiredFields]
    split
    · next hkey =>
      rw [if_pos hkey] at hhere
      exact absurd (of_decide_eq_true hhere) (by decide)
    · next hkey =>
      rw [if_neg hkey] at hhere
      rw [dropRequired_of_clear value hhere, dropRequiredFields_of_clear fields hfields]

end

mutual

/-- What drops the word drops the keyword. -/
theorem dropRequired_withoutRequired (place : Place) (v : Value) :
    dropRequired (withoutRequired place v) = dropRequired v := by
  match v with
  | .scalar s => rfl
  | .array items =>
    rw [withoutRequired, dropRequired, dropRequired, dropRequiredItems_withoutRequired place items]
  | .table fields =>
    rw [withoutRequired, dropRequired, dropRequired, dropRequiredFields_withoutRequired place fields]

theorem dropRequiredItems_withoutRequired (place : Place) (items : List Value) :
    dropRequiredItems (withoutRequiredItems place items) = dropRequiredItems items := by
  match items with
  | [] => rfl
  | item :: items =>
    rw [withoutRequiredItems, dropRequiredItems, dropRequiredItems,
      dropRequired_withoutRequired place.item item, dropRequiredItems_withoutRequired place items]

theorem dropRequiredFields_withoutRequired (place : Place) (fields : List (String × Value)) :
    dropRequiredFields (withoutRequiredFields place fields) = dropRequiredFields fields := by
  match fields with
  | [] => rfl
  | (key, value) :: fields =>
    have hfields := dropRequiredFields_withoutRequired place fields
    rw [withoutRequiredFields, dropRequiredFields]
    by_cases hkey : key = "required"
    · rw [if_pos hkey]
      split
      · exact hfields
      · rw [dropRequiredFields, if_pos hkey, hfields]
    · rw [if_neg hkey, if_neg fun h ↦ hkey h.1, dropRequiredFields, if_neg hkey,
        dropRequired_withoutRequired (place.under key) value, hfields]

end

mutual

/-- **The keyword is all there was** exactly where the word is a key nowhere else. -/
theorem clear_withoutRequired (place : Place) (v : Value) :
    clear .data (withoutRequired place v) = clear place v := by
  match v with
  | .scalar s => rfl
  | .array items =>
    rw [withoutRequired, clear, clear, clearItems_withoutRequired place items]
  | .table fields =>
    rw [withoutRequired, clear, clear, clearFields_withoutRequired place fields]

theorem clearItems_withoutRequired (place : Place) (items : List Value) :
    clearItems .data (withoutRequiredItems place items) = clearItems place items := by
  match items with
  | [] => rfl
  | item :: items =>
    have hitem := clear_withoutRequired place.item item
    rw [withoutRequiredItems, clearItems, clearItems, clearItems_withoutRequired place items, ← hitem]
    rfl

theorem clearFields_withoutRequired (place : Place) (fields : List (String × Value)) :
    clearFields .data (withoutRequiredFields place fields) = clearFields place fields := by
  match fields with
  | [] => rfl
  | (key, value) :: fields =>
    have hfields := clearFields_withoutRequired place fields
    have hvalue := clear_withoutRequired (place.under key) value
    rw [withoutRequiredFields, clearFields]
    by_cases hkey : key = "required"
    · rw [if_pos hkey]
      by_cases hplace : place = .schema
      · rw [if_pos ⟨hkey, hplace⟩, decide_eq_true hplace, hfields]
        rfl
      · rw [if_neg fun h ↦ hplace h.2, clearFields, if_pos hkey, decide_eq_false hplace]
        rfl
    · rw [if_neg hkey, if_neg fun h ↦ hkey h.1, clearFields, if_neg hkey, hfields, ← hvalue]
      rfl

end

/-- **What is dropped is the keyword** exactly where the word is no other key. -/
theorem dropRequired_eq_withoutRequired (v : Value) (h : clear .schema v = true) :
    dropRequired v = withoutRequired .schema v := by
  rw [← dropRequired_withoutRequired .schema v]
  exact dropRequired_of_clear _ ((clear_withoutRequired .schema v).trans h)

/-! ### Marks on secrets -/

section Marks

variable {fields : List (String × Value)} {key : String} {old new : Value}

/-- What is under a key of data without the word. -/
theorem clear_of_lookup (h : clearFields .data fields = true) (hkey : fields.lookup key = some old) :
    key ≠ "required" ∧ clear .data old = true := by
  induction fields with
  | nil => cases hkey
  | cons e fields ih =>
    obtain ⟨k, v⟩ := e
    rw [clearFields, Bool.and_eq_true] at h
    rw [Entries.lookup_cons_eq] at hkey
    split at hkey
    · next heq =>
      obtain rfl : v = old := Option.some.inj hkey
      obtain ⟨hhere, -⟩ := h
      rw [heq]
      split at hhere
      · exact absurd (of_decide_eq_true hhere) (by decide)
      · next hne => exact ⟨hne, hhere⟩
    · exact ih h.2 hkey

theorem clearFields_insert (hkey : key ≠ "required") (hnew : clear .data new = true)
    (h : clearFields .data fields = true) : clearFields .data (Entries.insert key new fields) = true := by
  induction fields with
  | nil =>
    rw [Entries.insert, clearFields, if_neg hkey, Bool.and_eq_true]
    exact ⟨hnew, rfl⟩
  | cons e fields ih =>
    obtain ⟨k, v⟩ := e
    rw [clearFields, Bool.and_eq_true] at h
    rw [Entries.insert]
    split
    · rw [clearFields, if_neg hkey, Bool.and_eq_true]
      exact ⟨hnew, h.2⟩
    · rw [clearFields, Bool.and_eq_true]
      exact ⟨h.1, ih h.2⟩

/-- Nothing with the word in it was written over. -/
theorem clearFields_of_insert (hold : fields.lookup key = some old) (hclear : clear .data old = true)
    (h : clearFields .data (Entries.insert key new fields) = true) :
    clearFields .data fields = true := by
  induction fields with
  | nil => cases hold
  | cons e fields ih =>
    obtain ⟨k, v⟩ := e
    rw [Entries.lookup_cons_eq] at hold
    rw [Entries.insert] at h
    split at h
    · next heq =>
      rw [if_pos heq] at hold
      obtain rfl : v = old := Option.some.inj hold
      rw [clearFields, Bool.and_eq_true] at h ⊢
      refine ⟨?_, h.2⟩
      rw [← heq]
      split
      · next hkey =>
        rw [if_pos hkey] at h
        exact h.1
      · exact hclear
    · next hne =>
      rw [if_neg hne] at hold
      rw [clearFields, Bool.and_eq_true] at h ⊢
      exact ⟨h.1, ih hold h.2⟩

theorem clearFields_inserted (hkey : key ≠ "required") (hnew : clear .data new = true)
    (h : clearFields .data fields = true) : clearFields .data (inserted key new fields) = true := by
  induction fields with
  | nil =>
    rw [inserted, clearFields, if_neg hkey, Bool.and_eq_true]
    exact ⟨hnew, rfl⟩
  | cons e fields ih =>
    obtain ⟨k, v⟩ := e
    rw [inserted]
    split
    · rw [clearFields, if_neg hkey, Bool.and_eq_true]
      exact ⟨hnew, h⟩
    · rw [clearFields, Bool.and_eq_true] at h
      split
      · rw [clearFields, if_neg hkey, Bool.and_eq_true]
        exact ⟨hnew, h.2⟩
      · rw [clearFields, Bool.and_eq_true]
        exact ⟨h.1, ih h.2⟩

theorem clearFields_of_inserted (hold : ∀ old, fields.lookup key = some old → clear .data old = true)
    (h : clearFields .data (inserted key new fields) = true) : clearFields .data fields = true := by
  induction fields with
  | nil => rfl
  | cons e fields ih =>
    obtain ⟨k, v⟩ := e
    rw [inserted] at h
    split at h
    · rw [clearFields, Bool.and_eq_true] at h
      exact h.2
    · split at h
      · next heq =>
        rw [clearFields, Bool.and_eq_true] at h ⊢
        refine ⟨?_, h.2⟩
        rw [← heq]
        split
        · next hkey =>
          rw [if_pos hkey] at h
          exact h.1
        · refine hold v ?_
          rw [Entries.lookup_cons_eq, if_pos heq]
      · next hne =>
        rw [clearFields, Bool.and_eq_true] at h ⊢
        refine ⟨h.1, ih (fun old hlookup ↦ hold old ?_) h.2⟩
        rw [Entries.lookup_cons_eq, if_neg hne]
        exact hlookup

/-- The properties whose marks are replaced have no word in them. -/
def FlagsClear (properties : List (String × Value)) : Prop :=
  ∀ name property flag, properties.lookup name = some (.table property) →
    property.lookup "writeOnly" = some flag → clear .data flag = true

variable {properties : List (String × Value)} {secret : String}

theorem clearFields_markSecret (h : clearFields .data properties = true) :
    clearFields .data (markSecret properties secret) = true := by
  rw [markSecret]
  split
  · next property hlookup =>
    obtain ⟨hkey, hproperty⟩ := clear_of_lookup h hlookup
    rw [clear] at hproperty
    refine clearFields_insert hkey ?_ h
    rw [clear]
    exact clearFields_inserted (by decide) rfl hproperty
  · exact h

theorem FlagsClear.markSecret (h : FlagsClear properties) :
    FlagsClear (markSecret properties secret) := by
  rw [Schema.markSecret]
  split
  · next property hlookup =>
    intro name property' flag hname hflag
    rw [Entries.lookup_insert] at hname
    split at hname
    · obtain rfl := Value.table.inj (Option.some.inj hname)
      rw [lookup_inserted, if_pos rfl] at hflag
      obtain rfl := Option.some.inj hflag
      rfl
    · exact h name property' flag hname hflag
  · exact h

theorem clearFields_of_markSecret (hflags : FlagsClear properties)
    (h : clearFields .data (markSecret properties secret) = true) :
    clearFields .data properties = true := by
  rw [markSecret] at h
  split at h
  · next property hlookup =>
    have hmarked := (clear_of_lookup h (Entries.lookup_insert_self _ _ _)).2
    rw [clear] at hmarked
    refine clearFields_of_insert hlookup ?_ h
    rw [clear]
    exact clearFields_of_inserted (fun flag hflag ↦ hflags secret property flag hlookup hflag) hmarked
  · exact h

/-- Marking the secrets puts no word in. -/
theorem clearFields_foldl_markSecret (secrets : List String)
    (h : clearFields .data properties = true) :
    clearFields .data (secrets.foldl markSecret properties) = true := by
  induction secrets generalizing properties with
  | nil => exact h
  | cons secret secrets ih => exact ih (clearFields_markSecret h)

/-- And takes none out. -/
theorem clearFields_of_foldl_markSecret (secrets : List String) (hflags : FlagsClear properties)
    (h : clearFields .data (secrets.foldl markSecret properties) = true) :
    clearFields .data properties = true := by
  induction secrets generalizing properties with
  | nil => exact h
  | cons secret secrets ih => exact clearFields_of_markSecret hflags (ih hflags.markSecret h)

theorem clear_markSecrets {v : Value} (secrets : List String) (h : clear .data v = true) :
    clear .data (markSecrets v secrets) = true := by
  rcases v with s | items | fields
  · exact h
  · exact h
  · rw [markSecrets]
    split
    · next properties hlookup =>
      split
      · exact h
      · rw [clear] at h ⊢
        have hproperties := (clear_of_lookup h hlookup).2
        rw [clear] at hproperties
        refine clearFields_insert (by decide) ?_ h
        rw [clear]
        exact clearFields_foldl_markSecret secrets hproperties
    · exact h

theorem clear_of_markSecrets {v : Value} (secrets : List String)
    (hflags : ∀ fields properties, v = .table fields →
      fields.lookup "properties" = some (.table properties) → FlagsClear properties)
    (h : clear .data (markSecrets v secrets) = true) : clear .data v = true := by
  rcases v with s | items | fields
  · exact h
  · exact h
  · rw [markSecrets] at h
    split at h
    · next properties hlookup =>
      split at h
      · exact h
      · rw [clear] at h ⊢
        have hmarked := (clear_of_lookup h (Entries.lookup_insert_self _ _ _)).2
        rw [clear] at hmarked
        refine clearFields_of_insert hlookup ?_ h
        rw [clear]
        exact clearFields_of_foldl_markSecret secrets (hflags fields properties rfl hlookup) hmarked
    · exact h

end Marks

/-! ### Flags -/

section Flags

variable {fields : List (String × Value)} {key : String} {v : Value} {place : Place}

theorem flagged_of_lookup (h : flaggedFields place fields = true) (hkey : fields.lookup key = some v)
    (hplace : ¬ (key = "writeOnly" ∧ place = .schema)) : flagged (place.under key) v = true := by
  induction fields with
  | nil => cases hkey
  | cons e fields ih =>
    obtain ⟨k, w⟩ := e
    rw [flaggedFields, Bool.and_eq_true] at h
    rw [Entries.lookup_cons_eq] at hkey
    split at hkey
    · next heq =>
      obtain rfl : w = v := Option.some.inj hkey
      rw [← heq, if_neg hplace] at h
      exact h.1
    · exact ih h.2 hkey

theorem exists_of_isBool (h : isBool v = true) : ∃ b, v = .scalar (.bool b) := by
  rw [isBool.eq_def] at h
  split at h
  · next b => exact ⟨b, rfl⟩
  · cases h

/-- The keyword of a schema holds a boolean. -/
theorem exists_of_writeOnly (h : flaggedFields .schema fields = true)
    (hkey : fields.lookup "writeOnly" = some v) : ∃ b, v = .scalar (.bool b) := by
  induction fields with
  | nil => cases hkey
  | cons e fields ih =>
    obtain ⟨k, w⟩ := e
    rw [flaggedFields, Bool.and_eq_true] at h
    rw [Entries.lookup_cons_eq] at hkey
    split at hkey
    · next heq =>
      obtain rfl : w = v := Option.some.inj hkey
      rw [← heq, if_pos ⟨rfl, rfl⟩] at h
      exact exists_of_isBool h.1
    · exact ih h.2 hkey

/-- What is no keyword stays where it is. -/
theorem lookup_withoutRequiredFields (h : ¬ (key = "required" ∧ place = .schema))
    (fields : List (String × Value)) : (withoutRequiredFields place fields).lookup key =
      (fields.lookup key).map (withoutRequired (place.under key)) := by
  induction fields with
  | nil => rfl
  | cons e fields ih =>
    obtain ⟨k, w⟩ := e
    rw [withoutRequiredFields, Entries.lookup_cons_eq]
    split
    · next hk =>
      have hne : key ≠ k := fun heq ↦ h ⟨heq.trans hk.1, hk.2⟩
      rw [ih, if_neg hne]
    · rw [Entries.lookup_cons_eq, ih]
      split
      · next heq =>
        rw [heq]
        rfl
      · rfl

/-- A table is left of a table. -/
theorem exists_of_withoutRequired_eq_table (h : withoutRequired place v = .table fields) :
    ∃ before, v = .table before ∧ fields = withoutRequiredFields place before := by
  rcases v with s | items | before
  · cases h
  · cases h
  · rw [withoutRequired] at h
    exact ⟨before, rfl, (Value.table.inj h).symm⟩

/-- No mark on a secret replaces anything but a boolean. -/
theorem flagsClear_withoutRequired {schema : StructSchema} {properties : List (String × Value)}
    (hschema : withoutRequired .schema schema.value = .table fields)
    (hproperties : fields.lookup "properties" = some (.table properties)) :
    FlagsClear properties := by
  obtain ⟨before, hvalue, rfl⟩ := exists_of_withoutRequired_eq_table hschema
  have hflags := schema.flags
  rw [hvalue, flagged] at hflags
  rw [lookup_withoutRequiredFields (by decide)] at hproperties
  obtain ⟨named, hnamed, htable⟩ := Option.map_eq_some_iff.1 hproperties
  obtain ⟨named, rfl, rfl⟩ := exists_of_withoutRequired_eq_table htable
  have hnames := flagged_of_lookup hflags hnamed (by decide)
  rw [show Place.schema.under "properties" = .names by decide, flagged] at hnames
  intro name property flag hname hflag
  rw [show Place.schema.under "properties" = .names by decide,
    lookup_withoutRequiredFields fun h ↦ (by cases h.2)] at hname
  obtain ⟨declared, hdeclared, htable⟩ := Option.map_eq_some_iff.1 hname
  obtain ⟨declared, rfl, rfl⟩ := exists_of_withoutRequired_eq_table htable
  have hproperty := flagged_of_lookup hnames hdeclared fun h ↦ (by cases h.2)
  rw [show Place.names.under name = .schema by rfl] at hproperty hflag
  rw [flagged] at hproperty
  rw [lookup_withoutRequiredFields (by decide)] at hflag
  obtain ⟨old, hold, rfl⟩ := Option.map_eq_some_iff.1 hflag
  obtain ⟨b, rfl⟩ := exists_of_writeOnly hproperty hold
  rfl

end Flags

/-! ### When nothing else is dropped -/

theorem root_inserted_injective {key : String} {a b : Value}
    (h : root (inserted key a []) = root (inserted key b [])) : a = b := by
  have hlookup := congrArg (fun file ↦ pointer file ["properties", key]) h
  simp only [pointer_root, if_true, pointer_table, lookup_inserted, Option.bind_some,
    pointer_nil] at hlookup
  exact Option.some.inj hlookup

/-- **A section keeps everything but the keyword** exactly when `required` is a key of its schema only
where it is the keyword. -/
theorem keepsRest_iff (key : String) (schema : StructSchema) (secrets : List String) :
    KeepsRest key schema secrets ↔ clear .schema schema.value = true := by
  rw [KeepsRest, section_]
  constructor
  · intro h
    have hmarked := clear_markSecrets secrets (clear_dropRequired schema.value)
    rw [root_inserted_injective h] at hmarked
    rw [← clear_withoutRequired]
    exact clear_of_markSecrets secrets
      (fun fields properties hschema hlookup ↦ flagsClear_withoutRequired hschema hlookup) hmarked
  · intro h
    rw [dropRequired_eq_withoutRequired schema.value h]

/-- A struct with a field named `required`, and one whose default has such a key. -/
def requiring : StructSchema where
  value := .table
    [("properties", .table
        [("policy", .table [("default", .table [("required", .scalar (.bool true))])]),
          ("required", .table [("type", text "boolean")])]),
      ("required", .array [text "policy", text "required"]), ("type", text "object")]
  flags := by decide

/-- **The field is not described any more**, and the default is another. -/
theorem not_keepsRest_requiring :
    ¬ KeepsRest "db" requiring [] ∧
      pointer (section_ "db" requiring.value []) ["properties", "db", "properties", "required"] = none ∧
      pointer (section_ "db" requiring.value []) ["properties", "db", "properties", "policy", "default"] =
        some (.table []) := by
  refine ⟨fun h ↦ ?_, rfl, rfl⟩
  have hpointer := congrArg
    (fun file ↦ (pointer file ["properties", "db", "properties", "required"]).isSome) h
  exact absurd hpointer (by decide)

end DynamicConfig.Schema
