import DynamicConfig.Etcd.Source
import DynamicConfig.Stores.Documents

/-!
# What a Redis source reads

A key, or several keys in one `MGET`: one command, so the values come back as they were at one point
of the command sequence. A prefix has to find its keys first, and `watched` refuses it.

`Source.Merge` is what a fetch is for: the in-order merge of what the keys hold. A key that holds
nothing fails the whole fetch, and so does a value that is not text.
-/

namespace DynamicConfig.Redis

open Etcd (from_utf8)
open Documents

/-- What a source reads: one key, several named keys, or a prefix. -/
inductive Keys where
  | one (key : String)
  | several (keys : List String)
  | prefixed (root : String)
  deriving DecidableEq

namespace Keys

/-- The keys as a list. A prefix has none to list. -/
def named : Keys → List String
  | one key => [key]
  | several keys => keys
  | prefixed _ => []

/-- How a diagnostic names what this source reads. -/
def describe : Keys → String
  | one key => "key " ++ key
  | several keys => "keys " ++ ", ".intercalate keys
  | prefixed root => "prefix " ++ root

end Keys

/-- A source: its server as it is described, its keys, and the format of its documents. -/
structure Source where
  described : String
  keys : Keys
  format : Option Format
  /-- Why the keys do not agree on a format, when they do not. -/
  disagreement : Option String

/-! ### The server -/

/-- A command that writes. -/
inductive Command where
  | set (key : String) (value : List UInt8)
  | del (keys : List String)
  deriving DecidableEq

/-- What each key holds. -/
abbrev Store := String → Option (List UInt8)

/-- A command is one operation on the server. -/
def Command.apply (store : Store) : Command → Store
  | .set key value => fun k ↦ if k = key then some value else store k
  | .del keys => fun k ↦ if k ∈ keys then none else store k

/-- What the keys hold after a sequence of commands. -/
def held (log : List Command) : Store :=
  log.foldl Command.apply fun _ ↦ none

@[simp] theorem held_append_singleton (log : List Command) (command : Command) :
    held (log ++ [command]) = command.apply (held log) := by
  rw [held, List.foldl_append]
  rfl

/-- The values of a list of keys, or nothing where the client cannot read one as text. -/
def mget (store : Store) (keys : List String) : Option (List (Option String)) :=
  keys.mapM fun key ↦
    match store key with
    | none => some none
    | some bytes => (from_utf8 bytes).map some

namespace Source

/-- `describe`. -/
def describe (redis : Source) : String :=
  "redis " ++ redis.described ++ " " ++ redis.keys.describe

/-- `format`: the format, or an error naming the call that supplies one. -/
def chosen (redis : Source) : Except Error Format :=
  match redis.disagreement, redis.format with
  | some complaint, _ => .error (.remote (redis.describe ++ ": " ++ complaint))
  | none, some format => .ok format
  | none, none => .error (.remote (redis.describe ++ ": the key names no format; call `with_format`"))

/-- The keys a watch subscribes to, or an error where this source cannot be watched at all. -/
def watched (redis : Source) : Except Error (List String) :=
  match redis.keys with
  | .prefixed _ => .error (.remote (redis.describe ++ ": a source that reads a prefix cannot be " ++
      "watched; finding the keys again means a `SCAN`, which is a cursor over many commands rather " ++
      "than one operation, so the set could be collected half from before a write and half from " ++
      "after — name the keys with `Keys::several`, which is watched as one `MGET`, or poll " ++
      "`refresh_remote()` on a timer instead"))
  | keys =>
    match keys.named with
    | [] => .error (.remote (redis.describe ++ ": there are no keys to watch"))
    | keys => .ok keys

/-- The value of one key. No value fails the whole read. -/
def present (redis : Source) (entry : String × Option String) : Except Error (String × String) :=
  match entry.2 with
  | none => .error (.remote (redis.describe ++ ": `" ++ entry.1 ++ "` holds no value"))
  | some text => .ok (entry.1, text)

/-- Reads the named keys, in one `MGET`. `unread` is the client's error for a value that is not
text. -/
def read (redis : Source) (unread : Error) (store : Store) : Except Error (List (String × String)) :=
  match redis.keys.named with
  | [] => .error (.remote (redis.describe ++ ": nothing matched, so there is nothing to load"))
  | keys =>
    match mget store keys with
    | none => .error unread
    | some values => (keys.zip values).mapM redis.present

/-- `fetch`, of a source whose keys are named. -/
def fetch (formats : Formats) (unread : Error) (redis : Source) (store : Store) :
    Except Error Fetched := do
  let format ← redis.chosen
  let documents ← redis.read unread store
  Documents.merged formats documents format redis.describe

/-! ### What a fetch comes to -/

/-- A document is the in-order merge of what the keys hold. -/
def Merge (formats : Formats) (redis : Source) (store : Store) (document : Fetched) : Prop :=
  ∃ format texts, redis.chosen = .ok format ∧
    List.Forall₂ (fun key text ↦ (store key).bind from_utf8 = some text) redis.keys.named texts ∧
      InOrderMerge formats format texts document

/-- The format of a document is the source's. -/
theorem Merge.format_eq {formats : Formats} {redis : Source} {store : Store} {document : Fetched}
    (h : redis.Merge formats store document) : redis.chosen = .ok document.format := by
  obtain ⟨format, texts, hformat, -, ⟨-, hdocument⟩ | ⟨-, hdocument, -⟩⟩ := h
  · rw [hformat, hdocument]
  · rw [hformat, hdocument]

/-- Only what the named keys hold matters. -/
theorem Merge.congr {formats : Formats} {redis : Source} {store store' : Store}
    {document : Fetched} (h : redis.Merge formats store document)
    (hsame : ∀ key ∈ redis.keys.named, store' key = store key) :
    redis.Merge formats store' document := by
  obtain ⟨format, texts, hformat, hheld, hdocument⟩ := h
  refine ⟨format, texts, hformat, ?_, hdocument⟩
  refine ((List.forall₂_and_left _ _).2 ⟨hsame, hheld⟩).imp fun key text ⟨hkey, htext⟩ ↦ ?_
  rw [hkey, htext]

/-- The values of one `MGET` that are all there are the texts the keys hold. -/
theorem texts_of_mget (redis : Source) {store : Store} {keys : List String}
    {values : List (Option String)} {documents : List (String × String)}
    (hvalues : mget store keys = some values)
    (hpresent : (keys.zip values).mapM redis.present = .ok documents) :
    List.Forall₂ (fun key document ↦ (store key).bind from_utf8 = some document.2) keys documents := by
  induction keys generalizing values documents with
  | nil =>
    rw [List.zip_nil_left, mapM_eq_ok_iff, List.forall₂_nil_left_iff] at hpresent
    exact hpresent ▸ .nil
  | cons key keys ih =>
    rw [mget, List.mapM_cons] at hvalues
    obtain ⟨value, hvalue, hrest⟩ := Option.bind_eq_some_iff.1 hvalues
    obtain ⟨others, hothers, hall⟩ := Option.bind_eq_some_iff.1 hrest
    obtain rfl : value :: others = values := Option.some.inj hall
    rw [List.zip_cons_cons, mapM_eq_ok_iff, List.forall₂_cons_left_iff] at hpresent
    obtain ⟨document, documents, hdocument, hrest, rfl⟩ := hpresent
    refine .cons ?_ (ih hothers (mapM_eq_ok_iff.2 hrest))
    rcases value with - | text
    · cases hdocument
    · obtain rfl := Except.ok.inj hdocument
      rcases hstore : store key with - | bytes
      · rw [hstore] at hvalue
        cases hvalue
      · rw [hstore] at hvalue
        obtain ⟨text', htext, hsome⟩ := Option.map_eq_some_iff.1 hvalue
        rw [Option.bind_some, htext, Option.some.inj hsome]

/-- Keys that hold texts come back in one `MGET`. -/
theorem mget_of_texts (redis : Source) {store : Store} {keys texts : List String}
    (h : List.Forall₂ (fun key text ↦ (store key).bind from_utf8 = some text) keys texts) :
    mget store keys = some (texts.map some) ∧
      (keys.zip (texts.map some)).mapM redis.present = .ok (keys.zip texts) := by
  induction h with
  | nil => exact ⟨rfl, rfl⟩
  | @cons key text keys texts htext _ ih =>
    obtain ⟨bytes, hbytes, htext⟩ := Option.bind_eq_some_iff.1 htext
    refine ⟨?_, mapM_eq_ok_iff.2 (.cons rfl (mapM_eq_ok_iff.1 ih.2))⟩
    have hkeys : (keys.mapM fun key ↦
        match store key with
        | none => some none
        | some bytes => (from_utf8 bytes).map some) = some (texts.map some) := ih.1
    rw [mget, List.mapM_cons, hkeys, hbytes]
    simp only [htext]
    rfl

theorem read_eq {redis : Source} {unread : Error} {store : Store} (hkeys : redis.keys.named ≠ []) :
    redis.read unread store =
      match mget store redis.keys.named with
      | none => .error unread
      | some values => (redis.keys.named.zip values).mapM redis.present := by
  rw [read]
  split
  · next hnone => exact absurd hnone hkeys
  · rfl

/-- **A fetch comes to the in-order merge of what the keys hold.** -/
theorem fetch_eq_ok_iff {formats : Formats} {unread : Error} {redis : Source} {store : Store}
    {document : Fetched} :
    fetch formats unread redis store = .ok document ↔ redis.Merge formats store document := by
  refine ⟨fun h ↦ ?_, ?_⟩
  · obtain ⟨format, hformat, hrest⟩ := exists_of_bind_eq_ok h
    obtain ⟨documents, hread, hmerged⟩ := exists_of_bind_eq_ok hrest
    refine ⟨format, documents.map Prod.snd, hformat, ?_, merged_eq_ok_iff.1 hmerged⟩
    have hkeys : redis.keys.named ≠ [] := fun hnone ↦ by
      rw [read, hnone] at hread
      cases hread
    rw [read_eq hkeys] at hread
    rcases hvalues : mget store redis.keys.named with - | values
    · rw [hvalues] at hread
      cases hread
    · rw [hvalues] at hread
      exact List.forall₂_map_right_iff.2 (redis.texts_of_mget hvalues hread)
  · rintro ⟨format, texts, hformat, hheld, hdocument⟩
    obtain ⟨hvalues, hpresent⟩ := redis.mget_of_texts hheld
    have hlength := hheld.length_eq
    have htexts : (redis.keys.named.zip texts).map Prod.snd = texts :=
      List.map_snd_zip hlength.ge
    have hkeys : redis.keys.named ≠ [] := fun hnone ↦ by
      rw [hnone] at hlength
      obtain rfl := List.length_eq_zero_iff.1 hlength.symm
      rcases hdocument with ⟨htexts, -⟩ | ⟨hmany, -⟩
      · cases htexts
      · exact absurd hmany (by decide)
    have hread : redis.read unread store = .ok (redis.keys.named.zip texts) := by
      rw [read_eq hkeys, hvalues]
      exact hpresent
    rw [fetch, hformat, hread]
    exact merged_eq_ok_iff.2 (htexts.symm ▸ hdocument)

end Source

end DynamicConfig.Redis
