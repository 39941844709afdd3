import DynamicConfig.Loader.Spec
import DynamicConfig.Revisions.History

/-!
# What an etcd source reads

etcd keeps the history of its keys, so a range can be read as it was at a revision, and a read at a
revision that is past answers the same for good (`range_at_commit`). A watch of a prefix rests on
that: the events only say that the set moved, and the document is read at the revision they came
with.

Keys and values are bytes. Parsing, merging and rendering the documents under a prefix is `folded`, a
parameter, since nothing depends on what comes of it: one document alone is passed through.
-/

namespace DynamicConfig.Etcd

open Revisions

/-- The text of some bytes, where they are one. -/
def from_utf8 (bytes : List UInt8) : Option String := String.fromUTF8? ⟨bytes.toArray⟩

/-- The bytes of a text. -/
def as_bytes (text : String) : List UInt8 := text.toUTF8.data.toList

/-- What a source reads: one key, several named keys, or a range. -/
inductive Keys where
  | one (key : String)
  | several (keys : List String)
  | prefixed (root : String)
  deriving DecidableEq

/-- Whether it is a range. -/
def Keys.isPrefixed : Keys → Bool
  | .prefixed _ => true
  | _ => false

/-- A put, or a deletion. -/
structure Write where
  key : List UInt8
  value : Option (List UInt8)
  deriving DecidableEq

/-- No transaction writes one key twice. -/
def Apart (a b : Write) : Prop := a.key ≠ b.key

instance : DecidableRel Apart := fun a b ↦ inferInstanceAs (Decidable (a.key ≠ b.key))

/-- What etcd keeps. -/
abbrev Store := History Write Apart

/-- A source: what it reads, and the format its documents are in. -/
structure Source where
  keys : Keys
  format : Option Format
  /-- Why the keys do not agree on a format, when they do not. -/
  disagreement : Option String

namespace Source

/-- The format, or an error naming the call that supplies one. -/
def chosen (etcd : Source) : Option Format :=
  if etcd.disagreement.isSome then none else etcd.format

/-- Whether a write is one the stream hands over: one of the key, or one under the prefix. -/
def watches (etcd : Source) (write : Write) : Bool :=
  match etcd.keys with
  | .one key => write.key = as_bytes key
  | .several _ => false
  | .prefixed root => (as_bytes root).isPrefixOf write.key

end Source

/-! ### Range reads -/

/-- The most keys one document is folded from. -/
def MOST_KEYS : Nat := 512

/-- The keys that hold a value once a write has landed, in the order etcd lists them. -/
def landed (kvs : List (List UInt8 × List UInt8)) (write : Write) :
    List (List UInt8 × List UInt8) :=
  let others := kvs.filter fun kv ↦ kv.1 ≠ write.key
  match write.value with
  | none => others
  | some value => others.orderedInsert (fun a b ↦ a.1 ≤ b.1) (write.key, value)

/-- The keys that held a value at a revision. -/
def valuesAt (store : Store) (revision : Nat) : List (List UInt8 × List UInt8) :=
  (store.upTo revision).foldl (fun kvs e ↦ landed kvs e.2) []

/-- The documents of a range read, or nothing where one of them is not text. -/
def pairs_of (root : String) (kvs : List (List UInt8 × List UInt8)) :
    Option (List (String × String)) :=
  kvs.mapM fun kv ↦ do
    let key ← from_utf8 kv.1
    -- A key that is not under the prefix is refused.
    if (as_bytes root).isPrefixOf (as_bytes key) then
      let text ← from_utf8 kv.2
      return (key, text)
    else none

/-- One range read of a prefix, evaluated at a revision. -/
def range_at (store : Store) (root : String) (revision : Nat) : Option (List (String × String)) :=
  let kvs := ((valuesAt store revision).filter fun kv ↦ (as_bytes root).isPrefixOf kv.1).take
    (MOST_KEYS + 1)
  if kvs.length ≤ MOST_KEYS then pairs_of root kvs else none

/-- **What a range was at a revision stays what it was.** -/
theorem range_at_commit (store : Store) (writes : List Write) (hwrites : writes.Pairwise Apart)
    (root : String) {revision : Nat} (hle : revision ≤ store.revision) :
    range_at (store.commit writes hwrites) root revision = range_at store root revision := by
  rw [range_at, range_at, valuesAt, valuesAt, History.upTo_commit store writes hwrites hle]

/-- Folds documents into the one document a fetch returns. A single document is passed through byte
for byte. -/
def merged (folded : List (String × String) → Format → Option String)
    (documents : List (String × String)) (format : Format) : Option Fetched :=
  match documents with
  | [] => none
  | [(_, only)] => some ⟨only, format⟩
  | _ => (folded documents format).map fun text ↦ ⟨text, format⟩

/-- What the range at a revision comes to. -/
inductive Reading where
  /-- No key under the prefix holds a value. -/
  | empty
  | document (document : Fetched)
  | failed
  deriving DecidableEq

/-- The document of a range at a revision. -/
def readAt (folded : List (String × String) → Format → Option String) (store : Store)
    (root : String) (format : Format) (revision : Nat) : Reading :=
  match range_at store root revision with
  | none => .failed
  | some [] => .empty
  | some documents =>
    match merged folded documents format with
    | none => .failed
    | some document => .document document

theorem readAt_commit (folded : List (String × String) → Format → Option String) (store : Store)
    (writes : List Write) (hwrites : writes.Pairwise Apart) (root : String) (format : Format)
    {revision : Nat} (hle : revision ≤ store.revision) :
    readAt folded (store.commit writes hwrites) root format revision =
      readAt folded store root format revision := by
  rw [readAt, readAt, range_at_commit store writes hwrites root hle]

end DynamicConfig.Etcd
