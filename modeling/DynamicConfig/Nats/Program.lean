import DynamicConfig.Etcd.Source
import DynamicConfig.Remote.Slot
import DynamicConfig.Stores.Documents
import DynamicConfig.Transition.Compacted

/-!
# Serving a NATS bucket

A program that serves a key of a bucket fetches it, applies what the fetch brought, and watches the key
from then on. Between the three anything may be written: the fetch is one get for each key, and the watch
hands over what is written after it was established. A bucket keeps the newest entry of a key and may
drop the ones before, so the stream may skip an entry, though never the newest.

What is applied goes into the slot the sink was taken of, as long as its source has not been replaced; a
failure of the store is reported there, and ends the watch.
-/

namespace DynamicConfig.Nats

open Compacted Documents
open Etcd (from_utf8)

/-! ### The bucket -/

/-- What an entry records. -/
inductive Operation where
  | put | delete | purge
  deriving DecidableEq

/-- An entry of a bucket. -/
structure Entry where
  key : String
  operation : Operation
  value : List UInt8
  deriving DecidableEq

/-- Whether it is one of a key. -/
def Entry.isOf (key : String) (entry : Entry) : Bool := entry.key == key

/-- The text it puts, if it puts one. -/
def Entry.text (entry : Entry) : Option String :=
  if entry.operation = .put then from_utf8 entry.value else none

/-- What stands at a place of a bucket, if it is a text that was put there. -/
def textAt (bucket : List Entry) (i : ℕ) : Option String := bucket[i]?.bind Entry.text

/-! ### What a source reads -/

/-- What a source reads: one key, or several named ones. -/
inductive Keys where
  | one (key : String)
  | several (keys : List String)
  deriving DecidableEq

namespace Keys

/-- The keys, in the order they are read. -/
def named : Keys → List String
  | one key => [key]
  | several keys => keys

/-- How a diagnostic names what this source reads. -/
def describe : Keys → String
  | one key => "key " ++ key
  | several keys => "keys " ++ ", ".intercalate keys

end Keys

/-- A source: its server as it is described, its bucket and keys, and the format of its documents. -/
structure Source where
  server : String
  bucket : String
  keys : Keys
  format : Option Format
  /-- Why the keys do not agree on a format, when they do not. -/
  disagreement : Option String
  /-- The deadline of one get, as it is displayed. -/
  timeout : String

/-- How a get comes back. -/
inductive Got where
  | answered
  | timedOut
  | failed (error : String)

namespace Source

/-- `describe`. -/
def describe (nats : Source) : String :=
  "nats " ++ nats.server ++ " bucket " ++ nats.bucket ++ " " ++ nats.keys.describe

/-- `format`: the format, or an error naming the call that supplies one. -/
def chosen (nats : Source) : Except Error Format :=
  match nats.disagreement, nats.format with
  | some complaint, _ => .error (.remote (nats.describe ++ ": " ++ complaint))
  | none, some format => .ok format
  | none, none => .error (.remote (nats.describe ++ ": the key names no format; call `with_format`"))

/-- The one key this source reads, or an error saying it reads several. -/
def single_key (nats : Source) : Except Error String :=
  match nats.keys with
  | .one key => .ok key
  | .several _ => .error (.remote (nats.describe ++ ": a source that reads several keys cannot be " ++
      "watched; poll `refresh_remote_async()` on a timer instead"))

/-- One key's value, as text, and the place it stands at. `invalid` displays the error of bytes that are
no text. -/
def read (invalid : List UInt8 → String) (nats : Source) (bucket : List Entry) (key : String) :
    Got → Except Error (ℕ × String)
  | .timedOut =>
    .error (.remote (nats.describe ++ ": `" ++ key ++ "` timed out after " ++ nats.timeout))
  | .failed error => .error (.remote (nats.describe ++ ": " ++ error))
  | .answered =>
    match (newest (Entry.isOf key) bucket).bind fun i ↦ bucket[i]?.map (i, ·) with
    | none => .error (.remote (nats.describe ++ ": `" ++ key ++ "` holds no value"))
    | some (i, entry) =>
      if entry.operation = .put then
        match from_utf8 entry.value with
        | none =>
          .error (.remote (nats.describe ++ ": `" ++ key ++ "` is not UTF-8: " ++ invalid entry.value))
        | some text => .ok (i, text)
      -- A marker of a deletion holds no value.
      else .error (.remote (nats.describe ++ ": `" ++ key ++ "` holds no value"))

end Source

/-! ### The program -/

/-- A key that was read: how much had been written to the bucket by then, and what was found where. -/
structure Reading where
  seen : ℕ
  place : ℕ
  key : String
  text : String
  deriving DecidableEq

/-- A document, and the places of the entries it was made of. -/
structure Brought where
  document : Fetched
  places : List ℕ
  deriving DecidableEq

/-- What comes after a document is applied. -/
inductive Next where
  | watch | message
  deriving DecidableEq

/-- Why the program has ended. -/
inductive Cause where
  /-- Nothing was asked of the store. -/
  | refused
  /-- The fetch failed. -/
  | unread
  /-- The document was refused, by the sink or by what it reloads. -/
  | declined
  /-- The watch failed. -/
  | lost
  deriving DecidableEq

/-- Where the program is. -/
inductive Point where
  /-- The next key is to be read. -/
  | reading
  /-- A document is handed to `apply`. -/
  | applying (brought : Brought) (next : Next)
  /-- The document is in the slot, and the configuration is reloaded. -/
  | reloading (next : Next)
  /-- The watch is being established. -/
  | establishing
  /-- The stream's next entry is awaited. -/
  | message
  | ended (cause : Cause) (error : Error)
  deriving DecidableEq

/-- Whether the watch has failed. -/
def Point.isLost : Point → Bool
  | .ended .lost _ => true
  | _ => false

/-- Whether the program has ended. -/
def Point.isEnded : Point → Bool
  | .ended _ _ => true
  | _ => false

/-- Whether the watch has yet to be established. -/
def Point.isBefore : Point → Bool
  | .reading | .applying _ .watch | .reloading .watch | .establishing => true
  | _ => false

/-- The bucket, the slot, and the program that serves the one from the other. -/
structure Program (S : Type) where
  bucket : List Entry
  slot : Remote.State S Brought
  /-- The generation the sink carries. -/
  sink : ℕ
  /-- How often the source has been replaced since the sink was taken. No turn reads it. -/
  replaced : ℕ
  format : Format
  /-- The keys that have been read. -/
  documents : List Reading
  /-- What the fetch brought. -/
  brought : Option Brought
  /-- The stream. -/
  reader : Option Reader
  /-- What `on_change` has been given. No turn reads it. -/
  given : List Brought
  point : Point

/-- How a reload ends. -/
inductive Outcome where
  | returned (outcome : Except Error Unit)
  | panicked

/-- One turn, of the bucket's writers, the slot's, the stream's or the program's. -/
inductive Turn (S : Type) where
  | write (entry : Entry)
  | replace (kind : Remote.Kind S)
  /-- The get of the next key comes back. -/
  | get (got : Got)
  /-- All keys have been read. -/
  | merge
  | apply (now : ℕ)
  | reloaded (outcome : Outcome)
  /-- The watch is established, or refused. -/
  | watch (failure : Option String) (now : ℕ)
  /-- The stream hands over the entry at a place. -/
  | entry (i now : ℕ)
  | failed (error : String) (now : ℕ)
  | closed (now : ℕ)

/-- A program whose source has just been installed, or the error where its fetch is refused without a
request. -/
def start {S : Type} (nats : Source) (kind : Remote.Kind S) (bucket : List Entry) :
    Except Error (Program S) := do
  let format ← nats.chosen
  let slot := Remote.State.new.set kind
  return ⟨bucket, slot, slot.generation, 0, format, [], none, none, [], .reading⟩

namespace Program

variable {S : Type}

/-- The document an entry of the stream is, where it is one. -/
def broughtAt (s : Program S) (i : ℕ) : Option Brought :=
  (textAt s.bucket i).map fun text ↦ ⟨⟨text, s.format⟩, [i]⟩

/-- The watch returns an error, which is reported as well. -/
def failing (s : Program S) (error : Error) (now : ℕ) : Program S :=
  { s with slot := s.slot.recordFetchFailure error s.sink now, point := .ended .lost error }

/-- The next key is read. -/
def get (invalid : List UInt8 → String) (nats : Source) (s : Program S) (got : Got) :
    Option (Program S) :=
  nats.keys.named[s.documents.length]?.map fun key ↦
    match nats.read invalid s.bucket key got with
    | .error error => { s with point := .ended .unread error }
    | .ok (i, text) => { s with documents := s.documents ++ [⟨s.bucket.length, i, key, text⟩] }

/-- The keys that were read are merged. -/
def merge (formats : Formats) (nats : Source) (s : Program S) : Program S :=
  match Documents.merged formats (s.documents.map fun r ↦ (r.key, r.text)) s.format nats.describe with
  | .error error => { s with point := .ended .unread error }
  | .ok document =>
    let brought : Brought := ⟨document, s.documents.map Reading.place⟩
    { s with brought := some brought, point := .applying brought .watch }

/-- `apply` puts the document into the slot. -/
def apply (s : Program S) (brought : Brought) (next : Next) (now : ℕ) : Program S :=
  match s.slot.installIf s.sink brought now with
  | .error error => { s with point := .ended .declined error }
  | .ok slot => { s with slot, point := .reloading next }

/-- What follows a document that was applied. -/
def follow (nats : Source) (s : Program S) : Next → Program S
  | .message => { s with point := .message }
  | .watch =>
    match nats.single_key with
    | .error error => { s with point := .ended .refused error }
    | .ok _ => { s with point := .establishing }

/-- The reload ends. A panic in the watch is caught, and one before it is the program's own. -/
def reloaded (nats : Source) (s : Program S) (next : Next) : Outcome → Option (Program S)
  | .panicked =>
    if next = .message then
      some { s with
        point := .ended .declined
          (.remote (nats.describe ++ ": the watch callback panicked; the watch is stopped")) }
    else none
  | .returned outcome =>
    if s.slot.generation ≠ s.sink then
      some { s with
        point := .ended .declined
          { kind := .backend
            message := "the remote source this sink was created for was replaced while its delivery " ++
              "reloaded; the replacement's state was restored — stop the old watch loop and take a " ++
              "fresh sink from `remote_sink()`" } }
    else
      match outcome with
      | .error error => some { s with point := .ended .declined error }
      | .ok () => some (s.follow nats next)

/-- An entry has been handed over. -/
def receive (invalid : List UInt8 → String) (nats : Source) (s : Program S) (reader : Reader) (i : ℕ)
    (entry : Entry) (now : ℕ) : Program S :=
  let heard : Program S := { s with reader := some (reader.hand i) }
  if entry.operation = .put then
    match from_utf8 entry.value with
    | none =>
      heard.failing (.remote (nats.describe ++ ": the value is not UTF-8: " ++ invalid entry.value)) now
    | some text =>
      let brought : Brought := ⟨⟨text, s.format⟩, [i]⟩
      { heard with given := s.given ++ [brought], point := .applying brought .message }
  else heard

/-- What one turn does. -/
def step (formats : Formats) (invalid : List UInt8 → String) (nats : Source) (s : Program S) :
    Turn S → Option (Program S)
  | .write entry => some { s with bucket := s.bucket ++ [entry] }
  | .replace kind => some { s with slot := s.slot.set kind, replaced := s.replaced + 1 }
  | .get got =>
    match s.point with
    | .reading => s.get invalid nats got
    | _ => none
  | .merge =>
    match s.point with
    | .reading =>
      if s.documents.length = nats.keys.named.length then some (s.merge formats nats) else none
    | _ => none
  | .apply now =>
    match s.point with
    | .applying brought next => some (s.apply brought next now)
    | _ => none
  | .reloaded outcome =>
    match s.point with
    | .reloading next => s.reloaded nats next outcome
    | _ => none
  | .watch failure now =>
    match s.point, failure with
    | .establishing, some error =>
      some (s.failing (.remote (nats.describe ++ ": cannot watch: " ++ error)) now)
    | .establishing, none =>
      some { s with reader := some ⟨s.bucket.length, []⟩, point := .message }
    | _, _ => none
  | .entry i now =>
    match s.point, s.reader, nats.keys, s.bucket[i]? with
    | .message, some reader, .one key, some entry =>
      if Offers (Entry.isOf key) s.bucket reader i then
        some (s.receive invalid nats reader i entry now)
      else none
    | _, _, _, _ => none
  | .failed error now =>
    match s.point with
    | .message => some (s.failing (.remote (nats.describe ++ ": the watch failed: " ++ error)) now)
    | _ => none
  | .closed now =>
    match s.point with
    | .message =>
      some (s.failing (.remote (nats.describe ++ ": the watch ended; the stream was closed")) now)
    | _ => none

end Program

/-! ### What one turn can do -/

namespace Program

variable {S : Type} {formats : Formats} {invalid : List UInt8 → String} {nats : Source}
  {s t : Program S}

/-- What a turn leaves behind. -/
inductive Effect (formats : Formats) (nats : Source) (s : Program S) : Program S → Prop where
  | wrote (entry : Entry) : Effect formats nats s { s with bucket := s.bucket ++ [entry] }
  | replaced (kind : Remote.Kind S) :
    Effect formats nats s { s with slot := s.slot.set kind, replaced := s.replaced + 1 }
  | read {key text : String} {i : ℕ} (hpoint : s.point = .reading)
    (hkey : nats.keys.named[s.documents.length]? = some key)
    (hnewest : Newest (Entry.isOf key) s.bucket i) (htext : textAt s.bucket i = some text) :
    Effect formats nats s
      { s with documents := s.documents ++ [⟨s.bucket.length, i, key, text⟩] }
  | gathered {document : Fetched} (hpoint : s.point = .reading)
    (hlength : s.documents.length = nats.keys.named.length)
    (hmerged : InOrderMerge formats s.format (s.documents.map Reading.text) document) :
    Effect formats nats s
      { s with
        brought := some ⟨document, s.documents.map Reading.place⟩
        point := .applying ⟨document, s.documents.map Reading.place⟩ .watch }
  | stopped {cause : Cause} {error : Error} (hlive : s.point.isLost = false) (hcause : cause ≠ .lost) :
    Effect formats nats s { s with point := .ended cause error }
  | installed {brought : Brought} {next : Next} {now : ℕ} (hpoint : s.point = .applying brought next)
    (hgeneration : s.slot.generation = s.sink) :
    Effect formats nats s
      { s with
        slot := { s.slot with fetched := some brought, status := s.slot.status.arrived none now }
        point := .reloading next }
  | went (hpoint : s.point = .reloading .message) : Effect formats nats s { s with point := .message }
  | asked (hpoint : s.point = .reloading .watch) :
    Effect formats nats s { s with point := .establishing }
  | established (hpoint : s.point = .establishing) :
    Effect formats nats s { s with reader := some ⟨s.bucket.length, []⟩, point := .message }
  | lost {error : Error} {now : ℕ} (hpoint : s.point = .establishing ∨ s.point = .message) :
    Effect formats nats s (s.failing error now)
  | garbled {key : String} {reader : Reader} {i now : ℕ} {error : Error} (hpoint : s.point = .message)
    (hreader : s.reader = some reader) (hkeys : nats.keys = .one key)
    (hoffers : Offers (Entry.isOf key) s.bucket reader i) (htext : textAt s.bucket i = none) :
    Effect formats nats s (({ s with reader := some (reader.hand i) } : Program S).failing error now)
  | skipped {key : String} {reader : Reader} {i : ℕ} (hpoint : s.point = .message)
    (hreader : s.reader = some reader) (hkeys : nats.keys = .one key)
    (hoffers : Offers (Entry.isOf key) s.bucket reader i) (htext : textAt s.bucket i = none) :
    Effect formats nats s { s with reader := some (reader.hand i) }
  | handed {key text : String} {reader : Reader} {i : ℕ} (hpoint : s.point = .message)
    (hreader : s.reader = some reader) (hkeys : nats.keys = .one key)
    (hoffers : Offers (Entry.isOf key) s.bucket reader i) (htext : textAt s.bucket i = some text) :
    Effect formats nats s
      { s with
        reader := some (reader.hand i)
        given := s.given ++ [⟨⟨text, s.format⟩, [i]⟩]
        point := .applying ⟨⟨text, s.format⟩, [i]⟩ .message }

/-- What a get that answers with a text has found. -/
theorem read_eq_ok {bucket : List Entry} {key text : String} {got : Got} {i : ℕ}
    (h : nats.read invalid bucket key got = .ok (i, text)) :
    Newest (Entry.isOf key) bucket i ∧ textAt bucket i = some text := by
  cases got with
  | timedOut => cases h
  | failed error => cases h
  | answered =>
    rw [Source.read] at h
    split at h
    · cases h
    · next j entry hfound =>
      obtain ⟨k, hk, hmap⟩ := Option.bind_eq_some_iff.1 hfound
      obtain ⟨found, hentry, hpair⟩ := Option.map_eq_some_iff.1 hmap
      obtain ⟨rfl, rfl⟩ := Prod.mk.inj hpair
      split at h
      · next hput =>
        split at h
        · cases h
        · next hvalue =>
          obtain ⟨rfl, rfl⟩ := Prod.mk.inj (Except.ok.inj h)
          refine ⟨newest_of_eq_some hk, ?_⟩
          rw [textAt, hentry, Option.bind_some, Entry.text, if_pos hput, hvalue]
      · cases h

theorem effect_of_get {got : Got} (hpoint : s.point = .reading)
    (h : s.get invalid nats got = some t) : Effect formats nats s t := by
  obtain ⟨key, hkey, rfl⟩ := Option.map_eq_some_iff.1 h
  split
  · exact .stopped (by rw [hpoint]; rfl) (by decide)
  · next hread =>
    obtain ⟨hnewest, htext⟩ := read_eq_ok hread
    exact .read hpoint hkey hnewest htext

theorem effect_of_merge (hpoint : s.point = .reading)
    (hlength : s.documents.length = nats.keys.named.length) :
    Effect formats nats s (s.merge formats nats) := by
  rw [merge]
  split
  · exact .stopped (by rw [hpoint]; rfl) (by decide)
  · next document hmerged =>
    refine .gathered hpoint hlength ?_
    have htexts := merged_eq_ok_iff.1 hmerged
    rw [List.map_map] at htexts
    exact htexts

theorem effect_of_apply {brought : Brought} {next : Next} {now : ℕ}
    (hpoint : s.point = .applying brought next) : Effect formats nats s (s.apply brought next now) := by
  rw [apply, Remote.State.installIf]
  split
  · exact .stopped (by rw [hpoint]; rfl) (by decide)
  · next slot hslot =>
    split at hslot
    · cases hslot
    · next hgeneration =>
      obtain rfl := Except.ok.inj hslot
      exact .installed hpoint (not_not.1 hgeneration)

theorem effect_of_reloaded {next : Next} {outcome : Outcome} (hpoint : s.point = .reloading next)
    (h : s.reloaded nats next outcome = some t) : Effect formats nats s t := by
  have hlive : s.point.isLost = false := by rw [hpoint]; rfl
  cases outcome with
  | panicked =>
    rw [reloaded] at h
    split at h
    · obtain rfl := Option.some.inj h
      exact .stopped hlive (by decide)
    · cases h
  | returned outcome =>
    simp only [reloaded] at h
    split at h
    · obtain rfl := Option.some.inj h
      exact .stopped hlive (by decide)
    · cases outcome with
      | error error =>
        obtain rfl := Option.some.inj h
        exact .stopped hlive (by decide)
      | ok =>
        obtain rfl := Option.some.inj h
        cases next with
        | message => exact .went hpoint
        | watch =>
          rw [follow]
          split
          · exact .stopped hlive (by decide)
          · exact .asked hpoint

theorem effect_of_receive {key : String} {reader : Reader} {i now : ℕ} {entry : Entry}
    (hpoint : s.point = .message) (hreader : s.reader = some reader) (hkeys : nats.keys = .one key)
    (hentry : s.bucket[i]? = some entry) (hoffers : Offers (Entry.isOf key) s.bucket reader i) :
    Effect formats nats s (s.receive invalid nats reader i entry now) := by
  have htext : textAt s.bucket i = entry.text := by rw [textAt, hentry, Option.bind_some]
  rw [Entry.text] at htext
  rw [receive]
  split
  · next hput =>
    rw [if_pos hput] at htext
    split
    · next hvalue => exact .garbled hpoint hreader hkeys hoffers (htext.trans hvalue)
    · next text hvalue => exact .handed hpoint hreader hkeys hoffers (htext.trans hvalue)
  · next hput =>
    rw [if_neg hput] at htext
    exact .skipped hpoint hreader hkeys hoffers htext

/-- **What a turn can do.** -/
theorem effect_of_step {turn : Turn S} (h : s.step formats invalid nats turn = some t) :
    Effect formats nats s t := by
  cases turn with
  | write entry =>
    obtain rfl := Option.some.inj h
    exact .wrote entry
  | replace kind =>
    obtain rfl := Option.some.inj h
    exact .replaced kind
  | get got =>
    simp only [step] at h
    split at h
    · next hpoint => exact effect_of_get hpoint h
    · cases h
  | merge =>
    simp only [step] at h
    split at h
    · next hpoint =>
      split at h
      · next hlength =>
        obtain rfl := Option.some.inj h
        exact effect_of_merge hpoint hlength
      · cases h
    · cases h
  | apply now =>
    simp only [step] at h
    split at h
    · next hpoint =>
      obtain rfl := Option.some.inj h
      exact effect_of_apply hpoint
    · cases h
  | reloaded outcome =>
    simp only [step] at h
    split at h
    · next hpoint => exact effect_of_reloaded hpoint h
    · cases h
  | watch failure now =>
    simp only [step] at h
    split at h
    · next hpoint =>
      obtain rfl := Option.some.inj h
      exact .lost (.inl hpoint)
    · next hpoint =>
      obtain rfl := Option.some.inj h
      exact .established hpoint
    · cases h
  | entry i now =>
    simp only [step] at h
    split at h
    · next hpoint hreader hkeys hentry =>
      split at h
      · next hoffers =>
        obtain rfl := Option.some.inj h
        exact effect_of_receive hpoint hreader hkeys hentry hoffers
      · cases h
    · cases h
  | failed error now =>
    simp only [step] at h
    split at h
    · next hpoint =>
      obtain rfl := Option.some.inj h
      exact .lost (.inr hpoint)
    · cases h
  | closed now =>
    simp only [step] at h
    split at h
    · next hpoint =>
      obtain rfl := Option.some.inj h
      exact .lost (.inr hpoint)
    · cases h

end Program

end DynamicConfig.Nats
