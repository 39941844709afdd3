import DynamicConfig.Cache.Read
import DynamicConfig.Cache.Redaction
import DynamicConfig.Loader.Isolation
import DynamicConfig.Tree.Shown

/-!
# A cache written and read back

The text of a cache is some format's rendering of the document, and the load that reads it back is
a load like any other. Where parser and renderer are inverse on the document, the load resolves the
section that was written, marker included, and the marker decides what the cache is good for.

**The marker's key is not reserved.** A section is free to have a top-level key of the marker's
name. The marker is then written over it, and taken out of the section with it: the key is lost.
`roundTrips_iff` says that this is the one thing that can be.
-/

namespace DynamicConfig

/-! ### Rendering and parsing -/

/-- figment's reading of a text shows the document. -/
def ReadsBack (host : Host) (format : Format) (text : String) (document : Dict) : Prop :=
  ∃ (profile : Profile) (back : Dict), (host.textProvider format text).data = .ok [(profile, back)] ∧
    (back.map Prod.fst).Nodup ∧ Dict.SameValues back document

/-- What goes to disk of a document: `write::render`, with the serializers of the formats. -/
def Written.render (serializer : Format → Dict → Except Error String) (written : Written) :
    Except Error String :=
  match written.format with
  | .json => (serializer .json written.document).map (· ++ "\n")
  | format => serializer format written.document

/-- Rendering and parsing are inverse on a document. -/
def Written.Inverse (serializer : Format → Dict → Except Error String) (host : Host)
    (written : Written) : Prop :=
  ∀ text, written.render serializer = .ok text →
    ReadsBack host written.format text written.document

/-! ### What a cache is for -/

/-- The values without everything at or below a secret. -/
def LessSecrets (values : Dict) (secrets : List String) (found : Dict) : Prop :=
  ∀ p, (Covered secrets p → found.root.peekAt p = none) ∧
    (¬ Covered secrets p → found.root.peekAt p = values.root.peekAt p)

/-- A cache gives back what its mode promises. -/
def RoundTrips (values : Dict) (secrets : List String) : CacheMode → Except Error Recovery → Prop
  | .full, .ok (.usable found) => Dict.SameValues found values
  | .redacted, .ok (.usable found) => LessSecrets values secrets found
  | .fingerprint, .ok (.drift _) => True
  | _, _ => False

/-- The condition on the section: no key of it that its mode would keep is called like the marker. -/
def Unmarked (values : Dict) (secrets : List String) : CacheMode → Prop
  | .full => values.root.peekAt [marker] = none
  | .redacted => values.root.peekAt [marker] = none ∨ Covered secrets [marker]
  | .fingerprint => True

/-! ### The document read back -/

/-- A document that shows one section, and has no key twice, is that section. -/
theorem exists_eq_of_sameValues {back table : Dict} {key : String}
    (hnodup : (back.map Prod.fst).Nodup) (h : Dict.SameValues back [(key, .node none table)]) :
    ∃ (tag : Option Metadata) (found : Dict),
      back = [(key, .node tag found)] ∧ Dict.SameValues found table := by
  have hkey : ∀ k, (back.lookup k).isSome → k = key := by
    intro k hk
    by_contra hne
    have hshows := h [k]
    rw [LabelledTree.peekAt, LabelledTree.peekAt, Dict.root, Dict.root, LabelledTree.get_node_cons,
      LabelledTree.get_node_cons, Entries.lookup_cons_eq, if_neg hne] at hshows
    obtain ⟨value, hvalue⟩ := Option.isSome_iff_exists.1 hk
    rw [hvalue, Option.bind_some, LabelledTree.get_nil] at hshows
    exact absurd hshows (Option.some_ne_none _)
  have hbelow : ∀ p, (back.lookup key).bind (fun value ↦ value.peekAt p) =
      (LabelledTree.node none table).peekAt p := by
    intro p
    have hshows := h (key :: p)
    rw [LabelledTree.peekAt, LabelledTree.peekAt, Dict.root, Dict.root, LabelledTree.get_node_cons,
      LabelledTree.get_node_cons, Entries.lookup_cons_eq, if_pos rfl, Option.bind_some,
      Option.map_bind] at hshows
    exact hshows
  rcases back with - | ⟨⟨first, value⟩, rest⟩
  · exact absurd (hbelow []).symm (Option.some_ne_none _)
  · obtain rfl : first = key := hkey first (by rw [Entries.lookup_cons_eq, if_pos rfl]; rfl)
    obtain rfl : rest = [] := by
      rcases rest with - | ⟨⟨second, other⟩, rest⟩
      · rfl
      · rw [List.map_cons, List.map_cons, List.nodup_cons] at hnodup
        have hne : second ≠ first := fun heq ↦ hnodup.1 (heq ▸ List.mem_cons_self)
        refine absurd (hkey second ?_) hne
        rw [Entries.lookup_cons_eq, if_neg hne, Entries.lookup_cons_eq, if_pos rfl]
        rfl
    rw [Entries.lookup_cons_eq, if_pos rfl] at hbelow
    rcases value with ⟨tag, leaf⟩ | ⟨tag, found⟩
    · exact absurd (Option.some.inj (hbelow [])) (Option.some_ne_none _)
    · refine ⟨tag, found, rfl, fun p ↦ ?_⟩
      rcases p with - | ⟨k, ks⟩
      · rfl
      · exact hbelow (k :: ks)

/-- **A document read back** is the section it carries. -/
theorem snapshot_of_readsBack (Fig : Type) [Figment Fig] [LawfulFigment Fig] {host : Host}
    {format : Format} {text : String} {table : Dict}
    (h : ReadsBack host format text [(cachedKey, .node none table)]) :
    ∃ cached, snapshot Fig host { key := cachedKey, sources := [.inline text format] } = .ok cached ∧
      Dict.SameValues cached table := by
  obtain ⟨profile, back, hdata, hnodup, hsame⟩ := h
  obtain ⟨tag, found, rfl, hfound⟩ := exists_eq_of_sameValues hnodup hsame
  have halone : ReadsAlone host cachedKey [(cachedKey, .node tag found)]
      { key := cachedKey, sources := [.inline text format] } :=
    ReadsAlone.inline text format ⟨profile, hdata⟩
  have htables : ∀ e ∈ [(cachedKey, LabelledTree.node tag found)], e.2.isTable = true := by
    intro e he
    rw [List.mem_singleton.1 he]
    rfl
  obtain ⟨cached, hcached, hresolved⟩ := halone.snapshot_eq Fig htables hnodup
  have hkept : lastFolding cachedKey [cachedKey] = some cachedKey := by decide
  have htable : tableUnder [(cachedKey, LabelledTree.node tag found)] cachedKey = found := rfl
  rw [List.map_cons, List.map_nil, hkept, Option.map_some, Option.getD_some, htable] at hresolved
  exact ⟨cached, hcached, fun p ↦ (hresolved p).trans (hfound p)⟩

/-! ### The marker -/

/-- What a mode makes of the values, before the marker is put on it. -/
def unmarkedDocument (hash : Dict → String) (values : Dict) (secrets : List String) :
    CacheMode → Dict
  | .full => values
  | .redacted => without values secrets
  | .fingerprint => fingerprintDocument hash values

theorem cacheDocument_eq (hash : Dict → String) (mode : CacheMode) (values : Dict)
    (secrets : List String) :
    cacheDocument hash mode values secrets =
      Entries.insert marker (.node none (markerTable mode))
        (unmarkedDocument hash values secrets mode) := by
  cases mode <;> rfl

section Marked

variable {cached table : Dict} {mode : CacheMode}

/-- Whatever a document holds, its marker says its mode. -/
theorem getAs_marker
    (h : Dict.SameValues cached (Entries.insert marker (.node none (markerTable mode)) table)) :
    cached.getAs Leaf.asString (marker ++ ".mode") = some mode.name := by
  have hsegments : segments (marker ++ ".mode") = [marker, "mode"] := by decide
  rw [getAs_eq, hsegments, h, LabelledTree.peekAt, Dict.root, LabelledTree.get_node_cons,
    Entries.lookup_insert_self]
  rfl

/-- So it is a fingerprint exactly when it was written as one. -/
theorem isFingerprint_of_sameValues
    (h : Dict.SameValues cached (Entries.insert marker (.node none (markerTable mode)) table)) :
    isFingerprint cached = decide (mode = .fingerprint) := by
  rw [isFingerprint, getAs_marker h]
  cases mode <;> rfl

/-- **The marker comes off clean**: nothing is left under its key, and everything else is there. -/
theorem peekAt_erase_marker
    (h : Dict.SameValues cached (Entries.insert marker (.node none (markerTable mode)) table))
    (p : List String) :
    (Dict.root (Entries.erase marker cached)).peekAt p =
      if [marker] <+: p then none else table.root.peekAt p := by
  have herase : Entries.erase marker cached = LabelledTree.erasePath cached [marker] := by
    rw [LabelledTree.erasePath]
  rw [herase, Dict.root]
  split
  · next hp =>
    obtain ⟨r, rfl⟩ := hp
    rw [LabelledTree.peekAt,
      LabelledTree.get_erasePath_append none cached (List.cons_ne_nil marker []) r, Option.map_none]
  · next hp =>
    rw [LabelledTree.peekAt_erasePath none cached hp, ← peekAt_insert_off hp, ← h p,
      Dict.root]

/-- Without the marker the table is as it was, unless it had a key of the marker's name. -/
theorem sameValues_erase_marker_iff
    (h : Dict.SameValues cached (Entries.insert marker (.node none (markerTable mode)) table)) :
    Dict.SameValues (Entries.erase marker cached) table ↔ table.root.peekAt [marker] = none := by
  constructor
  · intro hsame
    rw [← hsame [marker], peekAt_erase_marker h, if_pos (List.prefix_refl _)]
  · intro hfree p
    rw [peekAt_erase_marker h]
    split
    · next hp =>
      obtain ⟨r, rfl⟩ := hp
      exact (LabelledTree.peekAt_append_eq_none hfree r).symm
    · rfl

/-- And a table without its secrets is what a redacted cache promises, unless such a key stayed. -/
theorem lessSecrets_erase_marker_iff {values : Dict} {secrets : List String}
    (h : Dict.SameValues cached
      (Entries.insert marker (.node none (markerTable mode)) (without values secrets))) :
    LessSecrets values secrets (Entries.erase marker cached) ↔
      values.root.peekAt [marker] = none ∨ Covered secrets [marker] := by
  constructor
  · intro hless
    by_contra hnot
    obtain ⟨hused, hcovered⟩ := not_or.1 hnot
    have hkept := (hless [marker]).2 hcovered
    rw [peekAt_erase_marker h, if_pos (List.prefix_refl _)] at hkept
    exact hused hkept.symm
  · intro hfree p
    have hread := peekAt_erase_marker h p
    refine ⟨fun hcovered ↦ ?_, fun hcovered ↦ ?_⟩
    · rw [hread, peekAt_without_of_covered hcovered, ite_self]
    · rw [hread, peekAt_without_of_not_covered hcovered]
      split
      · next hp =>
        -- What covers the marker's key covers everything under it.
        have hunused : values.root.peekAt [marker] = none :=
          hfree.resolve_right fun ⟨s, hs, hsp⟩ ↦ hcovered ⟨s, hs, hsp.trans hp⟩
        obtain ⟨r, rfl⟩ := hp
        exact (LabelledTree.peekAt_append_eq_none hunused r).symm
      · rfl

end Marked

/-! ### When a cache round trips -/

section RoundTrip

variable (Fig : Type) [Figment Fig] {hash : Dict → String} {values : Dict} {path : String}
  {mode : CacheMode} {secrets : List String} {written : Written}

/-- A path that a cache could be written to is read in the format it was written in. -/
theorem readCache_of_write (host : Host) (current : Option Dict) {text : String}
    {contents : String → Except Error (Option String)}
    (hwrite : write hash values path mode secrets = .ok written)
    (hcontents : contents path = .ok (some text)) :
    readCache Fig hash host contents path current =
      parseCache Fig hash host text written.format current := by
  obtain ⟨format, hof, hformat⟩ := exists_of_bind_eq_ok hwrite
  have hsame : written.format = format := by
    rw [← Except.ok.inj hformat]
  rw [readCache, hof, hsame]
  show (contents path >>= _) = _
  rw [hcontents]
  rfl

variable [LawfulFigment Fig]

/-- A written document, parsed again: a drift report, or what is left once the marker is off. -/
theorem exists_parseCache (host : Host) (current : Option Dict) {text : String}
    (hwrite : write hash values path mode secrets = .ok written)
    (hreads : ReadsBack host written.format text written.document) :
    ∃ cached, Dict.SameValues cached (cacheDocument hash mode values secrets) ∧
      parseCache Fig hash host text written.format current =
        if mode = .fingerprint then .ok (.drift (drift hash cached current))
        else .ok (.usable (Entries.erase marker cached)) := by
  obtain ⟨format, -, hformat⟩ := exists_of_bind_eq_ok hwrite
  have hdocument : written.document =
      [(cachedKey, .node none (cacheDocument hash mode values secrets))] := by
    rw [← Except.ok.inj hformat]
  rw [hdocument] at hreads
  obtain ⟨cached, hcached, hsame⟩ := snapshot_of_readsBack Fig hreads
  refine ⟨cached, hsame, ?_⟩
  rw [cacheDocument_eq] at hsame
  rw [parseCache, hcached]
  show (if isFingerprint cached = true then _ else _) = _
  rw [isFingerprint_of_sameValues hsame]
  by_cases hmode : mode = .fingerprint
  · rw [if_pos (decide_eq_true hmode), if_pos hmode]
  · rw [if_neg (fun htrue ↦ hmode (of_decide_eq_true htrue)), if_neg hmode]

/-- What a parsed document is good for is decided by the section it was made of. -/
theorem roundTrips_parseCache_iff (host : Host) (current : Option Dict) {text : String}
    (hwrite : write hash values path mode secrets = .ok written)
    (hreads : ReadsBack host written.format text written.document) :
    RoundTrips values secrets mode (parseCache Fig hash host text written.format current) ↔
      Unmarked values secrets mode := by
  obtain ⟨cached, hsame, hparsed⟩ := exists_parseCache Fig host current hwrite hreads
  rw [hparsed]
  rw [cacheDocument_eq] at hsame
  rcases mode with - | - | -
  · exact sameValues_erase_marker_iff hsame
  · exact lessSecrets_erase_marker_iff hsame
  · exact Iff.rfl

end RoundTrip

/-- **When a cache round trips**: exactly when no key that its mode would keep is called like the
marker. -/
theorem roundTrips_iff {Fig : Type} [Figment Fig] [LawfulFigment Fig] (hash : Dict → String)
    (host : Host) (serializer : Format → Dict → Except Error String) (values : Dict) (path : String)
    (mode : CacheMode) (secrets : List String) (written : Written) (text : String)
    (contents : String → Except Error (Option String)) (current : Option Dict)
    (hwrite : write hash values path mode secrets = .ok written)
    (htext : written.render serializer = .ok text) (hinverse : written.Inverse serializer host)
    (hcontents : contents path = .ok (some text)) :
    RoundTrips values secrets mode (readCache Fig hash host contents path current) ↔
      Unmarked values secrets mode := by
  rw [readCache_of_write Fig host current hwrite hcontents]
  exact roundTrips_parseCache_iff Fig host current hwrite (hinverse text htext)

/-! ### Two sections and their caches -/

/-- A cache on its way to a JSON file. -/
def jsonCache (mode : CacheMode) (values : Dict) (secrets : List String) : Written where
  format := .json
  encrypted := false
  document := [(cachedKey, .node none (cacheDocument (fun _ ↦ "") mode values secrets))]

theorem write_last (mode : CacheMode) (values : Dict) (secrets : List String) :
    write (fun _ ↦ "") values "last.json" mode secrets = .ok (jsonCache mode values secrets) := by
  rw [write, show formatOf "last.json" = .ok .json by decide]
  rfl

/-- A machine whose documents are the one that was rendered gives it back. -/
theorem inverse_reading (serializer : Format → Dict → Except Error String) (mode : CacheMode)
    (values : Dict) (secrets : List String) :
    (jsonCache mode values secrets).Inverse serializer
      (reading (jsonCache mode values secrets).document) :=
  fun _ _ ↦ ⟨Profile.default, _, rfl, List.nodup_singleton _, fun _ ↦ rfl⟩

/-- A section with a secret in it. -/
def login : Dict :=
  [("host", Node.text "localhost"), ("password", Node.text "hunter2")]

/-- What the redacted cache of that section says, and the full cache of the next one. -/
def cacheText (mode : String) : String :=
  "\x7b\n  \"cached\": \x7b\n    \"__dynamic_config_cache\": \x7b\n      \"mode\": \"" ++ mode ++
    "\",\n      \"version\": 1\n    \x7d,\n    \"host\": \"localhost\"\n  \x7d\n\x7d"

/-- The redacted cache of that section gives the rest of it back. -/
theorem roundTrips_login :
    RoundTrips login ["password"] .redacted
      (readCache Stack (fun _ ↦ "") (reading (jsonCache .redacted login ["password"]).document)
        (fun _ ↦ .ok (some (cacheText "redacted" ++ "\n"))) "last.json" none) :=
  (roundTrips_iff (fun _ ↦ "") _ (fun _ _ ↦ .ok (cacheText "redacted")) login "last.json" .redacted
    ["password"] (jsonCache .redacted login ["password"]) (cacheText "redacted" ++ "\n") _ none
    (write_last _ _ _) rfl (inverse_reading _ _ _ _) rfl).2 (Or.inl rfl)

/-- A section with a key of its own that is called like the marker. -/
def stamped : Dict :=
  [(marker, .node none [("owner", Node.text "ops")]), ("host", Node.text "localhost")]

/-- **A key called like the marker does not come back.** -/
theorem not_roundTrips_stamped :
    write (fun _ ↦ "") stamped "last.json" .full [] = .ok (jsonCache .full stamped []) ∧
      (jsonCache .full stamped []).render (fun _ _ ↦ .ok (cacheText "full")) =
        .ok (cacheText "full" ++ "\n") ∧
        (jsonCache .full stamped []).Inverse (fun _ _ ↦ .ok (cacheText "full"))
          (reading (jsonCache .full stamped []).document) ∧
          ¬ RoundTrips stamped [] .full
            (readCache Stack (fun _ ↦ "") (reading (jsonCache .full stamped []).document)
              (fun _ ↦ .ok (some (cacheText "full" ++ "\n"))) "last.json" none) := by
  refine ⟨write_last _ _ _, rfl, inverse_reading _ _ _ _, fun htrips ↦ ?_⟩
  rw [readCache_of_write Stack _ none (write_last .full stamped []) rfl] at htrips
  have hreads : ReadsBack (reading (jsonCache .full stamped []).document) .json
      (cacheText "full" ++ "\n") (jsonCache .full stamped []).document :=
    ⟨Profile.default, _, rfl, List.nodup_singleton _, fun _ ↦ rfl⟩
  have hfree : stamped.root.peekAt [marker] = none :=
    (roundTrips_parseCache_iff Stack _ none (write_last .full stamped []) hreads).1 htrips
  have hused : stamped.root.peekAt [marker] = some none := rfl
  rw [hused] at hfree
  exact absurd hfree (Option.some_ne_none _)

/-! ### The report on a fingerprint -/

/-- **Nothing has moved since**: a fingerprint compared with the very values it was made of. -/
theorem drift_of_unmoved {hash : Dict → String} {values cached : Dict} {secrets : List String}
    (h : Dict.SameValues cached (cacheDocument hash .fingerprint values secrets)) :
    drift hash cached (some values) = some [nothingMoved] := by
  have hkeys : cached.getAs Leaf.asStrings "keys" = some (leafPaths values) := by
    have hsegments : segments "keys" = ["keys"] := by decide
    have hread : ∀ keys : List String,
        (keys.map fun key ↦ Value.scalar (.string key)).mapM Value.asString = some keys := by
      intro keys
      induction keys with
      | nil => rfl
      | cons key keys ih =>
        rw [List.map_cons, List.mapM_cons, ih]
        rfl
    rw [getAs_eq, hsegments, h, cacheDocument_eq, peekAt_insert_off (by decide)]
    exact hread (leafPaths values)
  have hhash : cached.getAs Leaf.asString "fingerprint" = some (hash values) := by
    have hsegments : segments "fingerprint" = ["fingerprint"] := by decide
    rw [getAs_eq, hsegments, h, cacheDocument_eq, peekAt_insert_off (by decide)]
    rfl
  rw [drift, Option.map_some, hkeys, Option.getD_some, movedKeys_self, if_pos rfl, hhash,
    if_pos rfl]

end DynamicConfig
