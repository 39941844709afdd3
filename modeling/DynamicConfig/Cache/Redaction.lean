import DynamicConfig.Cache.Write
import DynamicConfig.Loader.Gaps

/-!
# What a redacted cache still holds

A redacted cache is the resolved section with the declared secrets removed by path. Three facts read
a position of the document off the section: under the cache's own marker the marker shows, at or
below a secret nothing does, and everywhere else the section does.

**The old spelling of a secret stays.** The alias pass carries a value from its old path to the
declared one and leaves the old path as it was, so the resolved section holds the secret twice, and
the removal knows one of the two names. `Redacts` says what a redacted cache is for, old spellings
included; `Redactable` is the condition on the section and the firings under which the document
lives up to it, and `redacts_iff` says that it is exact.
-/

namespace DynamicConfig

open LabelledTree (stacked filledAt)

/-! ### Secrets and where aliases took them from -/

/-- A position at or below a declared secret. -/
def Covered (secrets : List String) (p : List String) : Prop :=
  ∃ s ∈ secrets, segments s <+: p

/-- The firings of the aliases of a load, over the figment its layers compose. -/
def loadFills {Fig : Type} [Figment Fig] (figment : Fig) (spec : LoadSpec) : List Fill :=
  match spec.aliases with
  | none => []
  | some aliases => (aliasPass spec.key aliases.pairs figment).fills

/-- Whether a firing read its old path in the section it filled. -/
def Fill.SameSection (key : String) (f : Fill) : Prop :=
  sectionProfile ((splitSection f.source).1.getD key) = sectionProfile key

/-- The positions of the section from which an alias, or a chain of them, carried something to a
position of `targets`. The firings are in order, so a chain goes on with a later one. -/
def Carried (key : String) (targets : List String → Prop) : List Fill → List String → Prop
  | [], _ => False
  | f :: fs, p =>
    Carried key targets fs p ∨
      f.SameSection key ∧ ∃ r, p = walked (splitSection f.source).2 ++ r ∧ (f.value.get r).isSome ∧
        (targets (segments f.destination ++ r) ∨
          Carried key targets fs (segments f.destination ++ r))

/-- The document of a section keeps its secrets to itself, and everything else is in it. -/
structure Redacts (key : String) (secrets : List String) (fills : List Fill)
    (section_ document : Node) : Prop where
  /-- Nothing at or below a secret's path. -/
  secret : ∀ p, Covered secrets p → document.peekAt p = none
  /-- No top-level key whose whole name is a secret. -/
  named : ∀ s ∈ secrets, document.peekAt [s] = none
  /-- Nothing where an alias took a secret from. -/
  old : ∀ p, Carried key (Covered secrets) fills p → document.peekAt p = none
  /-- Every other position of the section. -/
  kept : ∀ p x, section_.peekAt p = some x → ¬ Covered secrets p → (∀ s ∈ secrets, ¬ [s] <+: p) →
    ¬ Carried key (Covered secrets) fills p → document.peekAt p = some x

/-- What a document shows under its marker. -/
def markerRoot (mode : CacheMode) : Node :=
  Dict.root [(marker, .node none (markerTable mode))]

/-- The condition, on the section, the firings and the secrets: the section has no top-level key
spelled like a dotted secret; an old spelling of a secret is itself declared, or shows nothing any
more; and the marker's own key is not in use. -/
structure Redactable (key : String) (secrets : List String) (fills : List Fill)
    (section_ : Node) : Prop where
  named : ∀ s ∈ secrets, '.' ∈ s.toList → section_.peekAt [s] = none
  old : ∀ p, Carried key (Covered secrets) fills p → ¬ [marker] <+: p →
    section_.peekAt p ≠ none → Covered secrets p
  hidden : ∀ p, [marker] <+: p → Covered secrets p ∨ Carried key (Covered secrets) fills p →
    (markerRoot .redacted).peekAt p = none
  shown : ∀ p x, [marker] <+: p → ¬ Covered secrets p → ¬ Carried key (Covered secrets) fills p →
    section_.peekAt p = some x → (markerRoot .redacted).peekAt p = some x

/-! ### Reading the document -/

section Document

variable {hash : Dict → String} {values : Dict} {secrets : List String} {p : List String}

/-- Under its marker a document shows the marker. -/
theorem peekAt_cacheDocument_of_marker (h : [marker] <+: p) :
    (cacheDocument hash .redacted values secrets).root.peekAt p =
      (markerRoot .redacted).peekAt p := by
  obtain ⟨r, rfl⟩ := h
  rw [List.singleton_append, LabelledTree.peekAt, LabelledTree.peekAt, markerRoot, Dict.root,
    Dict.root, LabelledTree.get_node_cons, LabelledTree.get_node_cons, List.lookup_cons_self,
    cacheDocument, Entries.lookup_insert_self]

/-- Away from a key, a table shows what it showed before the key was written. -/
theorem peekAt_insert_off {table : Dict} {k : String} {value : Node}
    (h : ¬ [k] <+: p) :
    (Dict.root (Entries.insert k value table)).peekAt p = table.root.peekAt p := by
  rcases p with - | ⟨l, ls⟩
  · rfl
  · have hne : l ≠ k := by
      rintro rfl
      exact h (List.cons_prefix_cons.2 ⟨rfl, List.nil_prefix⟩)
    rw [LabelledTree.peekAt, LabelledTree.peekAt, Dict.root, Dict.root, LabelledTree.get_node_cons,
      LabelledTree.get_node_cons, Entries.lookup_insert_of_ne hne]

/-- Elsewhere a redacted document shows what is left of the values. -/
theorem peekAt_cacheDocument_of_not_marker (h : ¬ [marker] <+: p) :
    (cacheDocument hash .redacted values secrets).root.peekAt p =
      (without values secrets).root.peekAt p := by
  rw [cacheDocument]
  exact peekAt_insert_off h

/-- **Nothing is left at or below a secret.** -/
theorem peekAt_without_of_covered (h : Covered secrets p) :
    (without values secrets).root.peekAt p = none := by
  obtain ⟨s, hs, hp⟩ := h
  rw [without_eq_erasePaths, Dict.root]
  refine LabelledTree.peekAt_erasePaths_eq_none none values ?_ (List.mem_map_of_mem hs) hp
  intro q hq
  obtain ⟨t, -, rfl⟩ := List.mem_map.1 hq
  exact segments_ne_nil t

/-- **Everything else is left as it was.** -/
theorem peekAt_without_of_not_covered (h : ¬ Covered secrets p) :
    (without values secrets).root.peekAt p = values.root.peekAt p := by
  rw [without_eq_erasePaths, Dict.root, Dict.root]
  refine LabelledTree.peekAt_erasePaths none values ?_
  intro q hq hqp
  obtain ⟨s, hs, rfl⟩ := List.mem_map.1 hq
  exact h ⟨s, hs, hqp⟩

end Document

/-- A top-level key with a dot in it is at or below no secret. -/
theorem not_covered_of_dot {secrets : List String} {s : String} (hs : '.' ∈ s.toList) :
    ¬ Covered secrets [s] := by
  rintro ⟨t, -, ht⟩
  rcases List.prefix_cons_iff.1 ht with hnil | ⟨q, hq, -⟩
  · exact segments_ne_nil t hnil
  · refine not_dot_mem_of_mem_segments (a := t) ?_ hs
    rw [hq]
    exact List.mem_cons_self

theorem not_marker_prefix_of_dot {s : String} (hs : '.' ∈ s.toList) : ¬ [marker] <+: [s] := by
  intro h
  obtain ⟨rfl, -⟩ := List.cons_prefix_cons.1 h
  exact absurd hs (by decide)

/-! ### When a redacted cache redacts -/

section Redaction

variable {key : String} {secrets : List String} {fills : List Fill} {values : Dict}
  {hash : Dict → String}

theorem Redactable.redacts (h : Redactable key secrets fills values.root) :
    Redacts key secrets fills values.root (cacheDocument hash .redacted values secrets).root where
  secret := by
    intro p hp
    by_cases hmarker : [marker] <+: p
    · rw [peekAt_cacheDocument_of_marker hmarker]
      exact h.hidden p hmarker (Or.inl hp)
    · rw [peekAt_cacheDocument_of_not_marker hmarker, peekAt_without_of_covered hp]
  named := by
    intro s hs
    by_cases hdot : '.' ∈ s.toList
    · rw [peekAt_cacheDocument_of_not_marker (not_marker_prefix_of_dot hdot),
        peekAt_without_of_not_covered (not_covered_of_dot hdot)]
      exact h.named s hs hdot
    · have hcovered : Covered secrets [s] := ⟨s, hs, segments_eq_singleton hdot ▸ List.prefix_refl [s]⟩
      by_cases hmarker : [marker] <+: [s]
      · rw [peekAt_cacheDocument_of_marker hmarker]
        exact h.hidden [s] hmarker (Or.inl hcovered)
      · rw [peekAt_cacheDocument_of_not_marker hmarker, peekAt_without_of_covered hcovered]
  old := by
    intro p hp
    by_cases hmarker : [marker] <+: p
    · rw [peekAt_cacheDocument_of_marker hmarker]
      exact h.hidden p hmarker (Or.inr hp)
    · rw [peekAt_cacheDocument_of_not_marker hmarker]
      by_cases hcovered : Covered secrets p
      · exact peekAt_without_of_covered hcovered
      · rw [peekAt_without_of_not_covered hcovered]
        by_contra hshows
        exact hcovered (h.old p hp hmarker hshows)
  kept := by
    intro p x hx hcovered _ hcarried
    by_cases hmarker : [marker] <+: p
    · rw [peekAt_cacheDocument_of_marker hmarker]
      exact h.shown p x hmarker hcovered hcarried hx
    · rw [peekAt_cacheDocument_of_not_marker hmarker, peekAt_without_of_not_covered hcovered]
      exact hx

theorem Redacts.redactable
    (h : Redacts key secrets fills values.root
      (cacheDocument hash .redacted values secrets).root) :
    Redactable key secrets fills values.root where
  named := by
    intro s hs hdot
    have hnone := h.named s hs
    rwa [peekAt_cacheDocument_of_not_marker (not_marker_prefix_of_dot hdot),
      peekAt_without_of_not_covered (not_covered_of_dot hdot)] at hnone
  old := by
    intro p hp hmarker hshows
    by_contra hcovered
    have hnone := h.old p hp
    rw [peekAt_cacheDocument_of_not_marker hmarker, peekAt_without_of_not_covered hcovered] at hnone
    exact hshows hnone
  hidden := by
    intro p hmarker hp
    rw [← peekAt_cacheDocument_of_marker hmarker]
    exact hp.elim (h.secret p) (h.old p)
  shown := by
    intro p x hmarker hcovered hcarried hx
    rw [← peekAt_cacheDocument_of_marker hmarker]
    refine h.kept p x hx hcovered (fun s hs hsp ↦ ?_) hcarried
    -- A secret that names the marker's key covers everything under it.
    obtain ⟨r, rfl⟩ := hmarker
    obtain ⟨rfl, -⟩ := List.cons_prefix_cons.1 hsp
    exact hcovered ⟨marker, hs, by rw [segments_eq_singleton (by decide)]; exact hsp⟩

end Redaction

/-- **When a redacted cache redacts**: exactly when every old spelling of a secret that still shows
is itself declared, no key is spelled like a dotted secret, and the marker's key is free. -/
theorem redacts_iff {Fig : Type} [Figment Fig] (hash : Dict → String) (host : Host)
    (spec : LoadSpec) (path : String) (secrets : List String) (written : Written)
    (h : writeCache Fig hash host spec
      { cache := some (path, .redacted), secrets := some secrets } = .ok (some written)) :
    ∃ (figment : Fig) (values : Dict), build host spec = .ok figment ∧
      snapshot Fig host spec = .ok values ∧
        (Redacts spec.key secrets (loadFills figment spec) values.root written.section.root ↔
          Redactable spec.key secrets (loadFills figment spec) values.root) := by
  obtain ⟨values, hsnapshot, hwritten⟩ := writeCache_plain h
  obtain ⟨figment', hmerged, -⟩ := exists_of_bind_eq_ok hsnapshot
  obtain ⟨figment, hbuild, -⟩ := exists_of_bind_eq_ok hmerged
  refine ⟨figment, values, hbuild, hsnapshot, ?_⟩
  rw [hwritten]
  exact ⟨Redacts.redactable, Redactable.redacts⟩

/-! ### The old spelling of a secret -/

/-- A configuration that has been renamed: one source still says `old_password`, the alias says what
it is now. -/
def renamed : LoadSpec where
  key := "db"
  sources := [.provider (Provider.table { name := "TOML file", source := some (.file "config.toml") }
    (Profile.from "db") [("old_password", Node.text "hunter2")])]
  aliases := some ⟨[("old_password", "password")], List.pairwise_singleton _ _⟩

/-- The secrets of the renamed configuration, under their new name. -/
def passwordCache : CacheSpec :=
  { cache := some ("last.json", .redacted), secrets := some ["password"] }

/-- The figment of the renamed configuration, and the one firing in it. -/
theorem fills_renamed : ∃ (figment : Stack) (before : Tables) (f : Fill),
    build Host.bare renamed = .ok figment ∧ figment.values = .ok before ∧
      applyAliases figment renamed = fill "db" figment f ∧ loadFills figment renamed = [f] ∧
        f.source = "old_password" ∧ f.destination = "password" ∧ (f.value.get []).isSome ∧
          (before (sectionProfile "db")).root.peekAt ["old_password"] =
            some (some (.scalar (.string "hunter2"))) ∧
              (before Profile.global).root.decides ["old_password"] = false :=
  ⟨_, _, _, rfl, rfl, rfl, rfl, rfl, rfl, rfl, rfl, rfl⟩

/-- A cache of the renamed configuration is written. -/
theorem writeCache_renamed (hash : Dict → String) : ∃ written values,
    writeCache Stack hash Host.bare renamed passwordCache = .ok (some written) ∧
      snapshot Stack Host.bare renamed = .ok values ∧
        written.section = cacheDocument hash .redacted values ["password"] := by
  obtain ⟨figment, before, f, hbuild, hvalues, happlied, -⟩ := fills_renamed
  have hdata : Figment.data (applyAliases figment renamed) = .ok (f.tables "db" before) := by
    rw [happlied]
    exact values_fill hvalues "db" f
  have hsnapshot : snapshot Stack Host.bare renamed =
      .ok (combine (sectionProfile "db") (f.tables "db" before)) :=
    snapshot_of_data hbuild hdata
  have hwrite : ∃ written, write hash (combine (sectionProfile "db") (f.tables "db" before))
      "last.json" .redacted ["password"] = .ok written := by
    rw [write, show formatOf "last.json" = .ok .json by decide]
    exact ⟨_, rfl⟩
  obtain ⟨written, hwritten⟩ := hwrite
  refine ⟨written, _, ?_, hsnapshot, section_of_write hwritten⟩
  show (snapshot Stack Host.bare renamed >>= fun values ↦
    write hash values "last.json" .redacted ["password"] >>= fun written ↦
      .ok (some written)) = _
  rw [hsnapshot]
  show (write hash _ "last.json" .redacted ["password"] >>= fun written ↦ .ok (some written)) = _
  rw [hwritten]
  rfl

/-- The condition decides about the renamed configuration. -/
theorem redacts_iff_renamed : ∃ written,
    writeCache Stack (fun _ ↦ "") Host.bare renamed passwordCache = .ok (some written) ∧
      ∃ (figment : Stack) (values : Dict), build Host.bare renamed = .ok figment ∧
        snapshot Stack Host.bare renamed = .ok values ∧
          (Redacts "db" ["password"] (loadFills figment renamed) values.root written.section.root ↔
            Redactable "db" ["password"] (loadFills figment renamed) values.root) := by
  obtain ⟨written, -, hwritten, -⟩ := writeCache_renamed fun _ ↦ ""
  exact ⟨written, hwritten, redacts_iff _ _ _ _ _ _ hwritten⟩

/-- **The old spelling of a secret reaches the disk.** -/
theorem not_redacts_of_old_spelling : ∃ written,
    writeCache Stack (fun _ ↦ "") Host.bare renamed passwordCache = .ok (some written) ∧
      written.section.root.peekAt ["old_password"] = some (some (.scalar (.string "hunter2"))) ∧
        ∀ (figment : Stack) (values : Dict), build Host.bare renamed = .ok figment →
          snapshot Stack Host.bare renamed = .ok values →
            ¬ Redacts "db" ["password"] (loadFills figment renamed) values.root
              written.section.root := by
  obtain ⟨written, values, hwritten, hsnapshot, hsection⟩ := writeCache_renamed fun _ ↦ ""
  obtain ⟨figment, before, f, hbuild, hvalues, happlied, hfills, hsource, hdestination, hheld,
    hold, hglobal⟩ := fills_renamed
  have hdata : Figment.data (applyAliases figment renamed) = .ok (f.tables "db" before) := by
    rw [happlied]
    exact values_fill hvalues "db" f
  obtain rfl : combine (sectionProfile "db") (f.tables "db" before) = values :=
    Except.ok.inj ((snapshot_of_data hbuild hdata).symm.trans hsnapshot)
  have hsegments : segments f.destination = ["password"] := by
    rw [hdestination]
    decide
  have hshows : (combine (sectionProfile "db") (f.tables "db" before)).root.peekAt
      ["old_password"] = some (some (.scalar (.string "hunter2"))) := by
    have hoff : (filledAt (some f.metadata) none (before (sectionProfile "db")).root
        (segments f.destination) (f.value.mapTag (labelled f.metadata))).peekAt ["old_password"] =
          some (some (.scalar (.string "hunter2"))) := by
      rw [← hold, LabelledTree.peekAt, LabelledTree.peekAt,
        LabelledTree.get_filledAt_off (segments_ne_nil f.destination)]
      · rw [hsegments]
        decide
      · rw [hsegments]
        decide
    show (resolvedSection "db" (f.tables "db" before)).peekAt ["old_password"] = _
    rw [resolvedSection_fill, stacked, LabelledTree.peekAt_merge_of_not_decides hglobal,
      LabelledTree.peekAt_merge, hoff]
    rfl
  have hsecret : ¬ Covered ["password"] ["old_password"] := by
    rintro ⟨s, hs, hp⟩
    obtain rfl := List.mem_singleton.1 hs
    exact absurd hp (by decide)
  have hdocument : written.section.root.peekAt ["old_password"] =
      some (some (.scalar (.string "hunter2"))) := by
    rw [hsection, peekAt_cacheDocument_of_not_marker (by decide),
      peekAt_without_of_not_covered hsecret]
    exact hshows
  refine ⟨written, hwritten, hdocument, fun figment' values' hbuild' _ hredacts ↦ ?_⟩
  obtain rfl : figment = figment' := Except.ok.inj (hbuild.symm.trans hbuild')
  have hcarried : Carried "db" (Covered ["password"]) (loadFills figment renamed)
      ["old_password"] := by
    have hwalked : walked (splitSection f.source).2 = ["old_password"] := by
      rw [hsource]
      decide
    have hsame : f.SameSection "db" := by
      rw [Fill.SameSection, hsource]
      decide
    rw [hfills]
    refine Or.inr ⟨hsame, [], ?_, hheld, Or.inl ⟨"password", List.mem_singleton_self _, ?_⟩⟩
    · rw [hwalked]
      rfl
    · rw [hsegments]
      decide
  have hnone := hredacts.old ["old_password"] hcarried
  rw [hdocument] at hnone
  cases hnone

end DynamicConfig
