import DynamicConfig.Telemetry.Exposition

/-!
# A scrape

What a reader of the text format finds in an exposition. For every sequence of additions, whatever the
labels are, it finds one sample for each status a family has something to say of, in order: the family's
name, the caller's labels under their coerced names and with their values as they were given, behind them
the label of the family's own, and the value (`reads_render`).

A reader refuses a sample that has two labels of one name. Each sample's names differ exactly when the
names a caller gave are coerced to names that differ, and that none of the families that speak of the
status adds itself (`faithful_iff`).
-/

namespace DynamicConfig.Telemetry

open Prometheus
open Server (ConfigStatus)
open Remote (RemoteStatus)

/-! ### What is to be found -/

/-- A caller's labels, under their coerced names. -/
def found (labels : Labels) : Labels := labels.map fun label ↦ (coerced label.1, label.2)

/-- The sample of a family for a status it has something to say of. -/
def Family.sampleOf {σ : Type} (family : Family σ) (labels : Labels) (reading : Reading) : Sample where
  name := family.name.toList
  labels := found labels ++ reading.own.toList
  value := reading.value
  timestamp := none

/-- The samples of a family. -/
def Family.samples {σ : Type} (added : List (Labels × σ)) (family : Family σ) : List Sample :=
  added.filterMap fun a ↦ (family.sample a.2).map (family.sampleOf a.1)

/-- One addition. -/
inductive Call where
  | add (config : List Char) (status : ConfigStatus)
  | addWith (labels : Labels) (status : ConfigStatus)
  | addRemote (config : List Char) (status : RemoteStatus)
  | addRemoteWith (labels : Labels) (status : RemoteStatus)

namespace Call

def apply (exposition : Exposition) : Call → Exposition
  | .add config status => exposition.add config status
  | .addWith labels status => exposition.addWith labels status
  | .addRemote config status => exposition.addRemote config status
  | .addRemoteWith labels status => exposition.addRemoteWith labels status

/-- The configuration that is added, and its labels. -/
def config : Call → Option (Labels × ConfigStatus)
  | .add config status => some ([("config".toList, config)], status)
  | .addWith labels status => some (labels, status)
  | .addRemote _ _ | .addRemoteWith _ _ => none

/-- The remote source that is added, and its labels. -/
def remote : Call → Option (Labels × RemoteStatus)
  | .add _ _ | .addWith _ _ => none
  | .addRemote config status => some ([("config".toList, config)], status)
  | .addRemoteWith labels status => some (labels, status)

end Call

/-- The exposition after some additions. -/
def Exposition.run (calls : List Call) : Exposition := calls.foldl Call.apply Exposition.new

/-- The samples of an exposition. -/
def samples (clock : Clock) (calls : List Call) : List Sample :=
  (families clock).flatMap (Family.samples (calls.filterMap Call.config)) ++
    (remoteFamilies clock).flatMap (Family.samples (calls.filterMap Call.remote))

/-! ### It is found -/

/-- The texts of a sample's labels. -/
def texts (labels : Labels) (reading : Reading) : List (List Char) :=
  labels.map callerText ++ reading.own.toList.map fun label ↦ labelText label.1 label.2

theorem join_eq (labels : Labels) (reading : Reading) :
    join (renderLabels labels) reading.extra = labelsText (texts labels reading) := by
  rw [renderLabels_eq, Reading.extra, texts]
  rcases reading.own with - | label
  · dsimp only
    rw [join, Option.toList_none, List.map_nil, List.append_nil]
    split
    · rename_i hnil
      exact hnil.symm
    · rw [if_pos rfl]
  · dsimp only
    rw [Option.toList_some, List.map_singleton]
    have hextra : labelText label.1 label.2 ≠ [] := by
      rw [labelText]
      exact List.append_ne_nil_of_right_ne_nil _ (List.cons_ne_nil _ _)
    rcases labels with - | ⟨first, labels⟩
    · show join [] _ = labelsText [labelText label.1 label.2]
      rw [join, if_pos rfl, labelsText, List.intercalate_singleton]
    · have hleft : labelsText ((first :: labels).map callerText) ≠ [] := by
        rw [List.map_cons, labelsText_cons]
        exact List.append_ne_nil_of_left_ne_nil (callerText_ne_nil first) _
      have hcaller : (first :: labels).map callerText ≠ [] := List.cons_ne_nil _ _
      rw [join, if_neg hleft, if_neg hextra, labelsText_concat hcaller]

/-- Each of the texts is read as its label. -/
theorem forall₂_texts (labels : Labels) (reading : Reading) :
    List.Forall₂ IsLabel (texts labels reading) (found labels ++ reading.own.toList) := by
  have hcaller : List.Forall₂ IsLabel (labels.map callerText) (found labels) := by
    rw [found, List.forall₂_map_left_iff, List.forall₂_map_right_iff]
    exact List.forall₂_same.2 fun label _ ↦
      isLabel_labelText (isLabelName_coerced label.1) (quotes_escape label.2)
  refine List.rel_append hcaller ?_
  rcases hown : reading.own with - | label
  · exact .nil
  · obtain ⟨hname, hplain⟩ := reading.own_isLabel label hown
    exact .cons (isLabel_labelText hname (quotes_self fun c hc ↦
      ⟨(hplain c hc).1, (hplain c hc).2.1⟩)) .nil

/-- None of them ends the line. -/
theorem newline_notMem_texts (labels : Labels) (reading : Reading) :
    ∀ text ∈ texts labels reading, '\n' ∉ text := by
  intro text htext
  rcases List.mem_append.1 htext with hcaller | hown
  · obtain ⟨label, -, rfl⟩ := List.mem_map.1 hcaller
    exact newline_notMem_labelText (isLabelName_coerced label.1) (newline_notMem_escape label.2)
  · obtain ⟨label, hlabel, rfl⟩ := List.mem_map.1 hown
    obtain ⟨hname, hplain⟩ := reading.own_isLabel label (Option.mem_toList.1 hlabel)
    exact newline_notMem_labelText hname fun hmem ↦ (hplain _ hmem).2.2 rfl

theorem reads_sample {σ : Type} (family : Family σ) (labels : Labels) (reading : Reading) :
    Prometheus.Reads
      (sampleLine family.name.toList (join (renderLabels labels) reading.extra) reading.value ++
      ['\n']) [family.sampleOf labels reading] := by
  rw [join_eq]
  exact reads_sampleLine family.name_isMetricName (forall₂_texts labels reading)
    reading.value_isValue (newline_notMem_labelsText (newline_notMem_texts labels reading))

/-- A line that begins with a hash says nothing. -/
theorem reads_hash {line : List Char} (h : '\n' ∉ line) :
    Prometheus.Reads ('#' :: line ++ ['\n']) [] := by
  refine reads_comment ?_ ?_
  · rw [List.mem_cons, not_or]
    exact ⟨by decide, h⟩
  · rw [isSampleLine, skipBlanks_cons (by decide)]
    rfl

/-- **A family** is read to its samples. -/
theorem reads_family {σ : Type} (family : Family σ) (added : List (Labels × σ)) :
    Prometheus.Reads (Telemetry.family (added.map fun a ↦ ⟨renderLabels a.1, a.2⟩) family)
      (family.samples added) := by
  let readings : List (Labels × Reading) :=
    added.filterMap fun a ↦ (family.sample a.2).map fun reading ↦ (a.1, reading)
  have hwritten : (added.map fun a ↦ (⟨renderLabels a.1, a.2⟩ : Entry σ)).filterMap (fun entry ↦
      (family.sample entry.status).map fun reading ↦
        (join entry.labels reading.extra, reading.value)) =
      readings.map fun r ↦ (join (renderLabels r.1) r.2.extra, r.2.value) := by
    rw [List.filterMap_map, List.map_filterMap]
    refine List.filterMap_congr fun a _ ↦ ?_
    rw [Option.map_map]
    rfl
  have hsamples : family.samples added = readings.flatMap fun r ↦ [family.sampleOf r.1 r.2] := by
    rw [← List.map_eq_flatMap, Family.samples, List.map_filterMap]
    refine List.filterMap_congr fun a _ ↦ ?_
    rw [Option.map_map]
    rfl
  rw [Telemetry.family, hwritten, hsamples, writeFamily]
  obtain hnil | hne := eq_or_ne readings []
  · rw [hnil]
    exact reads_nil
  · obtain ⟨hkind, hhelp⟩ : '\n' ∉ family.kind.toList ∧ '\n' ∉ family.help.toList := by
      rw [← not_or, ← List.mem_append]
      exact family.oneLine
    have hname := family.name_isMetricName.newline_notMem
    rw [if_neg (by intro hmap; exact hne (List.map_eq_nil_iff.1 hmap)), List.flatMap_map]
    have hheader : '\n' ∉ " HELP ".toList ++ family.name.toList ++ ' ' :: family.help.toList := by
      simp [hname, hhelp]
    have htype : '\n' ∉ " TYPE ".toList ++ family.name.toList ++ ' ' :: family.kind.toList := by
      simp [hname, hkind]
    exact ((reads_hash hheader).append (reads_hash htype)).append (reads_flatMap fun r _ ↦ reads_sample family r.1 r.2)

theorem entries_run (calls : List Call) :
    (Exposition.run calls).entries =
      (calls.filterMap Call.config).map fun a ↦ ⟨renderLabels a.1, a.2⟩ := by
  induction calls using List.reverseRecOn with
  | nil => rfl
  | append_singleton calls call ih =>
    rw [Exposition.run] at ih ⊢
    rw [List.foldl_append, List.foldl_cons, List.foldl_nil, List.filterMap_append, List.map_append,
      ← ih]
    rcases call with ⟨config, status⟩ | ⟨labels, status⟩ | ⟨config, status⟩ | ⟨labels, status⟩
    · rfl
    · rfl
    · exact (List.append_nil _).symm
    · exact (List.append_nil _).symm

theorem remotes_run (calls : List Call) :
    (Exposition.run calls).remotes =
      (calls.filterMap Call.remote).map fun a ↦ ⟨renderLabels a.1, a.2⟩ := by
  induction calls using List.reverseRecOn with
  | nil => rfl
  | append_singleton calls call ih =>
    rw [Exposition.run] at ih ⊢
    rw [List.foldl_append, List.foldl_cons, List.foldl_nil, List.filterMap_append, List.map_append,
      ← ih]
    rcases call with ⟨config, status⟩ | ⟨labels, status⟩ | ⟨config, status⟩ | ⟨labels, status⟩
    · exact (List.append_nil _).symm
    · exact (List.append_nil _).symm
    · rfl
    · rfl

/-- **An exposition is read to its samples**, whatever the labels are. -/
theorem reads_render (clock : Clock) (calls : List Call) :
    Prometheus.Reads ((Exposition.run calls).render clock) (samples clock calls) := by
  rw [Exposition.render, entries_run, remotes_run]
  exact (reads_flatMap fun family _ ↦ reads_family family _).append
    (reads_flatMap fun family _ ↦ reads_family family _)

/-! ### The names of a sample's labels -/

/-- The names of a caller's labels, coerced. -/
def names (labels : Labels) : List (List Char) := labels.map fun label ↦ coerced label.1

/-- The names of a sample's labels differ from each other. -/
def NamesDiffer (sample : Sample) : Prop := (sample.labels.map Prod.fst).Nodup

/-- An exposition is read to its samples, and no sample has two labels of one name. -/
def Faithful (clock : Clock) (calls : List Call) : Prop :=
  read ((Exposition.run calls).render clock) = some (samples clock calls) ∧
    ∀ sample ∈ samples clock calls, NamesDiffer sample

/-- The names that are given with an addition are coerced to names that differ, and none of them to the
name of a label that a family adds for the status. -/
def Call.Distinct : Call → Prop
  | .add _ _ | .addRemote _ _ => True
  | .addWith labels status =>
    (names labels).Nodup ∧ (status.lastReason.isSome → "reason".toList ∉ names labels) ∧
      (status.lastFailure.isSome → "kind".toList ∉ names labels)
  | .addRemoteWith labels status =>
    (names labels).Nodup ∧ (status.lastFailure.isSome → "kind".toList ∉ names labels)

theorem namesDiffer_sampleOf_iff {σ : Type} (family : Family σ) (labels : Labels) (reading : Reading) :
    NamesDiffer (family.sampleOf labels reading) ↔
      (names labels).Nodup ∧ ∀ label ∈ reading.own, label.1 ∉ names labels := by
  have hnames : (found labels).map Prod.fst = names labels := by
    rw [found, List.map_map]
    rfl
  rw [NamesDiffer, Family.sampleOf, List.map_append, hnames]
  rcases reading.own with - | label
  · rw [Option.toList_none, List.map_nil, List.append_nil]
    exact (and_iff_left fun _ h ↦ absurd h (Option.not_mem_none _)).symm
  · rw [Option.toList_some, List.map_singleton, ← List.concat_eq_append, List.nodup_concat]
    simp [and_comm]

/-- The labels the families add for a configuration. -/
theorem own_families_iff (clock : Clock) (status : ConfigStatus) (label : List Char × List Char) :
    (∃ family ∈ families clock, ∃ reading, family.sample status = some reading ∧ label ∈ reading.own) ↔
      (∃ reason, status.lastReason = some reason ∧
        label = ("reason".toList, (Server.reasonAsStr reason).toList)) ∨
      ∃ failure, status.lastFailure = some failure ∧
        label = ("kind".toList, (Server.kindAsStr failure.kind).toList) := by
  simp [families, eq_comm]

/-- And for a remote source. -/
theorem own_remoteFamilies_iff (clock : Clock) (status : RemoteStatus) (label : List Char × List Char) :
    (∃ family ∈ remoteFamilies clock, ∃ reading, family.sample status = some reading ∧
      label ∈ reading.own) ↔
      ∃ failure, status.lastFailure = some failure ∧
        label = ("kind".toList, (Server.kindAsStr failure.kind).toList) := by
  simp [remoteFamilies, eq_comm, or_imp, forall_and]

theorem exists_sample (clock : Clock) (status : ConfigStatus) :
    ∃ family ∈ families clock, ∃ reading, family.sample status = some reading :=
  ⟨_, List.mem_cons_self, _, rfl⟩

theorem exists_remoteSample (clock : Clock) (status : RemoteStatus) :
    ∃ family ∈ remoteFamilies clock, ∃ reading, family.sample status = some reading :=
  ⟨_, List.mem_cons_of_mem _ List.mem_cons_self, _, rfl⟩

/-- The names in the samples of one status differ when the caller's do, also from those of the labels
that the families add. -/
theorem forall_namesDiffer_iff {σ : Type} {families : List (Family σ)} {status : σ}
    {own : List Char × List Char → Prop}
    (hown : ∀ label, (∃ family ∈ families, ∃ reading, family.sample status = some reading ∧
      label ∈ reading.own) ↔ own label)
    (hsome : ∃ family ∈ families, ∃ reading, family.sample status = some reading) (labels : Labels) :
    (∀ family ∈ families, ∀ reading, family.sample status = some reading →
      NamesDiffer (family.sampleOf labels reading)) ↔
      (names labels).Nodup ∧ ∀ label, own label → label.1 ∉ names labels := by
  constructor
  · intro h
    refine ⟨?_, fun label hlabel ↦ ?_⟩
    · obtain ⟨family, hfamily, reading, hreading⟩ := hsome
      exact ((namesDiffer_sampleOf_iff family labels reading).1 (h family hfamily reading hreading)).1
    · obtain ⟨family, hfamily, reading, hreading, hmem⟩ := (hown label).2 hlabel
      exact ((namesDiffer_sampleOf_iff family labels reading).1
        (h family hfamily reading hreading)).2 label hmem
  · rintro ⟨hnodup, hnotMem⟩ family hfamily reading hreading
    exact (namesDiffer_sampleOf_iff family labels reading).2 ⟨hnodup, fun label hlabel ↦
      hnotMem label ((hown label).1 ⟨family, hfamily, reading, hreading, hlabel⟩)⟩

/-- The samples of several families, a status at a time. -/
theorem forall_samples_iff {σ : Type} (families : List (Family σ)) (added : List (Labels × σ))
    (P : Sample → Prop) :
    (∀ sample ∈ families.flatMap (Family.samples added), P sample) ↔
      ∀ a ∈ added, ∀ family ∈ families, ∀ reading, family.sample a.2 = some reading →
        P (family.sampleOf a.1 reading) := by
  constructor
  · intro h a ha family hfamily reading hreading
    refine h _ (List.mem_flatMap.2 ⟨family, hfamily, List.mem_filterMap.2 ⟨a, ha, ?_⟩⟩)
    rw [hreading, Option.map_some]
  · intro h sample hsample
    obtain ⟨family, hfamily, hmem⟩ := List.mem_flatMap.1 hsample
    obtain ⟨a, ha, hsome⟩ := List.mem_filterMap.1 hmem
    obtain ⟨reading, hreading, rfl⟩ := Option.map_eq_some_iff.1 hsome
    exact h a ha family hfamily reading hreading

theorem nodup_names_config (config : List Char) :
    (names [("config".toList, config)]).Nodup ∧
      ∀ name, name ≠ "config".toList → name ∉ names [("config".toList, config)] := by
  have hnames : names [("config".toList, config)] = ["config".toList] := by
    rw [names, List.map_singleton]
    rfl
  rw [hnames]
  exact ⟨List.nodup_singleton _, fun name hne hmem ↦ hne (List.mem_singleton.1 hmem)⟩

/-- **When an exposition is faithful.** A reader always finds the samples; their labels have names that
differ exactly when, for each addition, the names that were given are coerced to names that differ, and
to none that a family adds for the status. -/
theorem faithful_iff (clock : Clock) (calls : List Call) :
    Faithful clock calls ↔ ∀ call ∈ calls, call.Distinct := by
  have hread : read ((Exposition.run calls).render clock) = some (samples clock calls) :=
    (reads_render clock calls).read_eq
  have hconfig : ∀ labels (status : ConfigStatus),
      (∀ family ∈ families clock, ∀ reading, family.sample status = some reading →
        NamesDiffer (family.sampleOf labels reading)) ↔ (Call.addWith labels status).Distinct := by
    intro labels status
    rw [forall_namesDiffer_iff (own_families_iff clock status) (exists_sample clock status),
      Call.Distinct]
    refine and_congr_right fun _ ↦ ⟨fun h ↦ ⟨fun hsome ↦ ?_, fun hsome ↦ ?_⟩, ?_⟩
    · obtain ⟨reason, hreason⟩ := Option.isSome_iff_exists.1 hsome
      exact h _ (.inl ⟨reason, hreason, rfl⟩)
    · obtain ⟨failure, hfailure⟩ := Option.isSome_iff_exists.1 hsome
      exact h _ (.inr ⟨failure, hfailure, rfl⟩)
    · rintro ⟨hreason, hkind⟩ label (⟨reason, hsome, rfl⟩ | ⟨failure, hsome, rfl⟩)
      · exact hreason (Option.isSome_iff_exists.2 ⟨reason, hsome⟩)
      · exact hkind (Option.isSome_iff_exists.2 ⟨failure, hsome⟩)
  have hremote : ∀ labels (status : RemoteStatus),
      (∀ family ∈ remoteFamilies clock, ∀ reading, family.sample status = some reading →
        NamesDiffer (family.sampleOf labels reading)) ↔ (Call.addRemoteWith labels status).Distinct := by
    intro labels status
    rw [forall_namesDiffer_iff (own_remoteFamilies_iff clock status) (exists_remoteSample clock status),
      Call.Distinct]
    refine and_congr_right fun _ ↦ ⟨fun h hsome ↦ ?_, ?_⟩
    · obtain ⟨failure, hfailure⟩ := Option.isSome_iff_exists.1 hsome
      exact h _ ⟨failure, hfailure, rfl⟩
    · rintro hkind label ⟨failure, hsome, rfl⟩
      exact hkind (Option.isSome_iff_exists.2 ⟨failure, hsome⟩)
  rw [Faithful, and_iff_right hread]
  simp only [samples, List.mem_append, or_imp, forall_and]
  rw [forall_samples_iff, forall_samples_iff]
  constructor
  · rintro ⟨hconfigs, hremotes⟩ call hcall
    rcases call with ⟨config, status⟩ | ⟨labels, status⟩ | ⟨config, status⟩ | ⟨labels, status⟩
    · trivial
    · exact (hconfig labels status).1
        (hconfigs (labels, status) (List.mem_filterMap.2 ⟨_, hcall, rfl⟩))
    · trivial
    · exact (hremote labels status).1
        (hremotes (labels, status) (List.mem_filterMap.2 ⟨_, hcall, rfl⟩))
  · intro h
    refine ⟨fun a ha ↦ ?_, fun a ha ↦ ?_⟩
    · obtain ⟨call, hcall, hsome⟩ := List.mem_filterMap.1 ha
      rcases call with ⟨config, status⟩ | ⟨labels, status⟩ | ⟨config, status⟩ | ⟨labels, status⟩
      · obtain rfl := Option.some.inj hsome
        obtain ⟨hnodup, hne⟩ := nodup_names_config config
        exact (hconfig _ status).2 ⟨hnodup, fun _ ↦ hne _ (by decide), fun _ ↦ hne _ (by decide)⟩
      · obtain rfl := Option.some.inj hsome
        exact (hconfig labels status).2 (h _ hcall)
      · exact absurd hsome (Option.some_ne_none a).symm
      · exact absurd hsome (Option.some_ne_none a).symm
    · obtain ⟨call, hcall, hsome⟩ := List.mem_filterMap.1 ha
      rcases call with ⟨config, status⟩ | ⟨labels, status⟩ | ⟨config, status⟩ | ⟨labels, status⟩
      · exact absurd hsome (Option.some_ne_none a).symm
      · exact absurd hsome (Option.some_ne_none a).symm
      · obtain rfl := Option.some.inj hsome
        obtain ⟨hnodup, hne⟩ := nodup_names_config config
        exact (hremote _ status).2 ⟨hnodup, fun _ ↦ hne _ (by decide)⟩
      · obtain rfl := Option.some.inj hsome
        exact (hremote labels status).2 (h _ hcall)

/-- A clock that stands still. -/
def stopped : Clock where
  now := 0
  asSecsF64 _ := 0
  threeDecimals _ := "0.000".toList
  threeDecimals_isValue _ := ⟨by decide, by simp [isBlank]⟩

theorem one_lt_generations : 1 < 2 ^ 64 := by decide

/-- One configuration, under two names that differ in a dash. -/
def dashed : List Call :=
  [.addWith [("a-b".toList, ['1']), ("a_b".toList, ['2'])]
    ⟨1, none, none, none, 0, one_lt_generations⟩]

theorem not_faithful_dashed : ¬ Faithful stopped dashed := by
  intro h
  have hconfigs := (forall_samples_iff _ _ NamesDiffer).1 fun sample hsample ↦
    h.2 sample (List.mem_append_left _ hsample)
  have hdiffer := hconfigs _ List.mem_cons_self _ List.mem_cons_self _ rfl
  exact absurd ((namesDiffer_sampleOf_iff _ _ _).1 hdiffer).1 (by decide)

end DynamicConfig.Telemetry
