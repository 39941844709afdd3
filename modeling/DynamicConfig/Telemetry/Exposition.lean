import DynamicConfig.Prometheus.Text
import DynamicConfig.Remote.Slot
import DynamicConfig.Server.Endpoints

/-!
# The exposition

The statuses of configurations and of remote sources, as Prometheus text. A caller's labels are
rendered once, when a status is added; a family then writes one sample for each status that has
something to say of it, the caller's labels first and one of the family's own behind them.

The text is read back to exactly those samples, whatever the labels are (`reads_render`). What is not
kept is that the names of a sample's labels differ: a name is coerced, and two may be coerced to one.
-/

namespace DynamicConfig.Telemetry

open Prometheus
open Server (ConfigStatus reasonAsStr kindAsStr)
open Remote (RemoteStatus)

/-- A caller's labels: names and values. -/
abbrev Labels := List (List Char × List Char)

/-! ### Labels -/

/-- A label's name, coerced. -/
def pushLabelName (out name : List Char) : List Char :=
  let pushed := name.map fun c ↦ if c.isAlphanum || c == '_' then c else '_'
  out ++ match pushed with
    | [] => ['_']
    | first :: rest => if first.isDigit then '_' :: first :: rest else first :: rest

/-- One character of a label's value. -/
def escape (c : Char) : List Char :=
  if c = '\\' then ['\\', '\\']
  else if c = '"' then ['\\', '"']
  else if c = '\n' then ['\\', 'n']
  else [c]

/-- A label's value, escaped. -/
def pushLabelValue (out value : List Char) : List Char := out ++ value.flatMap escape

def renderLabels (labels : Labels) : List Char :=
  labels.foldl (fun rendered label ↦
    let rendered := if rendered = [] then rendered else rendered ++ [',']
    let rendered := pushLabelName rendered label.1 ++ ['=', '"']
    pushLabelValue rendered label.2 ++ ['"']) []

/-- The caller's labels and a family's own, either of which may be empty. -/
def join (left right : List Char) : List Char :=
  if left = [] then right
  else if right = [] then left
  else left ++ ',' :: right

example : pushLabelName [] "9-lives".toList = "_9_lives".toList := by decide

/-- What a label's name is coerced to. -/
def coerced (name : List Char) : List Char := pushLabelName [] name

theorem pushLabelName_eq (out name : List Char) : pushLabelName out name = out ++ coerced name := rfl

/-- **What a name is coerced to is one.** -/
theorem isLabelName_coerced (name : List Char) : IsLabelName (coerced name) := by
  have hkept : ∀ c ∈ name.map fun c ↦ if c.isAlphanum || c == '_' then c else '_',
      isLabelChar c = true := by
    intro c hc
    obtain ⟨d, -, rfl⟩ := List.mem_map.1 hc
    split
    · assumption
    · rfl
  rw [coerced, pushLabelName, List.nil_append]
  generalize name.map (fun c ↦ if c.isAlphanum || c == '_' then c else '_') = pushed at hkept
  rcases pushed with - | ⟨first, rest⟩
  · exact ⟨'_', [], rfl, by decide, fun d hd ↦ absurd hd List.not_mem_nil⟩
  · have hrest : ∀ d ∈ rest, isLabelChar d = true := fun d hd ↦
      hkept d (List.mem_cons_of_mem first hd)
    have hfirst := hkept first List.mem_cons_self
    dsimp only
    split
    · exact ⟨'_', first :: rest, rfl, by decide, hkept⟩
    · rename_i hdigit
      refine ⟨first, rest, rfl, ?_, hrest⟩
      rw [isLabelChar, Char.isAlphanum, Bool.eq_false_iff.2 hdigit, Bool.or_false] at hfirst
      exact hfirst

/-- **A value is read back**, whatever it is. -/
theorem quotes_escape (value : List Char) : Quotes (value.flatMap escape) value := by
  intro rest
  induction value with
  | nil => exact unescape_nil rest
  | cons c cs ih =>
    rw [List.flatMap_cons, List.append_assoc, escape]
    split
    · subst c
      show unescape false ('\\' :: '\\' :: (cs.flatMap escape ++ '"' :: rest)) = _
      rw [unescape_escaped (.inl rfl), ih]
      rfl
    · rename_i hslash
      split
      · subst c
        show unescape false ('\\' :: '"' :: (cs.flatMap escape ++ '"' :: rest)) = _
        rw [unescape_escaped (.inr rfl), ih]
        rfl
      · rename_i hquote
        split
        · subst c
          show unescape false ('\\' :: 'n' :: (cs.flatMap escape ++ '"' :: rest)) = _
          rw [unescape_lineFeed, ih]
          rfl
        · show unescape false (c :: (cs.flatMap escape ++ '"' :: rest)) = _
          rw [unescape_plain hquote hslash, ih]
          rfl

/-- No value ends a line. -/
theorem newline_notMem_escape (value : List Char) : '\n' ∉ value.flatMap escape := by
  intro hmem
  obtain ⟨c, -, hc⟩ := List.mem_flatMap.1 hmem
  revert hc
  rw [escape]
  split
  · decide
  · split
    · decide
    · split
      · decide
      · rename_i hne
        intro hc
        exact hne (List.mem_singleton.1 hc).symm

/-- The text of one of a caller's labels. -/
def callerText (label : List Char × List Char) : List Char :=
  labelText (coerced label.1) (label.2.flatMap escape)

theorem callerText_ne_nil (label : List Char × List Char) : callerText label ≠ [] := by
  rw [callerText, labelText]
  exact List.append_ne_nil_of_right_ne_nil _ (List.cons_ne_nil _ _)

theorem renderLabels_eq (labels : Labels) : renderLabels labels = labelsText (labels.map callerText) := by
  -- Behind a label each of the others has its comma.
  have hbehind : ∀ (labels : Labels) (rendered : List Char), rendered ≠ [] →
      labels.foldl (fun rendered label ↦
        let rendered := if rendered = [] then rendered else rendered ++ [',']
        let rendered := pushLabelName rendered label.1 ++ ['=', '"']
        pushLabelValue rendered label.2 ++ ['"']) rendered =
      rendered ++ (labels.map callerText).flatMap (',' :: ·) := by
    intro labels
    induction labels with
    | nil =>
      intro rendered _
      exact (List.append_nil rendered).symm
    | cons label labels ih =>
      intro rendered hrendered
      rw [List.foldl_cons, if_neg hrendered, ih _ (by simp [pushLabelValue])]
      simp [pushLabelValue, pushLabelName_eq, callerText, labelText]
  rcases labels with - | ⟨label, labels⟩
  · rfl
  · rw [renderLabels, List.foldl_cons, if_pos rfl, hbehind _ _ (by simp [pushLabelValue]),
      List.map_cons, labelsText_cons]
    simp [pushLabelValue, pushLabelName_eq, callerText, labelText]

/-! ### Families -/

/-- The clock, and how a number of seconds is written. -/
structure Clock extends Server.Clock where
  /-- `format!("{:.3}", …)`, of a float's bits. -/
  threeDecimals : UInt64 → List Char
  threeDecimals_isValue : ∀ bits, IsValue (threeDecimals bits)

/-- What a family says of a status: a label of its own, if it has one, and a value. -/
structure Reading where
  own : Option (List Char × List Char)
  value : List Char
  own_isLabel : ∀ label ∈ own, IsLabelName label.1 ∧ ∀ c ∈ label.2, c ≠ '"' ∧ c ≠ '\\' ∧ c ≠ '\n'
  value_isValue : IsValue value

theorem isValue_toDigits (n : ℕ) : IsValue (Nat.toDigits 10 n) where
  ne_nil := Nat.toDigits_ne_nil
  plain c hc := by
    have hdigit := Nat.isDigit_of_mem_toDigits (by decide) (by decide) hc
    have hne : ∀ d : Char, d.isDigit = false → c ≠ d := by
      rintro d hd rfl
      rw [hd] at hdigit
      exact Bool.false_ne_true hdigit
    refine ⟨?_, hne _ (by decide), hne _ (by decide)⟩
    rw [isBlank, beq_false_of_ne (hne ' ' (by decide)), beq_false_of_ne (hne '\t' (by decide))]
    rfl

/-- A count. -/
def Reading.count (n : ℕ) : Reading where
  own := none
  value := Nat.toDigits 10 n
  own_isLabel _ h := absurd h (Option.not_mem_none _)
  value_isValue := isValue_toDigits n

/-- A duration. -/
def Reading.seconds (clock : Clock) (elapsed : ℕ) : Reading where
  own := none
  value := clock.threeDecimals (clock.asSecsF64 elapsed)
  own_isLabel _ h := absurd h (Option.not_mem_none _)
  value_isValue := clock.threeDecimals_isValue _

/-- The `1` of a family whose label is what it says: why a snapshot was installed. -/
def Reading.reason (reason : Lifecycle.ReloadReason) : Reading where
  own := some ("reason".toList, (reasonAsStr reason).toList)
  value := ['1']
  own_isLabel label h := by
    obtain rfl := Option.mem_some_iff.1 h
    exact ⟨isLabelName_of_all (by decide), by rcases reason <;> simp [reasonAsStr]⟩
  value_isValue := isValue_toDigits 1

/-- And the category of a failure. -/
def Reading.kind (kind : ErrorKind) : Reading where
  own := some ("kind".toList, (kindAsStr kind).toList)
  value := ['1']
  own_isLabel label h := by
    obtain rfl := Option.mem_some_iff.1 h
    exact ⟨isLabelName_of_all (by decide), by rcases kind <;> simp [kindAsStr]⟩
  value_isValue := isValue_toDigits 1

@[simp] theorem Reading.own_count (n : ℕ) : (Reading.count n).own = none := rfl

@[simp] theorem Reading.own_seconds (clock : Clock) (elapsed : ℕ) :
    (Reading.seconds clock elapsed).own = none := rfl

@[simp] theorem Reading.own_reason (reason : Lifecycle.ReloadReason) :
    (Reading.reason reason).own = some ("reason".toList, (reasonAsStr reason).toList) := rfl

@[simp] theorem Reading.own_kind (kind : ErrorKind) :
    (Reading.kind kind).own = some ("kind".toList, (kindAsStr kind).toList) := rfl

/-- The text of a family's own label. -/
def Reading.extra (reading : Reading) : List Char :=
  match reading.own with
  | none => []
  | some label => labelText label.1 label.2

/-- A metric family, over the statuses it reads. -/
structure Family (σ : Type) where
  name : String
  kind : String
  help : String
  sample : σ → Option Reading
  name_isMetricName : IsMetricName name.toList
  oneLine : '\n' ∉ kind.toList ++ help.toList

/-- A name that is written out is checked character by character, and its bytes are never decoded. -/
theorem isMetricName_ofList {c : Char} {cs : List Char}
    (h : (isMetricStart c && cs.all isMetricChar) = true) :
    IsMetricName (String.ofList (c :: cs)).toList := by
  rw [String.toList_ofList]
  exact isMetricName_of_all h

/-- And so are a kind and a help text. -/
theorem oneLine_ofList {kind help : List Char} (h : '\n' ∉ kind ++ help) :
    '\n' ∉ (String.ofList kind).toList ++ (String.ofList help).toList := by
  rw [String.toList_ofList, String.toList_ofList]
  exact h

/-- What was added: rendered labels, and the status they are of. -/
structure Entry (σ : Type) where
  labels : List Char
  status : σ

/-- A family's header and its samples, or nothing at all. -/
def writeFamily (name kind help : String) (samples : List (List Char × List Char)) : List Char :=
  if samples = [] then []
  else
    ("# HELP ".toList ++ name.toList ++ ' ' :: help.toList ++ ['\n']) ++
    ("# TYPE ".toList ++ name.toList ++ ' ' :: kind.toList ++ ['\n']) ++
    samples.flatMap fun sample ↦ sampleLine name.toList sample.1 sample.2 ++ ['\n']

/-- One metric family: a sample for each entry that has one. -/
def family {σ : Type} (entries : List (Entry σ)) (family : Family σ) : List Char :=
  let samples := entries.filterMap fun entry ↦
    (family.sample entry.status).map fun reading ↦ (join entry.labels reading.extra, reading.value)
  writeFamily family.name family.kind family.help samples

/-- The families a `ConfigStatus` renders as, in order. -/
def families (clock : Clock) : List (Family ConfigStatus) := [
  { name := "dynamic_config_installs_total"
    kind := "counter"
    help := "Configuration snapshots installed since the process started."
    sample := fun status ↦ some (.count status.generation)
    name_isMetricName := isMetricName_ofList (by decide)
    oneLine := oneLine_ofList (by decide) },
  { name := "dynamic_config_last_success_seconds"
    kind := "gauge"
    help := "Seconds since the serving configuration snapshot was installed."
    sample := fun status ↦ (status.staleFor clock.toClock).map (.seconds clock)
    name_isMetricName := isMetricName_ofList (by decide)
    oneLine := oneLine_ofList (by decide) },
  { name := "dynamic_config_consecutive_failures"
    kind := "gauge"
    help := "Reloads that installed nothing since one did; zero is healthy."
    sample := fun status ↦ some (.count status.consecutiveFailures)
    name_isMetricName := isMetricName_ofList (by decide)
    oneLine := oneLine_ofList (by decide) },
  { name := "dynamic_config_last_failure_seconds"
    kind := "gauge"
    help := "Seconds since the last reload that installed nothing."
    sample := fun status ↦ status.lastFailure.map fun failure ↦
      .seconds clock (clock.now - failure.at_)
    name_isMetricName := isMetricName_ofList (by decide)
    oneLine := oneLine_ofList (by decide) },
  { name := "dynamic_config_last_reload_info"
    kind := "gauge"
    help := "Why the serving snapshot was installed; always 1."
    sample := fun status ↦ status.lastReason.map .reason
    name_isMetricName := isMetricName_ofList (by decide)
    oneLine := oneLine_ofList (by decide) },
  { name := "dynamic_config_last_failure_info"
    kind := "gauge"
    help := "The category of the last reload that installed nothing; always 1."
    sample := fun status ↦ status.lastFailure.map fun failure ↦ .kind failure.kind
    name_isMetricName := isMetricName_ofList (by decide)
    oneLine := oneLine_ofList (by decide) }]

/-- Whether the store answered the last time it was asked, if it was. -/
def reachable (status : RemoteStatus) : Option Bool :=
  if status.fetches = 0 ∧ status.consecutiveFailures = 0 then none
  else some (status.consecutiveFailures == 0)

/-- The families a `RemoteStatus` renders as, in order. -/
def remoteFamilies (clock : Clock) : List (Family RemoteStatus) := [
  { name := "dynamic_config_remote_up"
    kind := "gauge"
    help := "Whether the remote store answered the last time it was asked; absent until it has been."
    sample := fun status ↦ (reachable status).map fun up ↦ .count up.toNat
    name_isMetricName := isMetricName_ofList (by decide)
    oneLine := oneLine_ofList (by decide) },
  { name := "dynamic_config_remote_fetches_total"
    kind := "counter"
    help := "Documents a remote store has handed over since the process started."
    sample := fun status ↦ some (.count status.fetches)
    name_isMetricName := isMetricName_ofList (by decide)
    oneLine := oneLine_ofList (by decide) },
  { name := "dynamic_config_remote_last_fetch_seconds"
    kind := "gauge"
    help := "Seconds since a remote store last handed a document over."
    sample := fun status ↦ status.lastFetch.map fun at_ ↦ .seconds clock (clock.now - at_)
    name_isMetricName := isMetricName_ofList (by decide)
    oneLine := oneLine_ofList (by decide) },
  { name := "dynamic_config_remote_last_fetch_duration_seconds"
    kind := "gauge"
    help := "How long the last pulled fetch took, in seconds."
    sample := fun status ↦ status.lastFetchDuration.map (.seconds clock)
    name_isMetricName := isMetricName_ofList (by decide)
    oneLine := oneLine_ofList (by decide) },
  { name := "dynamic_config_remote_consecutive_failures"
    kind := "gauge"
    help := "Fetches that returned nothing since one returned a document; zero is healthy."
    sample := fun status ↦ some (.count status.consecutiveFailures)
    name_isMetricName := isMetricName_ofList (by decide)
    oneLine := oneLine_ofList (by decide) },
  { name := "dynamic_config_remote_last_failure_info"
    kind := "gauge"
    help := "The category of the last fetch that returned nothing; always 1."
    sample := fun status ↦ status.lastFailure.map fun failure ↦ .kind failure.kind
    name_isMetricName := isMetricName_ofList (by decide)
    oneLine := oneLine_ofList (by decide) }]

/-! ### The exposition -/

/-- What was added, in order. -/
structure Exposition where
  entries : List (Entry ConfigStatus)
  remotes : List (Entry RemoteStatus)

namespace Exposition

/-- An empty exposition. -/
def new : Exposition := ⟨[], []⟩

/-- Adds one configuration, under labels of the caller's choosing. -/
def addWith (labels : Labels) (status : ConfigStatus) (exposition : Exposition) : Exposition :=
  { exposition with entries := exposition.entries ++ [⟨renderLabels labels, status⟩] }

/-- Adds one configuration, labelled `config="…"`. -/
def add (config : List Char) (status : ConfigStatus) (exposition : Exposition) : Exposition :=
  exposition.addWith [("config".toList, config)] status

/-- Adds one remote source, under labels of the caller's choosing. -/
def addRemoteWith (labels : Labels) (status : RemoteStatus) (exposition : Exposition) : Exposition :=
  { exposition with remotes := exposition.remotes ++ [⟨renderLabels labels, status⟩] }

/-- Adds one remote source, labelled `config="…"`. -/
def addRemote (config : List Char) (status : RemoteStatus) (exposition : Exposition) : Exposition :=
  exposition.addRemoteWith [("config".toList, config)] status

/-- The exposition, as a text body. -/
def render (clock : Clock) (exposition : Exposition) : List Char :=
  (families clock).flatMap (family exposition.entries) ++
    (remoteFamilies clock).flatMap (family exposition.remotes)

end Exposition

end DynamicConfig.Telemetry
