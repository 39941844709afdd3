import DynamicConfig.Loader.Recover
import DynamicConfig.Tree.Writes

/-!
# A `.env` file and the environment

Two layers read variables: the real environment through figment's `Env`, and a `.env` file through a
provider of the crate's own. Both take the names under the prefix, drop what is blank unless asked
otherwise, and turn what is left of a name into a path. But the file's provider lower-cases a name and
then looks for the separator in it, and `Env` looks for the separator first.

So a separator with letters in it is found by one and not by the other. And where two names spell paths
of which one is at or above the other, the file's variables are written in the order of their names, and
the environment's laid over each other in whatever order the operating system has them. A file over some
names means what exporting its lines means exactly when neither can happen (`meansExporting_iff`).
-/

namespace DynamicConfig.Dotenv

open LabelledTree (insertPaths mergeChains)

/-! ### What is assumed of figment -/

/-- A path, unless a segment of it is empty. -/
def usable (path : String) : Option String :=
  if (segments path).any fun s ↦ decide (s = "") then none else some path

/-- The path `Env` makes of a name: the prefix goes, the separator is replaced, and the rest is
lower-cased. -/
def splitPath (start nest : String) (keep : String → Bool) (name : String) : Option String :=
  (Text.stripPrefixIgnoringCase name start).bind fun rest ↦
    if keep rest then usable (Text.lower (Text.replace rest nest ".")) else none

/-- One variable, laid over the ones before it. -/
def layOver (parse : String → Node) (start nest : String) (keep : String → Bool) (values : Dict)
    (v : String × String) : Dict :=
  match splitPath start nest keep v.1 with
  | some path => LabelledTree.mergeTables values (insertPath [] path (parse v.2))
  | none => values

/-- The variables, laid over each other in the order they are in. -/
def envTable (parse : String → Node) (vars : List (String × String)) (start nest : String)
    (keep : String → Bool) : Dict :=
  vars.foldl (layOver parse start nest keep) []

/-- What is assumed of figment's `Env`: it strips the prefix ignoring case, splits a name before it
lower-cases it, reads a value with the loose parser, and lays the variables over each other. -/
structure ReadsEnv (host : Host) : Prop where
  data_eq : ∀ start keep nest profile, (host.envProvider start keep nest profile).data =
    .ok [(profile, envTable host.parseValue host.vars start nest keep)]

/-- A machine with some variables and nothing else. -/
def exporting (parse : String → Node) (vars : List (String × String)) : Host :=
  { Host.bare with
    vars
    parseValue := parse
    envProvider := fun start keep nest profile ↦
      Provider.table (Metadata.named envSuffix) profile (envTable parse vars start nest keep) }

theorem readsEnv_exporting (parse : String → Node) (vars : List (String × String)) :
    ReadsEnv (exporting parse vars) :=
  ⟨fun _ _ _ _ ↦ rfl⟩

/-- What is assumed of the loose parser: there are two texts it reads as different scalars. -/
def TellsApart (parse : String → Node) : Prop :=
  ∃ a b x y, Text.isBlank a = false ∧ Text.isBlank b = false ∧ parse a = .leaf none x ∧
    parse b = .leaf none y ∧ x ≠ y

/-! ### The two layers -/

/-- A `.env` file over some names contributes what the environment does when its variables are
exported, in whatever order they are there. -/
def MeansExporting (parse : String → Node) (start key nest : String) (allowEmpty : Bool)
    (names : Set String) : Prop :=
  ∀ entries : List (String × String), (entries.map Prod.fst).Pairwise (· < ·) →
    (∀ e ∈ entries, e.1 ∈ names) → ∀ (host : Host) (file : String), host.parseValue = parse →
      ReadsEnv host → host.vars.Perm entries →
        ∃ values exported,
          (dotenvProvider host entries file start key nest allowEmpty).data =
            .ok [(sectionProfile key, values)] ∧
          (environment host start key nest allowEmpty).data = .ok [(sectionProfile key, exported)] ∧
          Dict.SameValues values exported

/-- What a file's variables write. -/
def dotenvWrites (parse : String → Node) (start nest : String) (allowEmpty : Bool)
    (entries : List (String × String)) : List (List String × Node) :=
  entries.filterMap fun e ↦
    (dotenvPath start nest allowEmpty e).map fun path ↦ (segments path, parse e.2)

/-- Whether the environment layer keeps what is left of a name. -/
def keeps (vars : List (String × String)) (start : String) (allowEmpty : Bool) (name : String) : Bool :=
  allowEmpty || !((vars.filter fun v ↦ Text.isBlank v.2).filterMap fun v ↦
    Text.stripPrefixIgnoringCase v.1 start).any fun candidate ↦ Text.eqIgnoreCase candidate name

/-- What the environment's variables lay over each other. -/
def envWrites (parse : String → Node) (start nest : String) (allowEmpty : Bool)
    (vars : List (String × String)) : List (List String × Node) :=
  vars.filterMap fun v ↦
    (splitPath start nest (keeps vars start allowEmpty) v.1).map fun path ↦ (segments path, parse v.2)

theorem data_dotenvProvider (host : Host) (entries : List (String × String))
    (file start key nest : String) (allowEmpty : Bool) :
    (dotenvProvider host entries file start key nest allowEmpty).data =
      .ok [(sectionProfile key,
        insertPaths none [] (dotenvWrites host.parseValue start nest allowEmpty entries))] := by
  rw [dotenvWrites, insertPaths, List.foldl_filterMap]
  refine congrArg (fun values ↦ Except.ok [(sectionProfile key, values)]) ?_
  refine congrArg (fun step ↦ entries.foldl step []) ?_
  funext values e
  rcases dotenvPath start nest allowEmpty e with - | path
  · rfl
  · rfl

theorem root_envTable (parse : String → Node) (vars : List (String × String)) (start nest : String)
    (keep : String → Bool) :
    Dict.root (envTable parse vars start nest keep) = mergeChains none none (vars.filterMap fun v ↦
      (splitPath start nest keep v.1).map fun path ↦ (segments path, parse v.2)) := by
  rw [envTable, mergeChains]
  show _ = List.foldl _ (Dict.root []) _
  generalize ([] : Dict) = values
  induction vars generalizing values with
  | nil => rfl
  | cons v vars ih =>
    rw [List.foldl_cons, ih, layOver, List.filterMap_cons]
    rcases splitPath start nest keep v.1 with - | path
    · rfl
    · show List.foldl _ (Dict.root (LabelledTree.mergeTables _ _)) _ = List.foldl _ _ (_ :: _)
      rw [Dict.root_mergeTables]
      rfl

theorem data_environment {host : Host} (h : ReadsEnv host) (start key nest : String)
    (allowEmpty : Bool) :
    (environment host start key nest allowEmpty).data = .ok [(sectionProfile key,
      envTable host.parseValue host.vars start nest (keeps host.vars start allowEmpty))] :=
  h.data_eq start _ nest (sectionProfile key)

/-- **The property in terms of what is written**: the machine has no further part in it. -/
theorem meansExporting_iff_shown (parse : String → Node) (start key nest : String) (allowEmpty : Bool)
    (names : Set String) :
    MeansExporting parse start key nest allowEmpty names ↔
      ∀ entries : List (String × String), (entries.map Prod.fst).Pairwise (· < ·) →
        (∀ e ∈ entries, e.1 ∈ names) → ∀ vars : List (String × String), vars.Perm entries → ∀ x,
          (Dict.root (insertPaths none [] (dotenvWrites parse start nest allowEmpty entries))).peekAt x =
            (mergeChains none none (envWrites parse start nest allowEmpty vars)).peekAt x := by
  constructor
  · intro h entries hsorted hnames vars hperm x
    obtain ⟨values, exported, hvalues, hexported, hsame⟩ :=
      h entries hsorted hnames (exporting parse vars) "" rfl (readsEnv_exporting parse vars) hperm
    rw [data_dotenvProvider] at hvalues
    rw [data_environment (readsEnv_exporting parse vars)] at hexported
    obtain ⟨-, rfl⟩ := Prod.mk.inj (List.cons.inj (Except.ok.inj hvalues)).1
    obtain ⟨-, rfl⟩ := Prod.mk.inj (List.cons.inj (Except.ok.inj hexported)).1
    have hshown := hsame x
    rw [root_envTable] at hshown
    exact hshown
  · rintro h entries hsorted hnames host file rfl hreads hperm
    refine ⟨_, _, data_dotenvProvider host entries file start key nest allowEmpty,
      data_environment hreads start key nest allowEmpty, fun x ↦ ?_⟩
    rw [root_envTable]
    exact h entries hsorted hnames host.vars hperm x

/-! ### When the names spell the same -/

/-- The path the file's provider makes of a name: the prefix goes, the rest is lower-cased, and the
separator is replaced. -/
def loweredPath (start nest name : String) : Option String :=
  (Text.stripPrefixIgnoringCase name start).bind fun rest ↦
    usable (Text.replace (Text.lower rest) nest ".")

/-- The path `Env` makes of it. -/
def exportedPath (start nest name : String) : Option String := splitPath start nest (fun _ ↦ true) name

/-- Names of which each spells the same path, whether it is lower-cased before or after the separator is
replaced, and no two spell paths of which one is at or above the other. -/
structure PlainNames (start nest : String) (names : Set String) : Prop where
  commutes : ∀ name ∈ names, exportedPath start nest name = loweredPath start nest name
  apart : ∀ name ∈ names, ∀ other ∈ names, name ≠ other → ∀ path path',
    loweredPath start nest name = some path → loweredPath start nest other = some path' →
      ¬ segments path <+: segments path'

theorem dotenvPath_eq (start nest : String) (allowEmpty : Bool) (e : String × String) :
    dotenvPath start nest allowEmpty e =
      if Text.isBlank e.2 && !allowEmpty then none else loweredPath start nest e.1 := by
  rw [dotenvPath, loweredPath]
  rcases Text.stripPrefixIgnoringCase e.1 start with - | rest
  · rw [Option.bind_none, Option.bind_none, ite_self]
  · rw [Option.bind_some, Option.bind_some, usable]

theorem splitPath_eq {start name rest : String} (h : Text.stripPrefixIgnoringCase name start = some rest)
    (nest : String) (keep : String → Bool) :
    splitPath start nest keep name = if keep rest then exportedPath start nest name else none := by
  rw [splitPath, exportedPath, splitPath, h, Option.bind_some, Option.bind_some, if_pos rfl]

/-- What is left of a name matters to the file's provider without its case. -/
theorem loweredPath_eq_of_eqIgnoreCase {start name other rest rest' : String}
    (h : Text.stripPrefixIgnoringCase name start = some rest)
    (h' : Text.stripPrefixIgnoringCase other start = some rest')
    (hsame : Text.eqIgnoreCase rest rest' = true) (nest : String) :
    loweredPath start nest name = loweredPath start nest other := by
  rw [loweredPath, loweredPath, h, h', Option.bind_some, Option.bind_some, of_decide_eq_true hsame]

/-- A name is dropped for a blank variable that is called the same without regard to case. -/
theorem keeps_eq_false {vars : List (String × String)} {start name : String} {allowEmpty : Bool}
    (h : keeps vars start allowEmpty name = false) :
    allowEmpty = false ∧ ∃ v ∈ vars, Text.isBlank v.2 = true ∧
      ∃ rest, Text.stripPrefixIgnoringCase v.1 start = some rest ∧ Text.eqIgnoreCase rest name = true := by
  rw [keeps, Bool.or_eq_false_iff, Bool.not_eq_false', List.any_eq_true] at h
  obtain ⟨hallow, rest, hrest, hsame⟩ := h
  obtain ⟨v, hv, hstrip⟩ := List.mem_filterMap.1 hrest
  obtain ⟨hmem, hblank⟩ := List.mem_filter.1 hv
  exact ⟨hallow, v, hmem, hblank, rest, hstrip, hsame⟩

theorem keeps_of_blank {vars : List (String × String)} {start rest : String} {v : String × String}
    (hv : v ∈ vars) (hblank : Text.isBlank v.2 = true)
    (hstrip : Text.stripPrefixIgnoringCase v.1 start = some rest) :
    keeps vars start false rest = false := by
  rw [keeps, Bool.false_or, Bool.not_eq_false', List.any_eq_true]
  exact ⟨rest, List.mem_filterMap.2 ⟨v, List.mem_filter.2 ⟨hv, hblank⟩, hstrip⟩, decide_eq_true rfl⟩

/-- **A plain name is used by both layers or by none**, and as the same path. -/
theorem PlainNames.splitPath_eq_dotenvPath {start nest : String} {names : Set String}
    (h : PlainNames start nest names) {entries vars : List (String × String)}
    (hnodup : (entries.map Prod.fst).Nodup) (hnames : ∀ e ∈ entries, e.1 ∈ names)
    (hperm : vars.Perm entries) {allowEmpty : Bool} {e : String × String} (he : e ∈ entries) :
    splitPath start nest (keeps vars start allowEmpty) e.1 = dotenvPath start nest allowEmpty e := by
  rw [dotenvPath_eq, ← h.commutes e.1 (hnames e he)]
  rcases hstrip : Text.stripPrefixIgnoringCase e.1 start with - | rest
  · rw [splitPath, exportedPath, splitPath, hstrip, Option.bind_none, Option.bind_none, ite_self]
  · rw [splitPath_eq hstrip]
    by_cases hdropped : (Text.isBlank e.2 && !allowEmpty) = true
    · obtain ⟨hblank, hallow⟩ := Bool.and_eq_true_iff.1 hdropped
      obtain rfl : allowEmpty = false := by simpa using hallow
      rw [if_pos hdropped, keeps_of_blank (hperm.mem_iff.2 he) hblank hstrip, if_neg Bool.false_ne_true]
    · rw [if_neg hdropped]
      rcases hkeeps : keeps vars start allowEmpty rest with - | -
      · -- What drops the name spells the same path, which no other plain name does.
        obtain ⟨hallow, v, hv, hblank, rest', hstrip', hsame⟩ := keeps_eq_false hkeeps
        have hv' := hperm.mem_iff.1 hv
        have hne : v.1 ≠ e.1 := by
          intro heq
          obtain rfl := List.inj_on_of_nodup_map hnodup hv' he heq
          rw [hblank, hallow] at hdropped
          exact hdropped rfl
        have hlowered := loweredPath_eq_of_eqIgnoreCase hstrip' hstrip hsame nest
        rw [if_neg Bool.false_ne_true, h.commutes e.1 (hnames e he)]
        rcases hpath : loweredPath start nest e.1 with - | path
        · rfl
        · exact absurd List.prefix_rfl
            (h.apart v.1 (hnames v hv') e.1 (hnames e he) hne path path (hlowered.trans hpath) hpath)
      · rw [if_pos rfl]

/-! ### Separators without letters -/

theorem toLower_eq_iff {c : Char} (hc : c.isAlpha = false) (d : Char) : d.toLower = c ↔ d = c := by
  have hlower : ∀ {e : Char}, e.isAlpha = false → e.toLower = e := by
    intro e he
    rw [Char.isAlpha, Bool.or_eq_false_iff] at he
    exact Char.toLower_eq_of_not_isUpper (Bool.eq_false_iff.1 he.1)
  constructor
  · rintro rfl
    rw [Char.isAlpha_toLower_eq_isAlpha] at hc
    exact (hlower hc).symm
  · rintro rfl
    exact hlower hc

/-- What no other character becomes is found where it was. -/
theorem prefix_map_iff_of_fixes {f : Char → Char} {p : List Char} (hp : ∀ c ∈ p, ∀ d, f d = c ↔ d = c)
    (s : List Char) : p <+: s.map f ↔ p <+: s := by
  induction p generalizing s with
  | nil => exact ⟨fun _ ↦ List.nil_prefix, fun _ ↦ List.nil_prefix⟩
  | cons c p ih =>
    rcases s with - | ⟨d, s⟩
    · rfl
    · rw [List.map_cons, List.cons_prefix_cons, List.cons_prefix_cons,
        ih (fun c' hc' ↦ hp c' (List.mem_cons_of_mem c hc')), eq_comm,
        hp c List.mem_cons_self d, eq_comm]

/-- Replacing it is the same before and after. -/
theorem replaceGo_map {f : Char → Char} {p w : List Char} (hp : ∀ c ∈ p, ∀ d, f d = c ↔ d = c)
    (hw : w.map f = w) (n : Nat) (s : List Char) :
    Text.replaceGo p w n (s.map f) = (Text.replaceGo p w n s).map f := by
  induction s generalizing n with
  | nil => rfl
  | cons c s ih =>
    rcases n with - | n
    · have hfound := prefix_map_iff_of_fixes hp (c :: s)
      rw [List.map_cons] at hfound ⊢
      rw [Text.replaceGo, Text.replaceGo]
      by_cases h : p <+: c :: s
      · rw [if_pos h, if_pos (hfound.2 h), List.map_append, hw, ih]
      · rw [if_neg h, if_neg (mt hfound.1 h), List.map_cons, ih]
    · exact ih n

/-- **A separator without letters is found before and after lower-casing.** -/
theorem exportedPath_eq_loweredPath {nest : String} (h : ∀ c ∈ nest.toList, c.isAlpha = false)
    (start name : String) : exportedPath start nest name = loweredPath start nest name := by
  have hlower : ∀ rest,
      Text.lower (Text.replace rest nest ".") = Text.replace (Text.lower rest) nest "." := by
    intro rest
    rw [Text.lower, Text.replace, Text.replace, Text.lower, String.toList_ofList]
    split
    · rw [String.toList_ofList, String.toList_ofList, List.map_append, List.map_flatMap,
        List.flatMap_map]
      rfl
    · have hdot : ['.'].map Char.toLower = ['.'] := rfl
      rw [String.toList_ofList, String.toList_ofList,
        replaceGo_map (fun c hc d ↦ toLower_eq_iff (h c hc) d) hdot]
  rw [exportedPath, splitPath, loweredPath]
  refine Option.bind_congr fun rest _ ↦ ?_
  rw [if_pos rfl, hlower]

/-- With such a separator only names at or above one another are in the way. -/
theorem plainNames_iff_of_letterless {nest : String} (h : ∀ c ∈ nest.toList, c.isAlpha = false)
    (start : String) (names : Set String) :
    PlainNames start nest names ↔ ∀ name ∈ names, ∀ other ∈ names, name ≠ other → ∀ path path',
      loweredPath start nest name = some path → loweredPath start nest other = some path' →
        ¬ segments path <+: segments path' :=
  ⟨fun hplain ↦ hplain.apart,
    fun hapart ↦ ⟨fun name _ ↦ exportedPath_eq_loweredPath h start name, hapart⟩⟩

/-! ### Plain names are enough -/

/-- What a file over plain names writes, the environment's variables lay over each other. -/
theorem PlainNames.envWrites_perm {start nest : String} {names : Set String}
    (h : PlainNames start nest names) (parse : String → Node) {entries vars : List (String × String)}
    (hsorted : (entries.map Prod.fst).Pairwise (· < ·)) (hnames : ∀ e ∈ entries, e.1 ∈ names)
    (hperm : vars.Perm entries) (allowEmpty : Bool) :
    (envWrites parse start nest allowEmpty vars).Perm
      (dotenvWrites parse start nest allowEmpty entries) := by
  have hnodup : (entries.map Prod.fst).Nodup := hsorted.imp fun hab ↦ ne_of_lt hab
  have hsame : dotenvWrites parse start nest allowEmpty entries =
      entries.filterMap fun v ↦ (splitPath start nest (keeps vars start allowEmpty) v.1).map fun path ↦
        (segments path, parse v.2) := by
    refine List.filterMap_congr fun e he ↦ ?_
    rw [h.splitPath_eq_dotenvPath hnodup hnames hperm he]
  rw [hsame]
  exact hperm.filterMap _

/-- Nothing that plain names write is at or above anything else they write. -/
theorem PlainNames.separate {start nest : String} {names : Set String}
    (h : PlainNames start nest names) (parse : String → Node) {entries : List (String × String)}
    (hsorted : (entries.map Prod.fst).Pairwise (· < ·)) (hnames : ∀ e ∈ entries, e.1 ∈ names)
    (allowEmpty : Bool) :
    LabelledTree.Separate (dotenvWrites parse start nest allowEmpty entries) := by
  have hspells : ∀ {e w}, (dotenvPath start nest allowEmpty e).map
      (fun path ↦ (segments path, parse e.2)) = some w →
        ∃ path, loweredPath start nest e.1 = some path ∧ segments path = w.1 := by
    intro e w hw
    obtain ⟨path, hpath, rfl⟩ := Option.map_eq_some_iff.1 hw
    rw [dotenvPath_eq] at hpath
    split at hpath
    · cases hpath
    · exact ⟨path, hpath, rfl⟩
  refine List.pairwise_filterMap.2 ((List.pairwise_map.1 hsorted).imp_of_mem ?_)
  intro e other he hother hlt w hw w' hw'
  obtain ⟨path, hpath, hw⟩ := hspells hw
  obtain ⟨path', hpath', hw'⟩ := hspells hw'
  rw [← hw, ← hw']
  exact ⟨h.apart _ (hnames e he) _ (hnames other hother) (ne_of_lt hlt) _ _ hpath hpath',
    h.apart _ (hnames other hother) _ (hnames e he) (ne_of_gt hlt) _ _ hpath' hpath⟩

theorem PlainNames.meansExporting {start nest : String} {names : Set String}
    (h : PlainNames start nest names) (parse : String → Node) (key : String) (allowEmpty : Bool) :
    MeansExporting parse start key nest allowEmpty names := by
  refine (meansExporting_iff_shown parse start key nest allowEmpty names).2 ?_
  intro entries hsorted hnames vars hperm x
  refine (LabelledTree.peekAt_mergeChains_of_perm none none ?_
    (h.separate parse hsorted hnames allowEmpty)
    (h.envWrites_perm parse hsorted hnames hperm allowEmpty) x).symm
  intro w hw
  obtain ⟨e, -, hwrite⟩ := List.mem_filterMap.1 hw
  obtain ⟨path, -, rfl⟩ := Option.map_eq_some_iff.1 hwrite
  exact segments_ne_nil path

/-! ### Other names are not -/

open LabelledTree (touches shownBy peekAt_insertPath_eq peekAt_merge_chain_leaf)

/-- Where no variable is blank, every name is kept. -/
theorem envWrites_of_not_blank {vars : List (String × String)}
    (h : ∀ v ∈ vars, Text.isBlank v.2 = false) (parse : String → Node) (start nest : String)
    (allowEmpty : Bool) :
    envWrites parse start nest allowEmpty vars = vars.filterMap fun v ↦
      (exportedPath start nest v.1).map fun path ↦ (segments path, parse v.2) := by
  have hfilter : (vars.filter fun v ↦ Text.isBlank v.2) = [] := by
    refine List.filter_eq_nil_iff.2 fun v hv ↦ ?_
    rw [h v hv]
    exact Bool.false_ne_true
  have hkeeps : keeps vars start allowEmpty = fun _ ↦ true := by
    funext name
    rw [keeps, hfilter, List.filterMap_nil, List.any_nil, Bool.not_false, Bool.or_true]
  rw [envWrites, hkeeps]
  rfl

/-- One scalar is found at its path, and nowhere else. -/
theorem shown_leaf_iff (p x : List String) (v w : Leaf) :
    (if touches p x then shownBy p (.leaf none v : Node) x else (Dict.root []).peekAt x) =
      some (some w) ↔ x = p ∧ w = v := by
  rw [touches, shownBy]
  by_cases hpx : p <+: x
  · obtain ⟨r, rfl⟩ := hpx
    rw [if_pos (decide_eq_true (Or.inl (List.prefix_append p r))), if_pos (List.prefix_append p r),
      List.drop_left, List.append_right_eq_self]
    rcases r with - | ⟨k, ks⟩
    · exact ⟨fun h ↦ ⟨rfl, (Option.some.inj (Option.some.inj h)).symm⟩, fun h ↦ by rw [h.2]; rfl⟩
    · refine ⟨fun h ↦ ?_, fun h ↦ absurd h.1 (List.cons_ne_nil k ks)⟩
      cases h
  · have hx : x ≠ p := by
      rintro rfl
      exact hpx List.prefix_rfl
    rw [if_neg hpx]
    refine ⟨fun h ↦ ?_, fun h ↦ absurd h.1 hx⟩
    split at h
    · cases h
    · rcases x with - | ⟨k, ks⟩
      · cases h
      · cases h

theorem dotenv_shows_iff {parse : String → Node} {a : String} {v : Leaf}
    (ha : Text.isBlank a = false) (hparse : parse a = .leaf none v) (start nest name path : String)
    (allowEmpty : Bool) :
    (Dict.root (insertPaths none [] (dotenvWrites parse start nest allowEmpty [(name, a)]))).peekAt
      (segments path) = some (some v) ↔ loweredPath start nest name = some path := by
  rw [dotenvWrites, List.filterMap_cons, List.filterMap_nil, dotenvPath_eq, ha, Bool.false_and,
    if_neg Bool.false_ne_true]
  rcases loweredPath start nest name with - | path'
  · obtain ⟨s, ss, hsegments⟩ := List.exists_cons_of_ne_nil (segments_ne_nil path)
    rw [hsegments]
    exact ⟨fun h ↦ absurd h nofun, fun h ↦ absurd h nofun⟩
  · show (Dict.root (insertPaths none [] [(segments path', parse a)])).peekAt _ = _ ↔ _
    rw [hparse, insertPaths, List.foldl_cons, List.foldl_nil]
    rw [Dict.root, peekAt_insertPath_eq none none [] (segments_ne_nil path')]
    refine (shown_leaf_iff (segments path') (segments path) v v).trans ?_
    rw [Option.some_inj]
    exact ⟨fun h ↦ segments_injective h.1.symm, fun h ↦ ⟨by rw [h], rfl⟩⟩

theorem environment_shows_iff {parse : String → Node} {a : String} {v : Leaf}
    (ha : Text.isBlank a = false) (hparse : parse a = .leaf none v) (start nest name path : String)
    (allowEmpty : Bool) :
    (mergeChains none none (envWrites parse start nest allowEmpty [(name, a)])).peekAt
      (segments path) = some (some v) ↔ exportedPath start nest name = some path := by
  have hblank : ∀ e ∈ [(name, a)], Text.isBlank e.2 = false := by
    intro e he
    rw [List.mem_singleton.1 he]
    exact ha
  rw [envWrites_of_not_blank hblank, List.filterMap_cons, List.filterMap_nil]
  rcases exportedPath start nest name with - | path'
  · obtain ⟨s, ss, hsegments⟩ := List.exists_cons_of_ne_nil (segments_ne_nil path)
    rw [hsegments]
    exact ⟨fun h ↦ absurd h nofun, fun h ↦ absurd h nofun⟩
  · show (mergeChains none none [(segments path', parse a)]).peekAt _ = _ ↔ _
    rw [hparse, mergeChains, List.foldl_cons, List.foldl_nil,
      peekAt_merge_chain_leaf none none none _ (segments_ne_nil path')]
    refine (shown_leaf_iff (segments path') (segments path) v v).trans ?_
    rw [Option.some_inj]
    exact ⟨fun h ↦ segments_injective h.1.symm, fun h ↦ ⟨by rw [h], rfl⟩⟩

/-- A file of one variable tells whether its name spells the same path for both layers. -/
theorem MeansExporting.commutes {parse : String → Node} {start key nest : String} {allowEmpty : Bool}
    {names : Set String} (h : MeansExporting parse start key nest allowEmpty names)
    (hparse : TellsApart parse) {name : String} (hname : name ∈ names) :
    exportedPath start nest name = loweredPath start nest name := by
  obtain ⟨a, -, v, -, ha, -, hv, -, -⟩ := hparse
  have hnames : ∀ e ∈ [(name, a)], e.1 ∈ names := by
    intro e he
    rw [List.mem_singleton.1 he]
    exact hname
  refine Option.ext fun path ↦ ?_
  rw [← environment_shows_iff ha hv start nest name path allowEmpty,
    ← dotenv_shows_iff ha hv start nest name path allowEmpty,
    (meansExporting_iff_shown parse start key nest allowEmpty names).1 h [(name, a)]
      (List.pairwise_singleton _ _) hnames _ (List.Perm.refl _)]

theorem touches_below {p x : List String} (h : p <+: x) : touches p x = true :=
  decide_eq_true (Or.inl h)

/-- Of two variables that are laid over each other, the second shows where it writes. -/
theorem environment_shows_last {parse : String → Node} {start nest name other a b p p' : String}
    {v : Leaf} (ha : Text.isBlank a = false) (hb : Text.isBlank b = false)
    (hp : exportedPath start nest name = some p) (hp' : exportedPath start nest other = some p')
    (hparse : parse b = .leaf none v) {x : List String} (hx : touches (segments p') x = true)
    (allowEmpty : Bool) :
    (mergeChains none none (envWrites parse start nest allowEmpty [(name, a), (other, b)])).peekAt x =
      shownBy (segments p') (.leaf none v : Node) x := by
  have hblank : ∀ e ∈ [(name, a), (other, b)], Text.isBlank e.2 = false := by
    intro e he
    rcases List.mem_pair.1 he with rfl | rfl
    · exact ha
    · exact hb
  have hwrites : envWrites parse start nest allowEmpty [(name, a), (other, b)] =
      [(segments p, parse a), (segments p', .leaf none v)] := by
    rw [envWrites_of_not_blank hblank, List.filterMap_cons, hp, List.filterMap_cons, hp', hparse]
    rfl
  rw [hwrites, mergeChains, List.foldl_cons, List.foldl_cons, List.foldl_nil,
    peekAt_merge_chain_leaf none none none _ (segments_ne_nil p'), if_pos hx]

/-- A file of two variables tells whether the order they are listed in shows. -/
theorem MeansExporting.apart {parse : String → Node} {start key nest : String} {allowEmpty : Bool}
    {names : Set String} (h : MeansExporting parse start key nest allowEmpty names)
    (hparse : TellsApart parse) {name other : String} (hname : name ∈ names) (hother : other ∈ names)
    (hne : name ≠ other) {path path' : String} (hpath : loweredPath start nest name = some path)
    (hpath' : loweredPath start nest other = some path') : ¬ segments path <+: segments path' := by
  intro hprefix
  rw [← h.commutes hparse hname] at hpath
  rw [← h.commutes hparse hother] at hpath'
  obtain ⟨a, b, v, w, ha, hb, hv, hw, hvw⟩ := hparse
  obtain ⟨entries, hsorted, hperm⟩ : ∃ entries : List (String × String),
      (entries.map Prod.fst).Pairwise (· < ·) ∧ [(name, a), (other, b)].Perm entries := by
    rcases lt_or_gt_of_ne hne with hlt | hlt
    · exact ⟨[(name, a), (other, b)], List.pairwise_pair.2 hlt, List.Perm.refl _⟩
    · exact ⟨[(other, b), (name, a)], List.pairwise_pair.2 hlt, List.Perm.swap _ _ []⟩
  have hnames : ∀ e ∈ entries, e.1 ∈ names := by
    intro e he
    rcases List.mem_pair.1 (hperm.mem_iff.2 he) with rfl | rfl
    · exact hname
    · exact hother
  have hshown := (meansExporting_iff_shown parse start key nest allowEmpty names).1 h entries hsorted
    hnames
  have hperm' : [(other, b), (name, a)].Perm entries :=
    (List.Perm.swap (name, a) (other, b) []).trans hperm
  have hfirst : shownBy (segments path') (.leaf none w : Node) (segments path') = some (some w) := by
    rw [shownBy, if_pos List.prefix_rfl, List.drop_length]
    rfl
  -- Listed last, the variable below shows its own value; listed first, the one above covers it.
  have hsame : shownBy (segments path) (.leaf none v : Node) (segments path') = some (some w) := by
    rw [← hfirst,
      ← environment_shows_last ha hb hpath hpath' hw (touches_below List.prefix_rfl) allowEmpty,
      ← environment_shows_last hb ha hpath' hpath hv (touches_below hprefix) allowEmpty,
      ← hshown _ hperm, ← hshown _ hperm']
  refine hvw ((shown_leaf_iff (segments path) (segments path') v w).1 ?_).2.symm
  rw [if_pos (touches_below hprefix), hsame]

/-- **A file means what exporting its lines means, for plain names only.** -/
theorem meansExporting_iff {parse : String → Node} (hparse : TellsApart parse)
    (start key nest : String) (allowEmpty : Bool) (names : Set String) :
    MeansExporting parse start key nest allowEmpty names ↔ PlainNames start nest names := by
  constructor
  · intro h
    exact ⟨fun name hname ↦ h.commutes hparse hname,
      fun name hname other hother hne path path' hpath hpath' ↦
        h.apart hparse hname hother hne hpath hpath'⟩
  · intro h
    exact h.meansExporting parse key allowEmpty

theorem tellsApart_text : TellsApart Node.text :=
  ⟨"x", "y", .scalar (.string "x"), .scalar (.string "y"), by decide, by decide, rfl, rfl,
    fun h ↦ absurd (Scalar.string.inj (Leaf.scalar.inj h)) (by decide)⟩

/-- One name is plain by itself. -/
theorem meansExporting_host :
    TellsApart Node.text ∧ MeansExporting Node.text "APP_" "db" "__" false {"APP_HOST"} := by
  refine ⟨tellsApart_text, (meansExporting_iff tellsApart_text "APP_" "db" "__" false {"APP_HOST"}).2
    ⟨?_, ?_⟩⟩
  · rintro name rfl
    rw [exportedPath, loweredPath, splitPath]
    decide
  · rintro name rfl other rfl hne
    exact absurd rfl hne

/-- With a letter for a separator, the file's provider lower-cases the name out of its reach: the file
spells `axb`, and the environment `a.b`. -/
theorem not_meansExporting_letter :
    ¬ ∀ (parse : String → Node) (start key nest : String) (allowEmpty : Bool) (names : Set String),
      TellsApart parse → MeansExporting parse start key nest allowEmpty names := by
  intro h
  have hcommutes := (h Node.text "APP_" "db" "X" false {"APP_aXb"} tellsApart_text).commutes
    tellsApart_text (Set.mem_singleton "APP_aXb")
  revert hcommutes
  rw [exportedPath, loweredPath, splitPath]
  decide

end DynamicConfig.Dotenv
