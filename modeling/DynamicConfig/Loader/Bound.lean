import DynamicConfig.Loader.Aliases
import DynamicConfig.Loader.Recover
import DynamicConfig.Stores.Documents

/-!
# Which occurrence a bound variable takes

A binding names one variable. The real environment is asked first, and a blank value there counts as
none; then the `.env` files, of which a later one wins. The files are laid over each other before
anything is asked, so the value they come to is the one of the last file that mentions the variable
(`lookup_folded`), and only then is a blank value dropped.

So a blank line in a later file hides a value in an earlier one. The binding takes the occurrence that
is both set and of the highest precedence exactly when the last file to mention the variable does not
leave it blank, or nothing depends on it (`takes_highest_iff`). The `.env` layer, which merges file by
file, has no such case.
-/

namespace DynamicConfig

/-! ### What the files come to -/

/-- The variables of some files, each file laid over the ones before it. -/
def folded (files : List (List (String × String))) : List (String × String) :=
  files.foldl (fun entries new ↦ new.foldl (fun entries e ↦ insertOrdered e.1 e.2 entries) entries) []

/-- A file's variables are kept in order. -/
theorem pairwise_parseDotenv {lines : List (List Char)} {number : Nat}
    {entries parsed : List (String × String)} (h : (entries.map Prod.fst).Pairwise (· < ·))
    (hparse : parseDotenv number entries lines = .ok parsed) :
    (parsed.map Prod.fst).Pairwise (· < ·) := by
  induction lines generalizing number entries with
  | nil =>
    rw [parseDotenv] at hparse
    exact Except.ok.inj hparse ▸ h
  | cons line rest ih =>
    rw [parseDotenv] at hparse
    dsimp only at hparse
    split at hparse
    · exact ih h hparse
    · split at hparse
      · cases hparse
      · split at hparse
        · cases hparse
        · exact ih (pairwise_insertOrdered h) hparse

theorem pairwise_readDotenv {host : Host} {path : String} {entries : List (String × String)}
    (h : readDotenv host path = .ok entries) : (entries.map Prod.fst).Pairwise (· < ·) := by
  rw [readDotenv] at h
  split at h
  · cases h
  · exact Except.ok.inj h ▸ List.Pairwise.nil
  · split at h
    · next parsed hparse =>
      exact Except.ok.inj h ▸ pairwise_parseDotenv List.Pairwise.nil hparse
    · cases h

/-- A file laid over others decides the variables it mentions. -/
theorem lookup_foldl_insertOrdered {new : List (String × String)}
    (h : (new.map Prod.fst).Pairwise (· < ·)) (entries : List (String × String)) (name : String) :
    (new.foldl (fun entries e ↦ insertOrdered e.1 e.2 entries) entries).lookup name =
      (new.lookup name).or (entries.lookup name) := by
  have hput : (fun (entries : List (String × String)) (e : String × String) ↦
      insertOrdered e.1 e.2 entries) = fun entries e ↦ Entries.put e.1 e.2 entries := by
    funext entries e
    exact insertOrdered_eq_put e.1 e.2 entries
  rw [hput, Entries.lookup_foldl_put, Entries.lookup_reverse (Entries.nodup_of_pairwise h)]

/-- **The files come to the last mention.** -/
theorem lookup_folded {files : List (List (String × String))}
    (h : ∀ file ∈ files, (file.map Prod.fst).Pairwise (· < ·)) (name : String) :
    (folded files).lookup name = (files.filterMap fun file ↦ file.lookup name).getLast? := by
  induction files using List.reverseRecOn with
  | nil => rfl
  | append_singleton files file ih =>
    have hlast := h file (List.mem_append_right _ (List.mem_singleton_self file))
    have hfiles := ih fun f hf ↦ h f (List.mem_append_left _ hf)
    rw [folded, List.foldl_append, List.foldl_cons, List.foldl_nil,
      lookup_foldl_insertOrdered hlast, List.filterMap_append, List.getLast?_append]
    rcases hname : file.lookup name with - | text
    · have hnone : [file].filterMap (fun file ↦ file.lookup name) = [] := by
        rw [List.filterMap_cons_none hname, List.filterMap_nil]
      rw [hnone]
      exact hfiles
    · have hsome : [file].filterMap (fun file ↦ file.lookup name) = [text] := by
        rw [List.filterMap_cons_some hname, List.filterMap_nil]
      rw [hsome]
      rfl

/-- Reading the files one by one into what came before is reading them all first. -/
theorem foldlM_read_eq {ε α β : Type} (read : String → Except ε α) (step : β → α → β)
    (files : List String) (start : β) :
    files.foldlM (fun acc file ↦ do
      let new ← read file
      .ok (step acc new)) start =
      (files.mapM read).map fun news ↦ news.foldl step start := by
  induction files generalizing start with
  | nil => rfl
  | cons file files ih =>
    rw [List.foldlM_cons, List.mapM_cons]
    rcases read file with e | new
    · rfl
    · show List.foldlM _ (step start new) files = _
      rw [ih]
      rcases files.mapM read with e | news
      · rfl
      · rfl

/-- What a binding falls back to is what the files come to. -/
theorem envFileEntries_eq {host : Host} {spec : LoadSpec} {bindings : EnvBindings}
    {fallback : List (String × String)} (hbindings : spec.envBindings = some bindings)
    (hbound : bindings.entries ≠ []) (h : envFileEntries host spec = .ok fallback) :
    ∃ files, spec.envFiles.mapM (readDotenv host) = .ok files ∧ fallback = folded files := by
  have hnotEmpty : bindings.entries.isEmpty = false := by
    rw [List.isEmpty_eq_false_iff]
    exact hbound
  rw [envFileEntries, hbindings] at h
  simp only [hnotEmpty, Bool.not_false, Bool.not_true, Bool.or_false] at h
  split at h
  · next hnone =>
    rw [List.isEmpty_iff.1 hnone]
    exact ⟨[], rfl, (Except.ok.inj h).symm⟩
  · rw [foldlM_read_eq] at h
    rcases hread : spec.envFiles.mapM (readDotenv host) with e | files
    · rw [hread] at h
      cases h
    · rw [hread] at h
      exact ⟨files, rfl, (Except.ok.inj h).symm⟩

/-! ### What a binding takes -/

/-- Whether a text is worth taking, where a blank one is not. -/
def usable (text : String) : Bool := !Text.isBlank text

/-- The occurrence of a variable that is set, not blank and of the highest precedence: the real
environment's, or else the last file's that has one. -/
def highest (host : Host) (files : List (List (String × String))) (name : String) :
    Option String :=
  ((host.var name).filter usable).or
    (files.reverse.findSome? fun file ↦ (file.lookup name).filter usable)

/-- What a binding contributes for what its variable is taken to be. -/
def boundTable (host : Host) (path : String) : Option String → Dict
  | some text => insertPath [] path (host.parseValue text)
  | none => []

/-- Nothing a file says of a variable is hidden by a later file that leaves it blank: the environment
has the variable, or the last file to mention it does not leave it blank, or every one does. -/
def NothingHidden (host : Host) (files : List (List (String × String))) (name : String) : Prop :=
  (∃ text, host.var name = some text ∧ Text.isBlank text = false) ∨
    (∀ text, (files.filterMap fun file ↦ file.lookup name).getLast? = some text →
      Text.isBlank text = false) ∨
    ∀ file ∈ files, ∀ text, file.lookup name = some text → Text.isBlank text = true

variable {host : Host} {files : List (List (String × String))} {name : String}

/-- What the variable is taken to be. -/
theorem resolveVariable_eq (fallback : List (String × String)) :
    resolveVariable host name false fallback =
      (((host.var name).filter usable).or ((fallback.lookup name).filter usable)).map
        host.parseValue := by
  have husable : (fun text ↦ false || !Text.isBlank text) = usable := by
    funext text
    exact Bool.false_or _
  rw [resolveVariable, husable]
  rcases henv : (host.var name).filter usable with - | text
  · rw [Option.none_or, Option.none_or]
    rcases fallback.lookup name with - | text
    · rfl
    · dsimp only
      rcases hblank : Text.isBlank text with - | -
      · rw [Option.filter_some_pos (by rw [usable, hblank]; rfl)]
        rfl
      · rw [Option.filter_some_neg (by simp [usable, hblank])]
        rfl
  · have hfine : Text.isBlank text = false := by
      have := (Option.filter_eq_some_iff.1 henv).2
      rw [usable, Bool.not_eq_true'] at this
      exact this
    rw [Option.some_or, Option.some_or]
    dsimp only
    rw [hfine]
    rfl

theorem usable_eq_true_iff {text : String} : usable text = true ↔ Text.isBlank text = false := by
  rw [usable, Bool.not_eq_true']

/-- The last of some values, if usable, is the last usable one, exactly where it is usable or none
is. -/
theorem filter_getLast?_eq_iff (values : List String) :
    values.getLast?.filter usable = (values.filter usable).getLast? ↔
      (∀ text, values.getLast? = some text → Text.isBlank text = false) ∨
        ∀ text ∈ values, Text.isBlank text = true := by
  rcases List.eq_nil_or_concat values with rfl | ⟨front, last, rfl⟩
  · exact iff_of_true rfl (Or.inr fun text h ↦ absurd h List.not_mem_nil)
  · have hlast : (front ++ [last]).getLast? = some last := List.getLast?_concat
    rw [List.concat_eq_append, hlast, List.filter_append]
    rcases hblank : Text.isBlank last with - | -
    · have husable := usable_eq_true_iff.2 hblank
      refine iff_of_true ?_ (Or.inl fun text htext ↦ Option.some.inj htext ▸ hblank)
      rw [List.filter_cons_of_pos husable, List.filter_nil, List.getLast?_concat,
        Option.filter_some_pos husable]
    · have hunusable : ¬ usable last = true := fun h ↦ by
        rw [usable_eq_true_iff, hblank] at h
        exact Bool.false_ne_true h.symm
      rw [List.filter_cons_of_neg hunusable, List.filter_nil, List.append_nil,
        Option.filter_some_neg (Bool.eq_false_iff.2 hunusable), eq_comm, List.getLast?_eq_none_iff,
        List.filter_eq_nil_iff]
      constructor
      · refine fun hfront ↦ Or.inr fun text htext ↦ ?_
        rcases List.mem_append.1 htext with hmem | hmem
        · by_contra hne
          exact hfront text hmem (usable_eq_true_iff.2 (Bool.eq_false_iff.2 hne))
        · exact List.mem_singleton.1 hmem ▸ hblank
      · rintro (hnot | hall) text hmem husable
        · have hfalse := hnot last rfl
          rw [hblank] at hfalse
          exact Bool.false_ne_true hfalse.symm
        · have htrue := hall text (List.mem_append_left _ hmem)
          rw [usable_eq_true_iff.1 husable] at htrue
          exact Bool.false_ne_true htrue

/-- What a variable is taken to be is its highest occurrence exactly where nothing is hidden. -/
theorem taken_eq_highest_iff (h : ∀ file ∈ files, (file.map Prod.fst).Pairwise (· < ·)) :
    ((host.var name).filter usable).or (((folded files).lookup name).filter usable) =
      highest host files name ↔ NothingHidden host files name := by
  have hfiles : (files.reverse.findSome? fun file ↦ (file.lookup name).filter usable) =
      ((files.filterMap fun file ↦ file.lookup name).filter usable).getLast? := by
    rw [List.filter_filterMap, List.getLast?_filterMap]
  rw [highest, hfiles, lookup_folded h, NothingHidden]
  rcases henv : (host.var name).filter usable with - | text
  · have hnot : ¬ ∃ text, host.var name = some text ∧ Text.isBlank text = false := by
      rintro ⟨text, htext, hblank⟩
      rw [htext, Option.filter_some_pos (usable_eq_true_iff.2 hblank)] at henv
      cases henv
    rw [Option.none_or, Option.none_or, or_iff_right hnot, filter_getLast?_eq_iff]
    refine or_congr_right ⟨fun hall file hfile text htext ↦ ?_, fun hall text htext ↦ ?_⟩
    · exact hall text (List.mem_filterMap.2 ⟨file, hfile, htext⟩)
    · obtain ⟨file, hfile, hlook⟩ := List.mem_filterMap.1 htext
      exact hall file hfile text hlook
  · obtain ⟨htext, husable⟩ := Option.filter_eq_some_iff.1 henv
    rw [Option.some_or, Option.some_or]
    exact iff_of_true rfl (Or.inl ⟨text, htext, usable_eq_true_iff.1 husable⟩)

/-- What is taken, if anything, is the highest occurrence: what can go wrong is that nothing is. -/
theorem boundTable_taken_eq_iff (h : ∀ file ∈ files, (file.map Prod.fst).Pairwise (· < ·))
    (path : String) :
    boundTable host path
        (((host.var name).filter usable).or (((folded files).lookup name).filter usable)) =
      boundTable host path (highest host files name) ↔ NothingHidden host files name := by
  rw [← taken_eq_highest_iff h]
  refine ⟨fun htable ↦ ?_, congrArg (boundTable host path)⟩
  rcases htaken : ((host.var name).filter usable).or (((folded files).lookup name).filter usable)
    with - | text
  · rw [htaken] at htable
    rcases hhighest : highest host files name with - | text
    · rfl
    · rw [hhighest] at htable
      exact absurd htable.symm (Layer.insertPath_ne_nil [] path _)
  · -- A value that is taken is the environment's, or the one of the last file.
    rw [← htaken, taken_eq_highest_iff h]
    rcases Option.or_eq_some_iff.1 htaken with henv | ⟨-, hfile⟩
    · obtain ⟨htext, husable⟩ := Option.filter_eq_some_iff.1 henv
      exact Or.inl ⟨text, htext, usable_eq_true_iff.1 husable⟩
    · obtain ⟨hlast, husable⟩ := Option.filter_eq_some_iff.1 hfile
      rw [lookup_folded h] at hlast
      refine Or.inr (Or.inl fun text' htext' ↦ ?_)
      rw [← Option.some.inj (hlast.symm.trans htext')]
      exact usable_eq_true_iff.1 husable

/-- **Which occurrence a binding contributes.** Where blank values count as none, a load merges one
provider for each binding, and the provider supplies the highest occurrence of its variable exactly
when no blank line hides one. -/
theorem takes_highest_iff {spec : LoadSpec} {bindings : EnvBindings} {fallback : List (String × String)}
    (hbindings : spec.envBindings = some bindings) (hempty : spec.allowEmptyEnv = false)
    (hfallback : envFileEntries host spec = .ok fallback) {e : String × String}
    (he : e ∈ bindings.entries) :
    (∀ {Fig : Type} [Figment Fig] (figment : Fig), mergeBindings host spec figment =
      .ok (mergeAll figment (bindings.providers host spec.key spec.allowEmptyEnv fallback))) ∧
      ∃ files, spec.envFiles.mapM (readDotenv host) = .ok files ∧
        ((bindingProvider host spec.key e.1 e.2 spec.allowEmptyEnv fallback).data =
            .ok [(sectionProfile spec.key, boundTable host e.1 (highest host files e.2))] ↔
          NothingHidden host files e.2) := by
  constructor
  · intro Fig _ figment
    rw [mergeBindings, hbindings]
    dsimp only
    rw [hfallback]
    rfl
  · obtain ⟨files, hread, rfl⟩ := envFileEntries_eq hbindings (List.ne_nil_of_mem he) hfallback
    have hordered : ∀ file ∈ files, (file.map Prod.fst).Pairwise (· < ·) := by
      have hall := (mapM_eq_ok_iff.1 hread).flip.imp fun file path hpath ↦
        And.intro (pairwise_readDotenv hpath) hpath
      exact ((List.forall₂_and_left _ _).1 hall).1
    refine ⟨files, hread, ?_⟩
    rw [← boundTable_taken_eq_iff hordered e.1, hempty]
    have htable : (bindingProvider host spec.key e.1 e.2 false (folded files)).data =
        .ok [(sectionProfile spec.key, boundTable host e.1 (((host.var e.2).filter usable).or
          (((folded files).lookup e.2).filter usable)))] := by
      rw [bindingProvider, resolveVariable_eq]
      rcases ((host.var e.2).filter usable).or (((folded files).lookup e.2).filter usable)
        with - | text
      · rfl
      · rfl
    rw [htable]
    constructor
    · intro h
      simpa using h
    · intro h
      rw [h]

/-- A machine with two `.env` files: the first sets `X`, the second leaves it blank. -/
def blankLast : Host :=
  { Host.bare with
    envFileText := fun path ↦ .ok (some (if path = ".env" then "X=1" else "X=")) }

/-- A specification that binds `port` to `X`, and reads both files. -/
def boundPort : LoadSpec :=
  { key := "db"
    envFiles := [".env", ".env.local"]
    envBindings := some ⟨[("port", "X")], List.pairwise_singleton _ _⟩ }

theorem takes_highest_iff_blankLast :
    envFileEntries blankLast boundPort = .ok [("X", "")] ∧
      ∃ files, boundPort.envFiles.mapM (readDotenv blankLast) = .ok files ∧
        ((bindingProvider blankLast "db" "port" "X" false [("X", "")]).data =
            .ok [(sectionProfile "db", boundTable blankLast "port" (highest blankLast files "X"))] ↔
          NothingHidden blankLast files "X") :=
  ⟨rfl, (@takes_highest_iff blankLast boundPort _ _ rfl rfl rfl _
    (List.mem_singleton_self ("port", "X"))).2⟩

/-- **A blank line hides a value.** The binding contributes nothing, though the first file sets the
variable. -/
theorem not_takes_highest_blankLast :
    envFileEntries blankLast boundPort = .ok [("X", "")] ∧
      boundPort.envFiles.mapM (readDotenv blankLast) = .ok [[("X", "1")], [("X", "")]] ∧
      highest blankLast [[("X", "1")], [("X", "")]] "X" = some "1" ∧
      (bindingProvider blankLast "db" "port" "X" false [("X", "")]).data ≠
        .ok [(sectionProfile "db", boundTable blankLast "port"
          (highest blankLast [[("X", "1")], [("X", "")]] "X"))] := by
  have hhighest : highest blankLast [[("X", "1")], [("X", "")]] "X" = some "1" := by decide
  refine ⟨rfl, rfl, hhighest, fun h ↦ ?_⟩
  rw [hhighest] at h
  have hempty : resolveVariable blankLast "X" false [("X", "")] = none := rfl
  rw [bindingProvider, hempty] at h
  have htable := (Prod.mk.inj (List.cons.inj (Except.ok.inj h)).1).2
  exact Layer.insertPath_ne_nil [] "port" _ htable.symm

end DynamicConfig
