import DynamicConfig.Cache.Write
import DynamicConfig.Remote.Reloads

/-!
# The last configuration that worked

`init`, `reload` and the iterations of a watch each load, install what they loaded, and write the
cache. What goes into the cache is resolved for it, after the install, so the sources are read a
second time. A run is an interleaving of the steps of any number of such calls; a step that reads
carries what its reads find, and so every edit between any two reads is there.

The document on disk is of the configuration the same call installed as long as the second reading
resolves what the first did (`lastGood_of_run`), which it does where no layer has changed in between
(`undisturbed_of_layers`). An edit after the load and before the write goes to disk whether or not
the program could ever have started from it.
-/

namespace DynamicConfig.Lifecycle

open Remote (builderLoad withDocument)
open Transition (run Along)

/-! ### Calls -/

/-- Why a snapshot was installed. -/
inductive ReloadReason where
  | initial
  | fileChanged (path : String)
  | remoteChanged
  | manual
  | recovered
  deriving DecidableEq, Repr

/-- What one reading of the sources is given: the machine as its reads find it, and the specification
`with_spec` assembles of the builder's lists, the runtime layers and the remote slot as they stand. -/
structure View where
  host : Host
  spec : LoadSpec

/-- What a builder holds through all of its calls. -/
structure Builder (T : Type) where
  /-- The reading `T`'s `Deserialize` makes of a resolved table. -/
  read : Dict → Except FigmentError T
  validate : T → Except Error Unit
  cache : CacheSpec
  /-- Whether it is tied to a cell to install into. -/
  install : Bool

/-- How far a call has come. -/
inductive Stage (T : Type) where
  | entered
  | loaded (value : T)
  /-- The load of an `init` failed. -/
  | failed
  | recovered (value : T)
  | installed
  | returned

/-- A call: an `init`, whose reason is `initial`, or a reload. -/
structure Call (T : Type) where
  reason : ReloadReason
  stage : Stage T
  /-- What its load was given, which nothing reads. -/
  view : Option View

/-- An install: the call that made it, what the load of its value was given, where a load gave it,
and the value. -/
structure Install (T : Type) where
  call : Nat
  view : Option View
  value : T

/-- The snapshot, the cache file, the calls, and what has happened. -/
structure System (T : Type) where
  installed : Option T
  disk : Option Written
  calls : List (Call T)
  /-- The installs, oldest first. -/
  installs : List (Install T)
  /-- What each call put on disk, oldest first. -/
  written : List (Nat × Written)

/-- One turn of a call. -/
inductive Turn where
  | init
  | reload (reason : ReloadReason)
  | load (i : Nat) (view : View)
  /-- The cache is read, and recovery loads over what it holds, if it holds values. -/
  | recover (i : Nat) (view : View) (cached : Option Dict)
  | install (i : Nat)
  | write (i : Nat) (view : View)

/-- Whether a mode keeps values to start from. -/
def CacheMode.recovers : CacheMode → Bool
  | .full | .redacted => true
  | .fingerprint => false

section Steps

variable {T : Type}

/-- Nothing has been called. -/
def System.new : System T := ⟨none, none, [], [], []⟩

/-- `check_cache_mode`: whether the mode can be honoured. -/
def Builder.checkCacheMode (builder : Builder T) : Bool :=
  match builder.cache.cache with
  | none => true
  | some (_, mode) => decide (mode = .full) || builder.cache.secrets.isSome

/-- `Builder::load` of a reading. -/
def Builder.load (Fig : Type) [Figment Fig] (builder : Builder T) (view : View) :
    Except Error T :=
  builderLoad Fig view.host view.spec builder.read builder.validate

/-- `Builder::recover`, and the check of what it recovers. -/
def Builder.recover (Fig : Type) [Figment Fig] (builder : Builder T) (view : View)
    (cached : Option Dict) : Option T :=
  match builder.cache.cache, cached with
  | some (_, mode), some values =>
    if CacheMode.recovers mode then
      match DynamicConfig.recover Fig view.host view.spec values builder.read with
      | .ok (value, _) => if (builder.validate value).toBool then some value else none
      | .error _ => none
    else none
  | _, _ => none

/-- A call that has just been made. Without a cell to install into it has come to its end. -/
def Call.new (reason : ReloadReason) (goes : Bool) : Call T :=
  ⟨reason, if goes then .entered else .returned, none⟩

/-- A call moved on. -/
def System.advance (sys : System T) (i : Nat) (call : Call T) : System T :=
  { sys with calls := sys.calls.set i call }

/-- What one turn does. -/
def System.step (Fig : Type) [Figment Fig] (hash : Dict → String) (builder : Builder T)
    (sys : System T) : Turn → Option (System T)
  | .init => some { sys with
      calls := sys.calls ++ [Call.new .initial (builder.checkCacheMode && builder.install)] }
  | .reload reason => some { sys with calls := sys.calls ++ [Call.new reason builder.install] }
  | .load i view =>
    match sys.calls[i]? with
    | some ⟨reason, .entered, _⟩ =>
      match builder.load Fig view with
      | .ok value => some (sys.advance i ⟨reason, .loaded value, some view⟩)
      | .error _ =>
        some (sys.advance i ⟨reason, if reason = .initial then .failed else .returned, none⟩)
    | _ => none
  | .recover i view cached =>
    match sys.calls[i]? with
    | some ⟨reason, .failed, read⟩ =>
      match builder.recover Fig view cached with
      | some value => some (sys.advance i ⟨reason, .recovered value, read⟩)
      | none => some (sys.advance i ⟨reason, .returned, read⟩)
    | _ => none
  | .install i =>
    match sys.calls[i]? with
    | some ⟨reason, .loaded value, view⟩ =>
      some { sys.advance i ⟨reason, .installed, view⟩ with
        installed := some value, installs := sys.installs ++ [⟨i, view, value⟩] }
    -- What is recovered is installed and not written back.
    | some ⟨_, .recovered value, view⟩ =>
      some { sys.advance i ⟨.recovered, .returned, view⟩ with
        installed := some value, installs := sys.installs ++ [⟨i, none, value⟩] }
    | _ => none
  | .write i view =>
    match sys.calls[i]? with
    | some ⟨reason, .installed, read⟩ =>
      match writeCache Fig hash view.host view.spec builder.cache with
      | .ok (some written) =>
        some { sys.advance i ⟨reason, .returned, read⟩ with
          disk := some written, written := sys.written ++ [(i, written)] }
      -- A cache that cannot be written is a warning.
      | _ => some (sys.advance i ⟨reason, .returned, read⟩)
    | _ => none

end Steps

/-! ### What is on disk -/

section Disk

variable {T : Type}

/-- The section of the cache document a builder makes of a resolved table. -/
def Builder.documentOf (hash : Dict → String) (builder : Builder T) (table : Dict) : Option Dict :=
  builder.cache.cache.map fun cache ↦
    if builder.cache.encryptor then cacheDocument hash .full table []
    else cacheDocument hash cache.2 table (builder.cache.secrets.getD [])

/-- A table that is the resolution of a load, deserialized to a value the validator accepts. -/
structure Accepted (Fig : Type) [Figment Fig] (builder : Builder T) (view : View) (table : Dict)
    (value : T) : Prop where
  resolved : snapshot Fig view.host view.spec = .ok table
  deserialized : builder.read table = .ok value
  validated : builder.validate value = .ok ()

/-- Every document put on disk is of the resolution the call that wrote it had deserialized, accepted
and installed. -/
def LastGood (Fig : Type) [Figment Fig] (hash : Dict → String) (builder : Builder T)
    (sys : System T) : Prop :=
  ∀ i written, (i, written) ∈ sys.written →
    ∃ view table value, ⟨i, some view, value⟩ ∈ sys.installs ∧
      Accepted Fig builder view table value ∧
        builder.documentOf hash table = some written.section

/-- The sources resolve for the cache, if they resolve at all, to what the load resolved. -/
def Undisturbed (Fig : Type) [Figment Fig] (sys : System T) : Turn → Prop
  | .write i view => ∀ (call : Call T) (read : View) (table : Dict), sys.calls[i]? = some call →
      call.view = some read → snapshot Fig view.host view.spec = .ok table →
        snapshot Fig read.host read.spec = .ok table
  | _ => True

end Disk

/-! ### Loads and snapshots -/

section Loads

variable {Fig T : Type} [Figment Fig] {host : Host} {spec : LoadSpec}

theorem ok_of_mapError {ε ε' α : Type} {f : ε → ε'} {x : Except ε α} {a : α}
    (h : x.mapError f = .ok a) : x = .ok a := by
  rcases x with e | b
  · cases h
  · exact congrArg Except.ok (Except.ok.inj h)

/-- A snapshot is read of the figment the layers and the aliases leave. -/
theorem snapshot_eq_ok_iff {table : Dict} : snapshot Fig host spec = .ok table ↔
    ∃ figment : Fig, build host spec = .ok figment ∧
      Figment.extract (Figment.select (applyAliases figment spec) (sectionProfile spec.key))
        (fun table ↦ .ok table) = .ok table := by
  rw [snapshot, merged]
  rcases (build host spec : Except Error Fig) with e | figment
  · refine iff_of_false (fun h ↦ by cases h) ?_
    rintro ⟨figment, hfigment, -⟩
    cases hfigment
  · constructor
    · exact fun h ↦ ⟨figment, rfl, ok_of_mapError h⟩
    · rintro ⟨figment', hfigment, hextract⟩
      obtain rfl := Except.ok.inj hfigment
      show Except.mapError _ _ = _
      rw [hextract]
      rfl

/-- **What a builder loads is read of the snapshot its sources resolve to, and accepted.** -/
theorem accepted_of_load [LawfulFigment Fig] {builder : Builder T} {view : View} {value : T}
    (h : builder.load Fig view = .ok value) : ∃ table, Accepted Fig builder view table value := by
  obtain ⟨loaded, hload, hrest⟩ := exists_of_bind_eq_ok h
  obtain ⟨⟨⟩, hvalid, hvalue⟩ := exists_of_bind_eq_ok hrest
  obtain rfl := Except.ok.inj hvalue
  obtain ⟨figment, hmerged, hextract⟩ := exists_of_bind_eq_ok hload
  obtain ⟨built, hbuild, hselected⟩ := exists_of_bind_eq_ok hmerged
  obtain rfl := Except.ok.inj hselected
  have hread := ok_of_mapError hextract
  rw [LawfulFigment.extract_eq, Stack.extract] at hread
  rcases hcombined : (Figment.stack (Figment.select (applyAliases built view.spec)
    (sectionProfile view.spec.key))).combined with e | table
  · rw [hcombined] at hread
    cases hread
  · rw [hcombined] at hread
    refine ⟨table, snapshot_eq_ok_iff.2 ⟨built, hbuild, ?_⟩, hread, hvalid⟩
    rw [LawfulFigment.extract_eq, Stack.extract, hcombined]
    rfl

/-- Readings that find the same layers, the same aliases and the same section resolve alike. -/
theorem snapshot_of_layers {host' : Host} {spec' : LoadSpec} {table : Dict}
    (hlayers : loadProviders host spec = loadProviders host' spec')
    (haliases : spec.aliases = spec'.aliases) (hkey : spec.key = spec'.key)
    (h : snapshot Fig host spec = .ok table) : snapshot Fig host' spec' = .ok table := by
  obtain ⟨figment, hbuild, hextract⟩ := snapshot_eq_ok_iff.1 h
  refine snapshot_eq_ok_iff.2 ⟨figment, ?_, ?_⟩
  · rw [← hbuild, build_eq, build_eq, hlayers]
  · rw [← hextract, applyAliases, applyAliases, haliases, hkey]

/-- **Where no layer has changed, nothing is disturbed.** -/
theorem undisturbed_of_layers {sys : System T} {i : Nat} {view : View}
    (h : ∀ (call : Call T) (read : View), sys.calls[i]? = some call → call.view = some read →
      loadProviders view.host view.spec = loadProviders read.host read.spec ∧
        view.spec.aliases = read.spec.aliases ∧ view.spec.key = read.spec.key) :
    Undisturbed Fig sys (.write i view) := by
  intro call read table hcall hread hsnapshot
  obtain ⟨hlayers, haliases, hkey⟩ := h call read hcall hread
  exact snapshot_of_layers hlayers haliases hkey hsnapshot

/-- **What is written is the document of a snapshot.** -/
theorem section_of_writeCache {hash : Dict → String} {builder : Builder T} {written : Written}
    (h : writeCache Fig hash host spec builder.cache = .ok (some written)) :
    ∃ table, snapshot Fig host spec = .ok table ∧
      builder.documentOf hash table = some written.section := by
  rw [writeCache] at h
  rcases hcache : builder.cache.cache with - | ⟨path, mode⟩
  · rw [hcache] at h
    cases h
  · rw [hcache] at h
    dsimp only at h
    split at h
    · cases h
    · obtain ⟨table, hsnapshot, h⟩ := exists_of_bind_eq_ok h
      obtain ⟨document, hwrite, h⟩ := exists_of_bind_eq_ok h
      obtain rfl := Option.some.inj (Except.ok.inj h)
      refine ⟨table, hsnapshot, ?_⟩
      rw [Builder.documentOf, hcache, Option.map_some]
      congr 1
      split at hwrite
      · next hencryptor =>
        obtain ⟨format, -, hformat⟩ := exists_of_bind_eq_ok hwrite
        rw [← Except.ok.inj hformat, if_pos hencryptor]
        rfl
      · next hencryptor => rw [section_of_write hwrite, if_neg hencryptor]

end Loads

/-! ### Every run -/

section Runs

variable {Fig T : Type} [Figment Fig] {hash : Dict → String} {builder : Builder T}

/-- What a call has done, by its stage. -/
def Call.Sound (Fig : Type) [Figment Fig] (builder : Builder T) (installs : List (Install T))
    (i : Nat) (call : Call T) : Prop :=
  match call.stage with
  | .loaded value => ∃ view table, call.view = some view ∧ Accepted Fig builder view table value
  | .installed => ∃ view table value, call.view = some view ∧
      Accepted Fig builder view table value ∧ ⟨i, some view, value⟩ ∈ installs
  | _ => True

/-- What holds between turns. -/
structure Kept (Fig : Type) [Figment Fig] (hash : Dict → String) (builder : Builder T)
    (sys : System T) : Prop where
  calls : ∀ (i : Nat) (call : Call T), sys.calls[i]? = some call →
    call.Sound Fig builder sys.installs i
  good : LastGood Fig hash builder sys

/-- More installs take nothing back. -/
theorem Call.Sound.mono {installs : List (Install T)} {i : Nat} {call : Call T}
    (h : call.Sound Fig builder installs i) (later : List (Install T)) :
    call.Sound Fig builder (installs ++ later) i := by
  obtain ⟨reason, stage, view⟩ := call
  rcases stage with - | value | - | value | - | -
  case loaded => exact h
  case installed =>
    obtain ⟨view, table, value, hview, haccepted, hin⟩ := h
    exact ⟨view, table, value, hview, haccepted, List.mem_append_left _ hin⟩
  all_goals exact trivial

theorem kept_new : Kept Fig hash builder (System.new : System T) where
  calls i call hcall := by cases hcall
  good i written hin := absurd hin List.not_mem_nil

variable {sys sys' : System T}

theorem Kept.join (h : Kept Fig hash builder sys) (reason : ReloadReason) (goes : Bool) :
    Kept Fig hash builder { sys with calls := sys.calls ++ [Call.new reason goes] } where
  calls i call hcall := by
    rcases List.mem_append.1 (List.mem_of_getElem? hcall) with - | hnew
    · rw [List.getElem?_append] at hcall
      split at hcall
      · exact h.calls i call hcall
      · obtain rfl := List.mem_singleton.1 (List.mem_of_getElem? hcall)
        rcases goes with - | -
        · exact trivial
        · exact trivial
    · obtain rfl := List.mem_singleton.1 hnew
      rcases goes with - | -
      · exact trivial
      · exact trivial
  good := h.good

/-- A call moves on, and may have installed something. -/
theorem Kept.advance (h : Kept Fig hash builder sys) {i : Nat} {next : Call T}
    (installed : Option T) (later : List (Install T))
    (hsound : next.Sound Fig builder (sys.installs ++ later) i) :
    Kept Fig hash builder { sys.advance i next with
      installed := installed, installs := sys.installs ++ later } where
  calls k other hother := by
    have hset : (sys.calls.set i next)[k]? = some other := hother
    rw [List.getElem?_set] at hset
    split at hset
    · next hk =>
      subst hk
      split at hset
      · exact Option.some.inj hset ▸ hsound
      · cases hset
    · exact (h.calls k other hset).mono later
  good k written hin := by
    obtain ⟨view, table, value, hinstalled, haccepted, hdocument⟩ := h.good k written hin
    exact ⟨view, table, value, List.mem_append_left _ hinstalled, haccepted, hdocument⟩

/-- A call moves on and installs nothing. -/
theorem Kept.moved (h : Kept Fig hash builder sys) {i : Nat} {next : Call T}
    (hsound : next.Sound Fig builder sys.installs i) :
    Kept Fig hash builder (sys.advance i next) := by
  have hsame : next.Sound Fig builder (sys.installs ++ []) i := by rwa [List.append_nil]
  have hmoved := h.advance sys.installed [] hsame
  rwa [List.append_nil] at hmoved

/-- **One turn that disturbs nothing keeps the cache good.** -/
theorem Kept.step [LawfulFigment Fig] (h : Kept Fig hash builder sys) {turn : Turn}
    (hundisturbed : Undisturbed Fig sys turn)
    (hstep : sys.step Fig hash builder turn = some sys') : Kept Fig hash builder sys' := by
  rcases turn with - | reason | ⟨i, view⟩ | ⟨i, view, cached⟩ | i | ⟨i, view⟩
  case init =>
    obtain rfl := Option.some.inj hstep
    exact h.join _ _
  case reload =>
    obtain rfl := Option.some.inj hstep
    exact h.join _ _
  case load =>
    rw [System.step] at hstep
    split at hstep
    · split at hstep
      · next hload =>
        obtain rfl := Option.some.inj hstep
        obtain ⟨table, haccepted⟩ := accepted_of_load hload
        exact h.moved ⟨view, table, rfl, haccepted⟩
      · obtain rfl := Option.some.inj hstep
        refine h.moved ?_
        rw [Call.Sound]
        split
        · next hstage =>
          split at hstage
          · cases hstage
          · cases hstage
        · next hstage =>
          split at hstage
          · cases hstage
          · cases hstage
        · exact trivial
    · cases hstep
  case recover =>
    rw [System.step] at hstep
    split at hstep
    · split at hstep
      · obtain rfl := Option.some.inj hstep
        exact h.moved trivial
      · obtain rfl := Option.some.inj hstep
        exact h.moved trivial
    · cases hstep
  case install =>
    rw [System.step] at hstep
    split at hstep
    · next reason value view hcall =>
      obtain rfl := Option.some.inj hstep
      obtain ⟨read, table, hview, haccepted⟩ := h.calls i _ hcall
      obtain rfl : view = some read := hview
      exact h.advance _ _ ⟨read, table, value, rfl, haccepted,
        List.mem_append_right _ (List.mem_singleton_self _)⟩
    · obtain rfl := Option.some.inj hstep
      exact h.advance _ _ trivial
    · cases hstep
  case write =>
    rw [System.step] at hstep
    split at hstep
    · next reason read hcall =>
      split at hstep
      · next written hwritten =>
        obtain rfl := Option.some.inj hstep
        obtain ⟨loaded, table, value, hview, haccepted, hin⟩ := h.calls i _ hcall
        have hkept : Kept Fig hash builder (sys.advance i ⟨reason, .returned, read⟩) :=
          h.moved trivial
        refine ⟨hkept.calls, fun k other hother ↦ ?_⟩
        rcases List.mem_append.1 hother with hold | hnew
        · exact h.good k other hold
        · obtain ⟨rfl, rfl⟩ := Prod.mk.inj (List.mem_singleton.1 hnew)
          -- What the cache resolved is what the load had resolved.
          obtain ⟨again, hagain, hdocument⟩ := section_of_writeCache hwritten
          have hloaded := hundisturbed _ loaded again hcall hview hagain
          obtain rfl : table = again := Except.ok.inj (haccepted.resolved.symm.trans hloaded)
          exact ⟨loaded, table, value, hin, haccepted, hdocument⟩
      · obtain rfl := Option.some.inj hstep
        exact h.moved trivial
    · cases hstep

/-- **The cache is the configuration that worked**, in every run in which no edit between a load and
the write that follows it changes what the section resolves to. -/
theorem lastGood_of_run [LawfulFigment Fig] {turns : List Turn}
    (hundisturbed : Along (System.step Fig hash builder) (Undisturbed Fig) System.new turns)
    (h : run (System.step Fig hash builder) System.new turns = some sys) :
    LastGood Fig hash builder sys :=
  (Transition.run_invariant_along (fun _ _ _ hcondition hstep hkept ↦ hkept.step hcondition hstep)
    hundisturbed h kept_new).good

/-- A turn that finds the sources as they were. -/
def Turn.Finds (view : View) : Turn → Prop
  | .load _ found | .write _ found => found = view
  | _ => True

/-- A call whose load, if it has loaded, found the sources as they were. -/
def Call.Found (view : View) (call : Call T) : Prop :=
  ∀ read, call.view = some read → read = view

/-- What a turn that finds the sources as they were leaves of its call. -/
theorem found_step {view : View} {turn : Turn} (hfinds : turn.Finds view)
    (hstep : sys.step Fig hash builder turn = some sys') (h : ∀ call ∈ sys.calls, call.Found view) :
    ∀ call ∈ sys'.calls, call.Found view := by
  have hjoin : ∀ (reason : ReloadReason) (goes : Bool),
      ∀ call ∈ sys.calls ++ [Call.new reason goes], call.Found view := by
    intro reason goes call hcall read hread
    rcases List.mem_append.1 hcall with hold | hnew
    · exact h call hold read hread
    · rw [List.mem_singleton.1 hnew] at hread
      cases hread
  have hset : ∀ (i : Nat) (next : Call T), next.Found view →
      ∀ call ∈ sys.calls.set i next, call.Found view := by
    intro i next hnext call hcall
    rcases List.mem_or_eq_of_mem_set hcall with hold | rfl
    · exact h call hold
    · exact hnext
  have hkeeps : ∀ {i : Nat} {call : Call T}, sys.calls[i]? = some call → call.Found view :=
    fun hcall ↦ h _ (List.mem_of_getElem? hcall)
  rcases turn with - | reason | ⟨i, found⟩ | ⟨i, found, cached⟩ | i | ⟨i, found⟩
  case init =>
    obtain rfl := Option.some.inj hstep
    exact hjoin _ _
  case reload =>
    obtain rfl := Option.some.inj hstep
    exact hjoin _ _
  case load =>
    rw [System.step] at hstep
    split at hstep
    · split at hstep
      · obtain rfl := Option.some.inj hstep
        exact hset i _ fun read hread ↦ (Option.some.inj hread).symm.trans hfinds
      · obtain rfl := Option.some.inj hstep
        exact hset i _ fun read hread ↦ by cases hread
    · cases hstep
  case recover =>
    rw [System.step] at hstep
    split at hstep
    · next hcall =>
      split at hstep
      all_goals
        obtain rfl := Option.some.inj hstep
        exact hset i _ fun read hread ↦ hkeeps hcall read hread
    · cases hstep
  case install =>
    rw [System.step] at hstep
    split at hstep
    · next hcall =>
      obtain rfl := Option.some.inj hstep
      exact hset i _ fun read hread ↦ hkeeps hcall read hread
    · next hcall =>
      obtain rfl := Option.some.inj hstep
      exact hset i _ fun read hread ↦ hkeeps hcall read hread
    · cases hstep
  case write =>
    rw [System.step] at hstep
    split at hstep
    · next hcall =>
      split at hstep
      all_goals
        obtain rfl := Option.some.inj hstep
        exact hset i _ fun read hread ↦ hkeeps hcall read hread
    · cases hstep

/-- A run in which nothing is edited disturbs nothing. -/
theorem along_undisturbed_of_finds {view : View} {turns : List Turn}
    (hfinds : ∀ turn ∈ turns, turn.Finds view) :
    Along (System.step Fig hash builder) (Undisturbed Fig) System.new turns := by
  refine Transition.along_of_invariant (I := fun sys ↦ ∀ call ∈ sys.calls, call.Found view)
    (fun _ _ _ hturn hstep hfound ↦ found_step hturn hstep hfound) (fun sys turn hturn hfound ↦ ?_)
    hfinds fun call hcall ↦ absurd hcall List.not_mem_nil
  rcases turn with - | reason | ⟨i, found⟩ | ⟨i, found, cached⟩ | i | ⟨i, found⟩
  case write =>
    intro call read table hcall hread hsnapshot
    obtain rfl : found = view := hturn
    rw [hfound call (List.mem_of_getElem? hcall) read hread]
    exact hsnapshot
  all_goals exact trivial

end Runs

/-! ### A builder -/

/-- The sources, saying a name. -/
def saying (name : String) : View :=
  ⟨Remote.oneName, withDocument { key := "db" } none (some ⟨Remote.saying name, .toml⟩)⟩

/-- A builder of a type that is a name, and refuses one. -/
def naming : Builder (Option String) where
  read := Remote.readName
  validate name :=
    if name = some "bad" then .error { kind := .invalid, message := "refused" } else .ok ()
  cache := { cache := some ("/var/lib/app/last.json", .full) }
  install := true

/-- The first call, with an edit between its load and its write, or none. -/
def startedWith (atLoad atWrite : String) : List Turn :=
  [.init, .load 0 (saying atLoad), .install 0, .write 0 (saying atWrite)]

/-- What the documents on disk say. -/
def System.names {T : Type} (sys : System T) : List (Option String) :=
  sys.written.map fun e ↦ ((Remote.readName e.2.section).toOption).join

/-- A start with nothing edited. -/
theorem lastGood_startedWith : ∃ sys : System (Option String),
    run (System.step Stack (fun _ ↦ "") naming) System.new (startedWith "good" "good") = some sys ∧
      sys.names = [some "good"] ∧ LastGood Stack (fun _ ↦ "") naming sys := by
  have hruns : (run (System.step Stack (fun _ ↦ "") naming) System.new
      (startedWith "good" "good")).map System.names = some [some "good"] := by
    decide +kernel
  obtain ⟨sys, hrun, hnames⟩ := Option.map_eq_some_iff.1 hruns
  have hfinds : ∀ turn ∈ startedWith "good" "good", turn.Finds (saying "good") := by
    intro turn hturn
    simp only [startedWith, List.mem_cons, List.not_mem_nil, or_false] at hturn
    rcases hturn with rfl | rfl | rfl | rfl
    all_goals first | exact trivial | exact rfl
  exact ⟨sys, hrun, hnames, lastGood_of_run (along_undisturbed_of_finds hfinds) hrun⟩

/-- **What never worked goes to disk.** The sources are edited after the load: what is on disk is a
configuration the validator refuses, and the next start that has to fall back on it fails. -/
theorem not_lastGood_of_edit : ∃ sys : System (Option String),
    run (System.step Stack (fun _ ↦ "") naming) System.new (startedWith "good" "bad") = some sys ∧
      sys.installed = some (some "good") ∧ sys.names = [some "bad"] ∧
        ¬ LastGood Stack (fun _ ↦ "") naming sys := by
  have hruns : (run (System.step Stack (fun _ ↦ "") naming) System.new
      (startedWith "good" "bad")).map (fun sys ↦
        (sys.installed, sys.names, sys.installs.map Install.value, sys.written.map Prod.fst)) =
      some (some (some "good"), [some "bad"], [some "good"], [0]) := by
    decide +kernel
  obtain ⟨sys, hrun, hread⟩ := Option.map_eq_some_iff.1 hruns
  simp only [Prod.mk.injEq] at hread
  obtain ⟨hinstalled, hnames, hvalues, hwriters⟩ := hread
  refine ⟨sys, hrun, hinstalled, hnames, fun hgood ↦ ?_⟩
  rcases hwritten : sys.written with - | ⟨⟨i, written⟩, rest⟩
  · rw [hwritten] at hwriters
    cases hwriters
  · obtain ⟨view, table, value, hin, haccepted, hdocument⟩ :=
      hgood i written (hwritten ▸ List.mem_cons_self)
    have hvalue : value = some "good" := by
      have hmem : value ∈ sys.installs.map Install.value := List.mem_map_of_mem hin
      rw [hvalues] at hmem
      exact List.mem_singleton.1 hmem
    -- The document is the table with a marker in it, and says the table's name.
    have hsection : written.section =
        Entries.insert marker (.node none (markerTable .full)) table :=
      (Option.some.inj hdocument).symm
    have hsame : Remote.readName written.section = Remote.readName table := by
      rw [hsection, Remote.readName, Remote.readName, Entries.lookup_insert_of_ne (by decide)]
    have hsays : ((Remote.readName written.section).toOption).join = some "bad" := by
      rw [System.names, hwritten, List.map_cons] at hnames
      exact (List.cons.inj hnames).1
    have hgoodName : Remote.readName table = .ok (some "good") := by
      rw [← hvalue]
      exact haccepted.deserialized
    rw [hsame, hgoodName] at hsays
    exact absurd hsays (by decide)

end DynamicConfig.Lifecycle
