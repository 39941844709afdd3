import DynamicConfig.Loader.Aliases
import DynamicConfig.Tree.Writes

/-!
# Runtime layers

What a program calls of a `Layer`. A layer maps dotted paths to values, and a call writes into the map
or takes out of it, path by path. Nothing is compared with the other paths that are there: a path and
one below it are two entries. The nested shape is made when a load asks for it, by writing the entries
into a table in the order of their paths.

So what comes last in that order is seen, and not what was written last. A path lies before the ones
below it, whatever the order of the calls: an entry below `p` that was there before a call `set(p, v)`
goes on showing (`lastWrite_iff`).

A batch is written element by element. What comes before the first element that is refused stays
written (`unchanged_iff`).
-/

namespace DynamicConfig

open LabelledTree (touches shownBy)

/-- A table has a value at a path, as it stands. -/
def Dict.Resolves (dict : Dict) (path : String) (value : Node) : Prop :=
  ∀ rest, dict.root.peekAt (segments path ++ rest) = value.peekAt rest

namespace Layer

/-! ### The calls -/

/-- Writes one path of the map. -/
def insert (layer : Layer) (path : String) (value : Node) : Layer :=
  ⟨Entries.put path value layer.entries, Entries.pairwise_put layer.ordered path value⟩

@[simp] theorem entries_insert (layer : Layer) (path : String) (value : Node) :
    (layer.insert path value).entries = Entries.put path value layer.entries := rfl

/-- `Layer::set`. The value comes as it serializes, or with the reason why it does not. -/
def set (layer : Layer) (path : String) (value : Except String Node) : Except Error Unit × Layer :=
  match checkPath path with
  | .error refusal => (.error refusal.error, layer)
  | .ok () =>
    match value with
    | .error reason =>
      (.error (({ kind := .type, message := reason } : Error).prependKey path), layer)
    | .ok value => (.ok (), layer.insert path value)

/-- `Layer::set_struct`: every top-level field at once. -/
def setStruct (layer : Layer) (value : Except String Node) : Except Error Unit × Layer :=
  match value with
  | .error reason =>
    (.error { kind := .type, message := "the defaults struct did not serialize: " ++ reason }, layer)
  | .ok (.leaf _ _) =>
    (.error
      { kind := .type
        message := "defaults must be a struct or a map; a bare value has no field name to live " ++
          "under" }, layer)
  | .ok (.node _ entries) => (.ok (), entries.foldl (fun layer e ↦ layer.insert e.1 e.2) layer)

/-- `Layer::set_text`, for the loose reading `parse` of a text. -/
def setText (parse : String → Node) (layer : Layer) (path text : String) :
    Except Error Unit × Layer :=
  match checkPath path with
  | .error refusal => (.error refusal.error, layer)
  | .ok () => (.ok (), layer.insert path (parse text))

/-- `Layer::unset`: whether anything was there, and the layer without it. -/
def unset (layer : Layer) (path : String) : Bool × Layer :=
  ((layer.entries.lookup path).isSome,
    ⟨Entries.erase path layer.entries, Entries.pairwise_erase layer.ordered path⟩)

/-- What is called of a layer. -/
inductive Call where
  | set (path : String) (value : Except String Node)
  | setText (path text : String)
  | setStruct (value : Except String Node)
  | unset (path : String)

/-- One call. -/
def call (parse : String → Node) (layer : Layer) : Call → Layer
  | .set path value => (layer.set path value).2
  | .setText path text => (layer.setText parse path text).2
  | .setStruct value => (layer.setStruct value).2
  | .unset path => (layer.unset path).2

/-- A layer after some calls. -/
def called (parse : String → Node) (calls : List Call) : Layer :=
  calls.foldl (call parse) new

/-! ### What a layer shows -/

theorem dict_eq_insertPaths (layer : Layer) :
    layer.dict =
      LabelledTree.insertPaths none [] (layer.entries.map fun e ↦ (segments e.1, e.2)) := by
  rw [LabelledTree.insertPaths, List.foldl_map]
  rfl

/-- **What a layer shows**: at every position, what the last of its paths that has to do with it
shows there. -/
theorem peekAt_dict (layer : Layer) (x : List String) :
    layer.dict.root.peekAt x =
      ((layer.entries.filter fun e ↦ touches (segments e.1) x).getLast?.map fun e ↦
        shownBy (segments e.1) e.2 x).getD ((Dict.root []).peekAt x) := by
  have hne : ∀ w ∈ layer.entries.map fun e ↦ (segments e.1, e.2), w.1 ≠ [] := by
    intro w hw
    obtain ⟨e, -, rfl⟩ := List.mem_map.1 hw
    exact segments_ne_nil e.1
  have hshown := LabelledTree.peekAt_insertPaths none none [] hne x
  rw [List.filter_map, List.getLast?_map, Option.map_map] at hshown
  rw [dict_eq_insertPaths]
  exact hshown

/-- A path comes before the ones below it. -/
theorem lt_append_dot (path rest : String) : path < path ++ "." ++ rest := by
  have hlist : ∀ xs ys : List Char, ys ≠ [] → xs < xs ++ ys := by
    intro xs ys hys
    induction xs with
    | nil =>
      obtain ⟨y, ys, rfl⟩ := List.exists_cons_of_ne_nil hys
      exact List.nil_lt_cons y ys
    | cons x xs ih => exact List.cons_lt_cons_iff.2 (Or.inr ⟨rfl, ih⟩)
  rw [String.lt_iff_toList_lt, String.append_assoc, String.toList_append]
  refine hlist _ _ fun hnil ↦ ?_
  rw [String.toList_append] at hnil
  exact absurd (List.append_eq_nil_iff.1 hnil).1 (by decide)

theorem lt_of_above {a b : String} (h : segments a <+: segments b) (hne : a ≠ b) :
    a < b := by
  rcases segments_prefix_iff.1 h with heq | ⟨rest, rfl⟩
  · exact absurd heq hne
  · exact lt_append_dot a rest

/-- The entries strictly below a path. -/
def below (layer : Layer) (path : String) : List (String × Node) :=
  layer.entries.filter fun e ↦ decide (segments path <+: segments e.1 ∧ e.1 ≠ path)

/-- Of the paths behind a path, those that have to do with something at or below it lie below it. -/
theorem filter_above_eq (layer : Layer) (path : String) (rest : List String) :
    ((layer.entries.filter fun e ↦ decide (path < e.1)).filter fun e ↦
        touches (segments e.1) (segments path ++ rest)) =
      (layer.below path).filter fun e ↦ touches (segments e.1) (segments path ++ rest) := by
  rw [below, List.filter_filter, List.filter_filter]
  refine List.filter_congr fun e _ ↦ ?_
  rw [Bool.eq_iff_iff, Bool.and_eq_true, Bool.and_eq_true, decide_eq_true_iff, decide_eq_true_iff]
  refine and_congr_right fun htouches ↦ ⟨fun hlt ↦ ⟨?_, hlt.ne'⟩, fun h ↦ ?_⟩
  · rcases of_decide_eq_true htouches with hprefix | hprefix
    · rcases List.prefix_or_prefix_of_prefix hprefix (List.prefix_append _ rest) with habove | hbelow
      · exact absurd (lt_of_above habove hlt.ne') hlt.asymm
      · exact hbelow
    · exact (List.prefix_append _ rest).trans hprefix
  · exact lt_of_above h.1 (Ne.symm h.2)

/-! ### The last write -/

/-- The entries below a path show what a value shows there: at every position, the last of them that
has to do with it does. -/
def Undisturbed (layer : Layer) (path : String) (value : Node) : Prop :=
  ∀ rest e, ((layer.below path).filter fun e ↦
      touches (segments e.1) (segments path ++ rest)).getLast? = some e →
    shownBy (segments e.1) e.2 (segments path ++ rest) = value.peekAt rest

theorem touches_append (p rest : List String) : touches p (p ++ rest) = true :=
  decide_eq_true (Or.inl (List.prefix_append p rest))

/-- **What a path that is written shows.** -/
theorem peekAt_dict_insert (layer : Layer) (path : String) (value : Node) (rest : List String) :
    (layer.insert path value).dict.root.peekAt (segments path ++ rest) =
      (((layer.below path).filter fun e ↦
        touches (segments e.1) (segments path ++ rest)).getLast?.map fun e ↦
          shownBy (segments e.1) e.2 (segments path ++ rest)).getD (value.peekAt rest) := by
  have hself : shownBy (segments path) value (segments path ++ rest) = value.peekAt rest := by
    rw [shownBy, if_pos (List.prefix_append _ rest), List.drop_left]
  have htouches := touches_append (segments path) rest
  rw [peekAt_dict, entries_insert, Entries.put_eq layer.ordered, List.filter_append,
    List.filter_cons_of_pos (by exact htouches), filter_above_eq, List.getLast?_append,
    List.getLast?_cons]
  rcases hlast : ((layer.below path).filter fun e ↦
      touches (segments e.1) (segments path ++ rest)).getLast? with - | e
  · rw [hlast]
    exact hself
  · rw [hlast]
    rfl

theorem resolves_insert_iff (layer : Layer) (path : String) (value : Node) :
    (layer.insert path value).dict.Resolves path value ↔ layer.Undisturbed path value := by
  refine forall_congr' fun rest ↦ ?_
  rw [peekAt_dict_insert]
  rcases hlast : ((layer.below path).filter fun e ↦
      touches (segments e.1) (segments path ++ rest)).getLast? with - | e
  · rw [hlast]
    exact iff_of_true rfl fun e he ↦ (by cases he)
  · rw [hlast]
    exact ⟨fun h e' he' ↦ Option.some.inj he' ▸ h, fun h ↦ h e rfl⟩

/-! ### A struct at once -/

theorem entries_foldl_insert (layer : Layer) (ws : List (String × Node)) :
    (ws.foldl (fun layer e ↦ layer.insert e.1 e.2) layer).entries =
      ws.foldl (fun es e ↦ Entries.put e.1 e.2 es) layer.entries := by
  induction ws generalizing layer with
  | nil => rfl
  | cons w ws ih => exact ih (layer.insert w.1 w.2)

/-- Where no path has a dot in it, a layer shows its entries as they are. -/
theorem peekAt_dict_of_undotted {layer : Layer} (h : ∀ e ∈ layer.entries, '.' ∉ e.1.toList)
    (x : List String) : layer.dict.root.peekAt x = (Dict.root layer.entries).peekAt x := by
  rcases x with - | ⟨k, ks⟩
  · rw [LabelledTree.peekAt_nil, LabelledTree.peekAt_nil]
    rfl
  · have hkey : (layer.entries.filter fun e ↦ touches (segments e.1) (k :: ks)) =
        layer.entries.filter fun e ↦ decide (e.1 = k) := by
      refine List.filter_congr fun e he ↦ ?_
      rw [segments_eq_singleton (h e he), touches, decide_eq_decide, List.cons_prefix_cons,
        List.cons_prefix_cons]
      refine ⟨?_, fun heq ↦ Or.inl ⟨heq, List.nil_prefix⟩⟩
      rintro (⟨heq, -⟩ | ⟨heq, -⟩)
      · exact heq
      · exact heq.symm
    have hlook := Entries.filter_key_eq (Entries.nodup_of_pairwise layer.ordered) k
    rw [peekAt_dict, hkey, hlook, Dict.root, Dict.root, LabelledTree.peekAt_node_cons,
      LabelledTree.peekAt_node_cons]
    rcases hk : layer.entries.lookup k with - | c
    · rfl
    · have hsegments : segments k = [k] :=
        segments_eq_singleton (h (k, c) (Entries.mem_of_lookup hk))
      show shownBy (segments k) c (k :: ks) = c.peekAt ks
      rw [hsegments, shownBy, if_pos (List.cons_prefix_cons.2 ⟨rfl, List.nil_prefix⟩)]
      rfl

/-- Nothing a layer shows has a dot in its key. -/
theorem peekAt_dict_dotted {key : String} (h : '.' ∈ key.toList) (layer : Layer) :
    layer.dict.root.peekAt [key] = none := by
  have hnone : (layer.entries.filter fun e ↦ touches (segments e.1) [key]) = [] := by
    refine List.filter_eq_nil_iff.2 fun e _ htouches ↦ ?_
    have hmem : key ∈ segments e.1 := by
      rcases of_decide_eq_true htouches with hprefix | hprefix
      · obtain ⟨s, ss, hsegments⟩ := List.exists_cons_of_ne_nil (segments_ne_nil e.1)
        rw [hsegments] at hprefix ⊢
        rw [(List.cons_prefix_cons.1 hprefix).1]
        exact List.mem_cons_self
      · exact hprefix.subset List.mem_cons_self
    exact not_dot_mem_of_mem_segments hmem h
  rw [peekAt_dict, hnone]
  rfl

/-- **A struct shows as it serializes** exactly where none of its fields has a dot in its name. -/
theorem sameValues_setStruct_iff {entries : List (String × Node)}
    (hnodup : (entries.map Prod.fst).Nodup) :
    (entries.foldl (fun layer e ↦ layer.insert e.1 e.2) new).dict.SameValues entries ↔
      ∀ e ∈ entries, '.' ∉ e.1.toList := by
  have hlookup : ∀ k, (entries.foldl (fun layer e ↦ layer.insert e.1 e.2) new).entries.lookup k =
      entries.lookup k := by
    intro k
    rw [entries_foldl_insert, Entries.lookup_foldl_put, Entries.lookup_reverse hnodup]
    exact Option.or_none
  constructor
  · intro hsame e he hdot
    have hshown := hsame [e.1]
    rw [peekAt_dict_dotted hdot, Dict.root, LabelledTree.peekAt_node_cons,
      Entries.lookup_of_mem hnodup he, Option.bind_some, LabelledTree.peekAt_nil] at hshown
    cases hshown
  · intro hdotless x
    rw [peekAt_dict_of_undotted]
    · rcases x with - | ⟨k, ks⟩
      · rw [LabelledTree.peekAt_nil, LabelledTree.peekAt_nil]
        rfl
      · rw [Dict.root, Dict.root, LabelledTree.peekAt_node_cons, LabelledTree.peekAt_node_cons,
          hlookup]
    · intro e he
      have hmem := Entries.lookup_of_mem
        (Entries.nodup_of_pairwise (entries.foldl (fun layer e ↦ layer.insert e.1 e.2) new).ordered)
        he
      rw [hlookup] at hmem
      exact hdotless _ (Entries.mem_of_lookup hmem)

/-- **Which writes are seen.** After any calls, a path that is set shows the value it is set to exactly
where the entries below it show what the value shows. A struct in an empty layer shows as it serializes
exactly where no field has a dot in its name. -/
theorem lastWrite_iff (parse : String → Node) :
    (∀ calls path value after, (called parse calls).set path (.ok value) = (.ok (), after) →
      (after.dict.Resolves path value ↔ (called parse calls).Undisturbed path value)) ∧
      ∀ tag entries after, (entries.map Prod.fst).Nodup →
        new.setStruct (.ok (.node tag entries)) = (.ok (), after) →
        (after.dict.SameValues entries ↔ ∀ e ∈ entries, '.' ∉ e.1.toList) := by
  constructor
  · intro calls path value after hset
    rw [set] at hset
    split at hset
    · cases hset
    · rw [← (Prod.mk.inj hset).2]
      exact resolves_insert_iff _ path value
  · intro tag entries after hnodup hset
    rw [setStruct] at hset
    rw [← (Prod.mk.inj hset).2]
    exact sameValues_setStruct_iff hnodup

/-- The call that sets `a.b`. -/
def setBelow : Call := .set "a.b" (.ok (Node.scalar (.int 1)))

theorem lastWrite_iff_setBelow :
    (((called Node.text [setBelow]).insert "a" (Node.scalar (.int 2))).dict.Resolves "a"
        (Node.scalar (.int 2)) ↔
      (called Node.text [setBelow]).Undisturbed "a" (Node.scalar (.int 2))) ∧
      (((new.insert "port" (Node.scalar (.int 1))).dict.SameValues
          [("port", Node.scalar (.int 1))]) ↔
        ∀ e ∈ [("port", Node.scalar (.int 1))], '.' ∉ e.1.toList) :=
  ⟨(lastWrite_iff Node.text).1 [setBelow] "a" _ _ rfl,
    (lastWrite_iff Node.text).2 none _ _ (List.pairwise_singleton _ _) rfl⟩

/-- **An earlier path hides a later one.** After `a.b` and then `a` are set, `a` is the table of
`b`. -/
theorem not_lastWrite_setBelow :
    (called Node.text [setBelow]).set "a" (.ok (Node.scalar (.int 2))) =
        (.ok (), (called Node.text [setBelow]).insert "a" (Node.scalar (.int 2))) ∧
      ¬ ((called Node.text [setBelow]).insert "a" (Node.scalar (.int 2))).dict.Resolves "a"
        (Node.scalar (.int 2)) := by
  refine ⟨rfl, fun h ↦ ?_⟩
  have hroot := h []
  cases hroot

/-! ### Batches -/

section Batches

variable {ι : Type} (parse : String → Node)

/-- A batch, each element of which says nothing, or names a path and the text for it, or is refused. -/
def setEach (read : ι → Except Error (Option (String × String))) (layer : Layer) :
    List ι → Except Error Unit × Layer
  | [] => (.ok (), layer)
  | item :: items =>
    match read item with
    | .error error => (.error error, layer)
    | .ok none => setEach read layer items
    | .ok (some (path, text)) =>
      match layer.setText parse path text with
      | (.error error, after) => (.error error, after)
      | (.ok (), after) => setEach read after items

/-- One `key=value`. -/
def assignment (text : String) : Except Error (Option (String × String)) :=
  match Text.splitOnce '=' text.toList with
  | none =>
    .error { kind := .type, message := "`" ++ text ++ "` is not a `key=value` assignment" }
  | some (path, value) => .ok (some (String.ofList (Text.trim path), String.ofList value))

/-- `Layer::set_assignments`. -/
def setAssignments (layer : Layer) (assignments : List String) : Except Error Unit × Layer :=
  layer.setEach parse assignment assignments

/-- Where clap has a value from. -/
inductive ValueSource where
  | defaultValue | envVariable | commandLine
  deriving DecidableEq

/-- What clap answers of an argument: where its value is from, and the raw values themselves, each
`none` where it is not UTF-8. -/
structure ArgMatches where
  valueSource : String → Option ValueSource
  raw : String → Option (List (Option String))

/-- The text of a raw value. -/
def utf8 (value : Option String) (argument : String) : Except Error String :=
  match value with
  | some text => .ok text
  | none => .error { kind := .type, message := "`--" ++ argument ++ "` is not valid UTF-8" }

/-- One argument and the path it is for. A repeated argument is a list, a single one is a scalar. -/
def argument (given : ArgMatches) (binding : String × String) :
    Except Error (Option (String × String)) :=
  if given.valueSource binding.1 ≠ some .commandLine then .ok none
  else
    match given.raw binding.1 with
    | none => .ok none
    | some [] => .ok none
    | some [single] => do
      let text ← utf8 single binding.1
      .ok (some (binding.2, text))
    | some many => do
      let texts ← many.mapM fun value ↦ utf8 value binding.1
      .ok (some (binding.2, "[" ++ ",".intercalate texts ++ "]"))

/-- `Layer::bind_clap`. -/
def bindClap (layer : Layer) (given : ArgMatches) (bindings : List (String × String)) :
    Except Error Unit × Layer :=
  layer.setEach parse (argument given) bindings

/-- The writes of a batch before the first element that is refused. -/
def accepted (read : ι → Except Error (Option (String × String))) : List ι → List (String × Node)
  | [] => []
  | item :: items =>
    match read item with
    | .error _ => []
    | .ok none => accepted read items
    | .ok (some (path, text)) =>
      match checkPath path with
      | .error _ => []
      | .ok () => (path, parse text) :: accepted read items

/-- A layer has what some writes come to: of each path that is written, the last value. -/
def Holds (layer : Layer) (writes : List (String × Node)) : Prop :=
  ∀ path value, writes.reverse.lookup path = some value → layer.entries.lookup path = some value

variable {parse}

/-- **What a batch leaves**, whether it goes through or not: the writes before the first element that
is refused. -/
theorem setEach_snd (read : ι → Except Error (Option (String × String))) (layer : Layer)
    (items : List ι) :
    (layer.setEach parse read items).2 =
      (accepted parse read items).foldl (fun layer e ↦ layer.insert e.1 e.2) layer := by
  induction items generalizing layer with
  | nil => rfl
  | cons item items ih =>
    rw [setEach, accepted]
    rcases read item with error | - | ⟨path, text⟩
    · rfl
    · exact ih layer
    · dsimp only
      rw [setText]
      rcases checkPath path with refusal | -
      · rfl
      · exact ih (layer.insert path (parse text))

theorem entries_setEach_eq_iff (read : ι → Except Error (Option (String × String)))
    (layer : Layer) (items : List ι) :
    (layer.setEach parse read items).2.entries = layer.entries ↔
      layer.Holds (accepted parse read items) := by
  rw [setEach_snd, entries_foldl_insert]
  exact Entries.foldl_put_eq_self_iff layer.ordered _

/-- **What a refused batch leaves.** The entries are what they were exactly where the writes before the
refusal come to what the layer had. -/
theorem unchanged_iff (parse : String → Node) (layer : Layer) :
    (∀ assignments error after,
      layer.setAssignments parse assignments = (.error error, after) →
      (after.entries = layer.entries ↔ layer.Holds (accepted parse assignment assignments))) ∧
      ∀ given bindings error after,
        layer.bindClap parse given bindings = (.error error, after) →
        (after.entries = layer.entries ↔
          layer.Holds (accepted parse (argument given) bindings)) := by
  constructor
  · intro assignments error after h
    have hafter : (layer.setEach parse assignment assignments).2 = after := congrArg Prod.snd h
    rw [← hafter]
    exact entries_setEach_eq_iff assignment layer assignments
  · intro given bindings error after h
    have hafter : (layer.setEach parse (argument given) bindings).2 = after := congrArg Prod.snd h
    rw [← hafter]
    exact entries_setEach_eq_iff (argument given) layer bindings

/-- `--set a=1 --set b`. -/
def badSecond : List String := ["a=1", "b"]

/-- `--a` is not UTF-8. -/
def badArgument : ArgMatches := ⟨fun _ ↦ some .commandLine, fun _ ↦ some [none]⟩

theorem unchanged_iff_badSecond :
    ((new.setAssignments Node.text badSecond).2.entries = new.entries ↔
        new.Holds (accepted Node.text assignment badSecond)) ∧
      ((new.bindClap Node.text badArgument [("a", "a")]).2.entries = new.entries ↔
        new.Holds (accepted Node.text (argument badArgument) [("a", "a")])) :=
  ⟨(unchanged_iff Node.text new).1 badSecond _ _ rfl,
    (unchanged_iff Node.text new).2 badArgument [("a", "a")] _ _ rfl⟩

/-- **A refused batch leaves what came before.** The second assignment is refused, and the first
stays. -/
theorem not_unchanged_badSecond :
    new.setAssignments Node.text badSecond =
        (.error { kind := .type, message := "`b` is not a `key=value` assignment" },
          new.insert "a" (Node.text "1")) ∧
      (new.insert "a" (Node.text "1")).entries ≠ new.entries :=
  ⟨rfl, List.cons_ne_nil _ _⟩

end Batches

end Layer

end DynamicConfig
