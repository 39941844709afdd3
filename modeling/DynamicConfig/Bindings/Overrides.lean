import DynamicConfig.Config.Text
import DynamicConfig.Loader.Layer
import DynamicConfig.Transition.Run

/-!
# Pinned overrides

A block of pinned values: the override layer cannot be read back, so both bindings keep a mirror of it,
the paths with the objects that were given for them. A block copies the mirror, pins its own values one
after the other, and leaves by clearing the layer and setting what the copy holds again.

The layer is a map, so the order of the copy does not matter and overlapping paths come back as they were.
Two things do not come back (`undone_iff`). The pins come before the `try`: if one is refused, those before
it stay. And the mirror holds objects while the layer holds what they were converted to: an object that
was changed meanwhile is pinned as it is now, and one that cannot be converted any more ends the restore.
-/

namespace DynamicConfig.Overrides

open Transition (run Along)

/-- The two bindings. -/
inductive Binding where
  | python
  | node

/-- The path a pin of a block is for: a keyword argument spells its dots as two underscores. -/
def Binding.path : Binding → String → String
  | python, name => Text.replace name "__" "."
  | node, name => name

variable {Obj : Type}

/-- A configuration object. `blocks` are the copies of the blocks that are open, innermost first. -/
structure System (Obj : Type) where
  /-- What each object would be converted to now, if it can be. -/
  objects : Obj → Option Node
  layer : Layer
  mirror : List (String × Obj)
  blocks : List (List (String × Obj))

/-- What a program does with it. The reloads at both ends of a block touch no layer. -/
inductive Event (Obj : Type) where
  /-- The program changes objects of its own. -/
  | assign (objects : Obj → Option Node)
  | setOverride (path : String) (value : Obj)
  | clearOverrides
  /-- `overrides` up to its body. -/
  | enter (values : List (String × Obj))
  /-- The `finally` of the innermost block, however its body ended. -/
  | leave

namespace System

/-- A configuration without overrides. -/
def new (objects : Obj → Option Node) : System Obj := ⟨objects, Layer.new, [], []⟩

/-- `set_override`, and whether it was accepted. The value is converted, then the path is checked. -/
def setOverride (s : System Obj) (path : String) (value : Obj) : Bool × System Obj :=
  match s.objects value with
  | none => (false, s)
  | some converted =>
    match s.layer.set path (.ok converted) with
    | (.ok (), layer) =>
      (true, { s with layer := layer, mirror := Entries.insert path value s.mirror })
    | (.error _, _) => (false, s)

/-- `clear_overrides`. -/
def clearOverrides (s : System Obj) : System Obj := { s with layer := Layer.new, mirror := [] }

/-- One `set_override` after the other, until one is refused. -/
def setAll (s : System Obj) : List (String × Obj) → Bool × System Obj
  | [] => (true, s)
  | (path, value) :: values =>
    match s.setOverride path value with
    | (true, t) => t.setAll values
    | (false, t) => (false, t)

/-- `overrides` up to its body, which a refused pin never comes to. -/
def entered (s : System Obj) (pins : List (String × Obj)) : System Obj :=
  match s.setAll pins with
  | (true, t) => { t with blocks := s.mirror :: t.blocks }
  | (false, t) => t

/-- The `finally` of a block that found `previous`. -/
def restored (s : System Obj) (previous : List (String × Obj)) : System Obj :=
  (s.clearOverrides.setAll previous).2

/-- One event. -/
def step (binding : Binding) (s : System Obj) : Event Obj → Option (System Obj)
  | .assign objects => some { s with objects := objects }
  | .setOverride path value => some (s.setOverride path value).2
  | .clearOverrides => some s.clearOverrides
  | .enter values => some (s.entered (values.map fun v ↦ (binding.path v.1, v.2)))
  | .leave =>
    match s.blocks with
    | [] => none
    | previous :: blocks => some { s.restored previous with blocks := blocks }

end System

/-- The objects after an event. -/
def Event.objects (objects : Obj → Option Node) : Event Obj → Obj → Option Node
  | .assign objects => objects
  | .setOverride _ _ | .clearOverrides | .enter _ | .leave => objects

/-- A block from a state to the state it ends in: the events until as many blocks are open as before.
There are none if a pin was refused. -/
structure Block (binding : Binding) (s : System Obj) (values : List (String × Obj))
    (es : List (Event Obj)) (t : System Obj) : Prop where
  run : run (System.step binding) s (.enter values :: es) = some t
  inside : ∀ u, System.step binding s (.enter values) = some u →
    Along (System.step binding) (fun u _ ↦ s.blocks.length < u.blocks.length) u es
  ended : t.blocks.length = s.blocks.length

/-- The layer is what it was. -/
def Undone (s t : System Obj) : Prop := t.layer = s.layer

/-! ### What is written -/

/-- What a pin writes, if it is accepted. -/
def converted (objects : Obj → Option Node) (pin : String × Obj) : Option Node :=
  match checkPath pin.1 with
  | .ok () => objects pin.2
  | .error _ => none

/-- What a list of pins writes, up to the first one that is refused. -/
def written (objects : Obj → Option Node) : List (String × Obj) → List (String × Node)
  | [] => []
  | pin :: pins =>
    match converted objects pin with
    | some value => (pin.1, value) :: written objects pins
    | none => []

/-- Whether no pin is refused. -/
def accepted (objects : Obj → Option Node) (pins : List (String × Obj)) : Bool :=
  pins.all fun pin ↦ (converted objects pin).isSome

/-- When a block leaves the layer as it found it. If its pins are accepted: what was pinned before is
still converted to what it was converted to then. If one is refused: those before it wrote nothing new. -/
def Fits (binding : Binding) (s : System Obj) (values : List (String × Obj)) (es : List (Event Obj)) :
    Prop :=
  let pins := values.map fun v ↦ (binding.path v.1, v.2)
  if accepted s.objects pins then
    ∀ pin ∈ s.mirror, ∃ value, es.foldl Event.objects s.objects pin.2 = some value ∧
      s.layer.entries.lookup pin.1 = some value
  else
    ∀ path value, (written s.objects pins).reverse.lookup path = some value →
      s.layer.entries.lookup path = some value

namespace System

variable {binding : Binding} {s t : System Obj} {pins : List (String × Obj)}

/-- A pin that is accepted. -/
def pinned (s : System Obj) (path : String) (value : Obj) (c : Node) : System Obj :=
  { s with layer := s.layer.insert path c, mirror := Entries.insert path value s.mirror }

theorem setOverride_of_converted {path : String} {value : Obj} {c : Node}
    (h : converted s.objects (path, value) = some c) :
    s.setOverride path value = (true, s.pinned path value c) := by
  unfold converted at h
  rcases hpath : checkPath path with refusal | ⟨⟩
  · rw [hpath] at h
    exact absurd h.symm (Option.some_ne_none c)
  · rw [hpath] at h
    have hobj : s.objects value = some c := h
    have hset : s.layer.set path (.ok c) = (.ok (), s.layer.insert path c) := by
      rw [Layer.set, hpath]
    rw [setOverride, hobj]
    simp only [hset]
    rfl

theorem setOverride_of_refused {path : String} {value : Obj}
    (h : converted s.objects (path, value) = none) : s.setOverride path value = (false, s) := by
  rcases hobj : s.objects value with - | c
  · rw [setOverride, hobj]
  · rw [setOverride, hobj]
    rcases hpath : checkPath path with refusal | ⟨⟩
    · have hset : s.layer.set path (.ok c) = (.error refusal.error, s.layer) := by
        rw [Layer.set, hpath]
      simp only [hset]
    · rw [converted, hpath] at h
      have hnone : s.objects value = none := h
      rw [hobj] at hnone
      exact absurd hnone (Option.some_ne_none c)

/-- What some pins leave: whether all were accepted, and what was written until then. -/
theorem setAll_spec (pins : List (String × Obj)) (s : System Obj) :
    (s.setAll pins).1 = accepted s.objects pins ∧
      (s.setAll pins).2.layer.entries =
        (written s.objects pins).foldl (fun es e ↦ Entries.put e.1 e.2 es) s.layer.entries ∧
      (s.setAll pins).2.objects = s.objects ∧ (s.setAll pins).2.blocks = s.blocks := by
  induction pins generalizing s with
  | nil => exact ⟨rfl, rfl, rfl, rfl⟩
  | cons pin pins ih =>
    obtain ⟨path, value⟩ := pin
    rcases h : converted s.objects (path, value) with - | c
    · rw [setAll, setOverride_of_refused h, accepted, List.all_cons, written, h]
      exact ⟨rfl, rfl, rfl, rfl⟩
    · rw [setAll, setOverride_of_converted h, accepted, List.all_cons, written, h]
      exact ih (s.pinned path value c)

/-- A block is open if all of its pins are accepted. -/
theorem entered_eq (s : System Obj) (pins : List (String × Obj)) :
    s.entered pins =
      if accepted s.objects pins then
        { (s.setAll pins).2 with blocks := s.mirror :: s.blocks }
      else (s.setAll pins).2 := by
  obtain ⟨haccepted, -, -, hblocks⟩ := setAll_spec pins s
  unfold entered
  rcases hall : s.setAll pins with ⟨ok, t⟩
  rw [hall] at haccepted hblocks
  rw [← haccepted, ← hblocks]
  cases ok with
  | false => rfl
  | true => rfl

end System

/-! ### The mirror -/

/-- The mirror has the paths of the layer, each once. -/
structure Mirrored (s : System Obj) : Prop where
  nodup : (s.mirror.map Prod.fst).Nodup
  keys : ∀ path, path ∈ s.mirror.map Prod.fst ↔ (s.layer.entries.lookup path).isSome
  usable : ∀ pin ∈ s.mirror, checkPath pin.1 = .ok ()

section Mirror

variable {binding : Binding} {s t : System Obj} {pins : List (String × Obj)} {path : String}
  {value : Obj} {c : Node}

theorem usable_of_converted (h : converted s.objects (path, value) = some c) :
    checkPath path = .ok () := by
  unfold converted at h
  rcases hpath : checkPath path with refusal | ⟨⟩
  · rw [hpath] at h
    exact absurd h.symm (Option.some_ne_none c)
  · rfl

theorem Mirrored.pinned (hs : Mirrored s) (h : checkPath path = .ok ()) :
    Mirrored (s.pinned path value c) := by
  refine ⟨Entries.nodup_insert hs.nodup path value, fun path' ↦ ?_, fun pin hpin ↦ ?_⟩
  · show path' ∈ (Entries.insert path value s.mirror).map Prod.fst ↔
      ((Entries.put path c s.layer.entries).lookup path').isSome
    rw [← Entries.isSome_lookup_iff_mem, Entries.lookup_insert, Entries.lookup_put]
    by_cases hpath : path' = path
    · rw [if_pos hpath, if_pos hpath]
      exact Iff.rfl
    · rw [if_neg hpath, if_neg hpath, Entries.isSome_lookup_iff_mem]
      exact hs.keys path'
  · have hkey : pin.1 ∈ (Entries.insert path value s.mirror).map Prod.fst :=
      List.mem_map_of_mem hpin
    rw [Entries.map_fst_insert] at hkey
    have hcases : pin.1 = path ∨ pin.1 ∈ s.mirror.map Prod.fst := by
      split at hkey
      · exact .inr hkey
      · rcases List.mem_append.1 hkey with hkey | hkey
        · exact .inr hkey
        · exact .inl (List.mem_singleton.1 hkey)
    rcases hcases with heq | hkey
    · rw [heq]
      exact h
    · obtain ⟨old, hold, hfst⟩ := List.mem_map.1 hkey
      rw [← hfst]
      exact hs.usable old hold

theorem Mirrored.setOverride (hs : Mirrored s) (path : String) (value : Obj) :
    Mirrored (s.setOverride path value).2 := by
  rcases h : converted s.objects (path, value) with - | c
  · rw [System.setOverride_of_refused h]
    exact hs
  · rw [System.setOverride_of_converted h]
    exact hs.pinned (usable_of_converted h)

theorem mirrored_clearOverrides (s : System Obj) : Mirrored s.clearOverrides := by
  refine ⟨List.nodup_nil, fun path ↦ ⟨fun h ↦ absurd h List.not_mem_nil, fun h ↦ ?_⟩, fun pin h ↦ ?_⟩
  · exact absurd h Bool.false_ne_true
  · exact absurd h List.not_mem_nil

theorem Mirrored.setAll (hs : Mirrored s) (pins : List (String × Obj)) :
    Mirrored (s.setAll pins).2 := by
  induction pins generalizing s with
  | nil => exact hs
  | cons pin pins ih =>
    obtain ⟨path, value⟩ := pin
    rcases h : converted s.objects (path, value) with - | c
    · rw [System.setAll, System.setOverride_of_refused h]
      exact hs
    · rw [System.setAll, System.setOverride_of_converted h]
      exact ih (hs.pinned (usable_of_converted h))

theorem Mirrored.of_blocks (hs : Mirrored s) (blocks : List (List (String × Obj))) :
    Mirrored { s with blocks := blocks } := ⟨hs.nodup, hs.keys, hs.usable⟩

theorem Mirrored.entered (hs : Mirrored s) (pins : List (String × Obj)) :
    Mirrored (s.entered pins) := by
  rw [System.entered_eq]
  split
  · exact (hs.setAll pins).of_blocks _
  · exact hs.setAll pins

/-- **An event keeps the mirror.** -/
theorem Mirrored.step (hs : Mirrored s) {e : Event Obj}
    (h : System.step binding s e = some t) : Mirrored t := by
  cases e with
  | assign objects =>
    obtain rfl := Option.some_inj.1 h
    exact ⟨hs.nodup, hs.keys, hs.usable⟩
  | setOverride path value =>
    obtain rfl := Option.some_inj.1 h
    exact hs.setOverride path value
  | clearOverrides =>
    obtain rfl := Option.some_inj.1 h
    exact mirrored_clearOverrides s
  | enter values =>
    obtain rfl := Option.some_inj.1 h
    exact hs.entered _
  | leave =>
    unfold System.step at h
    rcases hblocks : s.blocks with - | ⟨previous, blocks⟩
    · rw [hblocks] at h
      exact absurd h.symm (Option.some_ne_none t)
    · rw [hblocks] at h
      obtain rfl := Option.some_inj.1 h
      exact ((mirrored_clearOverrides s).setAll previous).of_blocks blocks

/-- The mirror has the layer's paths in every reachable state. -/
theorem mirrored_of_run {objects : Obj → Option Node} {es : List (Event Obj)}
    (h : run (System.step binding) (System.new objects) es = some s) : Mirrored s :=
  Transition.run_invariant (fun _ _ _ hstep hs ↦ hs.step hstep) h
    (mirrored_clearOverrides (System.new objects))

end Mirror

/-! ### What a restore brings back -/

section Restore

variable {objects : Obj → Option Node} {pins : List (String × Obj)} {es : List (String × Node)}

theorem objects_of_converted {pin : String × Obj} {c : Node} (h : converted objects pin = some c) :
    objects pin.2 = some c := by
  unfold converted at h
  split at h
  · exact h
  · exact absurd h.symm (Option.some_ne_none c)

theorem exists_of_mem_written {e : String × Node} (h : e ∈ written objects pins) :
    ∃ value, (e.1, value) ∈ pins ∧ converted objects (e.1, value) = some e.2 := by
  induction pins with
  | nil => exact absurd h List.not_mem_nil
  | cons pin pins ih =>
    rw [written] at h
    split at h
    · next c hc =>
      rcases List.mem_cons.1 h with rfl | h
      · exact ⟨pin.2, List.mem_cons_self, hc⟩
      · obtain ⟨value, hmem, hconv⟩ := ih h
        exact ⟨value, List.mem_cons_of_mem pin hmem, hconv⟩
    · exact absurd h List.not_mem_nil

/-- If no pin is refused every one is written. -/
theorem map_fst_written (h : accepted objects pins = true) :
    (written objects pins).map Prod.fst = pins.map Prod.fst := by
  induction pins with
  | nil => rfl
  | cons pin pins ih =>
    rw [accepted, List.all_cons, Bool.and_eq_true] at h
    obtain ⟨c, hc⟩ := Option.isSome_iff_exists.1 h.1
    rw [written, hc, List.map_cons, List.map_cons, ih h.2]

/-- **A restore brings a map back** if what was given for each of its paths is converted to the same
value again, and only then. -/
theorem restores_iff (hnodup : (pins.map Prod.fst).Nodup)
    (husable : ∀ pin ∈ pins, checkPath pin.1 = .ok ())
    (hordered : (es.map Prod.fst).Pairwise (· < ·))
    (hkeys : ∀ path, path ∈ pins.map Prod.fst ↔ (es.lookup path).isSome) :
    (written objects pins).foldl (fun es e ↦ Entries.put e.1 e.2 es) [] = es ↔
      ∀ pin ∈ pins, ∃ value, objects pin.2 = some value ∧ es.lookup pin.1 = some value := by
  have hlookup : ∀ path, ((written objects pins).foldl (fun es e ↦ Entries.put e.1 e.2 es) []).lookup
      path = (written objects pins).reverse.lookup path := fun path ↦
    (Entries.lookup_foldl_put (written objects pins) [] path).trans (Option.or_none ..)
  -- what is written for a path comes from a pin of that path
  have hpin : ∀ {path c}, (written objects pins).reverse.lookup path = some c →
      ∃ value, (path, value) ∈ pins ∧ objects value = some c := by
    intro path c h
    obtain ⟨value, hmem, hconv⟩ :=
      exists_of_mem_written (List.mem_reverse.1 (Entries.mem_of_lookup h))
    exact ⟨value, hmem, objects_of_converted hconv⟩
  constructor
  · intro hsame pin hmem
    obtain ⟨c, hc⟩ := Option.isSome_iff_exists.1 ((hkeys pin.1).1 (List.mem_map_of_mem hmem))
    have hwritten : (written objects pins).reverse.lookup pin.1 = some c := by
      rw [← hlookup, hsame, hc]
    obtain ⟨value, hvalue, hobj⟩ := hpin hwritten
    have hfound := Entries.lookup_of_mem hnodup hvalue
    rw [Entries.lookup_of_mem hnodup hmem] at hfound
    obtain rfl : pin.2 = value := Option.some_inj.1 hfound
    exact ⟨c, hobj, hc⟩
  · intro hback
    have haccepted : accepted objects pins = true := by
      refine List.all_eq_true.2 fun pin hmem ↦ ?_
      obtain ⟨c, hc, -⟩ := hback pin hmem
      rw [converted, husable pin hmem, hc]
      rfl
    refine Entries.eq_of_lookup_eq (Entries.pairwise_foldl_put List.Pairwise.nil _) hordered
      fun path ↦ ?_
    rw [hlookup]
    rcases hwritten : (written objects pins).reverse.lookup path with - | c
    · -- a path that is not written is of no pin
      rw [Entries.lookup_eq_none_iff_not_mem, List.map_reverse, List.mem_reverse,
        map_fst_written haccepted, hkeys] at hwritten
      exact (Option.not_isSome_iff_eq_none.1 hwritten).symm
    · obtain ⟨value, hmem, hobj⟩ := hpin hwritten
      obtain ⟨d, hd, hes⟩ := hback (path, value) hmem
      rw [hobj] at hd
      rw [hes, hd]

end Restore

/-! ### Blocks -/

section Blocks

variable {binding : Binding} {s t u : System Obj} {e : Event Obj} {es : List (Event Obj)}

/-- A layer is its entries. -/
theorem undone_iff_entries : Undone s t ↔ t.layer.entries = s.layer.entries := by
  have hext : ∀ {a b : Layer}, a.entries = b.entries → a = b := by
    rintro ⟨entries, ordered⟩ ⟨_, _⟩ rfl
    rfl
  exact ⟨congrArg Layer.entries, hext⟩

theorem layer_restored (s : System Obj) (previous : List (String × Obj)) :
    (s.restored previous).layer.entries =
      (written s.objects previous).foldl (fun es e ↦ Entries.put e.1 e.2 es) [] :=
  (System.setAll_spec previous s.clearOverrides).2.1

theorem objects_setOverride (s : System Obj) (path : String) (value : Obj) :
    (s.setOverride path value).2.objects = s.objects ∧
      (s.setOverride path value).2.blocks = s.blocks := by
  rcases h : converted s.objects (path, value) with - | c
  · rw [System.setOverride_of_refused h]
    exact ⟨rfl, rfl⟩
  · rw [System.setOverride_of_converted h]
    exact ⟨rfl, rfl⟩

/-- Only the program changes its objects. -/
theorem objects_step (h : System.step binding s e = some t) :
    t.objects = Event.objects s.objects e := by
  cases e with
  | assign objects =>
    obtain rfl := Option.some_inj.1 h
    rfl
  | setOverride path value =>
    obtain rfl := Option.some_inj.1 h
    exact (objects_setOverride s path value).1
  | clearOverrides =>
    obtain rfl := Option.some_inj.1 h
    rfl
  | enter values =>
    obtain rfl := Option.some_inj.1 h
    show (s.entered _).objects = s.objects
    rw [System.entered_eq]
    split
    · exact (System.setAll_spec _ s).2.2.1
    · exact (System.setAll_spec _ s).2.2.1
  | leave =>
    unfold System.step at h
    rcases hblocks : s.blocks with - | ⟨previous, blocks⟩
    · rw [hblocks] at h
      exact absurd h.symm (Option.some_ne_none t)
    · rw [hblocks] at h
      obtain rfl := Option.some_inj.1 h
      exact (System.setAll_spec previous s.clearOverrides).2.2.1

/-- Which blocks are open after an event: those that were, with one more, or without the innermost one,
which was restored. -/
theorem blocks_step (h : System.step binding s e = some t) :
    t.blocks = s.blocks ∨ (∃ previous, t.blocks = previous :: s.blocks) ∨
      ∃ previous, s.blocks = previous :: t.blocks ∧ t.objects = s.objects ∧
        t.layer = (s.restored previous).layer := by
  cases e with
  | assign objects =>
    obtain rfl := Option.some_inj.1 h
    exact .inl rfl
  | setOverride path value =>
    obtain rfl := Option.some_inj.1 h
    exact .inl (objects_setOverride s path value).2
  | clearOverrides =>
    obtain rfl := Option.some_inj.1 h
    exact .inl rfl
  | enter values =>
    obtain rfl := Option.some_inj.1 h
    rw [System.entered_eq]
    split
    · exact .inr (.inl ⟨s.mirror, rfl⟩)
    · exact .inl (System.setAll_spec _ s).2.2.2
  | leave =>
    unfold System.step at h
    rcases hblocks : s.blocks with - | ⟨previous, blocks⟩
    · rw [hblocks] at h
      exact absurd h.symm (Option.some_ne_none t)
    · rw [hblocks] at h
      obtain rfl := Option.some_inj.1 h
      exact .inr (.inr ⟨previous, rfl, (System.setAll_spec previous s.clearOverrides).2.2.1, rfl⟩)

/-- **A block ends with its own restore**, however many were opened inside of it. By induction on the
events; `inner` are the blocks that are open inside. -/
theorem layer_of_inside {previous : List (String × Obj)} {outer : List (List (String × Obj))}
    (hrun : run (System.step binding) u es = some t)
    (hinside : Along (System.step binding) (fun u _ ↦ outer.length < u.blocks.length) u es)
    (hended : t.blocks.length = outer.length) {inner : List (List (String × Obj))}
    (hu : u.blocks = inner ++ previous :: outer) :
    ∃ v : System Obj, v.objects = es.foldl Event.objects u.objects ∧
      t.layer = (v.restored previous).layer := by
  induction es generalizing u inner with
  | nil =>
    obtain rfl := Option.some_inj.1 hrun
    rw [hu, List.length_append, List.length_cons] at hended
    omega
  | cons e es ih =>
    obtain ⟨w, hw, hrest⟩ := Transition.run_cons_eq_some hrun
    have hafter := hinside.2 w hw
    rw [List.foldl_cons, ← objects_step hw]
    rcases blocks_step hw with hsame | ⟨opened, hmore⟩ | ⟨closed, hless, hkept, hlayer⟩
    · exact ih hrest hafter (hsame.trans hu)
    · have hopened : w.blocks = (opened :: inner) ++ previous :: outer := by
        rw [hmore, hu]
        rfl
      exact ih hrest hafter hopened
    · rw [hu] at hless
      rcases inner with - | ⟨first, inner⟩
      · -- the block itself was left, so that nothing follows
        obtain ⟨rfl, houter⟩ := List.cons_eq_cons.1 hless
        rcases es with - | ⟨e', es⟩
        · obtain rfl := Option.some_inj.1 hrest
          exact ⟨u, hkept.symm, hlayer⟩
        · have hlt := hafter.1
          rw [houter] at hlt
          exact absurd hlt (Nat.lt_irrefl _)
      · exact ih hrest hafter (List.cons_eq_cons.1 hless).2.symm

/-- **A block leaves the layer as it found it** exactly if none of its pins is refused after one that
wrote something, and what was pinned before is converted to the same values when it ends. -/
theorem undone_iff {objects : Obj → Option Node} {fs : List (Event Obj)}
    (hreach : run (System.step binding) (System.new objects) fs = some s)
    {values : List (String × Obj)} (hblock : Block binding s values es t) :
    Undone s t ↔ Fits binding s values es := by
  have hmirrored := mirrored_of_run hreach
  obtain ⟨u, hu, hrun⟩ := Transition.run_cons_eq_some hblock.run
  have hinside := hblock.inside u hu
  have hentered := Option.some_inj.1 hu
  rw [System.entered_eq] at hentered
  rw [undone_iff_entries, Fits]
  set pins := values.map fun v ↦ (binding.path v.1, v.2)
  obtain ⟨-, hentries, hobjects, hblocks⟩ := System.setAll_spec pins s
  split
  · next haccepted =>
    rw [if_pos haccepted] at hentered
    subst hentered
    obtain ⟨v, hv, hback⟩ := layer_of_inside hrun hinside hblock.ended
      (show _ = [] ++ s.mirror :: s.blocks from rfl)
    have hv : v.objects = es.foldl Event.objects s.objects := by
      rw [hv, ← hobjects]
    rw [hback, layer_restored, hv]
    exact restores_iff hmirrored.nodup hmirrored.usable s.layer.ordered hmirrored.keys
  · next hrefused =>
    rw [if_neg hrefused] at hentered
    subst hentered
    rcases es with - | ⟨e, es⟩
    · obtain rfl := Option.some_inj.1 hrun
      rw [hentries]
      exact Entries.foldl_put_eq_self_iff s.layer.ordered _
    · -- no block is open, so that nothing happens in it
      have hlt : s.blocks.length < (s.setAll pins).2.blocks.length := hinside.1
      rw [hblocks] at hlt
      exact absurd hlt (Nat.lt_irrefl _)

end Blocks

/-! ### Refused part-way -/

/-- Two objects: the first is a text, the second cannot be converted. -/
def textOrNot : ℕ → Option Node
  | 0 => some (Node.text "pinned")
  | _ => none

/-- **A refused pin leaves those before it behind.** -/
theorem not_undone_refused :
    ¬ ∀ (s t : System ℕ) (fs es : List (Event ℕ)) (values : List (String × ℕ)),
      run (System.step .python) (System.new textOrNot) fs = some s →
      Block .python s values es t → Undone s t := by
  intro hall
  have hundone := hall (System.new textOrNot)
    ((System.new textOrNot).entered [("host", 0), ("pool.size", 1)]) [] []
    [("host", 0), ("pool__size", 1)] rfl
    ⟨rfl, fun _ _ ↦ trivial, rfl⟩
  have hentries := congrArg Layer.entries hundone
  exact absurd hentries (List.cons_ne_nil _ _)

/-- A pin that is there before the block. -/
def hostPinned : System ℕ := ((System.new textOrNot).setOverride "host" 0).2

/-- Inside of a block, another one is refused part-way. -/
def refusedInside : List (Event ℕ) := [.enter [("host", 0), ("port", 1)], .leave]

theorem undone_refusedInside :
    ∃ t, Block .python hostPinned [("pool__size", 0)] refusedInside t ∧ Undone hostPinned t := by
  have hblock : Block .python hostPinned [("pool__size", 0)] refusedInside
      { hostPinned.entered [("pool.size", 0)] with
        layer := hostPinned.layer, mirror := hostPinned.mirror, blocks := [] } := by
    refine ⟨rfl, fun u hu ↦ ?_, rfl⟩
    obtain rfl := Option.some_inj.1 hu
    exact ⟨Nat.one_pos, fun v hv ↦ Option.some_inj.1 hv ▸ ⟨Nat.one_pos, fun _ _ ↦ trivial⟩⟩
  have hreach : run (System.step .python) (System.new textOrNot) [.setOverride "host" 0] =
      some hostPinned := rfl
  refine ⟨_, hblock, (undone_iff hreach hblock).2 ?_⟩
  have haccepted : accepted hostPinned.objects
      ([("pool__size", 0)].map fun v ↦ (Binding.python.path v.1, v.2)) = true := rfl
  rw [Fits, if_pos haccepted]
  intro pin hpin
  obtain rfl := List.mem_singleton.1 hpin
  exact ⟨_, rfl, rfl⟩

end DynamicConfig.Overrides
