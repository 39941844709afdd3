import DynamicConfig.Cell.Hooks
import DynamicConfig.Transition.Run
import Mathlib.Data.List.Nodup

/-!
# Which hooks a dispatch runs

The list behind the pointer is what the log amounts to (`Kept`): an exchange succeeds only on the
list it was computed from, and a guard's token is of one registration as long as tokens have not come
round. What a dispatch has called and what it has yet to call are what it has read, and so every hook
that was there is called, once and in its turn.
-/

namespace DynamicConfig.Hooks

open Cell (ReloadEvent)
open Remote (word wrappingSucc)
open Transition (run)

namespace System

variable {T R : Type}

/-! ### The law -/

/-- The turns that take a dispatch through the hooks it has yet to run, whatever each comes to. -/
def through (d : Nat) (event : ReloadEvent T R) : List Registered → List Bool → List (Turn T R)
  | r :: left, panicked :: panics =>
    if r.callback.fires event then .go d :: .finish d panicked :: through d event left panics
    else .go d :: through d event left panics
  | _, _ => [.go d]

/-- **Hooks are neither lost nor repeated.** -/
structure Lawful (sys : System T R) : Prop where
  /-- A dispatch that is over has called every hook that was registered before it read the list, and
  whose guard was not dropped before, exactly once. -/
  once : ∀ (d : Nat) (event : ReloadEvent T R) before list after,
    sys.calls[d]? = some (.dispatched event) → sys.log = before ++ .read d list :: after →
      ∀ i r, Event.took i r ∈ before → Event.dropped i ∉ before → r.callback.fires event = true →
        (ranIn sys.log d).count i = 1
  /-- A hook of the pair form is not called where there is no pair. -/
  silent : ∀ (d : Nat) (point : Point T R) event, sys.calls[d]? = some point →
    point.event = some event → ∀ i r, Event.took i r ∈ sys.log →
      r.callback.fires event = false → i ∉ ranIn sys.log d
  /-- Hooks run in the order in which their registrations took effect. -/
  ordered : ∀ (d : Nat) (point : Point T R) event, sys.calls[d]? = some point →
    point.event = some event → (ranIn sys.log d).Sublist (effects sys.log)
  /-- No registration takes effect twice. -/
  distinct : (effects sys.log).Nodup
  /-- A token is of one registration. -/
  unique : ∀ (i j : Nat) (x y : Point T R) token, sys.calls[i]? = some x → sys.calls[j]? = some y →
    x.token = some token → y.token = some token → i = j
  /-- A hook is there until its own guard is dropped. -/
  others : ∀ i r, Event.took i r ∈ sys.log → Event.dropped i ∉ sys.log →
    ∃ current, sys.hooks = some current ∧ r ∈ current.list
  /-- A dispatch comes through the hooks it has yet to run, whatever each comes to. -/
  goesThrough : ∀ (d : Nat) event left, sys.calls[d]? = some (.running event left) →
    ∀ panics : List Bool, panics.length = left.length →
      ∃ t, run step sys (through d event left panics) = some t ∧
        t.calls[d]? = some (.dispatched event) ∧ ranIn t.log d = ranIn sys.log d ++ fired event left

/-! ### The invariant -/

/-- Where a call stands in what has happened. -/
def Stands (log : List Event) (i : Nat) : Point T R → Prop
  | .registering _ => i ∉ issued log ∧ i ∉ effects log
  | .numbered token callback | .slotted token callback | .adding token callback _ =>
    callback.hook = i ∧ (issued log)[token]? = some i ∧ i ∉ effects log
  | .registered token _ => ∃ callback, Event.took i ⟨token, callback⟩ ∈ log
  | .unregistering guard token | .found guard token | .removing guard token _ =>
    Event.dropped guard ∈ log ∧ ∃ callback, Event.took guard ⟨token, callback⟩ ∈ log
  | .unregistered => True
  | .dispatching _ | .reached _ => readIn log i = [] ∧ ranIn log i = []
  | .running event left | .inside event left =>
    ∃ list, readIn log i = [list] ∧ ranIn log i ++ fired event left = fired event list
  | .dispatched event => (readIn log i = [] ∧ ranIn log i = []) ∨
    ∃ list, readIn log i = [list] ∧ ranIn log i = fired event list

/-- The pointer that is there is to the list that was seen, if it compares equal. -/
def Sees (sys : System T R) (seen : Published) : Prop :=
  seen.id < sys.allocated ∧
    ∀ current, sys.hooks = some current → current.id = seen.id → current.list = seen.list

/-- What every turn keeps. -/
structure Kept (sys : System T R) : Prop where
  next : sys.nextToken = (issued sys.log).length % word
  record : Record sys.log
  known : ∀ e ∈ sys.log, ∀ i, e.about = some i → i < sys.calls.length
  list : (sys.hooks.map Published.list).getD [] = live sys.log
  fresh : ∀ current, sys.hooks = some current → current.id < sys.allocated
  sees : ∀ (i : Nat) (point : Point T R), sys.calls[i]? = some point →
    ∀ seen, point.seen = some seen → sys.Sees seen
  stands : ∀ (i : Nat) (point : Point T R), sys.calls[i]? = some point → Stands sys.log i point

theorem kept_new : (new : System T R).Kept where
  next := rfl
  record := record_nil
  known _ h := absurd h List.not_mem_nil
  list := rfl
  fresh _ h := absurd h (Option.some_ne_none _).symm
  sees _ _ h := absurd h (Option.some_ne_none _).symm
  stands _ _ h := absurd h (Option.some_ne_none _).symm

/-! ### What others do -/

section Frame

variable {log : List Event} {e : Event} {i : Nat}

/-- Another call's step is nothing of this one's. -/
theorem nothing_of_about (hfits : e.Fits log) (habout : e.about ≠ some i) :
    e.number ≠ some i ∧ e.taken ≠ some i ∧ e.reading i = none ∧ e.calling i = none := by
  rcases e with j | ⟨j, r⟩ | j | j | ⟨d, list⟩ | ⟨d, hook⟩
  · exact ⟨habout, Option.some_ne_none i |>.symm, rfl, rfl⟩
  · refine ⟨(Option.some_ne_none i).symm, ?_, rfl, rfl⟩
    rw [Event.taken, hfits.1]
    exact habout
  · exact ⟨(Option.some_ne_none i).symm, (Option.some_ne_none i).symm, rfl, rfl⟩
  · exact ⟨(Option.some_ne_none i).symm, (Option.some_ne_none i).symm, rfl, rfl⟩
  · exact ⟨(Option.some_ne_none i).symm, (Option.some_ne_none i).symm,
      if_neg fun hd ↦ habout (congrArg some hd), rfl⟩
  · exact ⟨(Option.some_ne_none i).symm, (Option.some_ne_none i).symm, rfl,
      if_neg fun hd ↦ habout (congrArg some hd)⟩

/-- What is not in a list is not in the list when something else is added. -/
theorem not_mem_filterMap {f : Event → Option Nat} (h : i ∉ log.filterMap f) (he : f e ≠ some i) :
    i ∉ (log ++ [e]).filterMap f := by
  simp only [List.mem_filterMap, List.mem_append, List.mem_singleton, not_exists, not_and] at h ⊢
  rintro e' (hold | rfl)
  · exact h e' hold
  · exact he

/-- What an event adds nothing to is as it was. -/
theorem filterMap_append_none {α : Type} {f : Event → Option α} (he : f e = none)
    (log : List Event) : (log ++ [e]).filterMap f = log.filterMap f := by
  rw [List.filterMap_append, List.filterMap_cons_none he]
  exact List.append_nil _

/-- **Where a call stands is not moved by another's step.** -/
theorem Stands.frame {point : Point T R} (h : Stands log i point) (hfits : e.Fits log)
    (habout : e.about ≠ some i) : Stands (log ++ [e]) i point := by
  obtain ⟨hnumber, htaken, hreading, hcalling⟩ := nothing_of_about hfits habout
  have hread : readIn (log ++ [e]) i = readIn log i := filterMap_append_none hreading log
  have hran : ranIn (log ++ [e]) i = ranIn log i := filterMap_append_none hcalling log
  have hmem : ∀ {e' : Event}, e' ∈ log → e' ∈ log ++ [e] := List.mem_append_left _
  rcases point with form | ⟨token, callback⟩ | ⟨token, callback⟩ | ⟨token, callback, seen⟩ |
    ⟨token, held⟩ | ⟨guard, token⟩ | ⟨guard, token⟩ | ⟨guard, token, seen⟩ | - | event | event |
    ⟨event, left⟩ | ⟨event, left⟩ | event
  case registering => exact ⟨not_mem_filterMap h.1 hnumber, not_mem_filterMap h.2 htaken⟩
  case numbered | slotted | adding =>
    exact ⟨h.1, issued_append h.2.1 [e], not_mem_filterMap h.2.2 htaken⟩
  case registered =>
    obtain ⟨callback, hcallback⟩ := h
    exact ⟨callback, hmem hcallback⟩
  case unregistering | found | removing =>
    obtain ⟨hdropped, callback, hcallback⟩ := h
    exact ⟨hmem hdropped, callback, hmem hcallback⟩
  case unregistered => exact trivial
  all_goals
    rw [Stands, hread, hran]
    exact h

/-- A call that has not been there has had nothing. -/
theorem nothing_of_unknown (hrecord : Record log) (h : ∀ e ∈ log, e.about ≠ some i) :
    i ∉ issued log ∧ i ∉ effects log ∧ readIn log i = [] ∧ ranIn log i = [] := by
  induction log using List.reverseRecOn with
  | nil => exact ⟨List.not_mem_nil, List.not_mem_nil, rfl, rfl⟩
  | append_singleton log e ih =>
    obtain ⟨hissued, heffects, hread, hran⟩ :=
      ih hrecord.left fun e he ↦ h e (List.mem_append_left _ he)
    obtain ⟨hnumber, htaken, hreading, hcalling⟩ :=
      nothing_of_about hrecord.last (h e (List.mem_append_right _ (List.mem_singleton.2 rfl)))
    exact ⟨not_mem_filterMap hissued hnumber, not_mem_filterMap heffects htaken,
      (filterMap_append_none hreading log).trans hread,
      (filterMap_append_none hcalling log).trans hran⟩

end Frame

/-! ### What every turn keeps -/

section Turns

variable {sys : System T R} {i : Nat} {x y : Point T R} {e : Event}

/-- The pointer that is there is seen. -/
theorem Kept.sees_current (h : sys.Kept) {current : Published} (hcurrent : sys.hooks = some current) :
    sys.Sees current :=
  ⟨h.fresh current hcurrent, fun _ hother _ ↦
    congrArg Published.list (Option.some.inj (hother.symm.trans hcurrent))⟩

/-- The list behind the pointer is what the log amounts to. -/
theorem Kept.list_current (h : sys.Kept) {current : Published} (hcurrent : sys.hooks = some current) :
    current.list = live sys.log := by
  rw [← h.list, hcurrent]
  rfl

/-- A call that writes nothing keeps what is kept. -/
theorem Kept.move (h : sys.Kept) (hseen : ∀ seen, y.seen = some seen → sys.Sees seen)
    (hy : Stands sys.log i y) : (sys.move i y).Kept where
  next := h.next
  record := h.record
  known e he j hj := Transition.lt_length_set (h.known e he j hj)
  list := h.list
  fresh := h.fresh
  sees := Transition.forall_set h.sees hseen
  stands := Transition.forall_set h.stands hy

/-- A new call keeps what is kept. -/
theorem Kept.enter (h : sys.Kept) (hseen : y.seen = none) (hy : Stands sys.log sys.calls.length y) :
    Kept { sys with calls := sys.calls ++ [y] } where
  next := h.next
  record := h.record
  known e he j hj := Transition.lt_length_append (h.known e he j hj)
  list := h.list
  fresh := h.fresh
  sees := by
    have hnone : ∀ seen, y.seen = some seen → sys.Sees seen :=
      fun seen hsome ↦ absurd (hseen.symm.trans hsome) (Option.some_ne_none seen).symm
    exact Transition.forall_append h.sees hnone
  stands := Transition.forall_append h.stands hy

/-- A step that something is to be said of, and that leaves the list, keeps what is kept. -/
theorem Kept.write (h : sys.Kept) (hx : sys.calls[i]? = some x) (hfits : e.Fits sys.log)
    (habout : e.about = some i) (hlive : e.apply (live sys.log) = live sys.log) {next : Nat}
    (hnext : next = (issued (sys.log ++ [e])).length % word) (hseen : y.seen = none)
    (hy : Stands (sys.log ++ [e]) i y) : Kept { sys.write i y e with nextToken := next } where
  next := hnext
  record := h.record.append hfits
  known e' he j hj := by
    refine Transition.lt_length_set ?_
    rcases List.mem_append.1 he with hold | hnew
    · exact h.known e' hold j hj
    · obtain rfl := List.mem_singleton.1 hnew
      obtain rfl := Option.some.inj (habout.symm.trans hj)
      exact Transition.lt_length_of_getElem? hx
  list := by
    show _ = live (sys.log ++ [e])
    rw [live_append, hlive]
    exact h.list
  fresh := h.fresh
  sees := by
    have hnone : ∀ seen, y.seen = some seen → sys.Sees seen :=
      fun seen hsome ↦ absurd (hseen.symm.trans hsome) (Option.some_ne_none seen).symm
    exact Transition.forall_set h.sees hnone
  stands := by
    intro j z hz
    rcases Transition.getElem?_of_set hz with ⟨rfl, rfl⟩ | ⟨hne, hz⟩
    · exact hy
    · refine (h.stands j z hz).frame hfits ?_
      rw [habout]
      exact fun hij ↦ hne (Option.some.inj hij).symm

/-- **An exchange that succeeds keeps what is kept.** -/
theorem Kept.publish (h : sys.Kept) (hx : sys.calls[i]? = some x) (hfits : e.Fits sys.log)
    (habout : ∀ j, e.about = some j → j = i) (hissued : e.number = none)
    {list : List Registered} (hlist : list = e.apply (live sys.log)) (hseen : y.seen = none)
    (hy : Stands (sys.log ++ [e]) i y) : (sys.publish i y e list).Kept where
  next := by
    show sys.nextToken = (issued (sys.log ++ [e])).length % word
    rw [issued, filterMap_append_none hissued]
    exact h.next
  record := h.record.append hfits
  known e' he j hj := by
    refine Transition.lt_length_set ?_
    rcases List.mem_append.1 he with hold | hnew
    · exact h.known e' hold j hj
    · obtain rfl := List.mem_singleton.1 hnew
      obtain rfl := habout j hj
      exact Transition.lt_length_of_getElem? hx
  list := by
    show list = live (sys.log ++ [e])
    rw [live_append, hlist]
  fresh current hcurrent := by
    obtain rfl := Option.some.inj hcurrent
    exact Nat.lt_succ_self _
  sees j z hz seen hsome := by
    rcases Transition.getElem?_of_set hz with ⟨rfl, rfl⟩ | ⟨-, hz⟩
    · exact absurd (hseen.symm.trans hsome) (Option.some_ne_none seen).symm
    · have hold : seen.id < sys.allocated := (h.sees j z hz seen hsome).1
      refine ⟨Nat.lt_succ_of_lt hold, fun current hcurrent hid ↦ ?_⟩
      -- a new allocation compares equal to nothing that was seen
      obtain rfl := Option.some.inj hcurrent
      exact absurd hid (Nat.ne_of_gt hold)
  stands := by
    intro j z hz
    rcases Transition.getElem?_of_set hz with ⟨rfl, rfl⟩ | ⟨hne, hz⟩
    · exact hy
    · exact (h.stands j z hz).frame hfits fun hij ↦ hne (habout j hij)

/-- There is a list from now on. -/
theorem Kept.slot (h : sys.Kept) (hseen : y.seen = none) (hy : Stands sys.log i y) :
    Kept { sys.move i y with
      hooks := sys.hooks.or (some ⟨sys.allocated, []⟩), allocated := sys.allocated + 1 } where
  next := h.next
  record := h.record
  known := (h.move (i := i) (y := y) (fun seen hsome ↦
    absurd (hseen.symm.trans hsome) (Option.some_ne_none seen).symm) hy).known
  list := by
    show ((sys.hooks.or (some ⟨sys.allocated, []⟩)).map Published.list).getD [] = live sys.log
    rw [← h.list]
    rcases sys.hooks with - | current
    · rfl
    · rfl
  fresh current hcurrent := by
    show current.id < sys.allocated + 1
    rcases Option.or_eq_some_iff.1 hcurrent with hold | ⟨-, hnew⟩
    · exact Nat.lt_succ_of_lt (h.fresh current hold)
    · obtain rfl := Option.some.inj hnew
      exact Nat.lt_succ_self _
  sees j z hz seen hsome := by
    rcases Transition.getElem?_of_set hz with ⟨rfl, rfl⟩ | ⟨-, hz⟩
    · exact absurd (hseen.symm.trans hsome) (Option.some_ne_none seen).symm
    · obtain ⟨hlt, hsame⟩ := h.sees j z hz seen hsome
      refine ⟨Nat.lt_succ_of_lt hlt, fun current hcurrent hid ↦ ?_⟩
      rcases Option.or_eq_some_iff.1 hcurrent with hold | ⟨-, hnew⟩
      · exact hsame current hold hid
      · obtain rfl := Option.some.inj hnew
        exact absurd hid (Nat.ne_of_gt hlt)
  stands := Transition.forall_set h.stands hy

/-- A registration takes its token. -/
theorem Kept.number (h : sys.Kept) {form : Form} (hx : sys.calls[i]? = some (.registering form))
    (hroom : (issued (sys.log ++ [.numbered i])).length ≤ word) :
    Kept { sys.write i (.numbered sys.nextToken ⟨form, i⟩) (.numbered i) with
      nextToken := wrappingSucc sys.nextToken } := by
  obtain ⟨hfresh, huntaken⟩ := h.stands i _ hx
  have hissued : issued (sys.log ++ [.numbered i]) = issued sys.log ++ [i] := by
    rw [issued, List.filterMap_append]
    rfl
  rw [hissued, List.length_append, List.length_singleton] at hroom
  have hnext : sys.nextToken = (issued sys.log).length := by
    rw [h.next]
    exact Nat.mod_eq_of_lt (by omega)
  have hfits : (Event.numbered i).Fits sys.log := hfresh
  refine h.write hx hfits rfl rfl ?_ rfl ⟨rfl, ?_, not_mem_filterMap huntaken ?_⟩
  · rw [hissued, hnext, wrappingSucc, List.length_append, List.length_singleton]
  · rw [hissued, hnext]
    exact List.getElem?_concat_length
  · exact (Option.some_ne_none i).symm

/-- A registration exchanges the list for one with its hook at the end. -/
theorem Kept.add (h : sys.Kept) {token : Nat} {callback : Callback} {seen current : Published}
    (hx : sys.calls[i]? = some (.adding token callback seen)) (hcurrent : sys.hooks = some current)
    (hid : current.id = seen.id) :
    (sys.publish i (.registered token true) (.took i ⟨token, callback⟩)
      (seen.list ++ [⟨token, callback⟩])).Kept := by
  obtain ⟨hhook, htoken, huntaken⟩ := h.stands i _ hx
  have hsame : seen.list = live sys.log := by
    rw [← (h.sees i _ hx seen rfl).2 current hcurrent hid]
    exact h.list_current hcurrent
  have hfits : (Event.took i ⟨token, callback⟩).Fits sys.log := ⟨hhook, htoken, huntaken⟩
  refine h.publish hx hfits (fun j hj ↦ (Option.some.inj hj).symm) rfl ?_ rfl
    ⟨callback, List.mem_append_right _ (List.mem_singleton.2 rfl)⟩
  rw [hsame]
  rfl

/-- A dropped guard exchanges the list for one without its hook. -/
theorem Kept.remove (h : sys.Kept) {guard token : Nat} {seen current : Published}
    (hx : sys.calls[i]? = some (.removing guard token seen)) (hcurrent : sys.hooks = some current)
    (hid : current.id = seen.id) :
    (sys.publish i .unregistered (.removed guard)
      (seen.list.filter fun r ↦ r.token ≠ token)).Kept := by
  obtain ⟨hdropped, callback, htook⟩ := h.stands i _ hx
  have hsame : seen.list = live sys.log := by
    rw [← (h.sees i _ hx seen rfl).2 current hcurrent hid]
    exact h.list_current hcurrent
  have hfits : (Event.removed guard).Fits sys.log := hdropped
  refine h.publish hx hfits (fun j hj ↦ absurd hj (Option.some_ne_none j).symm) rfl ?_ rfl trivial
  rw [hsame]
  exact filter_token h.record htook

/-- A dispatch reads the list. -/
theorem Kept.read (h : sys.Kept) {event : ReloadEvent T R} {current : Published}
    (hx : sys.calls[i]? = some (.reached event)) (hcurrent : sys.hooks = some current) :
    (sys.write i (if current.list.isEmpty then .dispatched event else .running event current.list)
      (.read i current.list)).Kept := by
  obtain ⟨hread, hran⟩ := h.stands i _ hx
  have hreads : readIn (sys.log ++ [.read i current.list]) i = [current.list] := by
    rw [readIn, List.filterMap_append, ← readIn, hread]
    simp [Event.reading]
  have hrans : ranIn (sys.log ++ [.read i current.list]) i = [] := by
    rw [ranIn, filterMap_append_none rfl]
    exact hran
  have hissued : sys.nextToken = (issued (sys.log ++ [.read i current.list])).length % word := by
    rw [issued, filterMap_append_none rfl]
    exact h.next
  have hfits : (Event.read i current.list).Fits sys.log := h.list_current hcurrent
  by_cases hempty : current.list.isEmpty = true
  · rw [if_pos hempty]
    refine h.write hx hfits rfl rfl hissued rfl (.inr ⟨current.list, hreads, ?_⟩)
    rw [hrans, List.isEmpty_iff.1 hempty]
    rfl
  · rw [if_neg hempty]
    refine h.write hx hfits rfl rfl hissued rfl ⟨current.list, hreads, ?_⟩
    rw [hrans]
    rfl

/-- A dispatch calls a hook. -/
theorem Kept.call (h : sys.Kept) {event : ReloadEvent T R} {r : Registered} {left : List Registered}
    (hx : sys.calls[i]? = some (.running event (r :: left)))
    (hfires : r.callback.fires event = true) :
    (sys.write i (.inside event left) (.ran i r.callback.hook)).Kept := by
  obtain ⟨list, hread, hran⟩ := h.stands i _ hx
  have hissued :
      sys.nextToken = (issued (sys.log ++ [.ran i r.callback.hook])).length % word := by
    rw [issued, filterMap_append_none rfl]
    exact h.next
  have hcalled : ranIn (sys.log ++ [.ran i r.callback.hook]) i =
      ranIn sys.log i ++ [r.callback.hook] := by
    rw [ranIn, List.filterMap_append]
    simp [Event.calling, ranIn]
  have hfits : (Event.ran i r.callback.hook).Fits sys.log := trivial
  refine h.write hx hfits rfl rfl hissued rfl ⟨list, ?_, ?_⟩
  · rw [readIn, filterMap_append_none rfl]
    exact hread
  · rw [hcalled, List.append_assoc, ← hran, fired_cons_of_fires hfires]
    rfl

/-- A dispatch passes a hook that it does not call. -/
theorem Kept.skip (h : sys.Kept) {event : ReloadEvent T R} {r : Registered} {left : List Registered}
    (hx : sys.calls[i]? = some (.running event (r :: left)))
    (hsilent : ¬r.callback.fires event = true) : (sys.move i (.running event left)).Kept := by
  obtain ⟨list, hread, hran⟩ := h.stands i _ hx
  refine h.move (fun seen hsome ↦ absurd hsome (Option.some_ne_none seen).symm) ⟨list, hread, ?_⟩
  rw [← hran, fired_cons_of_silent hsilent]

/-- A call that holds no list sees none. -/
theorem sees_of_none (hseen : y.seen = none) : ∀ seen, y.seen = some seen → sys.Sees seen :=
  fun seen hsome ↦ absurd (hseen.symm.trans hsome) (Option.some_ne_none seen).symm

/-- A call that holds the list that is there sees it. -/
theorem Kept.sees_of_current (h : sys.Kept) {current : Published}
    (hcurrent : sys.hooks = some current) (hseen : y.seen = some current) :
    ∀ seen, y.seen = some seen → sys.Sees seen := by
  intro seen hsome
  obtain rfl := Option.some.inj (hseen.symm.trans hsome)
  exact h.sees_current hcurrent

/-- **What the atomic step of a call keeps.** -/
theorem Kept.go (h : sys.Kept) {t : System T R} (hx : sys.calls[i]? = some x)
    (hgo : sys.go i x = some t) (hroom : (issued t.log).length ≤ word) : t.Kept := by
  have hstands := h.stands i x hx
  rcases x with form | ⟨token, callback⟩ | ⟨token, callback⟩ | ⟨token, callback, seen⟩ |
    ⟨token, held⟩ | ⟨guard, token⟩ | ⟨guard, token⟩ | ⟨guard, token, seen⟩ | - | event | event |
    ⟨event, left⟩ | ⟨event, left⟩ | event
  case registering =>
    obtain rfl := Option.some.inj hgo
    exact h.number hx hroom
  case numbered =>
    obtain rfl := Option.some.inj hgo
    exact h.slot rfl hstands
  case slotted =>
    obtain ⟨seen, hseen, rfl⟩ := Option.map_eq_some_iff.1 hgo
    exact h.move (h.sees_of_current hseen rfl) hstands
  case adding =>
    obtain ⟨current, hcurrent, rfl⟩ := Option.map_eq_some_iff.1 hgo
    split
    · next hid => exact h.add hx hcurrent hid
    · exact h.move (h.sees_of_current hcurrent rfl) hstands
  case registered => exact absurd hgo (Option.some_ne_none t).symm
  case unregistering =>
    rw [System.go] at hgo
    split at hgo
    · obtain rfl := Option.some.inj hgo
      exact h.move (sees_of_none rfl) trivial
    · obtain rfl := Option.some.inj hgo
      exact h.move (sees_of_none rfl) hstands
  case found =>
    obtain ⟨seen, hseen, rfl⟩ := Option.map_eq_some_iff.1 hgo
    exact h.move (h.sees_of_current hseen rfl) hstands
  case removing =>
    obtain ⟨current, hcurrent, rfl⟩ := Option.map_eq_some_iff.1 hgo
    split
    · next hid => exact h.remove hx hcurrent hid
    · exact h.move (h.sees_of_current hcurrent rfl) hstands
  case unregistered => exact absurd hgo (Option.some_ne_none t).symm
  case dispatching =>
    rw [System.go] at hgo
    split at hgo
    · obtain rfl := Option.some.inj hgo
      exact h.move (sees_of_none rfl) (.inl hstands)
    · obtain rfl := Option.some.inj hgo
      exact h.move (sees_of_none rfl) hstands
  case reached =>
    obtain ⟨current, hcurrent, rfl⟩ := Option.map_eq_some_iff.1 hgo
    exact h.read hx hcurrent
  case running =>
    rcases left with - | ⟨r, left⟩
    · obtain rfl := Option.some.inj hgo
      obtain ⟨list, hread, hran⟩ := hstands
      exact h.move (sees_of_none rfl) (.inr ⟨list, hread, (List.append_nil _).symm.trans hran⟩)
    · rw [System.go] at hgo
      split at hgo
      · next hfires =>
        obtain rfl := Option.some.inj hgo
        exact h.call hx hfires
      · next hsilent =>
        obtain rfl := Option.some.inj hgo
        exact h.skip hx hsilent
  case inside => exact absurd hgo (Option.some_ne_none t).symm
  case dispatched => exact absurd hgo (Option.some_ne_none t).symm

/-- A call that has just been made has had nothing. -/
theorem Kept.unknown (h : sys.Kept) : sys.calls.length ∉ issued sys.log ∧
    sys.calls.length ∉ effects sys.log ∧ readIn sys.log sys.calls.length = [] ∧
      ranIn sys.log sys.calls.length = [] :=
  nothing_of_unknown h.record fun e he habout ↦
    absurd (h.known e he sys.calls.length habout) (Nat.lt_irrefl _)

/-- A guard is dropped. -/
theorem Kept.drop (h : sys.Kept) {token : Nat} (hx : sys.calls[i]? = some (.registered token true)) :
    Kept { sys.write i (.registered token false) (.dropped i) with
      calls := (sys.write i (.registered token false) (.dropped i)).calls ++
        [.unregistering i token] } := by
  obtain ⟨callback, htook⟩ := h.stands i _ hx
  have hissued : sys.nextToken = (issued (sys.log ++ [.dropped i])).length % word := by
    rw [issued, filterMap_append_none rfl]
    exact h.next
  have hstill : Event.took i ⟨token, callback⟩ ∈ sys.log ++ [.dropped i] :=
    List.mem_append_left _ htook
  have hfits : (Event.dropped i).Fits sys.log := trivial
  have hdropped : (sys.write i (.registered token false) (.dropped i)).Kept :=
    h.write hx hfits rfl rfl hissued rfl ⟨callback, hstill⟩
  exact hdropped.enter rfl ⟨List.mem_append_right _ (List.mem_singleton.2 rfl), callback, hstill⟩

/-- **What every turn keeps**, as long as tokens have not come round. -/
theorem Kept.step (h : sys.Kept) {t : System T R} {turn : Turn T R} (hstep : sys.step turn = some t)
    (hroom : (issued t.log).length ≤ word) : t.Kept := by
  obtain ⟨hissued, heffects, hread, hran⟩ := h.unknown
  rcases turn with form | i | event | i | ⟨d, panicked⟩
  case register =>
    obtain rfl := Option.some.inj hstep
    exact h.enter rfl ⟨hissued, heffects⟩
  case drop =>
    rw [System.step] at hstep
    split at hstep
    · next token hx =>
      obtain rfl := Option.some.inj hstep
      exact h.drop hx
    · exact absurd hstep (Option.some_ne_none t).symm
  case dispatch =>
    obtain rfl := Option.some.inj hstep
    exact h.enter rfl ⟨hread, hran⟩
  case go =>
    obtain ⟨x, hx, hgo⟩ := Option.bind_eq_some_iff.1 hstep
    exact h.go hx hgo hroom
  case finish =>
    rw [System.step] at hstep
    split at hstep
    · next event left hx =>
      obtain rfl := Option.some.inj hstep
      obtain ⟨list, hlist, hleft⟩ := h.stands d _ hx
      exact h.move (sees_of_none rfl) ⟨list, hlist, hleft⟩
    · exact absurd hstep (Option.some_ne_none t).symm

/-- A step of a call adds to what has happened. -/
theorem log_of_go {t : System T R} (hgo : sys.go i x = some t) : sys.log <+: t.log := by
  have hsame : sys.log <+: sys.log := List.prefix_refl _
  have hmore : ∀ e, sys.log <+: sys.log ++ [e] := fun e ↦ List.prefix_append _ [e]
  rcases x with form | ⟨token, callback⟩ | ⟨token, callback⟩ | ⟨token, callback, seen⟩ |
    ⟨token, held⟩ | ⟨guard, token⟩ | ⟨guard, token⟩ | ⟨guard, token, seen⟩ | - | event | event |
    ⟨event, left⟩ | ⟨event, left⟩ | event
  case registering =>
    obtain rfl := Option.some.inj hgo
    exact hmore _
  case numbered =>
    obtain rfl := Option.some.inj hgo
    exact hsame
  case slotted | found =>
    obtain ⟨seen, -, rfl⟩ := Option.map_eq_some_iff.1 hgo
    exact hsame
  case adding | removing =>
    obtain ⟨current, -, rfl⟩ := Option.map_eq_some_iff.1 hgo
    split
    · exact hmore _
    · exact hsame
  case unregistering | dispatching =>
    rw [System.go] at hgo
    split at hgo <;> exact Option.some.inj hgo ▸ hsame
  case reached =>
    obtain ⟨current, -, rfl⟩ := Option.map_eq_some_iff.1 hgo
    exact hmore _
  case running =>
    rcases left with - | ⟨r, left⟩
    · exact Option.some.inj hgo ▸ hsame
    · rw [System.go] at hgo
      split at hgo
      · exact Option.some.inj hgo ▸ hmore _
      · exact Option.some.inj hgo ▸ hsame
  all_goals exact absurd hgo (Option.some_ne_none t).symm

/-- A turn adds to what has happened. -/
theorem log_of_step {t : System T R} {turn : Turn T R} (hstep : sys.step turn = some t) :
    sys.log <+: t.log := by
  rcases turn with form | i | event | i | ⟨d, panicked⟩
  case register | dispatch => exact Option.some.inj hstep ▸ List.prefix_refl _
  case drop =>
    rw [System.step] at hstep
    split at hstep
    · exact Option.some.inj hstep ▸ List.prefix_append _ _
    · exact absurd hstep (Option.some_ne_none t).symm
  case go =>
    obtain ⟨x, -, hgo⟩ := Option.bind_eq_some_iff.1 hstep
    exact log_of_go hgo
  case finish =>
    rw [System.step] at hstep
    split at hstep
    · exact Option.some.inj hstep ▸ List.prefix_refl _
    · exact absurd hstep (Option.some_ne_none t).symm

/-- No turn takes a token back. -/
theorem issued_length_le {t : System T R} {turn : Turn T R} (hstep : sys.step turn = some t) :
    (issued sys.log).length ≤ (issued t.log).length :=
  ((log_of_step hstep).filterMap _).length_le

end Turns

theorem kept_of_run {turns : List (Turn T R)} {sys : System T R} (hrun : run step new turns = some sys)
    (hroom : (issued sys.log).length ≤ word) : sys.Kept :=
  Transition.run_invariant_below (B := fun sys : System T R ↦ (issued sys.log).length ≤ word)
    (fun _ _ _ hstep hroom ↦ (issued_length_le hstep).trans hroom)
    (fun _ _ _ hstep hroom hkept ↦ hkept.step hstep hroom) hrun hroom kept_new

/-! ### What a dispatch has called -/

section Ran

variable {sys : System T R} {d i : Nat} {point : Point T R} {event : ReloadEvent T R}

theorem mem_readIn {log : List Event} {list : List Registered} :
    list ∈ readIn log d ↔ Event.read d list ∈ log := by
  rw [readIn, List.mem_filterMap]
  constructor
  · rintro ⟨e, he, hreading⟩
    rcases e with j | ⟨j, r⟩ | j | j | ⟨d', list'⟩ | ⟨d', hook⟩
    case read =>
      rw [Event.reading] at hreading
      split at hreading
      · next hd =>
        obtain rfl := Option.some.inj hreading
        exact hd ▸ he
      · exact absurd hreading (Option.some_ne_none list).symm
    all_goals exact absurd hreading (Option.some_ne_none list).symm
  · exact fun h ↦ ⟨_, h, if_pos rfl⟩

/-- **A dispatch has called a part, from the first on, of what was there when it read.** -/
theorem Kept.ran (h : sys.Kept) (hx : sys.calls[d]? = some point) (hevent : point.event = some event) :
    ranIn sys.log d = [] ∨ ∃ before after rest,
      sys.log = before ++ .read d (live before) :: after ∧
        ranIn sys.log d ++ rest = fired event (live before) := by
  have hsplit : ∀ list, readIn sys.log d = [list] → ∃ before after,
      sys.log = before ++ .read d (live before) :: after ∧ list = live before := by
    intro list hread
    have hmem : Event.read d list ∈ sys.log :=
      mem_readIn.1 (hread ▸ List.mem_singleton.2 rfl)
    obtain ⟨before, after, hlog⟩ := List.mem_iff_append.1 hmem
    have hlist : list = live before := h.record before _ after hlog
    exact ⟨before, after, hlist ▸ hlog, hlist⟩
  have hpart : ∀ left, (∃ list, readIn sys.log d = [list] ∧
      ranIn sys.log d ++ fired event left = fired event list) → ∃ before after rest,
        sys.log = before ++ .read d (live before) :: after ∧
          ranIn sys.log d ++ rest = fired event (live before) := by
    rintro left ⟨list, hread, hran⟩
    obtain ⟨before, after, hlog, rfl⟩ := hsplit list hread
    exact ⟨before, after, fired event left, hlog, hran⟩
  have hstands := h.stands d point hx
  rcases point with form | ⟨token, callback⟩ | ⟨token, callback⟩ | ⟨token, callback, seen⟩ |
    ⟨token, held⟩ | ⟨guard, token⟩ | ⟨guard, token⟩ | ⟨guard, token, seen⟩ | - | event' | event' |
    ⟨event', left⟩ | ⟨event', left⟩ | event'
  case dispatching | reached => exact .inl hstands.2
  case running | inside =>
    obtain rfl := Option.some.inj hevent
    exact .inr (hpart left hstands)
  case dispatched =>
    obtain rfl := Option.some.inj hevent
    rcases hstands with ⟨-, hran⟩ | ⟨list, hread, hran⟩
    · exact .inl hran
    · exact .inr (hpart [] ⟨list, hread, (List.append_nil _).trans hran⟩)
  all_goals exact absurd hevent (Option.some_ne_none event).symm

/-- **A dispatch that is over has called all that was there when it read.** -/
theorem Kept.ran_all (h : sys.Kept) (hx : sys.calls[d]? = some (.dispatched event))
    {before after : List Event} {list : List Registered}
    (hlog : sys.log = before ++ .read d list :: after) :
    ranIn sys.log d = fired event (live before) := by
  have hlist : list = live before := h.record before _ after hlog
  have hmem : list ∈ readIn sys.log d := by
    rw [mem_readIn, hlog]
    exact List.mem_append_right _ List.mem_cons_self
  rcases h.stands d _ hx with ⟨hread, -⟩ | ⟨list', hread, hran⟩
  · exact absurd (hread ▸ hmem) List.not_mem_nil
  · have hsame : list = list' := List.mem_singleton.1 (hread ▸ hmem)
    rw [hran, ← hlist, hsame]

/-- What a dispatch calls stands in the order in which it took effect. -/
theorem fired_sublist (event : ReloadEvent T R) (log : List Event) :
    (fired event (live log)).Sublist (effects log) :=
  (List.filter_sublist.map _).trans (live_sublist log)

/-- The order only grows. -/
theorem effects_grows (log rest : List Event) : effects log <+: effects (log ++ rest) :=
  (List.prefix_append log rest).filterMap _

/-- What is there and fires is called once. -/
theorem count_fired {log : List Event} (h : Record log) {r : Registered}
    (hr : Event.took i r ∈ log) (hdropped : Event.dropped i ∉ log)
    (hfires : r.callback.fires event = true) : (fired event (live log)).count i = 1 := by
  have hnodup : (fired event (live log)).Nodup := h.nodup_effects.sublist (fired_sublist event log)
  refine List.count_eq_one_of_mem hnodup ?_
  rw [← (h.of_took hr).1]
  have hmem : r ∈ (live log).filter fun r ↦ r.callback.fires event :=
    List.mem_filter.2 ⟨mem_live_of_took h hr hdropped, hfires⟩
  exact List.mem_map.2 ⟨r, hmem, rfl⟩

/-- What does not fire is not called. -/
theorem not_mem_fired {log rest : List Event} (h : Record (log ++ rest)) {r : Registered}
    (hr : Event.took i r ∈ log ++ rest) (hsilent : r.callback.fires event = false) :
    i ∉ fired event (live log) := by
  intro hmem
  obtain ⟨r', hr', rfl⟩ := List.mem_map.1 hmem
  obtain ⟨hlive, hfires⟩ := List.mem_filter.1 hr'
  have htook : Event.took r'.callback.hook r' ∈ log ++ rest :=
    List.mem_append_left _ (took_of_mem_live h.left hlive)
  obtain rfl := h.took_unique hr htook
  exact absurd (hsilent.symm.trans hfires) Bool.false_ne_true

end Ran

/-! ### Neither lost nor repeated -/

/-- **A dispatch comes through its hooks, whatever each comes to.** -/
theorem goesThrough_of_running (d : Nat) (event : ReloadEvent T R) (left : List Registered) :
    ∀ sys : System T R, sys.calls[d]? = some (.running event left) →
      ∀ panics : List Bool, panics.length = left.length →
        ∃ t, run step sys (through d event left panics) = some t ∧
          t.calls[d]? = some (.dispatched event) ∧
            ranIn t.log d = ranIn sys.log d ++ fired event left := by
  induction left with
  | nil =>
    intro sys hx panics hlength
    have hstep : sys.step (.go d) = some (sys.move d (.dispatched event)) := by
      rw [System.step, hx]
      rfl
    refine ⟨sys.move d (.dispatched event), ?_, Transition.getElem?_set_moved hx _,
      (List.append_nil _).symm⟩
    rw [through.eq_def]
    exact Transition.run_cons_of_step hstep []
  | cons r left ih =>
    intro sys hx panics hlength
    obtain ⟨panicked, rest, rfl⟩ := List.exists_cons_of_length_eq_add_one hlength
    have hrest : rest.length = left.length := Nat.succ.inj hlength
    by_cases hfires : r.callback.fires event = true
    · -- it is called, and comes to its end
      let during := sys.write d (.inside event left) (.ran d r.callback.hook)
      have hgo : sys.step (.go d) = some during := by
        rw [System.step, hx, Option.bind_some, System.go, if_pos hfires]
      have hduring : during.calls[d]? = some (.inside event left) :=
        Transition.getElem?_set_moved hx _
      have hfinish : during.step (.finish d panicked) =
          some (during.move d (.running event left)) := by
        simp only [System.step, hduring]
      obtain ⟨t, hrun, hdone, hran⟩ := ih (during.move d (.running event left))
        (Transition.getElem?_set_moved hduring _) rest hrest
      have hcalled : ranIn during.log d = ranIn sys.log d ++ [r.callback.hook] := by
        show ranIn (sys.log ++ [.ran d r.callback.hook]) d = _
        rw [ranIn, List.filterMap_append]
        simp [Event.calling, ranIn]
      refine ⟨t, ?_, hdone, ?_⟩
      · rw [through, if_pos hfires, Transition.run_cons_of_step hgo,
          Transition.run_cons_of_step hfinish]
        exact hrun
      · rw [hran, fired_cons_of_fires hfires]
        show ranIn during.log d ++ _ = _
        rw [hcalled, List.append_assoc]
        rfl
    · have hgo : sys.step (.go d) = some (sys.move d (.running event left)) := by
        rw [System.step, hx, Option.bind_some, System.go, if_neg hfires]
      obtain ⟨t, hrun, hdone, hran⟩ := ih (sys.move d (.running event left))
        (Transition.getElem?_set_moved hx _) rest hrest
      refine ⟨t, ?_, hdone, ?_⟩
      · rw [through, if_neg hfires, Transition.run_cons_of_step hgo]
        exact hrun
      · rw [hran, fired_cons_of_silent hfires]
        rfl

/-- A registration that has a token is the one that took it. -/
theorem Kept.issued_token {sys : System T R} (h : sys.Kept) {i token : Nat} {x : Point T R}
    (hx : sys.calls[i]? = some x) (htoken : x.token = some token) :
    (issued sys.log)[token]? = some i := by
  have hstands := h.stands i x hx
  rcases x with form | ⟨token', callback⟩ | ⟨token', callback⟩ | ⟨token', callback, seen⟩ |
    ⟨token', held⟩ | ⟨guard, token'⟩ | ⟨guard, token'⟩ | ⟨guard, token', seen⟩ | - | event |
    event | ⟨event, left⟩ | ⟨event, left⟩ | event
  case numbered | slotted | adding =>
    obtain rfl := Option.some.inj htoken
    exact hstands.2.1
  case registered =>
    obtain rfl := Option.some.inj htoken
    obtain ⟨callback, htook⟩ := hstands
    exact (h.record.of_took htook).2
  all_goals exact absurd htoken (Option.some_ne_none token).symm

/-- **Reload hooks are neither lost nor repeated**, as long as tokens have not come round. -/
theorem lawful_of_run {turns : List (Turn T R)} {sys : System T R}
    (hrun : run step new turns = some sys) (hroom : (issued sys.log).length ≤ word) :
    sys.Lawful := by
  have hkept := kept_of_run hrun hroom
  refine ⟨?_, ?_, ?_, hkept.record.nodup_effects, ?_, ?_,
    fun d event left hx ↦ goesThrough_of_running d event left sys hx⟩
  · intro d event before list after hx hlog i r hr hdropped hfires
    rw [hkept.ran_all hx hlog]
    have hbefore : Record before := (hlog ▸ hkept.record).left
    exact count_fired hbefore hr hdropped hfires
  · intro d point event hx hevent i r hr hsilent
    rcases hkept.ran hx hevent with hnone | ⟨before, after, rest, hlog, hran⟩
    · rw [hnone]
      exact List.not_mem_nil
    · intro hmem
      rw [hlog] at hr
      refine not_mem_fired (hlog ▸ hkept.record) hr hsilent ?_
      rw [← hran]
      exact List.mem_append_left _ hmem
  · intro d point event hx hevent
    rcases hkept.ran hx hevent with hnone | ⟨before, after, rest, hlog, hran⟩
    · rw [hnone]
      exact List.nil_sublist _
    · have hcalled : (ranIn sys.log d).Sublist (fired event (live before)) :=
        hran ▸ List.sublist_append_left _ _
      have heffects : (effects before).Sublist (effects sys.log) := by
        rw [hlog]
        exact (effects_grows before _).sublist
      exact (hcalled.trans (fired_sublist event before)).trans heffects
  · intro i j x y token hx hy htoken htoken'
    have hi := hkept.issued_token hx htoken
    have hj := hkept.issued_token hy htoken'
    exact Option.some.inj (hi.symm.trans hj)
  · intro i r hr hdropped
    have hlive := mem_live_of_took hkept.record hr hdropped
    rcases hhooks : sys.hooks with - | current
    · have hnone : [] = live sys.log := by
        rw [← hkept.list, hhooks]
        rfl
      exact absurd (hnone ▸ hlive) List.not_mem_nil
    · exact ⟨current, rfl, hkept.list_current hhooks ▸ hlive⟩

/-- The event of an install over another. -/
def another : ReloadEvent Nat Nat :=
  ⟨some ⟨0, 10⟩, ⟨1, 11⟩, 0, ⟨2, 5⟩⟩

/-- The event of the first install. -/
def first : ReloadEvent Nat Nat :=
  ⟨none, ⟨0, 10⟩, 0, ⟨1, 4⟩⟩

/-- Two registrations that race for the pointer, a dispatch, and the first one's guard dropped while
the dispatch is in the first one's hook, which panics. -/
def racing : List (Turn Nat Nat) :=
  [.register .event, .register .pair, .go 0, .go 1, .go 0, .go 1, .go 0, .go 1, .go 0, .go 1, .go 1,
    .dispatch another, .go 2, .go 2, .go 2, .drop 0, .go 3, .go 3, .go 3, .finish 2 true, .go 2,
    .finish 2 false, .go 2]

theorem lawful_racing : ∃ sys : System Nat Nat, run step new racing = some sys ∧ sys.Lawful ∧
    ranIn sys.log 2 = [0, 1] ∧ sys.hooks.map Published.list = some [⟨1, ⟨.pair, 1⟩⟩] := by
  have hrun : run step new racing = some ((run step new racing).get rfl) := rfl
  refine ⟨_, hrun, lawful_of_run hrun ?_, rfl, rfl⟩
  show 2 ≤ 2 ^ 64
  omega

/-- A hook of the pair form, registered before the first install. -/
def early : List (Turn Nat Nat) :=
  [.register .pair, .go 0, .go 0, .go 0, .go 0, .dispatch first, .go 1, .go 1, .go 1, .go 1]

/-- **It is registered before the dispatch reads the list, its guard is held, and it is not run.** -/
theorem silent_early : ∃ sys : System Nat Nat, run step new early = some sys ∧
    sys.calls[0]? = some (.registered 0 true) ∧ sys.calls[1]? = some (.dispatched first) ∧
      sys.log = [.numbered 0, .took 0 ⟨0, ⟨.pair, 0⟩⟩, .read 1 [⟨0, ⟨.pair, 0⟩⟩]] ∧
        (ranIn sys.log 1).count 0 ≠ 1 :=
  ⟨_, rfl, rfl, rfl, rfl, by decide⟩

end System

end DynamicConfig.Hooks
