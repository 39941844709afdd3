import DynamicConfig.Etcd.Watch

/-!
# What an etcd watch keeps across a recovery

Every put of a watched key is to be delivered once, and every change under a watched prefix is to be
followed by a delivery. Both are said of a watch that is still going: what has happened since it was
first established is delivered, or outstanding on the stream there is.

A recovery that comes before any message breaks that (`not_skipsNoWrite`): the stream is established
again where the store is by then, and what was written in between is on neither stream. A run none of
whose recoveries has to do without a revision to resume from while something is outstanding, and none
of whose resume points has fallen behind what was handed over, skips nothing and repeats nothing
(`skipsNoWrite_of_run`). The second does not happen where every message has a header that keeps up
(`sound_of_keepsUp`).
-/

namespace DynamicConfig.Etcd

open Revisions Transition

/-! ### What is to be had of it -/

/-- The puts among some events, each with its document, if it is one. -/
def puts (format : Format) (events : List (Nat × Write)) : List (Nat × Option Fetched) :=
  (events.filter fun e ↦ e.2.value.isSome).map fun e ↦
    (e.1, (e.2.value.bind from_utf8).map fun text ↦ ⟨text, format⟩)

namespace Watch

/-- Every put of the key since the watch was first established has been delivered, or is still to
come: each once, and in the order of the revisions. -/
def EveryPutOnce (etcd : Source) (sys : Watch) : Prop :=
  sys.point ≠ .ended → ∀ opened, sys.opened = some opened →
    (sys.delivered.map fun d ↦ (d.1, some d.2)) ++ puts sys.format (sys.outstanding etcd) =
        puts sys.format (sys.store.events etcd.watches opened) ∧
      (sys.delivered.map Prod.fst).Pairwise (· < ·)

/-- At that revision or later the range was empty, or has been delivered. -/
def Answered (folded : List (String × String) → Format → Option String) (root : String)
    (sys : Watch) (since : Nat) : Prop :=
  ∃ revision, since ≤ revision ∧ revision ≤ sys.store.revision ∧
    (readAt folded sys.store root sys.format revision = .empty ∨
      ∃ document, readAt folded sys.store root sys.format revision = .document document ∧
        (revision, document) ∈ sys.delivered)

/-- Every change under the prefix since the watch was first established has been answered, is being
read, or is still to come. -/
def EveryChangeFollowed (folded : List (String × String) → Format → Option String) (etcd : Source)
    (root : String) (sys : Watch) : Prop :=
  sys.point ≠ .ended → ∀ opened, sys.opened = some opened →
    ∀ e ∈ sys.store.events etcd.watches opened,
      e ∈ sys.outstanding etcd ∨
        (∃ revision, sys.point.call = some (.read revision) ∧ e.1 ≤ revision) ∨
        sys.Answered folded root e.1

/-- No write is skipped. -/
def SkipsNoWrite (folded : List (String × String) → Format → Option String) (etcd : Source)
    (sys : Watch) : Prop :=
  match etcd.keys with
  | .one _ => sys.EveryPutOnce etcd
  | .several _ => True
  | .prefixed root => sys.EveryChangeFollowed folded etcd root

/-- The events that a delivery is owed for: puts of a key, and anything under a prefix. -/
def owed (etcd : Source) (e : Nat × Write) : Bool :=
  match etcd.keys with
  | .one _ => e.2.value.isSome
  | _ => true

/-- A stream established now, from there, takes over from the one before. With nothing to resume
from, nothing may be outstanding; otherwise what the new stream starts with is outstanding, where a
repetition matters. -/
def ResumesFrom (etcd : Source) (sys : Watch) : Option Nat → Keys → Prop
  | none, _ => ∀ e ∈ sys.outstanding etcd, owed etcd e = false
  | some revision, .one _ =>
    ∀ e ∈ sys.store.events etcd.watches revision, owed etcd e = true → e ∈ sys.outstanding etcd
  | some _, _ => True

instance (etcd : Source) (sys : Watch) :
    (from_revision : Option Nat) → (keys : Keys) → Decidable (ResumesFrom etcd sys from_revision keys)
  | none, _ => inferInstanceAs (Decidable (∀ e ∈ sys.outstanding etcd, owed etcd e = false))
  | some revision, .one _ => inferInstanceAs (Decidable (∀ e ∈ sys.store.events etcd.watches revision,
      owed etcd e = true → e ∈ sys.outstanding etcd))
  | some _, .several _ | some _, .prefixed _ => isTrue trivial

/-- A recovery takes over. -/
def Resumes (etcd : Source) (sys : Watch) : Prop := ResumesFrom etcd sys sys.resume_from etcd.keys

instance (etcd : Source) (sys : Watch) : Decidable (sys.Resumes etcd) :=
  inferInstanceAs (Decidable (ResumesFrom etcd sys sys.resume_from etcd.keys))

/-- A batch under a prefix comes with a header. -/
def Headed (keys : Keys) (count : Nat) (header : Option Nat) : Prop :=
  keys.isPrefixed = true → 0 < count → header.isSome = true

/-- The condition on a turn. -/
def Sound (etcd : Source) (sys : Watch) : Turn → Prop
  | .answer .granted _ => sys.point.call = some .resume → sys.Resumes etcd
  | .message count header _ _ => Headed etcd.keys count header
  | _ => True

instance (etcd : Source) (sys : Watch) : (turn : Turn) → Decidable (sys.Sound etcd turn)
  | .answer .granted _ =>
    inferInstanceAs (Decidable (sys.point.call = some .resume → sys.Resumes etcd))
  | .message count header _ _ =>
    inferInstanceAs (Decidable (etcd.keys.isPrefixed = true → 0 < count → header.isSome = true))
  | .commit _ | .answer .expired _ | .answer .failed _ | .refresh _ | .failed _ | .closed =>
    isTrue trivial

end Watch

/-! ### A key -/

namespace Watch

variable {folded : List (String × String) → Format → Option String} {etcd : Source}
  {sys sys' : Watch}

theorem puts_append (format : Format) (events rest : List (Nat × Write)) :
    puts format (events ++ rest) = puts format events ++ puts format rest := by
  rw [puts, puts, puts, List.filter_append, List.map_append]

/-- A put comes with the revision of its event. -/
theorem puts_map_fst (format : Format) (events : List (Nat × Write)) :
    (puts format events).map Prod.fst =
      (events.filter fun e ↦ e.2.value.isSome).map Prod.fst := by
  rw [puts, List.map_map]
  rfl

/-- **A batch that does not end the loop has been delivered**, each of its puts. -/
theorem deliver_eq_puts (format : Format) (events : List (Nat × Write)) (accepted : Nat)
    (h : (deliver format events accepted).2 = true) :
    ((deliver format events accepted).1.map fun d ↦ (d.1, some d.2)) = puts format events := by
  induction events generalizing accepted with
  | nil => rfl
  | cons e events ih =>
    obtain ⟨revision, key, value⟩ := e
    rcases value with - | value
    · exact ih accepted h
    · have hput : puts format ((revision, ⟨key, some value⟩) :: events) =
          (revision, (from_utf8 value).map fun text ↦ ⟨text, format⟩) :: puts format events := rfl
      rw [deliver] at h ⊢
      rw [hput]
      simp only at h ⊢
      rcases hvalue : from_utf8 value with - | text
      · rw [hvalue] at h
        cases h
      · rw [hvalue] at h
        simp only at h ⊢
        rcases accepted with - | accepted
        · cases h
        · exact congrArg ((revision, some (⟨text, format⟩ : Fetched)) :: ·) (ih accepted h)

/-- No revision has two writes of one key. -/
theorem not_apart_of_watches {key : String} (hkeys : etcd.keys = .one key) (a b : Write)
    (ha : etcd.watches a = true) (hb : etcd.watches b = true) : ¬ Apart a b := by
  rw [Source.watches, hkeys] at ha hb
  exact not_not.2 ((of_decide_eq_true ha).trans (of_decide_eq_true hb).symm)

/-- What has been delivered and what is outstanding are the puts there have been. -/
def Complete (etcd : Source) (sys : Watch) : Prop :=
  sys.point ≠ .ended → ∀ opened, sys.opened = some opened →
    (sys.delivered.map fun d ↦ (d.1, some d.2)) ++ puts sys.format (sys.outstanding etcd) =
      puts sys.format (sys.store.events etcd.watches opened)

/-- The revisions of what has been delivered are those of puts of the key, in their order. -/
theorem Complete.everyPutOnce {key : String} (hkeys : etcd.keys = .one key)
    (h : sys.Complete etcd) : sys.EveryPutOnce etcd := by
  intro hlive opened hopened
  have hputs := h hlive opened hopened
  refine ⟨hputs, ?_⟩
  have hstrict : ((puts sys.format (sys.store.events etcd.watches opened)).map Prod.fst).Pairwise
      (· < ·) := by
    rw [puts_map_fst]
    exact List.pairwise_map.2
      ((History.strict (not_apart_of_watches hkeys)).sublist List.filter_sublist)
  rw [← hputs, List.map_append, List.map_map] at hstrict
  exact hstrict.sublist (List.sublist_append_left _ _)

/-- A delivery of a key is owed for its puts. -/
theorem owed_of_key {key : String} (hkeys : etcd.keys = .one key) :
    owed etcd = fun e ↦ e.2.value.isSome := by
  funext e
  rw [owed, hkeys]

theorem puts_eq_of_key {key : String} (hkeys : etcd.keys = .one key) (format : Format)
    (events : List (Nat × Write)) : puts format events = (events.filter (owed etcd)).map fun e ↦
      (e.1, (e.2.value.bind from_utf8).map fun text ↦ ⟨text, format⟩) := by
  rw [puts, owed_of_key hkeys]

/-- **A recovery leaves the puts outstanding that were exactly where it resumes.** -/
theorem puts_watch_once_iff (h : Kept etcd sys) {key : String} (hkeys : etcd.keys = .one key) :
    puts sys.format ((sys.watch_once sys.resume_from).outstanding etcd) =
        puts sys.format (sys.outstanding etcd) ↔ sys.Resumes etcd := by
  rw [Resumes, hkeys, outstanding_watch_once, puts_eq_of_key hkeys, puts_eq_of_key hkeys]
  rcases hresume : sys.resume_from with - | revision
  · -- The new stream has nothing to hand over.
    have hnew : sys.store.events etcd.watches (sys.store.revision + 1) = [] :=
      History.events_eq_nil (Nat.lt_succ_self _)
    rw [Option.getD_none, hnew, List.filter_nil, List.map_nil, eq_comm, List.map_eq_nil_iff,
      List.filter_eq_nil_iff]
    exact forall₂_congr fun e _ ↦ iff_of_eq (Bool.not_eq_true _)
  · obtain ⟨-, hafter⟩ := h.resume revision hresume
    have hone := not_apart_of_watches hkeys
    rw [Option.getD_some]
    constructor
    · intro hputs e he howed
      have hmem := List.mem_map_of_mem (f := fun e : Nat × Write ↦
        (e.1, (e.2.value.bind from_utf8).map fun text ↦ (⟨text, sys.format⟩ : Fetched)))
          (List.mem_filter.2 ⟨he, howed⟩)
      rw [hputs] at hmem
      obtain ⟨e', he', heq⟩ := List.mem_map.1 hmem
      have hout := (List.mem_filter.1 he').1
      -- Both are writes of the key, and they share a revision.
      obtain ⟨hlog, -, hwatched⟩ := History.mem_events.1 he
      obtain ⟨hlog', hwatched'⟩ := mem_log_of_outstanding hout
      have hsame : e' = e :=
        History.eq_of_revision_eq hone hlog' hlog hwatched' hwatched (Prod.mk.inj heq).1
      exact hsame ▸ hout
    · intro honly
      have hsame : (sys.store.events etcd.watches revision).filter (owed etcd) =
          (sys.outstanding etcd).filter (owed etcd) := by
        rcases hfeed : sys.feed with - | feed
        · have hnone : sys.outstanding etcd = [] := by rw [outstanding, hfeed]
          rw [hnone]
          refine List.filter_eq_nil_iff.2 fun e he howed ↦ ?_
          exact absurd (hnone ▸ honly e he howed : e ∈ []) List.not_mem_nil
        · have hout := outstanding_of_feed etcd hfeed
          rw [hout] at hafter ⊢
          exact Feed.events_eq_outstanding hone hafter fun e he howed ↦ hout ▸ honly e he howed
      rw [hsame]

/-- **A recovery that does not resume is the end of it**: it skips a put, or repeats one. -/
theorem complete_watch_once_iff (h : sys.Complete etcd) (hkept : Kept etcd sys) {key : String}
    (hkeys : etcd.keys = .one key) (hlive : sys.point ≠ .ended) {opened : Nat}
    (hopened : sys.opened = some opened) :
    (sys.watch_once sys.resume_from).Complete etcd ↔ sys.Resumes etcd := by
  rw [← puts_watch_once_iff hkept hkeys]
  have hbefore := h hlive opened hopened
  constructor
  · intro hafter
    have hnow : (sys.delivered.map fun d ↦ (d.1, some d.2)) ++
        puts sys.format ((sys.watch_once sys.resume_from).outstanding etcd) =
          puts sys.format (sys.store.events etcd.watches opened) :=
      hafter (by intro hended; cases hended) opened hopened
    exact List.append_cancel_left (hnow.trans hbefore.symm)
  · intro hputs _ opened' hopened'
    show (sys.delivered.map fun d ↦ (d.1, some d.2)) ++
      puts sys.format ((sys.watch_once sys.resume_from).outstanding etcd) =
        puts sys.format (sys.store.events etcd.watches opened')
    rw [hputs]
    exact h hlive opened' hopened'

/-- A message to a watch of a key. -/
theorem complete_receive (h : sys.Complete etcd) {key : String} (hkeys : etcd.keys = .one key)
    (hpoint : sys.point = .message) {feed : Feed} (hfeed : sys.feed = some feed) {count : Nat}
    (hcount : count ≤ (sys.outstanding etcd).length) (header : Option Nat) (canceled : Bool)
    (accepted : Nat) :
    (sys.receive etcd feed ((sys.outstanding etcd).take count) header canceled accepted).Complete
      etcd := by
  have hrest := outstanding_heard etcd hfeed count header
  rw [receive, List.length_take_of_le hcount]
  split
  · exact fun hlive ↦ absurd rfl hlive
  · unfold batch
    rw [hkeys]
    intro hlive opened hopened
    have hall : (deliver sys.format ((sys.outstanding etcd).take count) accepted).2 = true := by
      by_contra hrefused
      exact hlive (if_neg hrefused)
    have hbefore := h (by rw [hpoint]; intro hended; cases hended) opened hopened
    show ((sys.delivered ++
      (deliver sys.format ((sys.outstanding etcd).take count) accepted).1).map
        fun d ↦ (d.1, some d.2)) ++ puts sys.format ((sys.heard (feed.hand count) header).outstanding
          etcd) = puts sys.format (sys.store.events etcd.watches opened)
    rw [hrest, List.map_append, deliver_eq_puts _ _ _ hall, List.append_assoc, ← puts_append,
      List.take_append_drop]
    exact hbefore

/-- **One sound turn delivers what it takes from the stream**, and leaves the rest outstanding. -/
theorem Complete.step (h : sys.Complete etcd) (hkept : Kept etcd sys) {key : String}
    (hkeys : etcd.keys = .one key) {turn : Turn} (hsound : sys.Sound etcd turn)
    (hstep : sys.step folded etcd turn = some sys') : sys'.Complete etcd := by
  rcases effect_of_step hstep with ⟨writes, hwrites⟩ | ⟨point, recoveries, hlive, -, -⟩ |
    ⟨hcall⟩ | ⟨accepted, rfl, hcall⟩ | ⟨revision, accepted, hcall⟩ |
    ⟨count, header, canceled, accepted, feed, -, hpoint, hfeed, hcount, hfits⟩
  · intro hlive opened hopened
    obtain ⟨feed, hfeed⟩ := hkept.fed opened hopened
    rw [hkept.outstanding_commit hfeed, puts_append, ← List.append_assoc, h hlive opened hopened,
      ← puts_append]
    exact congrArg (puts sys.format)
      (History.events_commit writes hwrites (hkept.opened_le opened hopened)).symm
  · exact fun _ ↦ h hlive
  · -- Nothing has been delivered, and nothing has been written yet.
    intro _ opened hopened
    obtain rfl := Option.some.inj hopened
    have hnone : sys.store.events etcd.watches (sys.store.revision + 1) = [] :=
      History.events_eq_nil (Nat.lt_succ_self _)
    show (sys.delivered.map fun d ↦ (d.1, some d.2)) ++
      puts sys.format (sys.store.events etcd.watches (sys.store.revision + 1)) =
        puts sys.format (sys.store.events etcd.watches (sys.store.revision + 1))
    rw [hnone, (hkept.fresh hcall).1]
    rfl
  · intro hlive opened hopened
    exact (complete_watch_once_iff h hkept hkeys (live_of_call hcall) hopened).2 (hsound hcall) hlive
      opened hopened
  · intro hlive
    rw [reread, hkeys] at hlive
    exact absurd rfl hlive
  · exact complete_receive h hkeys hpoint hfeed hcount header canceled accepted

/-! ### A prefix -/

variable {root : String}

/-- What has been answered stays answered: the store keeps its past, and nothing delivered is taken
back. -/
theorem Answered.mono {since : Nat} (h : sys.Answered folded root since)
    (hformat : sys'.format = sys.format) (hrevision : sys.store.revision ≤ sys'.store.revision)
    (hread : ∀ revision, revision ≤ sys.store.revision →
      readAt folded sys'.store root sys.format revision =
        readAt folded sys.store root sys.format revision)
    (hdelivered : sys.delivered ⊆ sys'.delivered) : sys'.Answered folded root since := by
  obtain ⟨revision, hsince, hle, hanswer⟩ := h
  refine ⟨revision, hsince, Nat.le_trans hle hrevision, ?_⟩
  rw [hformat, hread revision hle]
  rcases hanswer with hempty | ⟨document, hdocument, hmem⟩
  · exact Or.inl hempty
  · exact Or.inr ⟨document, hdocument, hdelivered hmem⟩

/-- A range that has been read answers every change up to its revision. -/
theorem answered_of_reread (hkeys : etcd.keys = .prefixed root) {revision since : Nat}
    (hsince : since ≤ revision) (hle : revision ≤ sys.store.revision) {accepted : Bool}
    (hlive : (sys.reread folded etcd revision accepted).point ≠ .ended) :
    (sys.reread folded etcd revision accepted).Answered folded root since := by
  rw [reread, hkeys] at hlive ⊢
  simp only at hlive ⊢
  rcases hread : readAt folded sys.store root sys.format revision with - | document | -
  · rw [hread] at hlive
    exact ⟨revision, hsince, hle, Or.inl hread⟩
  · exact ⟨revision, hsince, hle, Or.inr ⟨document, hread,
      List.mem_append_right _ (List.mem_singleton.2 rfl)⟩⟩
  · rw [hread] at hlive
    exact absurd rfl hlive

/-- A range read keeps what has been delivered. -/
theorem delivered_subset_reread (folded : List (String × String) → Format → Option String)
    (etcd : Source) (revision : Nat) (accepted : Bool) :
    sys.delivered ⊆ (sys.reread folded etcd revision accepted).delivered := by
  rw [reread]
  split
  · split
    · exact List.Subset.refl _
    · exact List.Subset.refl _
    · exact List.subset_append_left _ _
  · exact List.Subset.refl _

/-- **A batch under a prefix is read at a revision that covers it.** -/
theorem reading_of_receive (hkeys : etcd.keys = .prefixed root) {feed : Feed}
    {events : List (Nat × Write)} {header : Option Nat} {canceled : Bool} {accepted : Nat}
    (hheader : events ≠ [] → header.isSome = true)
    (hfits : ∀ revision, header = some revision → ∀ e ∈ events, e.1 ≤ revision)
    (hlive : (sys.receive etcd feed events header canceled accepted).point ≠ .ended)
    {e : Nat × Write} (he : e ∈ events) :
    ∃ revision,
      (sys.receive etcd feed events header canceled accepted).point.call = some (.read revision) ∧
        e.1 ≤ revision := by
  obtain ⟨revision, rfl⟩ := Option.isSome_iff_exists.1 (hheader (List.ne_nil_of_mem he))
  refine ⟨revision, ?_, hfits revision rfl e he⟩
  have hevents : events.isEmpty = false := List.isEmpty_eq_false_iff.2 (List.ne_nil_of_mem he)
  rw [receive] at hlive ⊢
  split
  · next hcanceled =>
    rw [if_pos hcanceled] at hlive
    exact absurd rfl hlive
  · unfold batch
    rw [hkeys]
    simp only [hevents, Bool.false_eq_true, if_false]
    rfl

/-- A message under a prefix delivers nothing by itself. -/
theorem delivered_receive (hkeys : etcd.keys = .prefixed root) (feed : Feed)
    (events : List (Nat × Write)) (header : Option Nat) (canceled : Bool) (accepted : Nat) :
    (sys.receive etcd feed events header canceled accepted).delivered = sys.delivered := by
  rw [receive]
  split
  · rfl
  · unfold batch
    rw [hkeys]
    simp only
    split
    · rfl
    · split
      · rfl
      · rfl

/-- Anything under a prefix is owed a delivery. -/
theorem eq_nil_of_owed (hkeys : etcd.keys = .prefixed root) {events : List (Nat × Write)}
    (h : ∀ e ∈ events, owed etcd e = false) : events = [] := by
  refine List.eq_nil_iff_forall_not_mem.2 fun e he ↦ ?_
  have hno := h e he
  rw [owed, hkeys] at hno
  cases hno

/-- **A recovery that resumes leaves outstanding what was.** -/
theorem subset_of_resumes (h : Kept etcd sys) (hkeys : etcd.keys = .prefixed root)
    (hresumes : sys.Resumes etcd) :
    sys.outstanding etcd ⊆ (sys.watch_once sys.resume_from).outstanding etcd := by
  intro e he
  rcases hresume : sys.resume_from with - | revision
  · rw [Resumes, hresume] at hresumes
    rw [eq_nil_of_owed hkeys hresumes] at he
    exact absurd he List.not_mem_nil
  · obtain ⟨-, hafter⟩ := h.resume revision hresume
    rcases hfeed : sys.feed with - | feed
    · rw [outstanding, hfeed] at he
      exact absurd he List.not_mem_nil
    · rw [outstanding_of_feed etcd hfeed] at he hafter
      exact Feed.outstanding_subset hafter e he

/-- **One sound turn leaves no change behind**: it is outstanding until it is read, and read until it is
answered. -/
theorem EveryChangeFollowed.step (h : sys.EveryChangeFollowed folded etcd root)
    (hkept : Kept etcd sys) (hkeys : etcd.keys = .prefixed root) {turn : Turn}
    (hsound : sys.Sound etcd turn) (hstep : sys.step folded etcd turn = some sys') :
    sys'.EveryChangeFollowed folded etcd root := by
  rcases effect_of_step hstep with ⟨writes, hwrites⟩ | ⟨point, recoveries, hlive, hpoint, -⟩ |
    ⟨hcall⟩ | ⟨accepted, rfl, hcall⟩ | ⟨revision, accepted, hcall⟩ |
    ⟨count, header, canceled, accepted, feed, rfl, hpoint, hfeed, hcount, hfits⟩
  · intro hlive opened hopened e he
    obtain ⟨feed, hfeed⟩ := hkept.fed opened hopened
    rw [hkept.outstanding_commit hfeed]
    have hevents := History.events_commit (p := etcd.watches) writes hwrites
      (hkept.opened_le opened hopened)
    rcases List.mem_append.1 (hevents ▸ he) with hold | hnew
    · rcases h hlive opened hopened e hold with hout | hreading | hanswered
      · exact Or.inl (List.mem_append_left _ hout)
      · exact Or.inr (Or.inl hreading)
      · exact Or.inr (Or.inr (hanswered.mono rfl (Nat.le_succ _)
          (fun revision hle ↦ readAt_commit folded sys.store writes hwrites root sys.format hle)
          (List.Subset.refl _)))
    · exact Or.inl (List.mem_append_right _ hnew)
  · intro hlive' opened hopened e he
    rcases h hlive opened hopened e he with hout | ⟨revision, hcall, hle⟩ | hanswered
    · exact Or.inl hout
    · rcases hpoint with rfl | hsame | ⟨hmessage, -⟩
      · exact absurd rfl hlive'
      · exact Or.inr (Or.inl ⟨revision, hsame.trans hcall, hle⟩)
      · rw [hmessage] at hcall
        cases hcall
    · exact Or.inr (Or.inr hanswered)
  · intro _ opened hopened e he
    obtain rfl := Option.some.inj hopened
    have hnone : sys.store.events etcd.watches (sys.store.revision + 1) = [] :=
      History.events_eq_nil (Nat.lt_succ_self _)
    exact absurd (hnone ▸ he : e ∈ []) List.not_mem_nil
  · intro _ opened hopened e he
    rcases h (live_of_call hcall) opened hopened e he with hout | ⟨revision, hread, -⟩ | hanswered
    · exact Or.inl (subset_of_resumes hkept hkeys (hsound hcall) hout)
    · rw [hcall] at hread
      cases hread
    · exact Or.inr (Or.inr hanswered)
  · intro hlive opened hopened e he
    rw [reread_opened] at hopened
    rw [reread_store] at he
    rw [reread_outstanding]
    rcases h (live_of_call hcall) opened hopened e he with hout | ⟨r, hread, hle⟩ | hanswered
    · exact Or.inl hout
    · obtain rfl : r = revision := by
        have hsame := Option.some.inj (hread.symm.trans hcall)
        injection hsame
      exact Or.inr (Or.inr (answered_of_reread hkeys hle (hkept.reading r hcall) hlive))
    · refine Or.inr (Or.inr (hanswered.mono (reread_format revision accepted) ?_ (fun r _ ↦ ?_)
        (delivered_subset_reread folded etcd revision accepted)))
      · rw [reread_store]
      · rw [reread_store]
  · intro hlive opened hopened e he
    rw [receive_opened] at hopened
    rw [receive_store] at he
    rw [outstanding_receive hfeed hcount]
    have hbefore := h (by rw [hpoint]; intro hended; cases hended) opened hopened e he
    rcases hbefore with hout | ⟨r, hread, -⟩ | hanswered
    · rw [← List.take_append_drop count (sys.outstanding etcd)] at hout
      rcases List.mem_append.1 hout with htaken | hrest
      · -- It has been handed over, and is to be read.
        refine Or.inr (Or.inl (reading_of_receive hkeys (fun hne ↦ ?_) (fun r hr x hx ↦ ?_) hlive htaken))
        · have hprefixed : etcd.keys.isPrefixed = true := by rw [hkeys]; rfl
          refine hsound hprefixed (Nat.pos_of_ne_zero fun hzero ↦ hne ?_)
          rw [hzero, List.take_zero]
        · rw [hr] at hfits
          exact hfits.2.1 x hx
      · exact Or.inl hrest
    · rw [hpoint] at hread
      cases hread
    · refine Or.inr (Or.inr (hanswered.mono (receive_format _ _ _ _ _) ?_ (fun r _ ↦ ?_) ?_))
      · rw [receive_store]
      · rw [receive_store]
      · rw [delivered_receive hkeys]
        exact List.Subset.refl _

/-! ### Every run -/

theorem kept_of_run {store : Store} {start : Watch} {turns : List Turn}
    (hstart : watch etcd store = some start) (h : run (step folded etcd) start turns = some sys) :
    Kept etcd sys :=
  run_invariant (fun _ _ _ hstep hkept ↦ hkept.step hstep) h (kept_watch hstart)

/-- A watch keeps recovering only so often in a row. -/
theorem recoveries_le_of_run {store : Store} {start : Watch} {turns : List Turn}
    (hstart : watch etcd store = some start) (h : run (step folded etcd) start turns = some sys)
    (hlive : sys.point ≠ .ended) : sys.token_recoveries ≤ MOST_TOKEN_RECOVERIES :=
  (kept_of_run hstart h).recoveries hlive

/-- Before anything has been asked, nothing is owed, and there is nothing to resume from. -/
theorem none_of_watch {store : Store} (h : watch etcd store = some sys) :
    sys.opened = none ∧ sys.resume_from = none := by
  rw [watch] at h
  split at h
  · cases h
  · cases h
  · obtain rfl := Option.some.inj h
    exact ⟨rfl, rfl⟩

/-- **A watch whose every turn is sound skips no write, and delivers no put twice.** -/
theorem skipsNoWrite_of_run {store : Store} {start : Watch} {turns : List Turn}
    (hstart : watch etcd store = some start)
    (hsound : Along (step folded etcd) (fun sys turn ↦ sys.Sound etcd turn) start turns)
    (h : run (step folded etcd) start turns = some sys) : sys.SkipsNoWrite folded etcd := by
  have hopened := (none_of_watch hstart).1
  have hkept := kept_watch hstart
  rw [SkipsNoWrite]
  split
  · next key hkeys =>
    have hbegin : Kept etcd start ∧ start.Complete etcd :=
      ⟨hkept, fun _ opened ho ↦ absurd (ho.symm.trans hopened) (Option.some_ne_none opened)⟩
    exact (run_invariant_along (I := fun s ↦ Kept etcd s ∧ s.Complete etcd)
      (fun _ _ _ hturn hstep hs ↦ ⟨hs.1.step hstep, hs.2.step hs.1 hkeys hturn hstep⟩)
      hsound h hbegin).2.everyPutOnce hkeys
  · exact trivial
  · next root hkeys =>
    have hbegin : Kept etcd start ∧ start.EveryChangeFollowed folded etcd root :=
      ⟨hkept, fun _ opened ho ↦ absurd (ho.symm.trans hopened) (Option.some_ne_none opened)⟩
    exact (run_invariant_along (I := fun s ↦ Kept etcd s ∧ s.EveryChangeFollowed folded etcd root)
      (fun _ _ _ hturn hstep hs ↦ ⟨hs.1.step hstep, hs.2.step hs.1 hkeys hturn hstep⟩)
      hsound h hbegin).2

/-- A source of one key. -/
def keyed : Source := ⟨.one "app.json", some .json, none⟩

/-- A watch of it, of a store that has nothing yet. -/
def begun : Watch := ⟨.empty, .asking .first false, .json, none, 0, none, none, []⟩

/-- A put of the key. -/
def put (value : List UInt8) : Turn := .commit [⟨as_bytes "app.json", some value⟩]

/-- The token expires, and the stream is established again. -/
def recovery : List Turn := [.failed true, .refresh true, .answer .granted true]

/-- A put that comes, and one that a recovery comes before. -/
def resuming : List Turn :=
  [.answer .granted true, put [49], .message 1 (some 1) false 1, put [50]] ++ recovery ++
    [.message 1 (some 2) false 1]

/-- A recovery after a message replays what was put while the stream was down. -/
theorem skipsNoWrite_of_resuming : ∃ sys, watch keyed .empty = some begun ∧
    run (step (fun _ _ ↦ none) keyed) begun resuming = some sys ∧
      sys.delivered.map (fun d ↦ (d.1, d.2.text)) = [(1, "1"), (2, "2")] ∧
        sys.SkipsNoWrite (fun _ _ ↦ none) keyed := by
  have hruns : (run (step (fun _ _ ↦ none) keyed) begun resuming).map
      (fun sys ↦ sys.delivered.map fun d ↦ (d.1, d.2.text)) = some [(1, "1"), (2, "2")] := by
    decide +kernel
  obtain ⟨sys, hrun, hdelivered⟩ := Option.map_eq_some_iff.1 hruns
  exact ⟨sys, rfl, hrun, hdelivered, skipsNoWrite_of_run rfl (by decide +kernel) hrun⟩

/-- **A recovery before the first message loses what was put before it.** The stream is established,
the key is put, the token expires: the new stream starts past the put. -/
theorem not_skipsNoWrite : ∃ sys, watch keyed .empty = some begun ∧
    run (step (fun _ _ ↦ none) keyed) begun ([.answer .granted true, put [49]] ++ recovery) =
      some sys ∧ ¬ sys.SkipsNoWrite (fun _ _ ↦ none) keyed := by
  have hruns : (run (step (fun _ _ ↦ none) keyed) begun
      ([.answer .granted true, put [49]] ++ recovery)).map (fun sys ↦ (sys.point, sys.opened,
        [sys.delivered.length, (puts sys.format (sys.outstanding keyed)).length,
          (puts sys.format (sys.store.events keyed.watches 1)).length])) =
      some (.message, some 1, [0, 0, 1]) := by
    decide +kernel
  obtain ⟨sys, hrun, hread⟩ := Option.map_eq_some_iff.1 hruns
  obtain ⟨hpoint, hopened, hlengths⟩ : sys.point = .message ∧ sys.opened = some 1 ∧
      [sys.delivered.length, (puts sys.format (sys.outstanding keyed)).length,
        (puts sys.format (sys.store.events keyed.watches 1)).length] = [0, 0, 1] :=
    ⟨congrArg Prod.fst hread, congrArg (fun r ↦ r.2.1) hread, congrArg (fun r ↦ r.2.2) hread⟩
  refine ⟨sys, rfl, hrun, fun hskips ↦ ?_⟩
  have hlive : sys.point ≠ .ended := by
    rw [hpoint]
    decide
  have hputs := congrArg List.length (hskips hlive 1 hopened).1
  rw [List.length_append, List.length_map] at hputs
  obtain ⟨hdelivered, hrest⟩ := List.cons.inj hlengths
  obtain ⟨hout, hrest⟩ := List.cons.inj hrest
  have hevents := (List.cons.inj hrest).1
  omega

/-! ### Headers that keep up -/

/-- Every message has a header that is not behind what has been handed over, and no recovery comes
before the first message while something is outstanding. -/
def KeepsUp (etcd : Source) (sys : Watch) : Turn → Prop
  | .answer .granted _ => sys.point.call = some .resume → sys.resume_from = none →
    ∀ e ∈ sys.outstanding etcd, owed etcd e = false
  | .message count header _ _ => ∃ revision, header = some revision ∧
    ∀ e ∈ sys.store.events etcd.watches (revision + 1), e ∈ (sys.outstanding etcd).drop count
  | _ => True

/-- What comes from the resume point on is outstanding. -/
def CaughtUp (etcd : Source) (sys : Watch) : Prop :=
  ∀ revision, sys.resume_from = some revision → (∃ feed, sys.feed = some feed) ∧
    ∀ e ∈ sys.store.events etcd.watches revision, e ∈ sys.outstanding etcd

theorem CaughtUp.step (h : sys.CaughtUp etcd) (hkept : Kept etcd sys) {turn : Turn}
    (hkeeps : sys.KeepsUp etcd turn) (hstep : sys.step folded etcd turn = some sys') :
    sys'.CaughtUp etcd := by
  rcases effect_of_step hstep with ⟨writes, hwrites⟩ | ⟨point, recoveries, hlive, -, -⟩ |
    ⟨hcall⟩ | ⟨accepted, -, hcall⟩ | ⟨revision, accepted, hcall⟩ |
    ⟨count, header, canceled, accepted, feed, rfl, -, hfeed, hcount, -⟩
  · intro r hr
    obtain ⟨⟨feed, hfeed⟩, hout⟩ := h r hr
    refine ⟨⟨feed, hfeed⟩, fun e he ↦ ?_⟩
    have hevents := History.events_commit (p := etcd.watches) writes hwrites (hkept.resume r hr).1
    rw [hkept.outstanding_commit hfeed]
    rcases List.mem_append.1 (hevents ▸ he) with hold | hnew
    · exact List.mem_append_left _ (hout e hold)
    · exact List.mem_append_right _ hnew
  · exact h
  · intro r hr
    have hnone := (hkept.fresh hcall).2
    exact absurd (hr.symm.trans hnone) (Option.some_ne_none r)
  · intro r hr
    have hfrom : sys.resume_from = some r := hr
    refine ⟨⟨_, rfl⟩, fun e he ↦ ?_⟩
    rw [outstanding_watch_once, hfrom]
    exact he
  · intro r hr
    obtain ⟨point, delivered, -, hframe⟩ := sys.reread_frame folded etcd revision accepted
    rw [hframe] at hr ⊢
    exact h r hr
  · intro r hr
    obtain ⟨header, rfl, hrest⟩ := hkeeps
    have hout := outstanding_receive hfeed hcount (some header) canceled accepted
    obtain ⟨point, delivered, -, hframe⟩ := sys.receive_frame etcd feed
      ((sys.outstanding etcd).take count) (some header) canceled accepted
    rw [hframe] at hr hout ⊢
    obtain rfl := Option.some.inj hr
    refine ⟨⟨_, rfl⟩, fun e he ↦ ?_⟩
    rw [hout]
    exact hrest e he

/-- **Where headers keep up, the one recovery that is not sound comes before the first message.** -/
theorem sound_of_keepsUp {store : Store} {start : Watch} {turns : List Turn}
    (hstart : watch etcd store = some start)
    (hkeeps : Along (step folded etcd) (fun sys turn ↦ sys.KeepsUp etcd turn) start turns) :
    Along (step folded etcd) (fun sys turn ↦ sys.Sound etcd turn) start turns := by
  have hbegin : Kept etcd start ∧ start.CaughtUp etcd := by
    refine ⟨kept_watch hstart, fun r hr ↦ ?_⟩
    exact absurd (hr.symm.trans (none_of_watch hstart).2) (Option.some_ne_none r)
  refine hkeeps.imp (I := fun s ↦ Kept etcd s ∧ s.CaughtUp etcd)
    (fun s turn s' hturn hstep hs ↦ ⟨hs.1.step hstep, hs.2.step hs.1 hturn hstep⟩)
    (fun s turn hs hturn ↦ ?_) hbegin
  rcases turn with - | ⟨answer, accepted⟩ | - | ⟨count, header, canceled, accepted⟩ | - | -
  case answer =>
    rcases answer with - | - | -
    case granted =>
      intro hcall
      rw [Resumes]
      rcases hresume : s.resume_from with - | r
      · exact hturn hcall hresume
      · rcases etcd.keys with key | keys | root
        · exact fun e he _ ↦ (hs.2 r hresume).2 e he
        · exact trivial
        · exact trivial
    all_goals exact trivial
  case message =>
    obtain ⟨revision, rfl, -⟩ := hturn
    exact fun _ _ ↦ rfl
  all_goals exact trivial

end Watch

end DynamicConfig.Etcd
