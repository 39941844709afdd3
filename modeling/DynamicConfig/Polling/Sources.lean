import DynamicConfig.Polling.Loop

/-!
# The stores that are polled

S3, Vault, Firestore and git are watched by asking for a token every so often: the ETag of an object,
the version counter of a secret, the update time of a document, the commit of a ref. The loops are the
same but for Firestore's, whose check is the read itself. Each store has its own history, and with it
its own answer to whether a token can come back for another document.

An ETag and a commit are functions of what they name, and update times only rise. Vault's counter
starts again at one when the metadata of a secret is deleted and the secret written anew, and then
comes back to the version the loop has seen: the loop takes the new secret for the old one, and says
nothing (`not_neverStale_recreated`). Unless that happens none of the four settles on a stale document
(`settles_of_run`).
-/

namespace DynamicConfig

open Polling Transition

/-! ### S3 -/

/-- What can happen to an object. -/
inductive ObjectEvent (D : Type) where
  | put (body : D)
  | delete

/-- A bucket's object, or none: `HEAD` answers its ETag, `GET` its body and its ETag. -/
def S3.backend {D Tag : Type} (etag : D → Tag) : Backend (Option D) (ObjectEvent D) D Tag where
  move _
    | .put body => some (some body)
    | .delete => some none
  check object := object.map etag
  read object := object.map fun body ↦ (body, some (etag body))
  single := false

/-- `S3::watch`, one turn of it or of the bucket. -/
def S3.watch {D Tag : Type} [DecidableEq Tag] (etag : D → Tag) :
    System (Option D) D Tag → Turn (ObjectEvent D) → Option (System (Option D) D Tag) :=
  System.step (S3.backend etag)

/-! ### Vault -/

/-- A secret of a KV v2 mount: how often its metadata has been created, and, while it has metadata,
its version counter and the data of that version, unless they are deleted. -/
structure Secret (D : Type) where
  created : Nat
  current : Option (Nat × Option D)

/-- What can happen to a secret. -/
inductive SecretEvent (D : Type) where
  | put (data : D)
  /-- The data of the current version are deleted; the counter stays. -/
  | delete
  | deleteMetadata

/-- The secret after an event. -/
def Secret.after {D : Type} (secret : Secret D) : SecretEvent D → Secret D
  | .put data =>
    match secret.current with
    | some (version, _) => { secret with current := some (version + 1, some data) }
    | none => { created := secret.created + 1, current := some (1, some data) }
  | .delete => { secret with current := secret.current.map fun c ↦ (c.1, none) }
  | .deleteMetadata => { secret with current := none }

/-- A secret: the metadata answer its counter, a read its data and their version. -/
def Vault.backend (D : Type) : Backend (Secret D) (SecretEvent D) D Nat where
  move secret event := some (secret.after event)
  check secret := secret.current.map Prod.fst
  read secret := secret.current.bind fun c ↦ c.2.map fun data ↦ (data, some c.1)
  single := false

/-- `Vault::watch`, one turn of it or of the mount. -/
def Vault.watch {D : Type} :
    System (Secret D) D Nat → Turn (SecretEvent D) → Option (System (Secret D) D Nat) :=
  System.step (Vault.backend D)

/-! ### Firestore -/

/-- A document and when it was updated, if there is one, and a clock that no update is ahead of. -/
structure Document (D : Type) where
  clock : Nat
  current : Option (D × Nat)
  stamped : ∀ e, current = some e → e.2 ≤ clock

/-- What can happen to a document. -/
inductive DocumentEvent (D : Type) where
  | put (fields : D) (time : Nat)
  | delete

/-- The document after an event. An update is later than any before it. -/
def Document.after {D : Type} (document : Document D) : DocumentEvent D → Option (Document D)
  | .put fields time =>
    if document.clock < time then
      some
        { clock := time
          current := some (fields, time)
          stamped := fun e he ↦ Option.some.inj he ▸ Nat.le_refl _ }
    else none
  | .delete => some
      { clock := document.clock
        current := none
        stamped := fun e he ↦ by cases he }

/-- A document: one request answers its fields and their `updateTime`. -/
def Firestore.backend (D : Type) : Backend (Document D) (DocumentEvent D) D Nat where
  move := Document.after
  check document := document.current.map Prod.snd
  read document := document.current.map fun c ↦ (c.1, some c.2)
  single := true

/-- `Firestore::watch`, one turn of it or of the database. -/
def Firestore.watch {D : Type} :
    System (Document D) D Nat → Turn (DocumentEvent D) → Option (System (Document D) D Nat) :=
  System.step (Firestore.backend D)

/-! ### git -/

/-- What can happen to a ref. -/
inductive RefEvent (Commit : Type) where
  | push (commit : Commit)
  | delete

/-- A ref: the advertisement answers the commit it names, a fetch the documents of that commit merged
into one, where they merge. -/
def Git.backend {Commit D : Type} (tree : Commit → Option D) :
    Backend (Option Commit) (RefEvent Commit) D Commit where
  move _
    | .push commit => some (some commit)
    | .delete => some none
  check ref := ref
  read ref := ref.bind fun commit ↦ (tree commit).map fun document ↦ (document, some commit)
  single := false

/-- `GitSource::watch`, one turn of it or of the repository. -/
def Git.watch {Commit D : Type} [DecidableEq Commit] (tree : Commit → Option D) :
    System (Option Commit) D Commit → Turn (RefEvent Commit) →
      Option (System (Option Commit) D Commit) :=
  System.step (Git.backend tree)

/-! ### What each answers -/

section Agreement

variable {D Tag Commit : Type}

theorem agrees_s3 (etag : D → Tag) : (S3.backend etag).Agrees := by
  intro object d tag hread
  obtain ⟨body, hbody, heq⟩ := Option.map_eq_some_iff.1 hread
  obtain ⟨-, rfl⟩ := Prod.mk.inj heq
  exact ⟨etag body, rfl, by rw [hbody]; rfl⟩

theorem agrees_vault : (Vault.backend D).Agrees := by
  intro secret d tag hread
  obtain ⟨c, hc, hdata⟩ := Option.bind_eq_some_iff.1 hread
  obtain ⟨data, -, heq⟩ := Option.map_eq_some_iff.1 hdata
  obtain ⟨-, rfl⟩ := Prod.mk.inj heq
  refine ⟨c.1, rfl, ?_⟩
  show secret.current.map Prod.fst = some c.1
  rw [hc]
  rfl

theorem agrees_firestore : (Firestore.backend D).Agrees := by
  intro document d tag hread
  obtain ⟨c, hc, heq⟩ := Option.map_eq_some_iff.1 hread
  obtain ⟨-, rfl⟩ := Prod.mk.inj heq
  refine ⟨c.2, rfl, ?_⟩
  show document.current.map Prod.snd = some c.2
  rw [hc]
  rfl

theorem agrees_git (tree : Commit → Option D) : (Git.backend tree).Agrees := by
  intro ref d tag hread
  obtain ⟨commit, hcommit, hdocument⟩ := Option.bind_eq_some_iff.1 hread
  obtain ⟨document, -, heq⟩ := Option.map_eq_some_iff.1 hdocument
  obtain ⟨-, rfl⟩ := Prod.mk.inj heq
  exact ⟨commit, rfl, hcommit⟩

end Agreement

/-! ### What a token stands for -/

section Recognition

variable {D Tag Commit : Type}

/-- An ETag stands for a body. -/
theorem recognises_s3 [DecidableEq Tag] {etag : D → Tag} (hetag : Function.Injective etag)
    (object : Option D) (turns : List (Turn (ObjectEvent D))) :
    Along (S3.watch etag) (Recognises (S3.backend etag)) (System.start object) turns := by
  refine recognises_of_lineage (R := fun _ _ ↦ True) (agrees_s3 etag) (fun _ ↦ trivial)
    (fun _ _ _ _ _ _ ↦ trivial) (fun s t _ hcheck d hd ↦ ?_) object turns
  rcases s with - | body
  · rcases t with - | body'
    · cases hd
    · cases hcheck
  · rcases t with - | body'
    · cases hd
    · obtain rfl : body = body' := hetag (Option.some.inj hcheck)
      exact hd

/-- A commit stands for its documents. -/
theorem recognises_git [DecidableEq Commit] (tree : Commit → Option D) (ref : Option Commit)
    (turns : List (Turn (RefEvent Commit))) :
    Along (Git.watch tree) (Recognises (Git.backend tree)) (System.start ref) turns := by
  refine recognises_of_lineage (R := fun _ _ ↦ True) (agrees_git tree) (fun _ ↦ trivial)
    (fun _ _ _ _ _ _ ↦ trivial) (fun s t _ hcheck d hd ↦ ?_) ref turns
  obtain rfl : s = t := hcheck
  exact hd

/-- What a document can come to: as long as the clock of one has not been passed, it is that one. -/
def Document.Precedes (earlier later : Document D) : Prop :=
  earlier.clock ≤ later.clock ∧
    ∀ e, later.current = some e → e.2 ≤ earlier.clock → earlier.current = some e

/-- An update time stands for the update. -/
theorem recognises_firestore (document : Document D) (turns : List (Turn (DocumentEvent D))) :
    Along Firestore.watch (Recognises (Firestore.backend D)) (System.start document) turns := by
  refine recognises_of_lineage (R := Document.Precedes) agrees_firestore
    (fun s ↦ ⟨Nat.le_refl _, fun _ he _ ↦ he⟩) (fun s t event u hprecedes hmove ↦ ?_)
    (fun s t hprecedes hcheck d hd ↦ ?_) document turns
  · obtain ⟨hle, hsame⟩ := hprecedes
    rcases event with ⟨fields, time⟩ | -
    · have hput : t.after (.put fields time) = some u := hmove
      rw [Document.after] at hput
      split at hput
      · next hlater =>
        obtain rfl := Option.some.inj hput
        refine ⟨Nat.le_trans hle (Nat.le_of_lt hlater), fun e he hearly ↦ ?_⟩
        have htime : (fields, time).2 ≤ s.clock := by
          rw [Option.some.inj he]
          exact hearly
        omega
      · cases hput
    · obtain rfl := Option.some.inj hmove
      exact ⟨hle, fun e he ↦ absurd he (Option.some_ne_none e).symm⟩
  · have hchecked : s.current.map Prod.snd = t.current.map Prod.snd := hcheck
    have hstored : (t.current.map fun c ↦ (c.1, some c.2)).map Prod.fst = some d := hd
    show (s.current.map fun c ↦ (c.1, some c.2)).map Prod.fst = some d
    rcases ht : t.current with - | c
    · rw [ht] at hstored
      cases hstored
    · rw [ht, Option.map_some] at hchecked
      obtain ⟨c', hc', htime⟩ := Option.map_eq_some_iff.1 hchecked
      -- The stored update is no later than the clock of the one taken, and so it is that one.
      have hearly : c.2 ≤ s.clock := htime ▸ s.stamped c' hc'
      rw [hprecedes.2 c ht hearly, ← ht]
      exact hstored

/-- What a secret can come to: as long as its metadata have not been created anew, its counter only
rises, and the data of a version are those data or deleted. -/
def Secret.Precedes (earlier later : Secret D) : Prop :=
  earlier.created ≤ later.created ∧ (later.created = earlier.created →
    ∀ v x w y, earlier.current = some (v, x) → later.current = some (w, y) →
      v ≤ w ∧ (w = v → y = x ∨ y = none))

theorem Secret.Precedes.refl (s : Secret D) : s.Precedes s := by
  refine ⟨Nat.le_refl _, fun _ v x w y hv hw ↦ ?_⟩
  obtain ⟨rfl, rfl⟩ := Prod.mk.inj (Option.some.inj (hv.symm.trans hw))
  exact ⟨Nat.le_refl _, fun _ ↦ Or.inl rfl⟩

/-- An event takes a secret on. -/
theorem Secret.Precedes.after {s t : Secret D} (h : s.Precedes t) (event : SecretEvent D) :
    s.Precedes (t.after event) := by
  obtain ⟨hle, hsame⟩ := h
  rcases event with data | - | -
  case put =>
    rw [Secret.after]
    split
    · next version old hcurrent =>
      refine ⟨hle, fun hcreated v x w y hv hw ↦ ?_⟩
      obtain ⟨hrises, -⟩ := hsame hcreated v x version old hv hcurrent
      obtain ⟨rfl, -⟩ := Prod.mk.inj (Option.some.inj hw)
      exact ⟨Nat.le_succ_of_le hrises, fun heq ↦ by omega⟩
    · refine ⟨Nat.le_succ_of_le hle, fun hcreated ↦ ?_⟩
      -- Metadata that are created anew are another secret's.
      have hanew : t.created + 1 = s.created := hcreated
      omega
  case delete =>
    refine ⟨hle, fun hcreated v x w y hv hw ↦ ?_⟩
    obtain ⟨c, hc, heq⟩ := Option.map_eq_some_iff.1 hw
    obtain ⟨rfl, rfl⟩ := Prod.mk.inj heq
    obtain ⟨hrises, -⟩ := hsame hcreated v x c.1 c.2 hv hc
    exact ⟨hrises, fun _ ↦ Or.inr rfl⟩
  case deleteMetadata => exact ⟨hle, fun _ v x w y _ hw ↦ by cases hw⟩

/-- A version answered again is of the secret it was taken of, not of one created anew, or says the
same. -/
def SameSecret (sys : System (Secret D) D Nat) (turn : Turn (SecretEvent D)) : Prop :=
  turn.Answers → ∀ e, sys.taken = some e →
    (Vault.backend D).check e.1 = (Vault.backend D).check sys.store →
      sys.store.created = e.1.created ∨ ∀ d, (Vault.backend D).present sys.store = some d →
        (Vault.backend D).present e.1 = some d

/-- Whose metadata are never deleted is always the same secret. -/
theorem along_sameSecret {secret : Secret D} (hsecret : secret.current.isSome)
    {turns : List (Turn (SecretEvent D))} (hturns : ∀ turn ∈ turns, turn ≠ .store .deleteMetadata) :
    Along Vault.watch SameSecret (System.start secret) turns := by
  refine along_of_invariant (I := fun sys ↦ sys.store.current.isSome ∧
    sys.Follows fun s t ↦ t.created = s.created) (fun sys turn sys' hturn hstep hsys ↦ ?_)
    (fun sys turn _ hsys _ e he _ ↦ ?_) hturns ⟨hsecret, follows_start secret⟩
  case refine_2 =>
    obtain ⟨-, hcreated⟩ := hsys
    exact Or.inl (hcreated e he)
  obtain ⟨hsome, hcreated⟩ := hsys
  have hnow : ∀ e, some (sys.store, sys.moves) = some e → sys.store.created = e.1.created :=
    fun e he ↦ by rw [← Option.some.inj he]
  rcases effect_of_step agrees_vault hstep with ⟨event, store, rfl, hmove⟩ | ⟨tag, -, -, -, -⟩ | - | - |
    ⟨document, tag, current, accepted, -, -, -⟩ | -
  · obtain rfl : sys.store.after event = store := Option.some.inj hmove
    obtain ⟨c, hc⟩ := Option.isSome_iff_exists.1 hsome
    rcases event with data | - | -
    · have hafter : sys.store.after (.put data) =
          { sys.store with current := some (c.1 + 1, some data) } := by
        rw [Secret.after, hc]
      rw [hafter]
      exact ⟨rfl, hcreated⟩
    · refine ⟨?_, hcreated⟩
      show (sys.store.current.map _).isSome
      rw [hc]
      rfl
    · exact absurd rfl hturn
  · exact ⟨hsome, hnow⟩
  · exact ⟨hsome, hcreated⟩
  · exact ⟨hsome, hcreated⟩
  · exact ⟨hsome, hnow⟩
  · exact ⟨hsome, hcreated⟩

/-- A version stands for the data of one secret. -/
theorem recognises_vault {secret : Secret D} {turns : List (Turn (SecretEvent D))}
    (hsame : Along Vault.watch SameSecret (System.start secret) turns) :
    Along Vault.watch (Recognises (Vault.backend D)) (System.start secret) turns := by
  refine hsame.imp (I := System.Follows Secret.Precedes) (fun _ _ _ _ hstep hfollows ↦ ?_)
    (fun sys turn hfollows hturn hanswers e he hcheck d hd ↦ ?_) (follows_start secret)
  · exact hfollows.step agrees_vault Secret.Precedes.refl
      (fun s t event u hprecedes hmove ↦ Option.some.inj hmove ▸ hprecedes.after event) hstep
  · rcases hturn hanswers e he hcheck with hcreated | hsays
    · have hchecked : e.1.current.map Prod.fst = sys.store.current.map Prod.fst := hcheck
      have hstored : (sys.store.current.bind fun c ↦ c.2.map fun data ↦ (data, some c.1)).map
          Prod.fst = some d := hd
      show (e.1.current.bind fun c ↦ c.2.map fun data ↦ (data, some c.1)).map Prod.fst = some d
      rcases hnow : sys.store.current with - | ⟨w, y⟩
      · rw [hnow] at hstored
        cases hstored
      · rw [hnow, Option.map_some] at hchecked
        obtain ⟨⟨v, x⟩, hthen, hversion⟩ := Option.map_eq_some_iff.1 hchecked
        obtain ⟨-, hdata⟩ := (hfollows e he).2 hcreated v x w y hthen hnow
        rw [hnow] at hstored
        rw [hthen]
        rcases hdata hversion.symm with rfl | rfl
        · obtain rfl : v = w := hversion
          exact hstored
        · cases hstored
    · exact hsays d hd

end Recognition

/-! ### Every run -/

section Runs

variable {D Tag Commit : Type} [DecidableEq Tag] [DecidableEq Commit]

/-- What a polling watch does for whoever runs it. -/
structure Settles {σ ε Tok : Type} (b : Backend σ ε D Tok) (sys : System σ D Tok) : Prop where
  neverStale : NeverStale b sys
  once : Once sys

/-- **None of the four settles on a stale document**, nor delivers a version twice: S3, Firestore and
git in every run, Vault in every run in which no check takes a secret created anew for the one it has
seen. -/
theorem settles_of_run {etag : D → Tag} (hetag : Function.Injective etag)
    (tree : Commit → Option D) :
    (∀ object turns sys, run (S3.watch etag) (System.start object) turns = some sys →
      Settles (S3.backend etag) sys) ∧
    (∀ document turns sys, run Firestore.watch (System.start document) turns = some sys →
      Settles (Firestore.backend D) sys) ∧
    (∀ ref turns sys, run (Git.watch tree) (System.start ref) turns = some sys →
      Settles (Git.backend tree) sys) ∧
    (∀ secret turns sys, Along Vault.watch SameSecret (System.start secret) turns →
      run Vault.watch (System.start secret) turns = some sys → Settles (Vault.backend D) sys) := by
  refine ⟨fun object turns sys h ↦ ?_, fun document turns sys h ↦ ?_, fun ref turns sys h ↦ ?_,
    fun secret turns sys hsame h ↦ ?_⟩
  · exact ⟨neverStale_of_run (agrees_s3 etag) (recognises_s3 hetag object turns) h,
      once_of_run (agrees_s3 etag) h⟩
  · exact ⟨neverStale_of_run agrees_firestore (recognises_firestore document turns) h,
      once_of_run agrees_firestore h⟩
  · exact ⟨neverStale_of_run (agrees_git tree) (recognises_git tree ref turns) h,
      once_of_run (agrees_git tree) h⟩
  · exact ⟨neverStale_of_run agrees_vault (recognises_vault hsame) h, once_of_run agrees_vault h⟩

end Runs

/-- A secret with one version. -/
def firstVersion (data : String) : Secret String := ⟨1, some (1, some data)⟩

/-- A write between two checks, read by the second, and at each of the four a watch that settles. -/
theorem settles_after_write :
    let turns (ε : Type) (event : ε) : List (Turn ε) :=
      [.check true, .store event, .check true, .read true true, .check true]
    (∃ sys, run (S3.watch id) (System.start (some "a")) (turns _ (.put "b")) = some sys ∧
      sys.delivered = [("b", 1)] ∧ Settles (S3.backend id) sys) ∧
    (∃ sys, run Vault.watch (System.start (firstVersion "a")) (turns _ (.put "b")) = some sys ∧
      sys.delivered = [("b", 1)] ∧ Settles (Vault.backend String) sys) := by
  intro turns
  obtain ⟨hs3, -, -, hvault⟩ :=
    settles_of_run Function.injective_id (fun _ : Nat ↦ (none : Option String))
  obtain ⟨object, hobject, hdelivered⟩ : ∃ sys, run (S3.watch id) (System.start (some "a"))
      (turns _ (.put "b")) = some sys ∧ sys.delivered = [("b", 1)] := ⟨_, rfl, rfl⟩
  obtain ⟨secret, hsecret, hdelivered'⟩ : ∃ sys, run Vault.watch (System.start (firstVersion "a"))
      (turns _ (.put "b")) = some sys ∧ sys.delivered = [("b", 1)] := ⟨_, rfl, rfl⟩
  refine ⟨⟨object, hobject, hdelivered, hs3 _ _ _ hobject⟩,
    ⟨secret, hsecret, hdelivered', hvault _ _ _ ?_ hsecret⟩⟩
  refine along_sameSecret rfl fun turn hturn ↦ ?_
  simp only [turns, List.mem_cons, List.not_mem_nil, or_false] at hturn
  rcases hturn with rfl | rfl | rfl | rfl | rfl
  all_goals simp only [ne_eq, reduceCtorEq, not_false_eq_true, Turn.store.injEq]

/-- **A secret created anew is taken for the one before it.** Its first version has the number the
loop has seen, so nothing is read and nothing delivered, however long the store stays quiet. -/
theorem not_neverStale_recreated :
    ∃ sys, run Vault.watch (System.start (firstVersion "old"))
        [.check true, .store .deleteMetadata, .store (.put "new"), .check true] = some sys ∧
      sys.settled = some sys.moves ∧ sys.delivered = [] ∧
        (Vault.backend String).present sys.store = some "new" ∧
          ¬ NeverStale (Vault.backend String) sys :=
  ⟨_, rfl, rfl, rfl, rfl, fun hnever ↦ absurd (hnever rfl "new" rfl) (by decide)⟩

end DynamicConfig
