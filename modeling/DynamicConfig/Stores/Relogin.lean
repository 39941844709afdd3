import DynamicConfig.Stores.Client
import DynamicConfig.Transition.Parties
import DynamicConfig.Transition.Run

/-!
# One fresh login and one retry

A store that logs in presents what it was issued, and a request that is refused is made once more with
another credential: the session is invalidated, and asked again. Any number of requests of one source
share its session, and one may be refused while the next is being issued a credential.

`Client` is what the stores differ in: what is presented without a session, what obtaining does, which
replies are refusals and whether a refused credential can be traded. A client carries the two facts the
results rest on, so a store is one only with their proofs: only a client with a session can trade, and
what is extended rather than issued is presented as before.

`step` moves one request. Asking the session is one move, since its lock is held across obtaining. The
log has what was obtained, answered and invalidated, the newest first, and the results are about it:

* `history_of_run` is what one request does, whatever the others do;
* `retry_presents_fresh` rests on `Standing`, which is what the session holds in terms of the log;
* `fresh_le_invalidated` counts the logins of a session that held nothing.
-/

namespace DynamicConfig.Relogin

open Credential Transition

variable {T S A R V : Type}

/-- Where a request is. -/
inductive Point (S V : Type) where
  /-- It asks for a credential, for the first time or again. -/
  | asking (again : Bool)
  | sending (again : Bool) (credential : S)
  /-- It was refused, and is to invalidate the session. -/
  | refused
  | done (outcome : Except Error V)

/-- What the log has of a request. -/
inductive Entry (S R : Type) where
  | obtained (request : ℕ) (login : Bool) (previous : Option S) (credential : S)
  | answered (request : ℕ) (credential : S) (reply : R)
  | invalidated (request : ℕ)

/-- A session and the requests that share it. -/
structure State (T S R V : Type) where
  cached : Cached T
  requests : List (Point S V)
  /-- The newest first. -/
  log : List (Entry S R)

/-- What happens: a request is made, or one of them moves. -/
inductive Event (A R : Type) where
  | request
  | ask (i : ℕ) (answers : A) (now later : ℕ)
  | reply (i : ℕ) (reply : R)
  | invalidate (i : ℕ)

/-- Nothing was asked of the session yet. -/
def State.start (margin : ℕ) : State T S R V := ⟨Cached.withMargin margin, [], []⟩

/-- A request goes on with the credential it was given, or ends without one. -/
def presenting (again : Bool) : Except Error S → Point S V
  | .ok credential => .sending again credential
  | .error error => .done (.error error)

variable (client : Client T S A R V) (latest : ℕ)

namespace Client

/-- What the log notes of asking a session: nothing, unless something was obtained. -/
def noted (i : ℕ) (answers : A) (got : Got T Error) : List (Entry S R) :=
  match got.asked, got.result with
  | some previous, .ok value =>
    [.obtained i (client.logsIn answers previous) (previous.map client.presented)
      (client.presented value)]
  | _, _ => []

/-- A request asks for the credential to present. -/
def ask (s : State T S R V) (i : ℕ) (again : Bool) (answers : A) (now later : ℕ) : State T S R V :=
  match client.supplied with
  | some supplied => { s with requests := s.requests.set i (presenting again supplied) }
  | none =>
    let got := s.cached.get latest (client.obtainWith answers) now later
    { cached := got.cached
      requests := s.requests.set i (presenting again (got.result.map client.presented))
      log := client.noted i answers got ++ s.log }

/-- Where a request goes with a reply: a refusal of the first is traded where it can be, and every
other reply is the last. -/
def after (again : Bool) (reply : R) : Point S V :=
  if client.isRefusal reply && client.canRelogin && !again then .refused
  else .done (client.outcome reply)

/-- One move. -/
def step (s : State T S R V) : Event A R → Option (State T S R V)
  | .request => some { s with requests := s.requests ++ [.asking false] }
  | .ask i answers now later =>
    match s.requests[i]? with
    | some (.asking again) => some (client.ask latest s i again answers now later)
    | _ => none
  | .reply i reply =>
    match s.requests[i]? with
    | some (.sending again credential) =>
      some { s with
        requests := s.requests.set i (client.after again reply)
        log := .answered i credential reply :: s.log }
    | _ => none
  | .invalidate i =>
    match s.requests[i]? with
    | some .refused =>
      some
        { cached := s.cached.invalidate
          requests := s.requests.set i (.asking true)
          log := .invalidated i :: s.log }
    | _ => none

/-! ### What a move can do -/

/-- What a move can do, by what came of it. -/
inductive Moves (s : State T S R V) : State T S R V → Prop where
  | request : Moves s { s with requests := s.requests ++ [.asking false] }
  | failed {i : ℕ} {again : Bool} (hi : s.requests[i]? = some (.asking again)) (error : Error) :
    Moves s { s with requests := s.requests.set i (.done (.error error)) }
  | supplied {i : ℕ} {again : Bool} (hi : s.requests[i]? = some (.asking again)) {credential : S}
    (hsupplied : client.supplied = some (.ok credential)) :
    Moves s { s with requests := s.requests.set i (.sending again credential) }
  | held {i : ℕ} {again : Bool} (hi : s.requests[i]? = some (.asking again))
    (hsupplied : client.supplied = none) {held : Held T} (hheld : s.cached.held = some held) :
    Moves s { s with requests := s.requests.set i (.sending again (client.presented held.value)) }
  | obtained {i : ℕ} {again : Bool} (hi : s.requests[i]? = some (.asking again))
    (hsupplied : client.supplied = none) {answers : A} {issued : Issued T}
    (hissued : client.obtainWith answers (s.cached.held.map Held.value) = .ok issued)
    (expiresAt : Option ℕ) :
    Moves s
      { cached := { s.cached with held := some ⟨issued.value, expiresAt⟩ }
        requests := s.requests.set i (.sending again (client.presented issued.value))
        log := .obtained i (client.logsIn answers (s.cached.held.map Held.value))
          ((s.cached.held.map Held.value).map client.presented)
          (client.presented issued.value) :: s.log }
  | answered {i : ℕ} {again : Bool} {credential : S}
    (hi : s.requests[i]? = some (.sending again credential)) (reply : R) :
    Moves s
      { s with
        requests := s.requests.set i (client.after again reply)
        log := .answered i credential reply :: s.log }
  | invalidated {i : ℕ} (hi : s.requests[i]? = some .refused) :
    Moves s
      { cached := s.cached.invalidate
        requests := s.requests.set i (.asking true)
        log := .invalidated i :: s.log }

/-- What is asked of a session: it answers with what it holds, or obtains, or fails to. -/
theorem get_cases (cached : Cached T) (obtainWith : Option T → Except Error (Issued T))
    (now later : ℕ) :
    (∃ held, cached.held = some held ∧
      cached.get latest obtainWith now later = ⟨.ok held.value, none, cached⟩) ∨
    (∃ error, cached.get latest obtainWith now later =
      ⟨.error error, some (cached.held.map Held.value), cached⟩) ∨
    ∃ issued expiresAt, obtainWith (cached.held.map Held.value) = .ok issued ∧
      cached.get latest obtainWith now later =
        ⟨.ok issued.value, some (cached.held.map Held.value),
          { cached with held := some ⟨issued.value, expiresAt⟩ }⟩ := by
  have hreplace : (∃ error, cached.replace latest obtainWith later =
        ⟨.error error, some (cached.held.map Held.value), cached⟩) ∨
      ∃ issued expiresAt, obtainWith (cached.held.map Held.value) = .ok issued ∧
        cached.replace latest obtainWith later =
          ⟨.ok issued.value, some (cached.held.map Held.value),
            { cached with held := some ⟨issued.value, expiresAt⟩ }⟩ := by
    cases hobtain : obtainWith (cached.held.map Held.value) with
    | error error => exact .inl ⟨error, Cached.replace_of_error hobtain⟩
    | ok issued => exact .inr ⟨issued, _, rfl, Cached.replace_of_ok hobtain⟩
  cases hheld : cached.held with
  | none =>
    rw [hheld] at hreplace
    simp only [Cached.get, hheld]
    exact .inr hreplace
  | some held =>
    rw [hheld] at hreplace
    simp only [Cached.get, hheld]
    split
    · exact .inr hreplace
    · exact .inl ⟨held, rfl, rfl⟩

/-- Asking moves the one request that asks. -/
theorem moves_ask (s : State T S R V) {i : ℕ} {again : Bool}
    (hi : s.requests[i]? = some (.asking again)) (answers : A) (now later : ℕ) :
    client.Moves s (client.ask latest s i again answers now later) := by
  cases hsupplied : client.supplied with
  | some supplied =>
    cases supplied with
    | ok credential => simpa [ask, hsupplied, presenting] using Moves.supplied hi hsupplied
    | error error => simpa [ask, hsupplied, presenting] using Moves.failed hi error
  | none =>
    rcases get_cases latest s.cached (client.obtainWith answers) now later with
      ⟨held, hheld, hget⟩ | ⟨error, hget⟩ | ⟨issued, expiresAt, hissued, hget⟩
    · simpa [ask, hsupplied, hget, presenting, noted, Except.map] using
        Moves.held hi hsupplied hheld
    · simpa [ask, hsupplied, hget, presenting, noted, Except.map] using Moves.failed hi error
    · simpa [ask, hsupplied, hget, presenting, noted, Except.map] using
        Moves.obtained hi hsupplied hissued expiresAt

/-- **Every move is one of these.** -/
theorem moves_of_step {s t : State T S R V} {e : Event A R} (h : client.step latest s e = some t) :
    client.Moves s t := by
  cases e with
  | request =>
    cases h
    exact .request
  | ask i answers now later =>
    simp only [step] at h
    split at h
    · next again hi =>
      cases h
      exact client.moves_ask latest s hi answers now later
    · cases h
  | reply i reply =>
    simp only [step] at h
    split at h
    · next again credential hi =>
      cases h
      exact .answered hi reply
    · cases h
  | invalidate i =>
    simp only [step] at h
    split at h
    · next hi =>
      cases h
      exact .invalidated hi
    · cases h

end Client

/-! ### What the log says -/

namespace Entry

/-- What a request did itself: its replies, and that it invalidated the session. -/
def isOwn (i : ℕ) : Entry S R → Bool
  | .obtained _ _ _ _ => false
  | .answered j _ _ => decide (j = i)
  | .invalidated j => decide (j = i)

/-- A credential was obtained where nothing was held. -/
def isFresh : Entry S R → Bool
  | .obtained _ _ none _ => true
  | _ => false

def isInvalidated : Entry S R → Bool
  | .invalidated _ => true
  | _ => false

/-- A login issued this credential. -/
def Issues (credential : S) : Entry S R → Prop
  | .obtained _ true _ issued => issued = credential
  | _ => False

end Entry

/-- What the session holds: what was obtained last, unless it was invalidated since. -/
def standing : List (Entry S R) → Option S
  | [] => none
  | .obtained _ _ _ credential :: _ => some credential
  | .invalidated _ :: _ => none
  | .answered _ _ _ :: log => standing log

/-- What the log has since a request invalidated the session. -/
def since (i : ℕ) : List (Entry S R) → List (Entry S R)
  | [] => []
  | .invalidated j :: log => if j = i then [] else .invalidated j :: since i log
  | entry :: log => entry :: since i log

/-- What one request does: its own entries of the log, the newest first, and where it is. -/
inductive History (client : Client T S A R V) (i : ℕ) : List (Entry S R) → Point S V → Prop where
  | asking : History client i [] (.asking false)
  | sending (credential : S) : History client i [] (.sending false credential)
  | unsent (error : Error) : History client i [] (.done (.error error))
  | refused {credential : S} {reply : R} (hrefusal : client.isRefusal reply = true)
    (hcan : client.canRelogin = true) : History client i [.answered i credential reply] .refused
  | answered {credential : S} {reply : R}
    (hlast : (client.isRefusal reply && client.canRelogin) = false) :
    History client i [.answered i credential reply] (.done (client.outcome reply))
  | askingAgain {credential : S} {reply : R} (hrefusal : client.isRefusal reply = true)
    (hcan : client.canRelogin = true) :
    History client i [.invalidated i, .answered i credential reply] (.asking true)
  | sendingAgain {credential : S} {reply : R} (hrefusal : client.isRefusal reply = true)
    (hcan : client.canRelogin = true) (fresh : S) :
    History client i [.invalidated i, .answered i credential reply] (.sending true fresh)
  | unsentAgain {credential : S} {reply : R} (hrefusal : client.isRefusal reply = true)
    (hcan : client.canRelogin = true) (error : Error) :
    History client i [.invalidated i, .answered i credential reply] (.done (.error error))
  | answeredAgain {credential fresh : S} {reply last : R}
    (hrefusal : client.isRefusal reply = true) (hcan : client.canRelogin = true) :
    History client i [.answered i fresh last, .invalidated i, .answered i credential reply]
      (.done (client.outcome last))

/-- What returns something returns the outcome of its last reply, which was not a refusal. -/
theorem History.exists_of_ok {client : Client T S A R V} {i : ℕ} {entries : List (Entry S R)}
    {point : Point S V} (h : History client i entries point) {value : V}
    (hpoint : point = .done (.ok value)) :
    ∃ credential reply older, entries = .answered i credential reply :: older ∧
      client.isRefusal reply = false ∧ client.outcome reply = .ok value := by
  have hanswered : ∀ (credential : S) (reply : R) (older : List (Entry S R)),
      client.outcome reply = .ok value →
        ∃ credential' reply' older', Entry.answered i credential reply :: older =
            Entry.answered i credential' reply' :: older' ∧
          client.isRefusal reply' = false ∧ client.outcome reply' = .ok value := by
    intro credential reply older hvalue
    refine ⟨credential, reply, older, rfl, ?_, hvalue⟩
    rw [← Bool.not_eq_true]
    intro hrefusal
    obtain ⟨error, herror, -⟩ := client.kind_of_refusal hrefusal
    rw [herror] at hvalue
    cases hvalue
  cases h with
  | asking | sending | refused | askingAgain | sendingAgain => cases hpoint
  | unsent | unsentAgain => cases hpoint
  | answered => exact hanswered _ _ _ (Point.done.inj hpoint)
  | answeredAgain => exact hanswered _ _ _ (Point.done.inj hpoint)

/-- The entries of one request. -/
def own (i : ℕ) (log : List (Entry S R)) : List (Entry S R) := log.filter (Entry.isOwn i)

@[simp] theorem own_obtained (i j : ℕ) (login : Bool) (previous : Option S) (credential : S)
    (log : List (Entry S R)) : own i (.obtained j login previous credential :: log) = own i log := rfl

theorem own_answered (i j : ℕ) (credential : S) (reply : R) (log : List (Entry S R)) :
    own i (.answered j credential reply :: log) =
      if j = i then .answered j credential reply :: own i log else own i log := by
  by_cases hji : j = i <;> simp [own, Entry.isOwn, hji]

theorem own_invalidated (i j : ℕ) (log : List (Entry S R)) :
    own i (.invalidated j :: log) = if j = i then .invalidated j :: own i log else own i log := by
  by_cases hji : j = i <;> simp [own, Entry.isOwn, hji]

theorem own_append (i : ℕ) (l m : List (Entry S R)) : own i (l ++ m) = own i l ++ own i m :=
  List.filter_append l m

/-! ### One request -/

/-- Every request did what its point says, and what is not a request did nothing. -/
structure Recorded (client : Client T S A R V) (s : State T S R V) : Prop where
  history : ∀ i point, s.requests[i]? = some point → History client i (own i s.log) point
  beyond : ∀ i, s.requests.length ≤ i → own i s.log = []

variable {client : Client T S A R V}

/-- A move of one request is a move of its history. -/
theorem Recorded.set {s : State T S R V} (h : Recorded client s) {i : ℕ} {before point : Point S V}
    (hi : s.requests[i]? = some before) {log : List (Entry S R)} {cached : Cached T}
    (hothers : ∀ j, j ≠ i → own j log = own j s.log)
    (hmoved : History client i (own i s.log) before → History client i (own i log) point) :
    Recorded client ⟨cached, s.requests.set i point, log⟩ := by
  refine ⟨fun j p hj ↦ ?_, fun j hj ↦ ?_⟩
  · rcases getElem?_of_set hj with ⟨rfl, rfl⟩ | ⟨hji, hj⟩
    · exact hmoved (h.history j before hi)
    · rw [hothers j hji]
      exact h.history j p hj
  · rw [List.length_set] at hj
    have hlt := lt_length_of_getElem? hi
    rw [hothers j (by omega)]
    exact h.beyond j hj

/-- **One move keeps to the histories.** -/
theorem Recorded.moves {s t : State T S R V} (hmoves : client.Moves s t) (h : Recorded client s) :
    Recorded client t := by
  cases hmoves with
  | request =>
    refine ⟨forall_append h.history ?_, fun i hi ↦ h.beyond i ?_⟩
    · rw [h.beyond _ (Nat.le_refl _)]
      exact .asking
    · rw [List.length_append] at hi
      omega
  | failed hi error =>
    refine h.set hi (fun _ _ ↦ rfl) fun hbefore ↦ ?_
    generalize own _ s.log = entries at hbefore ⊢
    cases hbefore with
    | asking => exact .unsent error
    | askingAgain hrefusal hcan => exact .unsentAgain hrefusal hcan error
  | @supplied i again hi credential hsupplied =>
    refine h.set hi (fun _ _ ↦ rfl) fun hbefore ↦ ?_
    generalize own _ s.log = entries at hbefore ⊢
    cases hbefore with
    | asking => exact .sending credential
    | askingAgain hrefusal hcan => exact .sendingAgain hrefusal hcan credential
  | @held i again hi hsupplied held hheld =>
    refine h.set hi (fun _ _ ↦ rfl) fun hbefore ↦ ?_
    generalize own _ s.log = entries at hbefore ⊢
    cases hbefore with
    | asking => exact .sending _
    | askingAgain hrefusal hcan => exact .sendingAgain hrefusal hcan _
  | @obtained i again hi hsupplied answers issued hissued expiresAt =>
    refine h.set hi (fun _ _ ↦ rfl) fun hbefore ↦ ?_
    rw [own_obtained]
    generalize own _ s.log = entries at hbefore ⊢
    cases hbefore with
    | asking => exact .sending _
    | askingAgain hrefusal hcan => exact .sendingAgain hrefusal hcan _
  | @answered i again credential hi reply =>
    refine h.set hi (fun j hji ↦ by rw [own_answered, if_neg hji.symm]) fun hbefore ↦ ?_
    rw [own_answered, if_pos rfl]
    generalize own _ s.log = entries at hbefore ⊢
    cases hbefore with
    | sending =>
      -- The first reply is the last one, unless it is a refusal that can be traded.
      by_cases hlast : (client.isRefusal reply && client.canRelogin) = true
      · have hboth := hlast
        rw [Bool.and_eq_true] at hboth
        simp only [Client.after, hlast, Bool.not_false, Bool.and_self, if_true]
        exact .refused hboth.1 hboth.2
      · rw [Bool.not_eq_true] at hlast
        simp only [Client.after, hlast, Bool.false_and, Bool.false_eq_true, if_false]
        exact .answered hlast
    | sendingAgain hrefusal hcan =>
      simp only [Client.after, Bool.not_true, Bool.and_false, Bool.false_eq_true, if_false]
      exact .answeredAgain hrefusal hcan
  | @invalidated i hi =>
    refine h.set hi (fun j hji ↦ by rw [own_invalidated, if_neg hji.symm]) fun hbefore ↦ ?_
    rw [own_invalidated, if_pos rfl]
    generalize own _ s.log = entries at hbefore ⊢
    cases hbefore with
    | refused hrefusal hcan => exact .askingAgain hrefusal hcan

theorem recorded_start (client : Client T S A R V) (margin : ℕ) :
    Recorded client (State.start margin) := by
  refine ⟨fun i point hi ↦ ?_, fun _ _ ↦ rfl⟩
  rw [State.start, List.getElem?_nil] at hi
  cases hi

/-! ### What the session holds -/

/-- The session holds what the log says, and what it holds was issued by a login since any request
invalidated it. -/
structure Standing (client : Client T S A R V) (s : State T S R V) : Prop where
  held : (s.cached.held.map Held.value).map client.presented = standing s.log
  issued : ∀ i, Entry.invalidated i ∈ s.log → ∀ credential, standing s.log = some credential →
    ∃ entry ∈ since i s.log, entry.Issues credential
  /-- What is being sent again was issued so, too. -/
  sending : ∀ i credential, s.requests[i]? = some (.sending true credential) →
    ∃ entry ∈ since i s.log, entry.Issues credential

/-- Only the request's own invalidation forgets what was since. -/
theorem mem_since_cons {i : ℕ} {entry new : Entry S R} {log : List (Entry S R)}
    (hnew : new ≠ .invalidated i) (h : entry ∈ since i log) : entry ∈ since i (new :: log) := by
  cases new with
  | obtained | answered => exact List.mem_cons_of_mem _ h
  | invalidated j =>
    have hji : j ≠ i := fun hji ↦ hnew (congrArg Entry.invalidated hji)
    simp only [since, if_neg hji]
    exact List.mem_cons_of_mem _ h

/-- A move that leaves the session alone. -/
theorem Standing.keep {s : State T S R V} (h : Standing client s) {requests : List (Point S V)}
    (hsending : ∀ i credential, requests[i]? = some (.sending true credential) →
      ∃ entry ∈ since i s.log, entry.Issues credential) :
    Standing client { s with requests } :=
  ⟨h.held, h.issued, hsending⟩

/-- A request that is not sending again adds nothing to what has to hold. -/
theorem Standing.sending_set {s : State T S R V} (h : Standing client s) {i : ℕ} {point : Point S V}
    (hpoint : ∀ credential, point = .sending true credential →
      ∃ entry ∈ since i s.log, entry.Issues credential) (j : ℕ) (credential : S)
    (hj : (s.requests.set i point)[j]? = some (.sending true credential)) :
    ∃ entry ∈ since j s.log, entry.Issues credential := by
  rcases getElem?_of_set hj with ⟨rfl, hp⟩ | ⟨-, hj⟩
  · exact hpoint credential hp.symm
  · exact h.sending j credential hj

/-- A request that sends or asks again has invalidated the session. -/
theorem Recorded.invalidated {s : State T S R V} (h : Recorded client s) {i : ℕ}
    (hi : s.requests[i]? = some (.asking true)) : Entry.invalidated i ∈ s.log := by
  have hhistory := h.history i _ hi
  generalize hown : own i s.log = entries at hhistory
  cases hhistory with
  | askingAgain =>
    have hmem : Entry.invalidated i ∈ own i s.log := by simp [hown]
    exact List.mem_of_mem_filter hmem

/-- A request that can be traded is one of a client with a session. -/
theorem Recorded.supplied_eq_none {s : State T S R V} (h : Recorded client s) {i : ℕ}
    (hi : s.requests[i]? = some (.asking true)) : client.supplied = none := by
  have hhistory := h.history i _ hi
  generalize own i s.log = entries at hhistory
  cases hhistory with
  | askingAgain hrefusal hcan => exact client.supplied_of_canRelogin hcan

/-- **One move keeps what the session holds.** -/
theorem Standing.moves {s t : State T S R V} (hmoves : client.Moves s t) (hrecorded : Recorded client s)
    (h : Standing client s) : Standing client t := by
  cases hmoves with
  | request =>
    refine h.keep fun i credential hi ↦ ?_
    rcases getElem?_of_append hi with ⟨-, hpoint⟩ | hi
    · cases hpoint
    · exact h.sending i credential hi
  | failed hi error => exact h.keep (h.sending_set (fun _ hpoint ↦ by cases hpoint))
  | @supplied i again hi credential hsupplied =>
    refine h.keep (h.sending_set fun _ hpoint ↦ ?_)
    obtain ⟨rfl, -⟩ := Point.sending.inj hpoint
    rw [hrecorded.supplied_eq_none hi] at hsupplied
    cases hsupplied
  | @held i again hi hsupplied held hheld =>
    refine h.keep (h.sending_set fun credential hpoint ↦ ?_)
    obtain ⟨rfl, rfl⟩ := Point.sending.inj hpoint
    refine h.issued i (hrecorded.invalidated hi) _ ?_
    rw [← h.held, hheld]
    rfl
  | @obtained i again hi hsupplied answers issued hissued expiresAt =>
    -- A login issues what is held from here on, and an extension keeps what was issued before.
    have hlater : ∀ j, Entry.invalidated j ∈ s.log →
        ∃ entry ∈ since j (.obtained i (client.logsIn answers (s.cached.held.map Held.value))
            ((s.cached.held.map Held.value).map client.presented)
            (client.presented issued.value) :: s.log : List (Entry S R)),
          entry.Issues (client.presented issued.value) := by
      intro j hj
      cases hlogin : client.logsIn answers (s.cached.held.map Held.value) with
      | true => exact ⟨_, List.mem_cons_self, rfl⟩
      | false =>
        cases hheld : s.cached.held.map Held.value with
        | none =>
          rw [hheld, client.logsIn_none] at hlogin
          cases hlogin
        | some value =>
          rw [hheld] at hlogin hissued
          have hsame := client.presented_of_extended hlogin hissued
          have hstands : standing s.log = some (client.presented value) := by
            rw [← h.held, hheld]
            rfl
          obtain ⟨entry, hentry, hissues⟩ := h.issued j hj _ hstands
          rw [hsame]
          exact ⟨entry, List.mem_cons_of_mem _ hentry, hissues⟩
    refine ⟨rfl, fun j hj credential hstands ↦ ?_, fun j credential hj ↦ ?_⟩
    · obtain rfl := Option.some.inj hstands
      exact hlater j (by simpa using hj)
    · rcases getElem?_of_set hj with ⟨rfl, hpoint⟩ | ⟨-, hj⟩
      · obtain ⟨rfl, rfl⟩ := Point.sending.inj hpoint
        exact hlater j (hrecorded.invalidated hi)
      · obtain ⟨entry, hentry, hissues⟩ := h.sending j credential hj
        exact ⟨entry, List.mem_cons_of_mem _ hentry, hissues⟩
  | @answered i again credential hi reply =>
    refine ⟨h.held, fun j hj stands hstands ↦ ?_, fun j sent hj ↦ ?_⟩
    · obtain ⟨entry, hentry, hissues⟩ := h.issued j (by simpa using hj) stands hstands
      exact ⟨entry, List.mem_cons_of_mem _ hentry, hissues⟩
    · have hnot : ∀ sent, client.after again reply ≠ .sending true sent := by
        intro sent
        rw [Client.after]
        split <;> simp
      obtain ⟨entry, hentry, hissues⟩ :=
        h.sending_set (fun sent hpoint ↦ absurd hpoint (hnot sent)) j sent hj
      exact ⟨entry, List.mem_cons_of_mem _ hentry, hissues⟩
  | @invalidated i hi =>
    refine ⟨rfl, fun j hj credential hstands ↦ (by cases hstands), fun j credential hj ↦ ?_⟩
    rcases getElem?_of_set hj with ⟨rfl, hpoint⟩ | ⟨hji, hj⟩
    · cases hpoint
    · obtain ⟨entry, hentry, hissues⟩ := h.sending j credential hj
      refine ⟨entry, mem_since_cons (fun hnew ↦ hji ?_) hentry, hissues⟩
      exact (Entry.invalidated.inj hnew).symm

theorem standing_start (client : Client T S A R V) (margin : ℕ) :
    Standing client (State.start margin) := by
  refine ⟨rfl, fun i hi ↦ absurd hi List.not_mem_nil, fun i credential hi ↦ ?_⟩
  rw [State.start, List.getElem?_nil] at hi
  cases hi

/-! ### What is sent again -/

/-- What is since an invalidation does not depend on what was before it. -/
theorem since_append {i : ℕ} {l : List (Entry S R)} (h : Entry.invalidated i ∈ l)
    (m : List (Entry S R)) : since i (l ++ m) = since i l := by
  induction l with
  | nil => cases h
  | cons entry l ih =>
    cases entry with
    | obtained | answered => simp [since, ih (by simpa using h)]
    | invalidated j =>
      by_cases hji : j = i
      · simp [since, hji]
      · simp [since, hji, ih (by simpa [Ne.symm hji] using h)]

/-- What is since an invalidation is after it. -/
theorem exists_append_of_mem_since {i : ℕ} {entry : Entry S R} {l : List (Entry S R)}
    (h : Entry.invalidated i ∈ l) (hentry : entry ∈ since i l) :
    ∃ a b c, l = a ++ entry :: (b ++ .invalidated i :: c) := by
  induction l with
  | nil => cases h
  | cons new l ih =>
    by_cases hnew : new = .invalidated i
    · subst hnew
      simp [since] at hentry
    · have hl : Entry.invalidated i ∈ l := (List.mem_cons.1 h).resolve_left (Ne.symm hnew)
      have hsince : since i (new :: l) = new :: since i l := by
        cases new with
        | obtained | answered => rfl
        | invalidated j => simp only [since, if_neg fun hji ↦ hnew (congrArg Entry.invalidated hji)]
      rw [hsince] at hentry
      rcases List.mem_cons.1 hentry with rfl | hentry
      · obtain ⟨b, c, rfl⟩ := List.append_of_mem hl
        exact ⟨[], b, c, rfl⟩
      · obtain ⟨a, b, c, rfl⟩ := ih hl hentry
        exact ⟨new :: a, b, c, rfl⟩

/-- Of two replies of a request the first was a refusal, and what the second was for was issued by a login
between the two, after the request invalidated the session. -/
def Retried (client : Client T S A R V) (log : List (Entry S R)) : Prop :=
  ∀ i credential fresh reply last newer between older,
    log = newer ++ .answered i fresh last :: (between ++ .answered i credential reply :: older) →
      client.isRefusal reply = true ∧
        ∃ a login b c, between = a ++ login :: (b ++ .invalidated i :: c) ∧ login.Issues fresh

theorem Retried.cons {log : List (Entry S R)} (h : Retried client log) {new : Entry S R}
    (hnew : ∀ i credential fresh reply last between older, new = .answered i fresh last →
      log = between ++ .answered i credential reply :: older → client.isRefusal reply = true ∧
        ∃ a login b c, between = a ++ login :: (b ++ .invalidated i :: c) ∧ login.Issues fresh) :
    Retried client (new :: log) := by
  intro i credential fresh reply last newer between older hlog
  cases newer with
  | nil =>
    obtain ⟨hhead, htail⟩ := List.cons.inj hlog
    exact hnew i credential fresh reply last between older hhead htail
  | cons entry newer =>
    exact h i credential fresh reply last newer between older (List.cons.inj hlog).2

/-- A request that is sent again has two entries of its own, so they are the ones that are told apart
here. -/
theorem eq_of_own_eq {i : ℕ} {credential credential' : S} {reply reply' : R}
    {between older : List (Entry S R)}
    (h : own i (between ++ .answered i credential reply :: older) =
      [.invalidated i, .answered i credential' reply']) :
    reply = reply' ∧ Entry.invalidated i ∈ between := by
  rw [own_append, own_answered, if_pos rfl] at h
  generalize hown : own i between = entries at h
  cases entries with
  | nil => cases (List.cons.inj h).1
  | cons entry entries =>
    obtain ⟨rfl, htail⟩ := List.cons.inj h
    cases entries with
    | nil =>
      obtain ⟨-, -, rfl⟩ := Entry.answered.inj (List.cons.inj htail).1
      exact ⟨rfl, List.mem_of_mem_filter (p := Entry.isOwn i) (by
        show Entry.invalidated i ∈ own i between
        simp [hown])⟩
    | cons other entries => simp at htail

/-- **One move keeps what is sent again fresh.** -/
theorem Retried.moves {s t : State T S R V} (hmoves : client.Moves s t) (hrecorded : Recorded client s)
    (hstanding : Standing client s) (h : Retried client s.log) : Retried client t.log := by
  cases hmoves with
  | request | failed | supplied | held => exact h
  | obtained | invalidated => exact h.cons (fun _ _ _ _ _ _ _ hnew ↦ by cases hnew)
  | @answered j again sent hj replied =>
    refine h.cons fun i credential fresh reply last between older hnew hlog ↦ ?_
    obtain ⟨rfl, rfl, rfl⟩ := Entry.answered.inj hnew
    have hhistory := hrecorded.history j _ hj
    generalize hown : own j s.log = entries at hhistory
    rw [hlog] at hown
    cases hhistory with
    | sending =>
      rw [own_append, own_answered, if_pos rfl] at hown
      exact absurd hown (by simp)
    | sendingAgain hrefusal hcan =>
      obtain ⟨rfl, hmem⟩ := eq_of_own_eq hown
      obtain ⟨login, hlogin, hissues⟩ := hstanding.sending j sent hj
      rw [hlog, since_append hmem] at hlogin
      obtain ⟨a, b, c, hbetween⟩ := exists_append_of_mem_since hmem hlogin
      exact ⟨hrefusal, a, login, b, c, hbetween, hissues⟩

/-! ### How often a login is made -/

/-- Whether a request has not invalidated the session. -/
def Point.isEarly : Point S V → Bool
  | .asking again => !again
  | .sending again _ => !again
  | .refused => true
  | .done _ => false

/-- Logins of an empty session, and invalidations, are as many as this allows. -/
structure Counted (s : State T S R V) : Prop where
  fresh : s.log.countP Entry.isFresh ≤
    s.log.countP Entry.isInvalidated + (if (standing s.log).isSome then 1 else 0)
  invalidated : s.log.countP Entry.isInvalidated + s.requests.countP Point.isEarly ≤ s.requests.length

/-- A request that moves on is not earlier than it was. -/
theorem Counted.set {s : State T S R V} (h : Counted s) {i : ℕ} {before point : Point S V}
    (hi : s.requests[i]? = some before) (hearly : point.isEarly = true → before.isEarly = true) :
    s.log.countP Entry.isInvalidated + (s.requests.set i point).countP Point.isEarly ≤
      (s.requests.set i point).length := by
  have hcount := countP_set_moved Point.isEarly hi (y := point)
  have hbound := h.invalidated
  rw [List.length_set]
  by_cases hpoint : point.isEarly = true
  · rw [if_pos hpoint, if_pos (hearly hpoint)] at hcount
    omega
  · rw [if_neg hpoint] at hcount
    omega

/-- **One move keeps to the counts.** -/
theorem Counted.moves {s t : State T S R V} (hmoves : client.Moves s t) (hstanding : Standing client s)
    (h : Counted s) : Counted t := by
  have hfresh := h.fresh
  cases hmoves with
  | request =>
    refine ⟨hfresh, ?_⟩
    have hbound := h.invalidated
    simp only [List.countP_append, List.length_append, List.length_singleton,
      List.countP_singleton, Point.isEarly, Bool.not_false, if_true]
    omega
  | failed hi error => exact ⟨hfresh, h.set hi (fun hpoint ↦ by cases hpoint)⟩
  | supplied hi hsupplied => exact ⟨hfresh, h.set hi id⟩
  | held hi hsupplied hheld => exact ⟨hfresh, h.set hi id⟩
  | @obtained i again hi hsupplied answers issued hissued expiresAt =>
    refine ⟨?_, ?_⟩
    · rw [hstanding.held]
      cases hstands : standing s.log with
      | none =>
        rw [hstands] at hfresh
        rw [List.countP_cons_of_pos rfl, List.countP_cons_of_neg Bool.false_ne_true]
        simpa [standing] using hfresh
      | some credential =>
        rw [hstands] at hfresh
        rw [List.countP_cons_of_neg Bool.false_ne_true, List.countP_cons_of_neg Bool.false_ne_true]
        exact hfresh
    · exact h.set hi id
  | @answered i again credential hi reply =>
    refine ⟨hfresh, h.set hi fun hpoint ↦ ?_⟩
    cases again with
    | false => rfl
    | true => simp [Client.after, Point.isEarly] at hpoint
  | @invalidated i hi =>
    refine ⟨?_, ?_⟩
    · have hle : (if (standing s.log).isSome then 1 else 0) ≤ 1 := by split <;> omega
      rw [List.countP_cons_of_neg Bool.false_ne_true, List.countP_cons_of_pos rfl]
      omega
    · have hcount := countP_set_moved Point.isEarly hi (y := .asking true)
      have hbound := h.invalidated
      simp only [Point.isEarly, Bool.not_true, Bool.false_eq_true, if_true, if_false] at hcount
      simp only [List.countP_cons, Entry.isInvalidated, if_true, List.length_set]
      omega

/-! ### Runs -/

/-- Everything a run of requests keeps. -/
structure Sound (client : Client T S A R V) (s : State T S R V) : Prop where
  recorded : Recorded client s
  standing : Standing client s
  retried : Retried client s.log
  counted : Counted s

theorem sound_of_run {latest margin : ℕ} {events : List (Event A R)} {s : State T S R V}
    (h : run (client.step latest) (State.start margin) events = some s) : Sound client s := by
  refine run_invariant (fun s e t hstep hs ↦ ?_) h
    ⟨recorded_start client margin, standing_start client margin, ?_, Nat.zero_le _, Nat.le_refl _⟩
  · have hmoves := client.moves_of_step latest hstep
    exact ⟨hs.recorded.moves hmoves, hs.standing.moves hmoves hs.recorded,
      hs.retried.moves hmoves hs.recorded hs.standing, hs.counted.moves hmoves hs.standing⟩
  · intro i credential fresh reply last newer between older hlog
    exact absurd hlog.symm (by simp [State.start])

/-- **A refused request is never sent again with what was refused.** Whatever the other requests of the
source do meanwhile, what a request presents the second time was issued by a login that came after the
first was refused and after the session was invalidated for it. -/
theorem retry_presents_fresh (client : Client T S A R V) (latest margin : ℕ) (events : List (Event A R))
    (s : State T S R V) (h : run (client.step latest) (State.start margin) events = some s) :
    Retried client s.log :=
  (sound_of_run h).retried

/-- A git source whose closure issues a number. -/
def numbered : Client ℕ ℕ (Git.Answers ℕ) (Except Git.Failure Unit) Unit :=
  Git.client .expiring

/-- What a closure answers that issues this credential for an hour. -/
def issues (credential : ℕ) : Git.Answers ℕ :=
  ⟨.ok credential, fun _ ↦ .ok ⟨credential, some (3600 * second)⟩⟩

/-- Two requests are refused with one credential, and each drops what the session holds then: the second
drops what was issued for the first. -/
def twoRefused : List (Event (Git.Answers ℕ) (Except Git.Failure Unit)) :=
  [.request, .request, .ask 0 (issues 7) 0 0, .ask 1 (issues 7) 1 1,
    .reply 0 (.error (.refused (.described "revoked"))),
    .reply 1 (.error (.refused (.described "revoked"))),
    .invalidate 0, .ask 0 (issues 8) 2 2, .invalidate 1, .ask 1 (issues 9) 3 3,
    .reply 0 (.ok ()), .reply 1 (.ok ())]

theorem retry_presents_fresh_twoRefused :
    ∃ s, run (numbered.step (2 ^ 62)) (State.start 60000000000) twoRefused = some s ∧
      s.log.length = 9 ∧ Retried numbered s.log :=
  ⟨_, rfl, rfl, retry_presents_fresh numbered (2 ^ 62) 60000000000 twoRefused _ rfl⟩

/-- **One fresh login and one retry, and nothing else.** In every interleaving a request does what one of
the histories says: it sends at most twice, it invalidates the session at most once and only between the
two, it ends with the outcome of its last reply or with the error of obtaining a credential, and it sends
a second time only after a refusal that can be traded. What returns something was not refused last. -/
theorem history_of_run (client : Client T S A R V) (latest margin : ℕ) (events : List (Event A R))
    (s : State T S R V) (h : run (client.step latest) (State.start margin) events = some s) (i : ℕ) :
    (∀ point, s.requests[i]? = some point → History client i (own i s.log) point) ∧
      (s.requests[i]? = none → own i s.log = []) ∧
      ∀ value, s.requests[i]? = some (.done (.ok value)) → ∃ credential reply older,
        own i s.log = .answered i credential reply :: older ∧ client.isRefusal reply = false ∧
          client.outcome reply = .ok value := by
  have hrecorded := (sound_of_run h).recorded
  refine ⟨hrecorded.history i, fun hnone ↦ hrecorded.beyond i ?_, fun value hi ↦ ?_⟩
  · exact List.getElem?_eq_none_iff.1 hnone
  · exact (hrecorded.history i _ hi).exists_of_ok rfl

theorem history_of_run_twoRefused :
    ∃ s, run (numbered.step (2 ^ 62)) (State.start 60000000000) twoRefused = some s ∧
      s.requests[1]? = some (.done (.ok ())) ∧
      (∃ credential reply older, own 1 s.log = .answered 1 credential reply :: older ∧
        numbered.isRefusal reply = false ∧ numbered.outcome reply = .ok ()) :=
  ⟨_, rfl, rfl, (history_of_run numbered (2 ^ 62) 60000000000 twoRefused _ rfl 1).2.2 () rfl⟩

/-- **A revoked credential costs a login for each request it is refused to, and no more.** In every
interleaving the logins of a session that held nothing are at most one more than the invalidations, and
those are no more than the requests: requests that arrive together at an empty session log in once. -/
theorem fresh_le_invalidated (client : Client T S A R V) (latest margin : ℕ)
    (events : List (Event A R)) (s : State T S R V)
    (h : run (client.step latest) (State.start margin) events = some s) :
    s.log.countP Entry.isFresh ≤ s.log.countP Entry.isInvalidated + 1 ∧
      s.log.countP Entry.isInvalidated ≤ s.requests.length := by
  have hcounted := (sound_of_run h).counted
  have hinvalidated := hcounted.invalidated
  have hle : (if (standing s.log).isSome then 1 else 0) ≤ 1 := by split <;> omega
  exact ⟨Nat.le_trans hcounted.fresh (Nat.add_le_add_left hle _), by omega⟩

theorem fresh_le_invalidated_twoRefused :
    ∃ s, run (numbered.step (2 ^ 62)) (State.start 60000000000) twoRefused = some s ∧
      s.log.countP Entry.isFresh = 3 ∧ s.log.countP Entry.isInvalidated = 2 ∧
      (s.log.countP Entry.isFresh ≤ s.log.countP Entry.isInvalidated + 1 ∧
        s.log.countP Entry.isInvalidated ≤ s.requests.length) :=
  ⟨_, rfl, rfl, rfl, fresh_le_invalidated numbered (2 ^ 62) 60000000000 twoRefused _ rfl⟩

end DynamicConfig.Relogin
