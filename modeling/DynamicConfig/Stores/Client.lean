import Mathlib
import DynamicConfig.Firestore.Batch
import DynamicConfig.Stores.Credential

/-!
# What the stores present

Vault, Consul, Firestore and git present a credential with every request, and obtain it in their own
ways: Vault extends a token that can be extended and logs in otherwise, Consul logs in, Firestore's
metadata server mints, and a git credential is a constant or a closure's. A method that has nothing to
obtain presents what it was given, or nothing.

`Client` is what one request needs to know of that: what is presented without a session, what obtaining
does, which replies are refusals and whether a refused credential can be traded. It carries the facts a
retry rests on as fields, so each store is a client with their proofs: only a client with a session can
trade, a credential that was extended is presented as before, and a refusal is an authentication failure
to the caller.
-/

namespace DynamicConfig

/-- `Error::auth`. -/
def Error.auth (message : String) : Error := { kind := .auth, message }

/-- An error a refusal carries, which is always an authentication failure. -/
abbrev AuthError := { error : Error // error.kind = .auth }

/-- `Error::auth`, as what a refusal carries. -/
def AuthError.described (message : String) : AuthError := ⟨.auth message, rfl⟩

/-- `Value::as_u64`. -/
def asU64 : Value → Option ℕ
  | .scalar (.int n) => if 0 ≤ n ∧ n < 2 ^ 64 then some n.toNat else none
  | _ => none

/-- `Value::as_bool`. -/
def asBool : Value → Option Bool
  | .scalar (.bool boolean) => some boolean
  | _ => none

/-- A second in the clock's units, which are nanoseconds. -/
def second : ℕ := 1000000000

namespace Relogin

open Credential Firestore

/-- A source that presents a credential `S` with its requests. `T` is what its session holds, `A` what
the servers answer while one is obtained, `R` what comes back of a request and `V` what is made of it. -/
structure Client (T S A R V : Type) where
  /-- What is presented by a method that has no session. -/
  supplied : Option (Except Error S)
  /-- What obtaining a credential does, for what it replaces. -/
  obtainWith : A → Option T → Except Error (Issued T)
  /-- What is presented of a credential. -/
  presented : T → S
  /-- Whether obtaining was by a login, and not by extending what it replaces. -/
  logsIn : A → Option T → Bool
  /-- Whether a reply means that the credential was not accepted. -/
  isRefusal : R → Bool
  /-- What a request returns for its last reply. -/
  outcome : R → Except Error V
  /-- Whether a refused credential can be traded for a fresh one. -/
  canRelogin : Bool
  supplied_of_canRelogin : canRelogin = true → supplied = none
  logsIn_none : ∀ answers, logsIn answers none = true
  presented_of_extended : ∀ {answers : A} {held : T} {issued : Issued T},
    logsIn answers (some held) = false → obtainWith answers (some held) = .ok issued →
      presented issued.value = presented held
  kind_of_refusal : ∀ {reply : R}, isRefusal reply = true →
    ∃ error, outcome reply = .error error ∧ error.kind = .auth

/-- What comes of a request: a response, a status that is a failure, no response, or a client that could
not be built. A failure comes with its rendering. -/
inductive Reply (B : Type) where
  | answered (body : B)
  | status (code : ℕ) (error : String)
  | failed (error : String)
  | unsent (error : Error)

/-- A response read as JSON, or the reading's failure. -/
abbrev Json := Except String Value

/-- What a request of Vault's or Consul's fails with. -/
inductive CallError where
  /-- A 403: the token is the problem. -/
  | forbidden (error : AuthError)
  | other (error : Error)

def CallError.intoError : CallError → Error
  | .forbidden error => error.1
  | .other error => error

def CallError.isForbidden {B : Type} : Except CallError B → Bool
  | .error (.forbidden _) => true
  | _ => false

theorem CallError.kind_of_isForbidden {B : Type} {result : Except CallError B}
    (h : isForbidden result = true) :
    ∃ error, result.mapError intoError = .error error ∧ error.kind = .auth := by
  match result with
  | .error (.forbidden error) => exact ⟨error.1, rfl, error.2⟩

/-! ### Vault -/

namespace Vault

/-- How a source authenticates: with a token of the caller's, or by a login with one of the methods. -/
inductive Auth where
  | token (supplied : String)
  | login (method : String)

/-- A token and whether it can be renewed. -/
structure Token where
  secret : String
  renewable : Bool

/-- What Vault answers while a token is obtained: to a login, and to a renewal. -/
structure Answers where
  login : Reply Json
  renew : Reply Json

section

variable (describe : String)

/-- Reads a token, its lease and whether it renews out of an `auth` block. -/
def tokenFrom (response : Value) (field : String) : Except Error (Issued Token) :=
  match member field response with
  | none => .error (.remote (describe ++ ": the response has no \x60" ++ field ++ "\x60 block"))
  | some auth =>
    let secret := ((member "client_token" auth).bind asStr).getD ""
    -- Zero means that it does not expire.
    let lease := ((member "lease_duration" auth).bind asU64).filter fun seconds ↦ 0 < seconds
    let renewable := ((member "renewable" auth).bind asBool).getD false
    .ok ⟨⟨secret, renewable⟩, lease.map fun seconds ↦ seconds * second⟩

/-- Exchanges credentials for a token. -/
def login (method : String) : Reply Json → Except Error (Issued Token)
  | .unsent error => .error error
  | .status code error =>
    let described := describe ++ ": logging in with " ++ method ++ " failed: " ++ error
    if code = 400 ∨ code = 403 then .error (.auth described) else .error (.remote described)
  | .failed error =>
    .error (.remote (describe ++ ": logging in with " ++ method ++ " failed: " ++ error))
  | .answered (.error error) =>
    .error (.remote (describe ++ ": the login response was not JSON: " ++ error))
  | .answered (.ok response) => tokenFrom describe response "auth"

/-- Extends the current token's lease. The answer has the lease and not the token: it is the same one. -/
def renew (token : String) : Reply Json → Except Error (Issued Token)
  | .unsent error => .error error
  | .status _ error | .failed error => .error (.remote (describe ++ ": renewal failed: " ++ error))
  | .answered (.error error) =>
    .error (.remote (describe ++ ": the renewal response was not JSON: " ++ error))
  | .answered (.ok response) => do
    let renewed ← tokenFrom describe response "auth"
    .ok { renewed with value := { renewed.value with secret := token } }

/-- What `Session::token` obtains: a renewal of what can be renewed, and a login where that fails. -/
def obtainToken (method : String) (answers : Answers) : Option Token → Except Error (Issued Token)
  | some token =>
    if token.renewable then
      match renew describe token.secret answers.renew with
      | .ok renewed => .ok renewed
      | .error _ => login describe method answers.login
    else login describe method answers.login
  | none => login describe method answers.login

/-- Whether a token was obtained by a login. -/
def logsIn (answers : Answers) : Option Token → Bool
  | some token => !(token.renewable && (renew describe token.secret answers.renew).isOk)
  | none => true

/-- `get_once`, with the reply to a request for `what`. -/
def getOnce (what : String) : Reply Json → Except CallError Value
  | .unsent error => .error (.other error)
  | .status code error =>
    if code = 403 then .error (.forbidden (.described (describe ++ ": " ++ error)))
    else .error (.other (.remote (describe ++ ": " ++ error)))
  | .failed error => .error (.other (.remote (describe ++ ": " ++ error)))
  | .answered (.error error) =>
    .error (.other (.remote (describe ++ ": the " ++ what ++ " response was not JSON: " ++ error)))
  | .answered (.ok response) => .ok response

/-- `token`, of a token of the caller's. -/
def suppliedToken (supplied : String) : Except Error String :=
  if supplied.isEmpty then
    .error (.auth (describe ++ ": no credentials; call \x60with_token\x60 or \x60with_auth\x60"))
  else .ok supplied

theorem renew_secret {token : String} {reply : Reply Json} {renewed : Issued Token}
    (h : renew describe token reply = .ok renewed) : renewed.value.secret = token := by
  match reply with
  | .answered (.ok response) =>
    obtain ⟨issued, -, hrenewed⟩ := exists_of_bind_eq_ok h
    cases hrenewed
    rfl

theorem secret_of_extended {method : String} {answers : Answers} {token : Token}
    {issued : Issued Token} (hlogin : logsIn describe answers (some token) = false)
    (h : obtainToken describe method answers (some token) = .ok issued) :
    issued.value.secret = token.secret := by
  simp only [logsIn, Bool.not_eq_false', Bool.and_eq_true] at hlogin
  cases hrenew : renew describe token.secret answers.renew with
  | error error =>
    rw [hrenew] at hlogin
    cases hlogin.2
  | ok renewed =>
    simp only [obtainToken, hlogin.1, if_true, hrenew] at h
    cases h
    exact renew_secret describe hrenew

/-- A source in Vault. Its requests come back as what was asked for and the reply. -/
def client : Auth → Client Token String Answers (String × Reply Json) Value
  | .token supplied =>
    { supplied := some (suppliedToken describe supplied)
      obtainWith := fun _ _ ↦ .error (.remote (describe ++ ": a supplied token needs no login"))
      presented := Token.secret
      logsIn := fun _ _ ↦ true
      isRefusal := fun reply ↦ CallError.isForbidden (getOnce describe reply.1 reply.2)
      outcome := fun reply ↦ (getOnce describe reply.1 reply.2).mapError CallError.intoError
      canRelogin := false
      supplied_of_canRelogin := fun h ↦ absurd h Bool.false_ne_true
      logsIn_none := fun _ ↦ rfl
      presented_of_extended := fun h ↦ absurd h.symm Bool.false_ne_true
      kind_of_refusal := CallError.kind_of_isForbidden }
  | .login method =>
    { supplied := none
      obtainWith := obtainToken describe method
      presented := Token.secret
      logsIn := logsIn describe
      isRefusal := fun reply ↦ CallError.isForbidden (getOnce describe reply.1 reply.2)
      outcome := fun reply ↦ (getOnce describe reply.1 reply.2).mapError CallError.intoError
      canRelogin := true
      supplied_of_canRelogin := fun _ ↦ rfl
      logsIn_none := fun _ ↦ rfl
      presented_of_extended := secret_of_extended describe
      kind_of_refusal := CallError.kind_of_isForbidden }

end

end Vault

/-! ### Consul -/

namespace Consul

/-- How a source authenticates: not at all, with a token of the caller's, or by a login. -/
inductive Auth where
  | anonymous
  | token (supplied : String)
  | login (method : String)

section

variable (describe : String)

/-- Exchanges a bearer token for an ACL token. -/
def login (method : String) : Reply Json → Except Error (Issued String)
  | .unsent error => .error error
  | .status code error =>
    let described := describe ++ ": logging in with " ++ method ++ " failed: " ++ error
    if code = 403 then .error (.auth described) else .error (.remote described)
  | .failed error =>
    .error (.remote (describe ++ ": logging in with " ++ method ++ " failed: " ++ error))
  | .answered (.error error) =>
    .error (.remote (describe ++ ": the login response was not JSON: " ++ error))
  | .answered (.ok response) =>
    match (member "SecretID" response).bind asStr with
    | none => .error (.remote (describe ++ ": the login response has no \x60SecretID\x60"))
    | some secret =>
      -- A duration in nanoseconds, left out where the token has none.
      .ok ⟨secret, ((member "ExpirationTTL" response).bind asU64).filter fun nanos ↦ 0 < nanos⟩

/-- `call`, with the reply to it. The body is read by the caller. -/
def call {B : Type} : Reply B → Except CallError B
  | .unsent error => .error (.other error)
  | .status code error =>
    if code = 403 then .error (.forbidden (.described (describe ++ ": " ++ error)))
    else .error (.other (.remote (describe ++ ": " ++ error)))
  | .failed error => .error (.other (.remote (describe ++ ": " ++ error)))
  | .answered body => .ok body

/-- What is presented without a session: `token`, but for a login. -/
def suppliedToken : Auth → Option (Option String)
  | .anonymous => some none
  | .token supplied => some (some supplied)
  | .login _ => none

/-- What obtaining does: the previous token is ignored. -/
def obtainToken : Auth → Reply Json → Option String → Except Error (Issued String)
  | .anonymous, _, _ => .error (.remote (describe ++ ": no token needs no login"))
  | .token _, _, _ => .error (.remote (describe ++ ": a supplied token needs no login"))
  | .login method, answer, _ => login describe method answer

def canRelogin : Auth → Bool
  | .login _ => true
  | .anonymous | .token _ => false

/-- A source in Consul. -/
def client {B : Type} (auth : Auth) : Client String (Option String) (Reply Json) (Reply B) B where
  supplied := (suppliedToken auth).map .ok
  obtainWith := obtainToken describe auth
  presented := some
  logsIn _ _ := true
  isRefusal reply := CallError.isForbidden (call describe reply)
  outcome reply := (call describe reply).mapError CallError.intoError
  canRelogin := canRelogin auth
  supplied_of_canRelogin h := by
    cases auth with
    | anonymous | token => cases h
    | login => rfl
  logsIn_none _ := rfl
  presented_of_extended h := absurd h.symm Bool.false_ne_true
  kind_of_refusal := CallError.kind_of_isForbidden

end

end Consul

/-! ### Firestore -/

namespace Firestore

/-- How a source authenticates: not at all, with a token of the caller's, or with what a metadata server
mints. -/
inductive Auth where
  | emulator
  | accessToken (token : String)
  | metadataServer (url : String)

/-- What a request of Firestore's fails with. -/
inductive CallError where
  /-- A 401: the token is the problem. -/
  | unauthorized (error : AuthError)
  /-- A 403: the token was accepted, and another is of the same identity. -/
  | forbidden (error : AuthError)
  | other (error : Error)

def CallError.intoError : CallError → Error
  | .unauthorized error | .forbidden error => error.1
  | .other error => error

/-- One trip to the metadata server. -/
def mint : Reply Json → Except Error (Issued String)
  | .unsent error => .error error
  | .status code error =>
    let described := "firestore: the metadata server: " ++ error
    if code = 401 ∨ code = 403 then .error (.auth described) else .error (.remote described)
  | .failed error => .error (.remote ("firestore: the metadata server: " ++ error))
  | .answered (.error error) =>
    .error (.remote ("firestore: the metadata server's response was not JSON: " ++ error))
  | .answered (.ok response) =>
    match (member "access_token" response).bind asStr with
    | none =>
      .error (.remote "firestore: the metadata server returned no \x60access_token\x60")
    | some secret =>
      let ttl := ((member "expires_in" response).bind asU64).filter fun seconds ↦ 0 < seconds
      .ok ⟨secret, ttl.map fun seconds ↦ seconds * second⟩

section

variable (describe : String)

/-- `get_once` and `post_once`, with the reply: `sorted` and `json`. -/
def once : Reply Json → Except CallError Value
  | .unsent error => .error (.other error)
  | .status code error =>
    if code = 401 then .error (.unauthorized (.described (describe ++ ": " ++ error)))
    else if code = 403 then .error (.forbidden (.described (describe ++ ": " ++ error)))
    else .error (.other (.remote (describe ++ ": " ++ error)))
  | .failed error => .error (.other (.remote (describe ++ ": " ++ error)))
  | .answered (.error error) =>
    .error (.other (.remote (describe ++ ": the response was not JSON: " ++ error)))
  | .answered (.ok response) => .ok response

def isUnauthorized (reply : Reply Json) : Bool :=
  match once describe reply with
  | .error (.unauthorized _) => true
  | _ => false

/-- What is presented without a session: `Session::token`, but for the metadata server. -/
def suppliedToken : Auth → Option (Option String)
  | .emulator => some none
  | .accessToken token => some (some token)
  | .metadataServer _ => none

def canRefresh : Auth → Bool
  | .metadataServer _ => true
  | .emulator | .accessToken _ => false

/-- A source in Firestore. -/
def client (auth : Auth) : Client String (Option String) (Reply Json) (Reply Json) Value where
  supplied := (suppliedToken auth).map .ok
  obtainWith answer _ := mint answer
  presented := some
  logsIn _ _ := true
  isRefusal := isUnauthorized describe
  outcome reply := (once describe reply).mapError CallError.intoError
  canRelogin := canRefresh auth
  supplied_of_canRelogin h := by
    cases auth with
    | emulator | accessToken => cases h
    | metadataServer => rfl
  logsIn_none _ := rfl
  presented_of_extended h := absurd h.symm Bool.false_ne_true
  kind_of_refusal {reply} h := by
    rw [isUnauthorized] at h
    split at h
    · next error honce =>
      rw [honce]
      exact ⟨error.1, rfl, error.2⟩
    · cases h

end

end Firestore

/-! ### Git -/

namespace Git

variable {G V : Type}

/-- Where a credential `G` comes from, and how long it lasts. -/
inductive Credential (G : Type) where
  /-- A value that cannot change. -/
  | constant (auth : G)
  /-- A value that may have changed since the last fetch. -/
  | perFetch
  /-- A value with a lifetime the issuer stamped on it. -/
  | expiring

/-- What the caller's closures answer. -/
structure Answers (G : Type) where
  perFetch : Except Error G
  expiring : Option G → Except Error (Issued G)

/-- What a fetch fails with. -/
inductive Failure where
  /-- The host refused what was presented. -/
  | refused (error : AuthError)
  | other (error : Error)

def Failure.intoError : Failure → Error
  | .refused error => error.1
  | .other error => error

def Failure.isRefused : Except Failure V → Bool
  | .error (.refused _) => true
  | _ => false

/-- `Credential::obtain`. What has no lifetime is kept, and what lives for nothing is asked for again. -/
def Credential.obtainWith : Credential G → Answers G → Option G → Except Error (Issued G)
  | .constant auth, _, _ => .ok ⟨auth, none⟩
  | .perFetch, answers, _ => answers.perFetch.map fun auth ↦ ⟨auth, some 0⟩
  | .expiring, answers, previous => answers.expiring previous

def Credential.isReplaceable : Credential G → Bool
  | .constant _ => false
  | .perFetch | .expiring => true

/-- A source in a git repository. Every credential goes through the session, a constant one too, and a
fetch comes back as what was found. -/
def client (credential : Credential G) : Client G G (Answers G) (Except Failure V) V where
  supplied := none
  obtainWith := credential.obtainWith
  presented := id
  logsIn _ _ := true
  isRefusal := Failure.isRefused
  outcome reply := reply.mapError Failure.intoError
  canRelogin := credential.isReplaceable
  supplied_of_canRelogin _ := rfl
  logsIn_none _ := rfl
  presented_of_extended h := absurd h.symm Bool.false_ne_true
  kind_of_refusal {reply} h := by
    match reply with
    | .error (.refused error) => exact ⟨error.1, rfl, error.2⟩

end Git

end Relogin

end DynamicConfig
