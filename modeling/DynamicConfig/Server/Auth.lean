import DynamicConfig.Config.Text
import Mathlib.Data.List.Nodup

/-!
# Who is calling, and what they may read

A caller of the config server is a principal, and a principal is granted applications by name. The one
credential is a bearer token: the header is split at its first space, white space before the token is
skipped, and what is left is compared, byte by byte, with every configured token.

Nothing is the default: no header is the anonymous principal, where there is one, and a header that
names no configured token is nobody (`authenticate_some`). Where no two clients share a token, the
client a header authenticates is the one whose token it presents (`authenticate_eq_some_iff`).
-/

namespace DynamicConfig.Server

/-- The shortest token a configuration may hold. -/
def minTokenLen : Nat := 32

/-- `str::as_bytes`. -/
def asBytes (text : String) : List UInt8 := text.toByteArray.data.toList

/-- Text is its bytes. -/
theorem asBytes_inj {s t : String} : asBytes s = asBytes t ↔ s = t := by
  rw [asBytes, asBytes, Array.toList_inj, ← ByteArray.ext_iff, String.toByteArray_inj]

/-- A bearer token, as configured. -/
structure Token where
  text : String
  deriving DecidableEq, Repr

namespace Token

def len (token : Token) : Nat := (asBytes token.text).length

/-- What the comparison has found to differ, pair by pair. -/
def difference (start : UInt8) (pairs : List (UInt8 × UInt8)) : UInt8 :=
  pairs.foldl (fun found e ↦ found ||| (e.1 ^^^ e.2)) start

/-- Whether `presented` is this token: every pair of bytes is looked at. -/
def isMatch (token : Token) (presented : String) : Bool :=
  let configured := asBytes token.text
  let presented := asBytes presented
  difference (if configured.length = presented.length then 0 else 1) (configured.zip presented) == 0

/-- No difference is found where there is none. -/
theorem difference_eq_zero_iff {start : UInt8} {pairs : List (UInt8 × UInt8)} :
    difference start pairs = 0 ↔ start = 0 ∧ ∀ e ∈ pairs, e.1 = e.2 := by
  induction pairs generalizing start with
  | nil => exact ⟨fun h ↦ ⟨h, fun e he ↦ absurd he List.not_mem_nil⟩, fun h ↦ h.1⟩
  | cons e pairs ih =>
    rw [difference, List.foldl_cons]
    show difference (start ||| (e.1 ^^^ e.2)) pairs = 0 ↔ _
    rw [ih, UInt8.or_eq_zero_iff, UInt8.xor_eq_zero_iff, List.forall_mem_cons, and_assoc]

/-- Two lists of one length are equal where their pairs are. -/
theorem forall_zip_iff {xs ys : List UInt8} (h : xs.length = ys.length) :
    (∀ e ∈ xs.zip ys, e.1 = e.2) ↔ xs = ys := by
  induction xs generalizing ys with
  | nil =>
    obtain rfl := List.length_eq_zero_iff.1 h.symm
    exact ⟨fun _ ↦ rfl, fun _ e he ↦ absurd he List.not_mem_nil⟩
  | cons x xs ih =>
    rcases ys with - | ⟨y, ys⟩
    · cases h
    · rw [List.zip_cons_cons, List.forall_mem_cons, ih (Nat.succ.inj h), List.cons.injEq]

/-- **A token is matched by itself alone.** -/
theorem isMatch_iff {token : Token} {presented : String} :
    token.isMatch presented = true ↔ presented = token.text := by
  rw [isMatch, beq_iff_eq, difference_eq_zero_iff]
  by_cases hlength : (asBytes token.text).length = (asBytes presented).length
  · rw [if_pos hlength, forall_zip_iff hlength, asBytes_inj, eq_self, true_and]
    exact eq_comm
  · rw [if_neg hlength]
    refine iff_of_false (fun h ↦ absurd h.1 (by decide)) ?_
    rintro rfl
    exact hlength rfl

end Token

/-- An authenticated caller and the applications it may read. -/
structure Principal where
  name : String
  applications : List String
  deriving DecidableEq, Repr

/-- Exact match, no wildcards. -/
def Principal.mayRead (principal : Principal) (application : String) : Bool :=
  principal.applications.any fun granted ↦ granted == application

/-- The token out of `Bearer <token>`, without regard to the case of the scheme. -/
def bearer (header : String) : Option String :=
  (Text.splitOnce ' ' header.toList).bind fun e ↦
    if Text.eqIgnoreCase (String.ofList e.1) "bearer" then
      let token := Text.trimStart e.2
      if token = [] then none else some (String.ofList token)
    else none

/-- The configured callers. -/
structure Authenticator where
  clients : List (Token × Principal)
  anonymous : Option Principal

/-- Whether a token is a client's. -/
def Authenticator.isHit (presented : String) (client : Token × Principal) : Bool :=
  client.1.isMatch presented

/-- One client, after those before it: the first whose token matches is the caller. -/
def Authenticator.visit (presented : String) (found : Option Principal) (client : Token × Principal) :
    Option Principal :=
  if isHit presented client && found.isNone then some client.2 else found

/-- Who is calling, given the `Authorization` header. -/
def Authenticator.authenticate (authenticator : Authenticator) (authorization : Option String) :
    Option Principal :=
  match authorization with
  | none => authenticator.anonymous
  | some header =>
    match bearer header with
    | none => none
    | some presented => authenticator.clients.foldl (Authenticator.visit presented) none

namespace Authenticator

variable {authenticator : Authenticator} {header presented : String} {principal : Principal}

/-- Once a client has been found, the others are compared for nothing. -/
theorem foldl_visit_some (clients : List (Token × Principal)) :
    clients.foldl (visit presented) (some principal) = some principal := by
  induction clients with
  | nil => rfl
  | cons client clients ih =>
    rw [List.foldl_cons, visit, Option.isNone_some, Bool.and_false, if_neg Bool.false_ne_true, ih]

theorem isHit_iff {client : Token × Principal} :
    isHit presented client = true ↔ presented = client.1.text := Token.isMatch_iff

/-- The loop finds the first client whose token is presented. -/
theorem foldl_visit_none (clients : List (Token × Principal)) :
    clients.foldl (visit presented) none =
      (clients.find? (isHit presented)).map Prod.snd := by
  induction clients with
  | nil => rfl
  | cons client clients ih =>
    rw [List.foldl_cons, visit, Option.isNone_none, Bool.and_true, List.find?_cons]
    split
    · next hhit => rw [foldl_visit_some, hhit, Option.map_some]
    · next hhit => rw [ih, Bool.eq_false_iff.2 hhit]

/-- **A header that is there is never anonymous**: whoever it authenticates is a client whose token it
presents. -/
theorem authenticate_some (h : authenticator.authenticate (some header) = some principal) :
    ∃ token, (token, principal) ∈ authenticator.clients ∧ bearer header = some token.text := by
  simp only [authenticate] at h
  split at h
  · cases h
  · next presented hbearer =>
    rw [foldl_visit_none] at h
    obtain ⟨⟨token, _⟩, hfind, rfl⟩ := Option.map_eq_some_iff.1 h
    refine ⟨token, List.mem_of_find?_eq_some hfind, ?_⟩
    rw [hbearer, isHit_iff.1 (List.find?_some hfind)]

/-- **Where tokens are distinct, a header authenticates the client whose token it presents.** -/
theorem authenticate_eq_some_iff
    (hdistinct : (authenticator.clients.map Prod.fst).Nodup) :
    authenticator.authenticate (some header) = some principal ↔
      ∃ token, (token, principal) ∈ authenticator.clients ∧ bearer header = some token.text := by
  refine ⟨authenticate_some, ?_⟩
  rintro ⟨token, hmem, hbearer⟩
  simp only [authenticate, hbearer, foldl_visit_none]
  rcases hfind : authenticator.clients.find? (isHit token.text) with - | other
  · exact absurd (isHit_iff.2 rfl) (List.find?_eq_none.1 hfind _ hmem)
  · have hsame : other.1 = token := congrArg Token.mk (isHit_iff.1 (List.find?_some hfind)).symm
    have hunique : other = (token, principal) :=
      List.inj_on_of_nodup_map hdistinct (List.mem_of_find?_eq_some hfind) hmem hsame
    rw [hunique]
    rfl

end Authenticator

/-- What a header presents of a token: everything from its first character that is not white space. -/
theorem bearer_bearer (token : String) :
    bearer ("Bearer " ++ token) =
      if Text.trimStart token.toList = [] then none
      else some (String.ofList (Text.trimStart token.toList)) := by
  have hlist : ("Bearer " ++ token).toList = ['B', 'e', 'a', 'r', 'e', 'r'] ++ ' ' :: token.toList := by
    rw [String.toList_append]
    rfl
  have hsplit : Text.splitOnce ' ' ("Bearer " ++ token).toList =
      some (['B', 'e', 'a', 'r', 'e', 'r'], token.toList) := by
    rw [hlist, Text.splitOnce, if_pos (List.mem_append_right _ List.mem_cons_self)]
    rfl
  have hscheme : Text.eqIgnoreCase (String.ofList ['B', 'e', 'a', 'r', 'e', 'r']) "bearer" = true := by
    decide
  rw [bearer, hsplit, Option.bind_some, hscheme, if_pos rfl]

/-- A token is presented as it is where it does not start with white space. -/
theorem bearer_bearer_eq_iff {token : String} (hne : token ≠ "") :
    bearer ("Bearer " ++ token) = some token ↔
      ∀ c, token.toList.head? = some c → Text.isWhitespace c = false := by
  rw [bearer_bearer]
  rcases hlist : token.toList with - | ⟨c, rest⟩
  · exact absurd (String.toList_eq_nil_iff.1 hlist) hne
  · rw [List.head?_cons, Text.trimStart, List.dropWhile_cons]
    rcases hspace : Text.isWhitespace c with - | -
    · rw [if_neg Bool.false_ne_true, if_neg (List.cons_ne_nil _ _), ← hlist, String.ofList_toList]
      refine iff_of_true rfl fun d hd ↦ ?_
      obtain rfl := Option.some.inj hd
      exact hspace
    · rw [if_pos rfl]
      refine iff_of_false (fun h ↦ ?_) fun h ↦ ?_
      · split at h
        · cases h
        · have hlength := congrArg List.length
            ((String.toList_ofList.symm.trans (congrArg String.toList (Option.some.inj h))).trans hlist)
          have hle := (List.dropWhile_suffix Text.isWhitespace (l := rest)).length_le
          rw [List.length_cons] at hlength
          omega
      · rw [h c rfl] at hspace
        cases hspace

end DynamicConfig.Server
