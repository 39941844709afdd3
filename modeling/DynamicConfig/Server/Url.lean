import DynamicConfig.Server.Stream
import DynamicConfig.Stores.Address
import DynamicConfig.Stores.Documents
import DynamicConfig.Uri.Grammar
import Mathlib.Data.List.DropRight

/-!
# The URL of a config server

A client is given the URL of its server once and takes it apart by hand: the scheme in front of `://`, the
authority up to the first slash, the host in brackets or up to the last colon. A URL with credentials in it
is refused. Here that is compared with the grammar of a URL.

The delimiters it knows are the slash, the colon, the brackets and the `@`. So what a text without a query
and a fragment means is found in it (`reads_of_taken`), and is written back as it was read
(`parse_rendered`). But a question mark or a hash ends nothing: what is behind it belongs to the host, or
to the path. Nor is the text of a host looked at. `endpoint_faithful_iff` says that this is all: what the parser
takes keeps its meaning exactly if it is a URL without a query and a fragment.
-/

namespace DynamicConfig.Http

open Uri (Reading led closed)

/-! ### Taking a URL apart -/

/-- Where the server is. -/
structure Endpoint where
  secure : Bool
  host : List Char
  port : ℕ
  /-- The path the server's router is mounted under. -/
  pathPrefix : List Char
  deriving DecidableEq

/-- `parse::<u16>()`. -/
def parseU16 (text : List Char) : Option ℕ :=
  let digits := Server.unsigned text
  if digits ≠ [] ∧ digits.all Char.isDigit = true ∧ Nat.ofDigitChars 10 digits 0 < 2 ^ 16 then
    some (Nat.ofDigitChars 10 digits 0)
  else none

def defaultPort (secure : Bool) : ℕ := if secure then 443 else 80

/-- `host`, `host:port` or `[v6]:port`, with the scheme's default port. -/
def splitAuthority (authority : List Char) (secure : Bool) : Option (List Char × ℕ) :=
  match authority with
  | '[' :: rest =>
    match Text.splitOnce ']' rest with
    | none => none
    | some (host, []) => some (host, defaultPort secure)
    | some (host, ':' :: port) => (parseU16 port).map fun n ↦ (host, n)
    | some (_, _) => none
  | authority =>
    match Address.rsplitOnce ':' authority with
    | some (host, port) => (parseU16 port).map fun n ↦ (host, n)
    | none => some (authority, defaultPort secure)

/-- `str::trim_end_matches('/')`. -/
def trimSlashes (path : List Char) : List Char := path.rdropWhile (· == '/')

def refuse (described why : String) : Error := Error.remote (described ++ ": " ++ why)

namespace Endpoint

/-- Whether a scheme is the secure one. -/
def secureOf (scheme : List Char) : Option Bool :=
  if scheme.map Char.toLower = "http".toList then some false
  else if scheme.map Char.toLower = "https".toList then some true
  else none

/-- `Endpoint::parse`. -/
def parse (url : List Char) (described : String) : Except Error Endpoint :=
  match Address.splitScheme url with
  | none => .error (refuse described "the URL needs an \x60http://\x60 or \x60https://\x60 scheme")
  | some (scheme, rest) =>
    match secureOf scheme with
    | none => .error (refuse described "the URL's scheme has to be \x60http\x60 or \x60https\x60")
    | some secure =>
      let authority := rest.takeWhile (· ≠ '/')
      let path := rest.dropWhile (· ≠ '/')
      if '@' ∈ authority then
        .error (refuse described
          ("the URL carries a \x60user:password@\x60 authority, which this server does not accept as a " ++
            "credential; put the bearer token in \x60with_token\x60 instead"))
      else
        match splitAuthority authority secure with
        | none => .error (refuse described
            "the URL's host and port are not \x60host\x60, \x60host:port\x60 or \x60[v6]:port\x60")
        | some (host, port) =>
          if host = [] then .error (refuse described "the URL names no host")
          else .ok ⟨secure, host, port, trimSlashes path⟩

/-- `Endpoint::authority`: what goes in the `Host` header. -/
def authority (endpoint : Endpoint) : List Char :=
  let bracketed :=
    if ':' ∈ endpoint.host then '[' :: (endpoint.host ++ [']']) else endpoint.host
  if endpoint.port = defaultPort endpoint.secure then bracketed
  else bracketed ++ ':' :: Nat.toDigits 10 endpoint.port

/-- The URL that an endpoint is rendered to. -/
def rendered (endpoint : Endpoint) : List Char :=
  (if endpoint.secure then "https" else "http").toList ++ "://".toList ++
    (endpoint.authority ++ endpoint.pathPrefix)

end Endpoint

/-! ### What a URL means -/

/-- The port of a reading. Without one, or with an empty one, it is the scheme's. -/
def portOf {url : List Char} (reading : Reading url) (secure : Bool) : ℕ :=
  match reading.port with
  | none | some [] => defaultPort secure
  | some digits => Nat.ofDigitChars 10 digits 0

/-- An endpoint is where a reading of the URL points, with no credentials in it. -/
structure Reads {url : List Char} (reading : Reading url) (endpoint : Endpoint) : Prop where
  scheme : reading.scheme.map Char.toLower = (if endpoint.secure then "https" else "http").toList
  userinfo : reading.userinfo = none
  nonempty : reading.host.inner ≠ []
  host : endpoint.host = reading.host.inner
  port : endpoint.port = portOf reading endpoint.secure
  path : endpoint.pathPrefix = trimSlashes reading.path

/-- What is accepted is a URL that says the same, and comes back from what is rendered. -/
def Faithful (described : String) (url : List Char) : Prop :=
  ∀ endpoint, Endpoint.parse url described = .ok endpoint →
    (∃ reading : Reading url, Reads reading endpoint) ∧
      Endpoint.parse endpoint.rendered described = .ok endpoint

/-- A URL that has no query and no fragment. -/
def Plain (url : List Char) : Prop :=
  ∃ reading : Reading url, reading.query = none ∧ reading.fragment = none

/-- The texts that are taken for an authority, with the host and the port they are taken for. -/
inductive AuthorityIs (secure : Bool) : List Char → List Char → ℕ → Prop where
  | literal (host : List Char) (hhost : ']' ∉ host) :
      AuthorityIs secure ('[' :: (host ++ [']'])) host (defaultPort secure)
  | literalPort (host port : List Char) (n : ℕ) (hhost : ']' ∉ host) (hport : parseU16 port = some n) :
      AuthorityIs secure ('[' :: (host ++ ']' :: ':' :: port)) host n
  | name (host : List Char) (hhead : host.head? ≠ some '[') (hhost : ':' ∉ host) :
      AuthorityIs secure host host (defaultPort secure)
  | namePort (host port : List Char) (n : ℕ) (hhead : host.head? ≠ some '[')
      (hport : parseU16 port = some n) : AuthorityIs secure (host ++ ':' :: port) host n

/-- The texts that are taken for a URL of an endpoint: a scheme, an authority up to the first slash and
without an `@`, and a path. -/
inductive Taken : List Char → Endpoint → Prop where
  | intro (scheme authority path : List Char) (endpoint : Endpoint)
      (hscheme : scheme.map Char.toLower = (if endpoint.secure then "https" else "http").toList)
      (hslash : '/' ∉ authority) (hpath : path = [] ∨ path.head? = some '/') (hat : '@' ∉ authority)
      (hauthority : AuthorityIs endpoint.secure authority endpoint.host endpoint.port)
      (hhost : endpoint.host ≠ []) (htrimmed : endpoint.pathPrefix = trimSlashes path) :
      Taken (scheme ++ "://".toList ++ (authority ++ path)) endpoint

/-! ### Ports -/

section Ports

variable {text : List Char} {n : ℕ}

theorem parseU16_eq_some (h : parseU16 text = some n) :
    Server.unsigned text ≠ [] ∧ (∀ c ∈ Server.unsigned text, c.isDigit = true) ∧ n < 2 ^ 16 ∧
      n = Nat.ofDigitChars 10 (Server.unsigned text) 0 := by
  rw [parseU16] at h
  split at h
  · next hall =>
    obtain rfl := Option.some_inj.1 h
    exact ⟨hall.1, List.all_eq_true.1 hall.2.1, hall.2.2, rfl⟩
  · exact absurd h.symm (Option.some_ne_none n)

/-- A port is written with digits, and maybe a plus sign in front. -/
theorem mem_of_parseU16 (h : parseU16 text = some n) {c : Char} (hc : c ∈ text) :
    c = '+' ∨ c.isDigit = true := by
  obtain ⟨-, hdigits, -, -⟩ := parseU16_eq_some h
  match text, hc with
  | '+' :: rest, hc =>
    rcases List.mem_cons.1 hc with rfl | hc
    · exact .inl rfl
    · exact .inr (hdigits c hc)
  | d :: rest, hc =>
    by_cases hplus : d = '+'
    · subst hplus
      rcases List.mem_cons.1 hc with rfl | hc
      · exact .inl rfl
      · exact .inr (hdigits c hc)
    · have hunsigned : Server.unsigned (d :: rest) = d :: rest := by
        rw [Server.unsigned.eq_def]
        split
        · next heq => exact absurd (List.cons_eq_cons.1 heq).1 hplus
        · rfl
      rw [hunsigned] at hdigits
      exact .inr (hdigits c hc)

theorem not_mem_of_parseU16 (h : parseU16 text = some n) {c : Char} (hplus : c ≠ '+')
    (hdigit : c.isDigit = false) : c ∉ text := by
  intro hc
  rcases mem_of_parseU16 h hc with heq | hdig
  · exact hplus heq
  · rw [hdigit] at hdig
    exact Bool.false_ne_true hdig

theorem parseU16_toDigits (h : n < 2 ^ 16) : parseU16 (Nat.toDigits 10 n) = some n := by
  have hdigits : ∀ c ∈ Nat.toDigits 10 n, c.isDigit = true := fun c hc ↦
    Nat.isDigit_of_mem_toDigits (by decide) (by decide) hc
  rw [parseU16, Server.unsigned_of_digits hdigits, Nat.ofDigitChars_ten_toDigits, if_pos]
  exact ⟨Nat.toDigits_ne_nil, List.all_eq_true.2 hdigits, h⟩

end Ports

/-! ### What is taken -/

section Taken

variable {secure : Bool} {text host : List Char} {n : ℕ}

/-- What follows a character that is not in a text is found behind it. -/
theorem exists_of_splitOnce {c : Char} {x y z : List Char} (h : Text.splitOnce c x = some (y, z)) :
    x = y ++ c :: z ∧ c ∉ y := by
  by_cases hmem : c ∈ x
  · obtain ⟨a, b, rfl, ha⟩ := List.eq_append_cons_of_mem hmem
    rw [Address.splitOnce_append ha] at h
    obtain ⟨rfl, rfl⟩ := Prod.mk.inj (Option.some_inj.1 h)
    exact ⟨rfl, ha⟩
  · rw [Address.splitOnce_eq_none hmem] at h
    exact absurd h.symm (Option.some_ne_none _)

theorem exists_of_rsplitOnce {c : Char} {x y z : List Char}
    (h : Address.rsplitOnce c x = some (y, z)) : x = y ++ c :: z ∧ c ∉ z := by
  obtain ⟨⟨a, b⟩, hsplit, heq⟩ := Option.map_eq_some_iff.1 h
  obtain ⟨rfl, rfl⟩ := Prod.mk.inj heq
  obtain ⟨hx, hc⟩ := exists_of_splitOnce hsplit
  have hback := congrArg List.reverse hx
  rw [List.reverse_reverse, List.reverse_append, List.reverse_cons, List.append_assoc] at hback
  exact ⟨hback, fun hmem ↦ hc (List.mem_reverse.1 hmem)⟩

theorem splitAuthority_bracket (rest : List Char) :
    splitAuthority ('[' :: rest) secure =
      match Text.splitOnce ']' rest with
      | none => none
      | some (host, []) => some (host, defaultPort secure)
      | some (host, ':' :: port) => (parseU16 port).map fun n ↦ (host, n)
      | some (_, _) => none := by
  rw [splitAuthority]

theorem splitAuthority_plain (h : text.head? ≠ some '[') :
    splitAuthority text secure =
      match Address.rsplitOnce ':' text with
      | some (host, port) => (parseU16 port).map fun n ↦ (host, n)
      | none => some (text, defaultPort secure) := by
  rw [splitAuthority.eq_def]
  split
  · exact absurd rfl h
  · rfl

/-- A text does not start with a bracket if its first part does not. -/
theorem head?_append_ne (h : host.head? ≠ some '[') {c : Char} (hc : c ≠ '[') (port : List Char) :
    (host ++ c :: port).head? ≠ some '[' := by
  rcases host with - | ⟨d, host⟩
  · exact fun heq ↦ hc (Option.some_inj.1 heq)
  · exact h

/-- What is taken for an authority. -/
theorem authorityIs_of_split (h : splitAuthority text secure = some (host, n)) :
    AuthorityIs secure text host n := by
  by_cases hhead : text.head? = some '['
  · obtain ⟨rest, rfl⟩ := List.head?_eq_some_iff.1 hhead
    rw [splitAuthority_bracket] at h
    rcases hsplit : Text.splitOnce ']' rest with - | ⟨a, tail⟩
    · rw [hsplit] at h
      exact absurd h.symm (Option.some_ne_none _)
    · obtain ⟨rfl, ha⟩ := exists_of_splitOnce hsplit
      rw [hsplit] at h
      match tail, h with
      | [], h =>
        obtain ⟨rfl, rfl⟩ := Prod.mk.inj (Option.some_inj.1 h)
        exact .literal a ha
      | c :: port, h =>
        by_cases hc : c = ':'
        · subst hc
          obtain ⟨m, hport, heq⟩ := Option.map_eq_some_iff.1 h
          obtain ⟨rfl, rfl⟩ := Prod.mk.inj heq
          exact .literalPort a port m ha hport
        · split at h
          · next heq => exact absurd heq (Option.some_ne_none _)
          · next heq => exact absurd (Prod.mk.inj (Option.some_inj.1 heq)).2 (List.cons_ne_nil _ _)
          · next heq =>
            exact absurd (List.cons_eq_cons.1 (Prod.mk.inj (Option.some_inj.1 heq)).2).1 hc
          · exact absurd h.symm (Option.some_ne_none _)
  · rw [splitAuthority_plain hhead] at h
    rcases hsplit : Address.rsplitOnce ':' text with - | ⟨a, port⟩
    · rw [hsplit] at h
      obtain ⟨rfl, rfl⟩ := Prod.mk.inj (Option.some_inj.1 h)
      refine .name text hhead fun hmem ↦ ?_
      obtain ⟨y, z, hx, hz⟩ := Address.exists_last hmem
      rw [hx, Address.rsplitOnce_append hz] at hsplit
      exact Option.some_ne_none _ hsplit
    · rw [hsplit] at h
      obtain ⟨rfl, -⟩ := exists_of_rsplitOnce hsplit
      obtain ⟨m, hport, heq⟩ := Option.map_eq_some_iff.1 h
      obtain ⟨rfl, rfl⟩ := Prod.mk.inj heq
      refine .namePort a port m (fun ha ↦ hhead ?_) hport
      obtain ⟨rest, rfl⟩ := List.head?_eq_some_iff.1 ha
      rfl

/-- And the other way. -/
theorem split_of_authorityIs (h : AuthorityIs secure text host n) :
    splitAuthority text secure = some (host, n) := by
  cases h with
  | literal host hhost =>
    rw [splitAuthority_bracket, Address.splitOnce_append hhost]
  | literalPort host port n hhost hport =>
    rw [splitAuthority_bracket, Address.splitOnce_append hhost]
    show (parseU16 port).map (fun n ↦ (host, n)) = some (host, n)
    rw [hport, Option.map_some]
  | name host hhead hhost =>
    rw [splitAuthority_plain hhead, Address.rsplitOnce_eq_none hhost]
  | namePort host port n hhead hport =>
    have hcolon : ':' ∉ port := not_mem_of_parseU16 hport (by decide) (by decide)
    rw [splitAuthority_plain (head?_append_ne hhead (by decide) port), Address.rsplitOnce_append hcolon]
    show (parseU16 port).map (fun n ↦ (host, n)) = some (host, n)
    rw [hport, Option.map_some]

/-- The authority is what is in front of the first slash. -/
theorem takeWhile_authority {authority path : List Char} (hslash : '/' ∉ authority)
    (hpath : path = [] ∨ path.head? = some '/') :
    (authority ++ path).takeWhile (· ≠ '/') = authority ∧
      (authority ++ path).dropWhile (· ≠ '/') = path := by
  have hall : ∀ c ∈ authority, decide (c ≠ '/') = true := fun c hc ↦
    decide_eq_true fun heq ↦ hslash (heq ▸ hc)
  rw [List.takeWhile_append_of_pos hall, List.dropWhile_append_of_pos hall]
  rcases hpath with rfl | hhead
  · exact ⟨List.append_nil _, rfl⟩
  · obtain ⟨rest, rfl⟩ := List.head?_eq_some_iff.1 hhead
    exact ⟨List.append_nil _, rfl⟩

theorem secureOf_eq_some_iff {scheme : List Char} :
    Endpoint.secureOf scheme = some secure ↔
      scheme.map Char.toLower = (if secure then "https" else "http").toList := by
  rw [Endpoint.secureOf]
  by_cases hplain : scheme.map Char.toLower = "http".toList
  · rw [if_pos hplain, hplain]
    cases secure <;> decide
  · by_cases hsecure : scheme.map Char.toLower = "https".toList
    · rw [if_neg hplain, if_pos hsecure, hsecure]
      cases secure <;> decide
    · rw [if_neg hplain, if_neg hsecure]
      cases secure with
      | false => exact ⟨fun h ↦ absurd h.symm (Option.some_ne_none _), fun h ↦ absurd h hplain⟩
      | true => exact ⟨fun h ↦ absurd h.symm (Option.some_ne_none _), fun h ↦ absurd h hsecure⟩

/-- A scheme that is one of the two has no slash. -/
theorem slash_not_mem {scheme : List Char}
    (h : scheme.map Char.toLower = (if secure then "https" else "http").toList) : '/' ∉ scheme := by
  intro hmem
  have hlower : '/' ∈ scheme.map Char.toLower := List.mem_map.2 ⟨'/', hmem, by decide⟩
  rw [h] at hlower
  revert hlower
  cases secure <;> decide

/-- A text is its scheme, the delimiter and the rest. -/
theorem eq_of_splitScheme {url scheme rest : List Char}
    (h : Address.splitScheme url = some (scheme, rest)) :
    url = scheme ++ "://".toList ++ rest := by
  induction url generalizing scheme with
  | nil => exact absurd h.symm (Option.some_ne_none _)
  | cons c cs ih =>
    rw [Address.splitScheme] at h
    by_cases hhere : "://".toList <+: c :: cs
    · rw [if_pos hhere] at h
      obtain ⟨rfl, rfl⟩ := Prod.mk.inj (Option.some_inj.1 h)
      obtain ⟨tail, htail⟩ := hhere
      have hcs : cs = '/' :: '/' :: tail := (List.cons_eq_cons.1 htail).2.symm
      rw [← htail, hcs]
      rfl
    · rw [if_neg hhere] at h
      obtain ⟨⟨a, b⟩, hsplit, heq⟩ := Option.map_eq_some_iff.1 h
      obtain ⟨rfl, rfl⟩ := Prod.mk.inj heq
      rw [ih hsplit]
      rfl

/-- **What is accepted** is what is taken for the URL of the endpoint. -/
theorem parse_eq_ok_iff {url : List Char} {described : String} {endpoint : Endpoint} :
    Endpoint.parse url described = .ok endpoint ↔ Taken url endpoint := by
  constructor
  · intro h
    rw [Endpoint.parse] at h
    rcases hscheme : Address.splitScheme url with - | ⟨scheme, rest⟩
    · rw [hscheme] at h
      cases h
    · rw [hscheme] at h
      obtain rfl := eq_of_splitScheme hscheme
      rcases hsecure : Endpoint.secureOf scheme with - | secure
      · simp only [hsecure] at h
        cases h
      · simp only [hsecure] at h
        split at h
        · cases h
        · next hat =>
          rcases hsplit : splitAuthority (rest.takeWhile (· ≠ '/')) secure with - | ⟨host, port⟩
          · rw [hsplit] at h
            cases h
          · simp only [hsplit] at h
            split at h
            · cases h
            · next hhost =>
              obtain rfl := Except.ok.inj h
              have hslash : '/' ∉ rest.takeWhile (· ≠ '/') := by
                intro hmem
                have hne := List.mem_takeWhile_imp hmem
                exact absurd hne (by decide)
              have hpath : rest.dropWhile (· ≠ '/') = [] ∨
                  (rest.dropWhile (· ≠ '/')).head? = some '/' := by
                rcases hdrop : rest.dropWhile (· ≠ '/') with - | ⟨c, cs⟩
                · exact .inl rfl
                · have hnot := List.head?_dropWhile_not (· ≠ '/') rest
                  rw [hdrop] at hnot
                  have hc : c = '/' := by simpa using hnot
                  exact .inr (congrArg some hc)
              have htaken := Taken.intro scheme _ _ ⟨secure, host, port, _⟩
                (secureOf_eq_some_iff.1 hsecure) hslash hpath hat (authorityIs_of_split hsplit) hhost rfl
              rwa [List.takeWhile_append_dropWhile] at htaken
  · rintro ⟨scheme, authority, path, endpoint, hscheme, hslash, hpath, hat, hauthority, hhost, htrimmed⟩
    obtain ⟨htake, hdrop⟩ := takeWhile_authority hslash hpath
    rw [Endpoint.parse, Address.splitScheme_append (slash_not_mem hscheme)]
    simp only [secureOf_eq_some_iff.2 hscheme, htake, hdrop, if_neg hat, if_neg hhost,
      split_of_authorityIs hauthority, ← htrimmed]

end Taken

/-! ### What a URL without a query means -/

section Plain

variable {url : List Char} {endpoint : Endpoint} {secure : Bool}

/-- The port of an authority: the scheme's where there is none. -/
def portRead (secure : Bool) : Option (List Char) → Option ℕ
  | none => some (defaultPort secure)
  | some digits => parseU16 digits

/-- What is written of an authority is taken for its host and its port. -/
theorem splitAuthority_text (host : Uri.Host) {port : Option (List Char)}
    (hport : ∀ x ∈ port, ∀ c ∈ x, c.isDigit = true) :
    splitAuthority (host.text ++ led ':' port) secure =
      (portRead secure port).map fun n ↦ (host.inner, n) := by
  cases host with
  | literal address h =>
    have hclose : ']' ∉ address := (Uri.Host.literal address h).avoids (by decide)
    show splitAuthority ('[' :: (address ++ [']'] ++ led ':' port)) secure = _
    rw [splitAuthority_bracket, List.append_assoc]
    show (match Text.splitOnce ']' (address ++ ']' :: led ':' port) with
      | none => none
      | some (host, []) => some (host, defaultPort secure)
      | some (host, ':' :: port) => (parseU16 port).map fun n ↦ (host, n)
      | some (_, _) => none) = _
    rw [Address.splitOnce_append hclose]
    rcases port with - | digits
    · rfl
    · rfl
  | name text h =>
    have hcolon : ':' ∉ text := Uri.avoids_regName.not_mem h (by decide)
    have hopen : '[' ∉ text := Uri.avoids_regName.not_mem h (by decide)
    have hhead : text.head? ≠ some '[' := fun heq ↦ hopen (List.mem_of_head? heq)
    rcases port with - | digits
    · show splitAuthority (text ++ []) secure = some (text, defaultPort secure)
      rw [List.append_nil, splitAuthority_plain hhead, Address.rsplitOnce_eq_none hcolon]
    · have hdigits : ':' ∉ digits := fun hmem ↦
        absurd (hport digits rfl ':' hmem) (by decide)
      show splitAuthority (text ++ ':' :: digits) secure = (parseU16 digits).map fun n ↦ (text, n)
      rw [splitAuthority_plain (head?_append_ne hhead (by decide) digits),
        Address.rsplitOnce_append hdigits]

/-- The digits of a reading's port. -/
theorem isDigit_of_mem_port {x : List Char} (h : x ∈ Uri.port) : ∀ c ∈ x, c.isDigit = true := by
  intro c hc
  obtain ⟨ws, rfl, hws⟩ := Language.mem_kstar.1 h
  obtain ⟨w, hw, hcw⟩ := List.mem_flatten.1 hc
  obtain ⟨d, rfl, hd⟩ := hws w hw
  obtain rfl := List.mem_singleton.1 hcw
  exact hd

/-- A text has one scheme and one rest. -/
theorem scheme_eq {scheme scheme' rest rest' : List Char} (hslash : '/' ∉ scheme)
    (hslash' : '/' ∉ scheme')
    (h : scheme ++ "://".toList ++ rest = scheme' ++ "://".toList ++ rest') :
    scheme = scheme' ∧ rest = rest' := by
  have hsplit := Address.splitScheme_append hslash rest
  rw [h, Address.splitScheme_append hslash'] at hsplit
  obtain ⟨hs, hr⟩ := Prod.mk.inj (Option.some_inj.1 hsplit)
  exact ⟨hs.symm, hr.symm⟩

/-- One authority and one path. -/
theorem authority_eq {authority authority' path path' : List Char} (hslash : '/' ∉ authority)
    (hslash' : '/' ∉ authority') (hpath : path = [] ∨ path.head? = some '/')
    (hpath' : path' = [] ∨ path'.head? = some '/') (h : authority ++ path = authority' ++ path') :
    authority = authority' ∧ path = path' := by
  obtain ⟨htake, hdrop⟩ := takeWhile_authority hslash hpath
  obtain ⟨htake', hdrop'⟩ := takeWhile_authority hslash' hpath'
  rw [h] at htake hdrop
  exact ⟨htake.symm.trans htake', hdrop.symm.trans hdrop'⟩

/-- The authority of a reading holds no slash. -/
theorem slash_not_mem_authority (reading : Reading url) :
    '/' ∉ closed '@' reading.userinfo ++ reading.host.text ++ led ':' reading.port := by
  intro hmem
  rcases List.mem_append.1 hmem with hmem | hmem
  · rcases List.mem_append.1 hmem with hmem | hmem
    · rcases huser : reading.userinfo with - | user
      · rw [huser] at hmem
        exact absurd hmem List.not_mem_nil
      · rw [huser] at hmem
        have hnot : '/' ∉ user := Uri.avoids_userinfo.not_mem (reading.userinfo_mem user huser) (by decide)
        rcases List.mem_append.1 hmem with hmem | hmem
        · exact hnot hmem
        · exact absurd (List.mem_singleton.1 hmem) (by decide)
    · have hnot : '/' ∉ reading.host.inner := reading.host.avoids (by decide)
      rcases hhost : reading.host with ⟨address, h⟩ | ⟨text, h⟩
      · rw [hhost] at hmem hnot
        rcases List.mem_cons.1 hmem with heq | hmem
        · exact absurd heq (by decide)
        · rcases List.mem_append.1 hmem with hmem | hmem
          · exact hnot hmem
          · exact absurd (List.mem_singleton.1 hmem) (by decide)
      · rw [hhost] at hmem hnot
        exact hnot hmem
  · rcases hport : reading.port with - | digits
    · rw [hport] at hmem
      exact absurd hmem List.not_mem_nil
    · rw [hport] at hmem
      rcases List.mem_cons.1 hmem with heq | hmem
      · exact absurd heq (by decide)
      · have hdigit := isDigit_of_mem_port (reading.port_mem digits hport) '/' hmem
        exact absurd hdigit (by decide)

/-- **What a URL without a query and a fragment means is where it is taken to point.** -/
theorem reads_of_taken (h : Taken url endpoint) (reading : Reading url) (hquery : reading.query = none)
    (hfragment : reading.fragment = none) : Reads reading endpoint := by
  rcases h with ⟨scheme, authority, path, endpoint, hscheme, hslash, hpath, hat, hauthority, hhost, htrimmed⟩
  have htext := reading.text
  rw [hquery, hfragment] at htext
  have hreadslash : '/' ∉ reading.scheme := Uri.avoids_scheme.not_mem reading.scheme_mem (by decide)
  obtain ⟨hs, hrest⟩ := scheme_eq (slash_not_mem hscheme) hreadslash htext
  have hreadpath : reading.path ++ (led '?' none ++ led '#' none) = [] ∨
      (reading.path ++ (led '?' none ++ led '#' none)).head? = some '/' := by
    show reading.path ++ [] = [] ∨ (reading.path ++ []).head? = some '/'
    rw [List.append_nil]
    exact Uri.head?_of_mem_pathAbempty reading.path_mem
  obtain ⟨ha, hp⟩ := authority_eq hslash (slash_not_mem_authority reading) hpath hreadpath hrest
  have hp : path = reading.path := hp.trans (List.append_nil _)
  -- an authority with user information has an at sign
  have huser : reading.userinfo = none := by
    rcases huser : reading.userinfo with - | user
    · rfl
    · refine absurd ?_ hat
      rw [ha, huser]
      show '@' ∈ user ++ ['@'] ++ reading.host.text ++ led ':' reading.port
      simp
  have hsplit := split_of_authorityIs hauthority
  rw [ha, huser] at hsplit
  have hdigits : ∀ x ∈ reading.port, ∀ c ∈ x, c.isDigit = true := fun x hx ↦
    isDigit_of_mem_port (reading.port_mem x hx)
  replace hsplit := (splitAuthority_text reading.host hdigits).symm.trans hsplit
  obtain ⟨n, hn, heq⟩ := Option.map_eq_some_iff.1 hsplit
  obtain ⟨hinner, hport⟩ := Prod.mk.inj heq
  have hvalue : n = portOf reading endpoint.secure := by
    rw [portOf]
    rcases hdigitsOf : reading.port with - | digits
    · rw [hdigitsOf] at hn
      exact (Option.some_inj.1 hn).symm
    · rw [hdigitsOf] at hn
      obtain ⟨hne, -, -, hvalue⟩ := parseU16_eq_some hn
      rw [Server.unsigned_of_digits (hdigits digits hdigitsOf)] at hne hvalue
      obtain ⟨d, ds, rfl⟩ := List.exists_cons_of_ne_nil hne
      exact hvalue
  exact ⟨hs ▸ hscheme, huser, hinner.symm ▸ hhost, hinner.symm, hport.symm.trans hvalue,
    htrimmed.trans (congrArg trimSlashes hp)⟩

/-! ### And back -/

theorem lt_of_authorityIs {text host : List Char} {n : ℕ} (h : AuthorityIs secure text host n) :
    n < 2 ^ 16 := by
  have hdefault : defaultPort secure < 2 ^ 16 := by cases secure <;> decide
  cases h with
  | literal | name => exact hdefault
  | literalPort _ _ _ _ hport | namePort _ _ _ _ hport => exact (parseU16_eq_some hport).2.2.1

/-- What an authority is rendered with. -/
theorem mem_authority {c : Char} (h : c ∈ endpoint.authority) :
    c ∈ endpoint.host ∨ c ∈ "[]:".toList ∨ c.isDigit = true := by
  have hbracketed : ∀ {d}, d ∈ (if ':' ∈ endpoint.host then '[' :: (endpoint.host ++ [']'])
      else endpoint.host) → d ∈ endpoint.host ∨ d ∈ "[]:".toList := by
    intro d hd
    split at hd
    · rcases List.mem_cons.1 hd with rfl | hd
      · exact .inr (List.contains_iff_mem.1 rfl)
      · rcases List.mem_append.1 hd with hd | hd
        · exact .inl hd
        · rw [List.mem_singleton.1 hd]
          exact .inr (List.contains_iff_mem.1 rfl)
    · exact .inl hd
  rw [Endpoint.authority] at h
  split at h
  · exact (hbracketed h).imp_right .inl
  · rcases List.mem_append.1 h with h | h
    · exact (hbracketed h).imp_right .inl
    · rcases List.mem_cons.1 h with rfl | h
      · exact .inr (.inl (List.contains_iff_mem.1 rfl))
      · exact .inr (.inr (Nat.isDigit_of_mem_toDigits (by decide) (by decide) h))

/-- What is rendered is taken for the host and the port again. -/
theorem authorityIs_authority (hclose : ']' ∉ endpoint.host) (hopen : '[' ∉ endpoint.host)
    (hport : endpoint.port < 2 ^ 16) :
    AuthorityIs endpoint.secure endpoint.authority endpoint.host endpoint.port := by
  have hhead : endpoint.host.head? ≠ some '[' := fun heq ↦ hopen (List.mem_of_head? heq)
  have hdigits := parseU16_toDigits hport
  rw [Endpoint.authority]
  by_cases hdefault : endpoint.port = defaultPort endpoint.secure
  · rw [if_pos hdefault, hdefault]
    by_cases hcolon : ':' ∈ endpoint.host
    · rw [if_pos hcolon]
      exact .literal _ hclose
    · rw [if_neg hcolon]
      exact .name _ hhead hcolon
  · rw [if_neg hdefault]
    by_cases hcolon : ':' ∈ endpoint.host
    · have htext : '[' :: (endpoint.host ++ [']']) ++ ':' :: Nat.toDigits 10 endpoint.port =
          '[' :: (endpoint.host ++ ']' :: ':' :: Nat.toDigits 10 endpoint.port) := by simp
      rw [if_pos hcolon, htext]
      exact .literalPort _ _ _ hclose hdigits
    · rw [if_neg hcolon]
      exact .namePort _ _ _ hhead hdigits

/-- Without the slashes at its end a path is empty, or still starts with one. -/
theorem head?_trimSlashes {path : List Char} (h : path = [] ∨ path.head? = some '/') :
    trimSlashes path = [] ∨ (trimSlashes path).head? = some '/' := by
  obtain ⟨slashes, hpath⟩ := List.rdropWhile_prefix (· == '/') path
  rcases htrim : trimSlashes path with - | ⟨c, cs⟩
  · exact .inl rfl
  · rw [← trimSlashes, htrim] at hpath
    rcases h with rfl | hhead
    · exact absurd hpath (List.cons_ne_nil _ _)
    · rw [← hpath] at hhead
      exact .inr hhead

/-- **An endpoint that a URL means is read back** from what it is rendered to. -/
theorem taken_rendered {reading : Reading url} (h : Taken url endpoint) (hreads : Reads reading endpoint) :
    Taken endpoint.rendered endpoint := by
  rcases h with ⟨scheme, authority, path, endpoint, -, -, hpath, -, hauthority, hhost, htrimmed⟩
  -- nothing in the host ends the host
  have havoid : ∀ {d}, d ∈ Uri.outerDelims → d ∉ endpoint.host := by
    intro d hd
    rw [hreads.host]
    exact reading.host.avoids hd
  have hnot : ∀ {d}, d ∈ Uri.outerDelims → d ∉ "[]:".toList → d.isDigit = false →
      d ∉ endpoint.authority := by
    intro d hd hother hdigit hmem
    rcases mem_authority hmem with hmem | hmem | hmem
    · exact havoid hd hmem
    · exact hother hmem
    · rw [hdigit] at hmem
      exact Bool.false_ne_true hmem
  have hscheme : ((if endpoint.secure then "https" else "http").toList).map Char.toLower =
      (if endpoint.secure then "https" else "http").toList := by
    cases endpoint.secure <;> decide
  have hprefix : endpoint.pathPrefix = [] ∨ endpoint.pathPrefix.head? = some '/' := by
    rw [htrimmed]
    exact head?_trimSlashes hpath
  have htwice : endpoint.pathPrefix = trimSlashes endpoint.pathPrefix := by
    rw [htrimmed]
    exact (List.rdropWhile_idempotent _ _).symm
  exact .intro _ endpoint.authority endpoint.pathPrefix endpoint hscheme
    (hnot (by decide) (by decide) (by decide)) hprefix (hnot (by decide) (by decide) (by decide))
    (authorityIs_authority (havoid (by decide)) (havoid (by decide)) (lt_of_authorityIs hauthority))
    hhost htwice

/-! ### The condition -/

/-- What a path holds is not lost with the slashes at its end. -/
theorem mem_trimSlashes {path : List Char} {c : Char} (h : c ∈ path) (hc : c ≠ '/') :
    c ∈ trimSlashes path := by
  have hparts : path = path.rdropWhile (· == '/') ++ path.rtakeWhile (· == '/') :=
    List.rdropWhile_append_rtakeWhile.symm
  rw [hparts] at h
  rcases List.mem_append.1 h with h | h
  · exact h
  · have hslash := List.mem_rtakeWhile_imp h
    exact absurd (beq_iff_eq.1 hslash) hc

/-- An authority holds a question mark, or a hash, only in its host. -/
theorem mem_host_of_authorityIs {text host : List Char} {n : ℕ} (h : AuthorityIs secure text host n)
    {d : Char} (hd : d ∈ ['?', '#']) (hmem : d ∈ text) : d ∈ host := by
  have hopen : d ≠ '[' := fun heq ↦ absurd (heq ▸ hd) (by decide)
  have hclose : d ≠ ']' := fun heq ↦ absurd (heq ▸ hd) (by decide)
  have hcolon : d ≠ ':' := fun heq ↦ absurd (heq ▸ hd) (by decide)
  have hport : ∀ {port m}, parseU16 port = some m → d ∉ port := by
    intro port m hparse hin
    rcases mem_of_parseU16 hparse hin with rfl | hdigit
    · exact absurd hd (by decide)
    · rcases List.mem_cons.1 hd with rfl | hd
      · exact absurd hdigit (by decide)
      · rw [List.mem_singleton.1 hd] at hdigit
        exact absurd hdigit (by decide)
  cases h with
  | literal host hhost => simpa [hopen, hclose] using hmem
  | literalPort host port n hhost hparse => simpa [hopen, hclose, hcolon, hport hparse] using hmem
  | name host hhead hhost => exact hmem
  | namePort host port n hhead hparse => simpa [hcolon, hport hparse] using hmem

/-- **Nothing ends a component that the parser does not know of.** A reading that says what the parser
says has no query and no fragment. -/
theorem plain_of_reads {reading : Reading url} (h : Taken url endpoint) (hreads : Reads reading endpoint) :
    reading.query = none ∧ reading.fragment = none := by
  rcases h with ⟨scheme, authority, path, endpoint, hscheme, -, -, -, hauthority, -, htrimmed⟩
  have hreadslash : '/' ∉ reading.scheme := Uri.avoids_scheme.not_mem reading.scheme_mem (by decide)
  obtain ⟨-, hrest⟩ := scheme_eq (slash_not_mem hscheme) hreadslash reading.text
  have hnot : ∀ d ∈ ['?', '#'], d ∉ led '?' reading.query ++ led '#' reading.fragment := by
    intro d hd htail
    have hmem : d ∈ authority ++ path := by
      rw [hrest]
      exact List.mem_append_right _ (List.mem_append_right _ htail)
    rcases List.mem_append.1 hmem with hmem | hmem
    · have hhost := mem_host_of_authorityIs hauthority hd hmem
      rw [hreads.host] at hhost
      have houter : d ∈ Uri.outerDelims := by
        rcases List.mem_cons.1 hd with rfl | hd
        · decide
        · rw [List.mem_singleton.1 hd]
          decide
      exact reading.host.avoids houter hhost
    · have hslash : d ≠ '/' := fun heq ↦ absurd (heq ▸ hd) (by decide)
      have htrim := mem_trimSlashes hmem hslash
      rw [← htrimmed, hreads.path] at htrim
      exact Uri.avoids_pathAbempty.not_mem reading.path_mem hd
        ((List.rdropWhile_prefix _ _).subset htrim)
  constructor
  · rcases hquery : reading.query with - | q
    · rfl
    · rw [hquery] at hnot
      exact absurd (List.mem_append_left _ List.mem_cons_self) (hnot '?' List.mem_cons_self)
  · rcases hfragment : reading.fragment with - | f
    · rfl
    · rw [hfragment] at hnot
      exact absurd (List.mem_append_right _ List.mem_cons_self)
        (hnot '#' (List.mem_cons_of_mem _ List.mem_cons_self))

/-- **What is taken for a URL keeps its meaning** exactly if it is a URL without a query and a fragment. -/
theorem endpoint_faithful_iff (described : String) (url : List Char) :
    Faithful described url ↔ ((∃ endpoint, Taken url endpoint) → Plain url) := by
  constructor
  · rintro hfaithful ⟨endpoint, htaken⟩
    obtain ⟨⟨reading, hreads⟩, -⟩ := hfaithful endpoint (parse_eq_ok_iff.2 htaken)
    exact ⟨reading, plain_of_reads htaken hreads⟩
  · intro hplain endpoint hparse
    have htaken := parse_eq_ok_iff.1 hparse
    obtain ⟨reading, hquery, hfragment⟩ := hplain ⟨endpoint, htaken⟩
    have hreads := reads_of_taken htaken reading hquery hfragment
    exact ⟨⟨reading, hreads⟩, parse_eq_ok_iff.2 (taken_rendered htaken hreads)⟩

end Plain

/-- **A question mark in a host**: the query of a URL is taken for a part of its host. -/
theorem not_faithful_query : ¬ ∀ described url, Faithful described url := by
  intro hall
  have hparse : Endpoint.parse "http://config.internal?x=1".toList "config-server" =
      .ok ⟨false, "config.internal?x=1".toList, 80, []⟩ := by decide
  obtain ⟨⟨reading, hreads⟩, -⟩ := hall _ _ _ hparse
  have hmem : '?' ∈ reading.host.inner := by
    rw [← hreads.host]
    decide
  exact reading.host.avoids (by decide) hmem

end DynamicConfig.Http
