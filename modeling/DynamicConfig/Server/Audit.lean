import DynamicConfig.Server.Router

/-!
# The audit log

A request leaves one line at most, of words and blanks. Whatever is asked for, it is no part of the line
unless it has the shape of a name, so nothing in a request ends a line early or adds a word to one: where
the clients of a configuration have names of one word, the text of a log determines the entries it was
made of (`logged_eq_of_log_eq`).

The names of clients are the operator's, and are not looked at.
-/

namespace DynamicConfig.Server

/-! ### A line -/

def Outcome.asStr : Outcome → String
  | .served => "served"
  | .unauthenticated => "unauthenticated"
  | .notFound => "not-found"
  | .malformed => "malformed"
  | .unavailable => "unavailable"

namespace AuditEntry

def field (value : Option String) : List Char := (value.getD "-").toList

/-- The generation, as it is written. -/
def count (generation : Option Nat) : List Char := generation.elim ['-'] (Nat.toDigits 10)

/-- How an entry is displayed. -/
def display (entry : AuditEntry) : List Char :=
  "audit caller=".toList ++ (field entry.caller ++ ' ' ::
    ("application=".toList ++ (field entry.application ++ ' ' ::
      ("profile=".toList ++ (field entry.profile ++ ' ' ::
        ("endpoint=".toList ++ (entry.endpoint.toList ++ ' ' ::
          ("outcome=".toList ++ (entry.outcome.asStr.toList ++ ' ' ::
            ("generation=".toList ++ count entry.generation))))))))))

example : display ⟨none, none, none, "document", .unauthenticated, none⟩ =
    ("audit caller=- application=- profile=- endpoint=document " ++
      "outcome=unauthenticated generation=-").toList := by decide

end AuditEntry

/-- What `StderrAudit` has written: a line for each entry. -/
def log (entries : List AuditEntry) : List Char := entries.flatMap fun entry ↦ entry.display ++ ['\n']

/-! ### Words -/

/-- Whether a character ends a word. -/
def breaks (c : Char) : Bool := c == ' ' || c == '\n'

/-- A word, and not the one for what is absent. -/
structure IsWord (value : String) : Prop where
  solid : ∀ c ∈ value.toList, breaks c = false
  ne : value ≠ "-"

/-- A name is a word. -/
theorem isWord_of_isName {value : String} (h : isName value = true) : IsWord value where
  solid c hc := by
    rw [isName] at h
    split at h
    · cases h
    · next first rest hvalue =>
      rw [Bool.and_eq_true, Bool.and_eq_true] at h
      rw [hvalue] at hc
      rw [breaks, Bool.or_eq_false_iff]
      refine ⟨beq_false_of_ne ?_, beq_false_of_ne ?_⟩
      · rintro rfl
        rcases List.mem_cons.1 hc with rfl | hc
        · exact absurd h.1.1 (by decide)
        · exact absurd (List.all_eq_true.1 h.2 _ hc) (by decide)
      · rintro rfl
        rcases List.mem_cons.1 hc with rfl | hc
        · exact absurd h.1.1 (by decide)
        · exact absurd (List.all_eq_true.1 h.2 _ hc) (by decide)
  ne := by
    rintro rfl
    exact absurd h (by decide)

namespace AuditEntry

/-- An entry of words. -/
structure Plain (entry : AuditEntry) : Prop where
  caller : ∀ name ∈ entry.caller, IsWord name
  application : ∀ name ∈ entry.application, IsWord name
  profile : ∀ name ∈ entry.profile, IsWord name
  endpoint : IsWord entry.endpoint

theorem solid_field {value : Option String} (h : ∀ name ∈ value, IsWord name) :
    ∀ c ∈ field value, breaks c = false := by
  rcases value with - | name
  · intro c hc
    rw [List.mem_singleton.1 (show c ∈ ['-'] from hc)]
    rfl
  · exact (h name rfl).solid

theorem field_injective {value value' : Option String} (h : ∀ name ∈ value, IsWord name)
    (h' : ∀ name ∈ value', IsWord name) (heq : field value = field value') : value = value' := by
  have hsame : value.getD "-" = value'.getD "-" := String.toList_inj.1 heq
  rcases value with - | name
  · rcases value' with - | name'
    · rfl
    · exact absurd hsame.symm (h' name' rfl).ne
  · rcases value' with - | name'
    · exact absurd hsame (h name rfl).ne
    · exact congrArg some hsame

theorem solid_outcome (outcome : Outcome) : ∀ c ∈ outcome.asStr.toList, breaks c = false := by
  have hall : (outcome.asStr.toList.all fun c ↦ !breaks c) = true := by
    cases outcome <;> rfl
  exact fun c hc ↦ (Bool.not_eq_true' _).mp (List.all_eq_true.1 hall c hc)

theorem outcome_injective {outcome outcome' : Outcome} (h : outcome.asStr = outcome'.asStr) :
    outcome = outcome' := by
  revert h
  cases outcome <;> cases outcome' <;> decide

theorem solid_count (generation : Option Nat) : ∀ c ∈ count generation, breaks c = false := by
  rcases generation with - | n
  · intro c hc
    rw [List.mem_singleton.1 (show c ∈ ['-'] from hc)]
    rfl
  · intro c hc
    have hbounds := digit_bounds hc
    rw [breaks, Bool.or_eq_false_iff]
    refine ⟨beq_false_of_ne ?_, beq_false_of_ne ?_⟩
    · rintro rfl
      exact absurd hbounds (by decide)
    · rintro rfl
      exact absurd hbounds (by decide)

theorem count_injective {generation generation' : Option Nat} (h : count generation = count generation') :
    generation = generation' := by
  have hdash : ∀ n, ['-'] ≠ Nat.toDigits 10 n := fun n hn ↦
    absurd (digit_bounds (hn ▸ List.mem_cons_self : '-' ∈ Nat.toDigits 10 n)) (by decide)
  rcases generation with - | n
  · rcases generation' with - | n'
    · rfl
    · exact absurd h (hdash n')
  · rcases generation' with - | n'
    · exact absurd h.symm (hdash n)
    · have hdigits := congrArg (fun cs ↦ Nat.ofDigitChars 10 cs 0) h
      show some n = some n'
      rw [← @Nat.ofDigitChars_ten_toDigits n, ← @Nat.ofDigitChars_ten_toDigits n']
      exact congrArg some hdigits

/-- What comes before the first separator, and what after. -/
theorem append_cons_inj {separator : Char} {xs ys zs ws : List Char} (hxs : separator ∉ xs)
    (hys : separator ∉ ys) (h : xs ++ separator :: zs = ys ++ separator :: ws) : xs = ys ∧ zs = ws := by
  induction xs generalizing ys with
  | nil =>
    rcases ys with - | ⟨y, ys⟩
    · exact ⟨rfl, (List.cons.inj h).2⟩
    · exact absurd ((List.cons.inj h).1 ▸ List.mem_cons_self) hys
  | cons x xs ih =>
    rcases ys with - | ⟨y, ys⟩
    · exact absurd ((List.cons.inj h).1 ▸ List.mem_cons_self) hxs
    · obtain ⟨hhead, htail⟩ := List.cons.inj h
      obtain ⟨rfl, hrest⟩ := ih (fun hmem ↦ hxs (List.mem_cons_of_mem x hmem))
        (fun hmem ↦ hys (List.mem_cons_of_mem y hmem)) htail
      exact ⟨congrArg (· :: xs) hhead, hrest⟩

/-- A word ends where the first blank is. -/
theorem word_inj {xs ys zs ws : List Char} (hxs : ∀ c ∈ xs, breaks c = false)
    (hys : ∀ c ∈ ys, breaks c = false) (h : xs ++ ' ' :: zs = ys ++ ' ' :: ws) : xs = ys ∧ zs = ws := by
  have hblank : ∀ cs : List Char, (∀ c ∈ cs, breaks c = false) → ' ' ∉ cs := fun cs hcs hmem ↦
    absurd (hcs _ hmem) (by decide)
  exact append_cons_inj (hblank xs hxs) (hblank ys hys) h

/-- **A line determines its entry.** -/
theorem display_injective {entry entry' : AuditEntry} (h : entry.Plain) (h' : entry'.Plain)
    (heq : entry.display = entry'.display) : entry = entry' := by
  obtain ⟨hcaller, hrest⟩ := word_inj (solid_field h.caller) (solid_field h'.caller)
    (List.append_cancel_left heq)
  obtain ⟨happlication, hrest⟩ := word_inj (solid_field h.application) (solid_field h'.application)
    (List.append_cancel_left hrest)
  obtain ⟨hprofile, hrest⟩ := word_inj (solid_field h.profile) (solid_field h'.profile)
    (List.append_cancel_left hrest)
  obtain ⟨hendpoint, hrest⟩ := word_inj h.endpoint.solid h'.endpoint.solid
    (List.append_cancel_left hrest)
  obtain ⟨houtcome, hrest⟩ := word_inj (solid_outcome entry.outcome) (solid_outcome entry'.outcome)
    (List.append_cancel_left hrest)
  have hgeneration := count_injective (List.append_cancel_left hrest)
  have hcaller := field_injective h.caller h'.caller hcaller
  have happlication := field_injective h.application h'.application happlication
  have hprofile := field_injective h.profile h'.profile hprofile
  have houtcome := outcome_injective (String.toList_inj.1 houtcome)
  have hendpoint := String.toList_inj.1 hendpoint
  rcases entry with ⟨caller, application, profile, endpoint, outcome, generation⟩
  rcases entry' with ⟨caller', application', profile', endpoint', outcome', generation'⟩
  obtain rfl : caller = caller' := hcaller
  obtain rfl : application = application' := happlication
  obtain rfl : profile = profile' := hprofile
  obtain rfl : endpoint = endpoint' := hendpoint
  obtain rfl : outcome = outcome' := houtcome
  obtain rfl : generation = generation' := hgeneration
  rfl

theorem newline_notMem_of_solid {cs : List Char} (h : ∀ c ∈ cs, breaks c = false) : '\n' ∉ cs :=
  fun hmem ↦ Bool.noConfusion ((h '\n' hmem).symm.trans (rfl : breaks '\n' = true))

/-- One part of a line ends none. -/
theorem newline_notMem_part {key part rest : List Char} (hkey : '\n' ∉ key)
    (hpart : ∀ c ∈ part, breaks c = false) (hrest : '\n' ∉ rest) :
    '\n' ∉ key ++ (part ++ ' ' :: rest) := by
  rw [List.mem_append, List.mem_append, List.mem_cons, not_or, not_or, not_or]
  exact ⟨hkey, newline_notMem_of_solid hpart, by decide, hrest⟩

theorem newline_notMem_keys : '\n' ∉ "audit caller=".toList ∧ '\n' ∉ "application=".toList ∧
    '\n' ∉ "profile=".toList ∧ '\n' ∉ "endpoint=".toList ∧ '\n' ∉ "outcome=".toList ∧
      '\n' ∉ "generation=".toList := by
  decide +kernel

/-- It is one line. -/
theorem newline_notMem_display {entry : AuditEntry} (h : entry.Plain) : '\n' ∉ entry.display := by
  obtain ⟨hcaller, happlication, hprofile, hendpoint, houtcome, hgeneration⟩ := newline_notMem_keys
  have hlast : '\n' ∉ "generation=".toList ++ count entry.generation := fun hmem ↦
    (List.mem_append.1 hmem).elim hgeneration (newline_notMem_of_solid (solid_count entry.generation))
  exact newline_notMem_part hcaller (solid_field h.caller)
    (newline_notMem_part happlication (solid_field h.application)
      (newline_notMem_part hprofile (solid_field h.profile)
        (newline_notMem_part hendpoint h.endpoint.solid
          (newline_notMem_part houtcome (solid_outcome entry.outcome) hlast))))

end AuditEntry

/-- **A log determines its entries**, each of them and their order. -/
theorem eq_of_log_eq {entries entries' : List AuditEntry} (h : ∀ entry ∈ entries, entry.Plain)
    (h' : ∀ entry ∈ entries', entry.Plain) (heq : log entries = log entries') : entries = entries' := by
  have hlog : ∀ (entry : AuditEntry) (rest : List AuditEntry),
      log (entry :: rest) = entry.display ++ '\n' :: log rest := fun entry rest ↦ by
    rw [log, List.flatMap_cons, List.append_assoc]
    rfl
  induction entries generalizing entries' with
  | nil =>
    rcases entries' with - | ⟨entry', rest'⟩
    · rfl
    · rw [hlog] at heq
      exact absurd heq (List.append_ne_nil_of_right_ne_nil _ (List.cons_ne_nil _ _)).symm
  | cons entry rest ih =>
    rcases entries' with - | ⟨entry', rest'⟩
    · rw [hlog] at heq
      exact absurd heq (List.append_ne_nil_of_right_ne_nil _ (List.cons_ne_nil _ _))
    · rw [hlog, hlog] at heq
      have hfirst := h entry List.mem_cons_self
      have hfirst' := h' entry' List.mem_cons_self
      obtain ⟨hline, hrest⟩ := AuditEntry.append_cons_inj
        (AuditEntry.newline_notMem_display hfirst) (AuditEntry.newline_notMem_display hfirst') heq
      rw [AuditEntry.display_injective hfirst hfirst' hline,
        ih (fun e he ↦ h e (List.mem_cons_of_mem _ he)) (fun e he ↦ h' e (List.mem_cons_of_mem _ he))
          hrest]

/-! ### What a request leaves -/

/-- A page whose line is of words. -/
def Page.Plain (page : Page) : Prop := ∀ entry ∈ page.audit, entry.Plain

/-- An admitted request that is named by words. -/
structure Admitted.Plain (admitted : Admitted) : Prop where
  caller : IsWord admitted.principal.name
  application : IsWord admitted.section_.application
  profile : IsWord admitted.section_.profile
  endpoint : IsWord admitted.endpoint

theorem Admitted.Plain.audit {admitted : Admitted} (h : admitted.Plain) (outcome : Outcome)
    (generation : Option Nat) : (admitted.audit outcome generation).Plain where
  caller _ hname := Option.some.inj hname ▸ h.caller
  application _ hname := Option.some.inj hname ▸ h.application
  profile _ hname := Option.some.inj hname ▸ h.profile
  endpoint := h.endpoint

theorem plain_refuse {endpoint : String} (outcome : Outcome) {caller : Option String}
    {place : Option (String × String)} (hendpoint : IsWord endpoint)
    (hcaller : ∀ name ∈ caller, IsWord name) (hplace : ∀ p ∈ place, IsWord p.1 ∧ IsWord p.2) :
    (refuse endpoint outcome caller place).audit.Plain where
  caller := hcaller
  application name hname := by
    obtain ⟨p, hp, rfl⟩ := Option.map_eq_some_iff.1 hname
    exact (hplace p hp).1
  profile name hname := by
    obtain ⟨p, hp, rfl⟩ := Option.map_eq_some_iff.1 hname
    exact (hplace p hp).2
  endpoint := hendpoint

theorem plain_answer {answer : Answer} (h : answer.audit.Plain) : answer.page.Plain :=
  fun _ hentry ↦ Option.some.inj hentry ▸ h

/-- Nothing is left by what no caller is looked for. -/
theorem plain_response (response : Response) : response.page.Plain := fun _ hentry ↦ (by cases hentry)

theorem plain_withSection {libraries : Libraries} {application profile : String}
    {handler : String → String → Page} (h : ∀ application profile, (handler application profile).Plain) :
    (withSection libraries application profile handler).Plain := by
  rw [withSection]
  split
  · exact fun _ hentry ↦ (by cases hentry)
  · exact fun _ hentry ↦ (by cases hentry)
  · exact h _ _

section Audit

variable {build : Build} {config : ServerConfig} {server : Server} {headers : HeaderMap}
  {application profile endpoint : String}

/-- Every caller is a client. -/
theorem exists_client (hstarted : Started build config server) {principal : Principal}
    (h : server.authenticator.authenticate (authorization headers) = some principal) :
    ∃ client ∈ config.clients, client.principal = principal := by
  rw [hstarted.authenticator] at h
  rcases hheader : authorization headers with - | header
  · rw [hheader] at h
    obtain ⟨client, hclient, -, hprincipal⟩ := ServerConfig.exists_of_anonymous h
    exact ⟨client, hclient, hprincipal⟩
  · rw [hheader] at h
    obtain ⟨token, hmem, -⟩ := Authenticator.authenticate_some h
    obtain ⟨client, hclient, -, hprincipal⟩ := ServerConfig.mem_clients_authenticator.1 hmem
    exact ⟨client, hclient, hprincipal⟩

variable (hstarted : Started build config server)
  (hnames : ∀ client ∈ config.clients, IsWord client.name)

include hstarted hnames

theorem isWord_caller {principal : Principal}
    (h : server.authenticator.authenticate (authorization headers) = some principal) :
    IsWord principal.name := by
  obtain ⟨client, hclient, rfl⟩ := exists_client hstarted h
  exact hnames client hclient

/-- Who is let in, is let in by names. -/
theorem plain_admitted (hendpoint : IsWord endpoint) {admitted : Admitted}
    (h : admission server headers application profile endpoint = .ok admitted) : admitted.Plain := by
  obtain ⟨hprincipal, hopen, hserved, rfl⟩ := admission_eq_ok_iff.1 h
  have hmem := (lookup_eq_some_iff_mem hstarted.nodup).1 hserved
  obtain ⟨happlication, hprofile⟩ := Prod.mk.inj (hstarted.named _ hmem)
  refine ⟨isWord_caller hstarted hnames hprincipal, ?_, ?_, hendpoint⟩
  · rw [happlication]
    exact isWord_of_isName hopen.named.1
  · rw [hprofile]
    exact isWord_of_isName hopen.named.2

/-- Who is not, is told of by names or not at all. -/
theorem plain_error (hendpoint : IsWord endpoint) {answer : Answer}
    (h : admission server headers application profile endpoint = .error answer) :
    answer.audit.Plain := by
  rw [admission] at h
  rcases hprincipal : server.authenticator.authenticate (authorization headers) with - | principal
  · rw [hprincipal] at h
    obtain rfl := Except.error.inj h
    exact plain_refuse _ hendpoint (fun _ hname ↦ (by cases hname)) fun _ hp ↦ (by cases hp)
  · have hcaller : ∀ name ∈ some principal.name, IsWord name := fun name hname ↦
      Option.some.inj hname ▸ isWord_caller hstarted hnames hprincipal
    rw [hprincipal] at h
    dsimp only at h
    split at h
    · obtain rfl := Except.error.inj h
      exact plain_refuse _ hendpoint hcaller fun _ hp ↦ (by cases hp)
    · next hnamed =>
      rw [← Bool.not_and, Bool.not_eq_true', Bool.not_eq_false, Bool.and_eq_true] at hnamed
      have hplace : ∀ p ∈ some (application, profile), IsWord p.1 ∧ IsWord p.2 := fun p hp ↦
        Option.some.inj hp ▸ ⟨isWord_of_isName hnamed.1, isWord_of_isName hnamed.2⟩
      split at h
      · obtain rfl := Except.error.inj h
        exact plain_refuse _ hendpoint hcaller hplace
      · split at h
        · obtain rfl := Except.error.inj h
          exact plain_refuse _ hendpoint hcaller hplace
        · cases h

/-- An endpoint of a section leaves a line of words. -/
theorem plain_respond (clock : Clock) (application profile : String) (endpoint : Endpoint) :
    (respond clock server headers application profile endpoint).audit.Plain := by
  have hword : ∀ name : String, isName name = true → IsWord name := fun _ ↦ isWord_of_isName
  cases endpoint with
  | document =>
    rw [respond, document]
    rcases hcase : admission server headers application profile "document" with answer | admitted
    · exact plain_error hstarted hnames (hword _ (by decide)) hcase
    · have hplain := plain_admitted hstarted hnames (hword _ (by decide)) hcase
      dsimp only
      split
      · exact hplain.audit _ _
      · exact hplain.audit _ _
  | paths =>
    rw [respond, paths]
    rcases hcase : admission server headers application profile "paths" with answer | admitted
    · exact plain_error hstarted hnames (hword _ (by decide)) hcase
    · have hplain := plain_admitted hstarted hnames (hword _ (by decide)) hcase
      dsimp only
      split
      · exact hplain.audit _ _
      · exact hplain.audit _ _
  | status =>
    rw [respond, status]
    rcases hcase : admission server headers application profile "status" with answer | admitted
    · exact plain_error hstarted hnames (hword _ (by decide)) hcase
    · exact (plain_admitted hstarted hnames (hword _ (by decide)) hcase).audit _ _
  | stream =>
    rw [respond, stream]
    rcases hcase : admission server headers application profile "stream" with answer | admitted
    · exact plain_error hstarted hnames (hword _ (by decide)) hcase
    · have hplain := plain_admitted hstarted hnames (hword _ (by decide)) hcase
      dsimp only
      split
      · exact plain_refuse _ (hword _ (by decide)) (fun _ hname ↦ Option.some.inj hname ▸ hplain.caller)
          fun _ hp ↦ Option.some.inj hp ▸ ⟨hplain.application, hplain.profile⟩
      · split
        · exact hplain.audit _ _
        · exact hplain.audit _ _

end Audit

/-- **Every line is of words**, whatever is asked for. -/
theorem plain_serve (Fig : Type) [Figment Fig] (libraries : Libraries) {build : Build}
    {config : ServerConfig} {site : Site} (hstarted : Started build config site.server)
    (hnames : ∀ client ∈ config.clients, IsWord client.name) (headers : HeaderMap)
    (path : List String) : (serve Fig libraries site headers path).Plain := by
  have hword : ∀ name : String, isName name = true → IsWord name := fun _ ↦ isWord_of_isName
  have hcheck : ∀ application profile,
      (check Fig libraries site headers application profile).audit.Plain := by
    intro application profile
    rw [check]
    rcases hcase : admission site.server headers application profile "check" with answer | admitted
    · exact plain_error hstarted hnames (hword _ (by decide)) hcase
    · have hplain := plain_admitted hstarted hnames (hword _ (by decide)) hcase
      dsimp only
      split
      · exact hplain.audit _ _
      · exact hplain.audit _ _
  have hexplain : ∀ application profile key,
      (explain Fig libraries site headers application profile key).audit.Plain := by
    intro application profile key
    rw [explain]
    rcases hcase : admission site.server headers application profile "explain" with answer | admitted
    · exact plain_error hstarted hnames (hword _ (by decide)) hcase
    · have hplain := plain_admitted hstarted hnames (hword _ (by decide)) hcase
      dsimp only
      split
      · exact plain_refuse _ (hword _ (by decide)) (fun _ hname ↦ Option.some.inj hname ▸ hplain.caller)
          fun _ hp ↦ Option.some.inj hp ▸ ⟨hplain.application, hplain.profile⟩
      · split
        · exact hplain.audit _ _
        · exact hplain.audit _ _
  rw [serve]
  rcases route path with - | found
  · exact plain_response _
  · cases found with
    | healthz => exact plain_response _
    | readyz => exact plain_response _
    | metrics =>
      show (metrics libraries site.server headers).Plain
      rw [metrics]
      rcases hprincipal : site.server.authenticator.authenticate (authorization headers)
        with - | principal
      · exact plain_answer (plain_refuse _ (hword _ (by decide)) (fun _ hname ↦ (by cases hname))
          fun _ hp ↦ (by cases hp))
      · intro entry hentry
        obtain rfl := Option.some.inj hentry
        exact ⟨fun _ hname ↦ Option.some.inj hname ▸ isWord_caller hstarted hnames hprincipal,
          fun _ hname ↦ (by cases hname), fun _ hname ↦ (by cases hname),
          hword "metrics" (by decide)⟩
    | ofSection endpoint application profile =>
      exact plain_withSection fun _ _ ↦ plain_answer (plain_respond hstarted hnames _ _ _ _)
    | check application profile => exact plain_withSection fun _ _ ↦ plain_answer (hcheck _ _)
    | explain application profile key =>
      refine plain_withSection fun _ _ ↦ ?_
      split
      · exact fun _ hentry ↦ (by cases hentry)
      · exact plain_answer (hexplain _ _ _)

/-- A page that a server of a configuration answered with, whatever its sections had come to. -/
def Answered (Fig : Type) [Figment Fig] (libraries : Libraries) (config : ServerConfig)
    (page : Page) : Prop :=
  ∃ (build : Build) (site : Site) (headers : HeaderMap) (path : List String),
    Started build config site.server ∧ page = serve Fig libraries site headers path

/-- **No request forges a line.** Where the clients have names of one word, the text of a log determines
the entries that the requests left, each of them and their order, whatever was asked for. -/
theorem logged_eq_of_log_eq (Fig : Type) [Figment Fig] (libraries : Libraries) {config : ServerConfig}
    (hnames : ∀ client ∈ config.clients, IsWord client.name) {pages pages' : List Page}
    (h : ∀ page ∈ pages, Answered Fig libraries config page)
    (h' : ∀ page ∈ pages', Answered Fig libraries config page)
    (heq : log (pages.filterMap Page.audit) = log (pages'.filterMap Page.audit)) :
    pages.filterMap Page.audit = pages'.filterMap Page.audit := by
  have hplain : ∀ pages : List Page, (∀ page ∈ pages, Answered Fig libraries config page) →
      ∀ entry ∈ pages.filterMap Page.audit, entry.Plain := by
    intro pages hpages entry hentry
    obtain ⟨page, hpage, haudit⟩ := List.mem_filterMap.1 hentry
    obtain ⟨build, site, headers, path, hstarted, rfl⟩ := hpages page hpage
    exact plain_serve Fig libraries hstarted hnames headers path entry haudit
  exact eq_of_log_eq (hplain pages h) (hplain pages' h') heq

/-- What anybody is answered who asks for some paths. -/
def asked (password : String) (paths : List (List String)) : List Page :=
  paths.map (serve Stack plainLibraries (demoSite password) ⟨[]⟩)

/-- A section that is not granted, a document, and a name that would end the line and begin another. -/
def withLineFeed : List (List String) :=
  [["billing", "prod"], ["demo", "prod"], ["demo", "prod\naudit caller=root", "paths"]]

/-- The same, but for a name that would add a word. -/
def withBlank : List (List String) :=
  [["billing", "prod"], ["demo", "prod"], ["demo outcome=served", "prod", "paths"]]

/-- Two logs of one text. -/
theorem logged_eq_of_log_eq_demoSite :
    (asked "hunter2" withLineFeed).filterMap Page.audit =
      (asked "hunter3" withBlank).filterMap Page.audit := by
  have hanswered : ∀ password paths, ∀ page ∈ asked password paths,
      Answered Stack plainLibraries demoConfig page := by
    intro password paths page hpage
    obtain ⟨path, -, rfl⟩ := List.mem_map.1 hpage
    exact ⟨plainBuild, demoSite password, ⟨[]⟩, path, started_demoServer, rfl⟩
  refine logged_eq_of_log_eq Stack plainLibraries (fun client hclient ↦ ?_)
    (hanswered "hunter2" withLineFeed) (hanswered "hunter3" withBlank) (by decide +kernel)
  rcases List.mem_cons.1 hclient with rfl | hclient
  · exact isWord_of_isName (by decide)
  · obtain rfl := List.mem_singleton.1 hclient
    exact isWord_of_isName (by decide)

end DynamicConfig.Server
