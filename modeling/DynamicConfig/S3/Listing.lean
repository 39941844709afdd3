import DynamicConfig.Git.Walk
import DynamicConfig.Stores.Prefix
import DynamicConfig.Transition.Paging
import Mathlib.Data.String.Basic

/-!
# The objects under a prefix

`ListObjectsV2` hands the keys under a prefix out in pages, in the order of their bytes, and a token with
every page but the last. `listed` follows the tokens, leaves out the empty objects a console makes for
folders, and gives up on more keys than the budget, on more pages than the cap, and on a key that is not
under the prefix.

What a listing returns it returns of any store (`allowed_of_listed`). Of a store that pages as it promises,
and is written to between the pages, it is in order, nothing that was there throughout is missing, and
nothing that was never there is listed (`listed_of_writes`). Of one that is not written to it is exactly
what is there, and `documents_eq_ok_iff` says when there is too much.
-/

namespace DynamicConfig.S3

open Etcd (MOST_KEYS)
open Git (underPrefix withinKeyBudget withinKeyBudget_eq_ok_iff)
open Paging (Serves Paged)

/-- The most pages one listing will read. -/
def MOST_LIST_PAGES : ℕ := 32

/-- How many keys a page is asked for. -/
def perPage : ℕ := MOST_KEYS + 1

/-- One page: the keys of its objects, where they have one, and the token to go on with. -/
structure Page where
  contents : List (Option String)
  nextContinuationToken : Option String

/-- What the store answers to the `n`-th request, with the token it is given. -/
abbrev Respond := ℕ → Option String → Except Error Page

/-- What a source reads. -/
inductive Keys where
  | one (key : String)
  | several (keys : List String)
  | under (root : String)

/-- The overlap of what a source reads. -/
def Keys.overlap : Keys → Overlap
  | .one _ | .several _ => .laterWins
  | .under _ => .refused

section

variable (describe : String)

/-- One object of a page. -/
def hold (root : String) (found : List String) : Option String → Except Error (List String)
  | none => .ok found
  | some key => do
    underPrefix key root describe
    -- The empty object a console makes for a folder.
    if key.toList.getLast? = some '/' then .ok found else .ok (found ++ [key])

/-- The pages from one on, as many as are left. -/
def listedFrom (respond : Respond) (root : String) :
    ℕ → ℕ → Option String → List String → Except Error (List String)
  | 0, _, _, _ =>
    .error (.remote (describe ++ ": the listing did not finish in " ++ toString MOST_LIST_PAGES ++
      " pages; the store is not advancing the continuation token"))
  | rounds + 1, n, token, found => do
    let page ← respond n token
    let found ← page.contents.foldlM (hold describe root) found
    withinKeyBudget found.length describe
    match page.nextContinuationToken with
    | none => .ok found
    | some token => listedFrom respond root rounds (n + 1) (some token) found

/-- Every key under a prefix. -/
def listed (respond : Respond) (root : String) : Except Error (List String) :=
  listedFrom describe respond root MOST_LIST_PAGES 0 none []

/-- The documents at some keys, all of which must answer. -/
def read (object : String → Except Error String) (keys : List String) :
    Except Error (List (String × String)) :=
  keys.mapM fun key ↦ (object key).map fun text ↦ (key, text)

/-- The keys and documents a source reads, in the order of the merge. -/
def documents (respond : Respond) (object : String → Except Error String) (keys : Keys) :
    Except Error (List (String × String)) := do
  let keys ← match keys with
    | .one key => .ok [key]
    | .several keys => .ok keys
    | .under root => listed describe respond root
  if keys.isEmpty then
    .error (.remote (describe ++ ": nothing matched, so there is nothing to load"))
  else read object keys

end

/-! ### What a page adds -/

/-- Whether a key is of a document under a prefix. -/
def isDocument (root key : String) : Bool :=
  root.toList.isPrefixOf key.toList && !decide (key.toList.getLast? = some '/')

/-- Whether a key is under a prefix. -/
def isUnder (root key : String) : Bool := root.toList.isPrefixOf key.toList

variable {describe root : String}

theorem hold_eq_ok_iff {found result : List String} {object : Option String} :
    hold describe root found object = .ok result ↔
      object.all (isUnder root) = true ∧ result = found ++ object.toList.filter (isDocument root) := by
  cases object with
  | none =>
    constructor
    · intro h
      cases h
      simp
    · rintro ⟨-, rfl⟩
      simp [hold]
  | some key =>
    cases hunder : root.toList.isPrefixOf key.toList with
    | false =>
      constructor
      · intro h
        obtain ⟨_, hok, _⟩ := exists_of_bind_eq_ok h
        unfold underPrefix at hok
        split at hok
        · next htrue =>
          rw [hunder] at htrue
          cases htrue
        · cases hok
      · rintro ⟨hall, -⟩
        rw [Option.all_some, isUnder, hunder] at hall
        cases hall
    | true =>
      have hok : underPrefix key root describe = .ok () := if_pos hunder
      have hhold : hold describe root found (some key) =
          if key.toList.getLast? = some '/' then .ok found else .ok (found ++ [key]) := by
        rw [hold, hok]
        rfl
      rw [hhold, Option.all_some, isUnder, Option.toList_some, List.filter_cons,
        List.filter_nil, isDocument, hunder]
      by_cases hfolder : key.toList.getLast? = some '/'
      · simp only [hfolder, if_true, decide_true, Bool.not_true, Bool.and_false, Bool.false_eq_true,
          if_false, List.append_nil, true_and, Except.ok.injEq]
        exact eq_comm
      · simp only [hfolder, if_false, decide_false, Bool.not_false, Bool.and_true, if_true, true_and,
          Except.ok.injEq]
        exact eq_comm

/-- **What a page adds**: the documents among its keys, where all are under the prefix. -/
theorem foldlM_hold_eq_ok_iff {contents : List (Option String)} {found result : List String} :
    contents.foldlM (hold describe root) found = .ok result ↔
      (∀ key ∈ contents.reduceOption, isUnder root key = true) ∧
        result = found ++ contents.reduceOption.filter (isDocument root) := by
  induction contents generalizing found with
  | nil =>
    constructor
    · intro h
      cases h
      simp
    · rintro ⟨-, rfl⟩
      simp [pure, Except.pure]
  | cons object contents ih =>
    rw [List.foldlM_cons]
    constructor
    · intro h
      obtain ⟨held, hheld, hrest⟩ := exists_of_bind_eq_ok h
      obtain ⟨hunder, rfl⟩ := hold_eq_ok_iff.1 hheld
      obtain ⟨hall, rfl⟩ := ih.1 hrest
      cases object with
      | none => exact ⟨hall, by simp⟩
      | some key =>
        refine ⟨fun other hother ↦ ?_, ?_⟩
        · rw [List.reduceOption_cons_of_some, List.mem_cons] at hother
          rcases hother with rfl | hother
          · simpa using hunder
          · exact hall other hother
        · rw [List.reduceOption_cons_of_some, List.append_assoc, Option.toList_some,
            ← List.filter_append, List.singleton_append]
    · rintro ⟨hall, rfl⟩
      cases object with
      | none => exact ih.2 ⟨hall, rfl⟩
      | some key =>
        rw [List.reduceOption_cons_of_some, List.forall_mem_cons] at hall
        have hheld : hold describe root found (some key) =
            .ok (found ++ [key].filter (isDocument root)) :=
          hold_eq_ok_iff.2 ⟨hall.1, rfl⟩
        rw [hheld]
        refine ih.2 ⟨hall.2, ?_⟩
        rw [List.reduceOption_cons_of_some, List.append_assoc, ← List.filter_append]
        rfl

/-! ### Rounds -/

variable {respond : Respond} {rounds n : ℕ} {token : Option String} {found result : List String}

/-- The documents among the keys of a page. -/
def Page.documents (root : String) (page : Page) : List String :=
  page.contents.reduceOption.filter (isDocument root)

/-- **One round**: a page of keys under the prefix, within the budget with what was found before, and
the next where it has a token. -/
theorem listedFrom_succ_eq_ok_iff :
    listedFrom describe respond root (rounds + 1) n token found = .ok result ↔
      ∃ page, respond n token = .ok page ∧
        (∀ key ∈ page.contents.reduceOption, isUnder root key = true) ∧
        (found ++ page.documents root).length ≤ MOST_KEYS ∧
        match page.nextContinuationToken with
        | none => result = found ++ page.documents root
        | some token => listedFrom describe respond root rounds (n + 1) (some token)
            (found ++ page.documents root) = .ok result := by
  rw [listedFrom]
  constructor
  · intro h
    obtain ⟨page, hpage, hrest⟩ := exists_of_bind_eq_ok h
    obtain ⟨held, hheld, hrest⟩ := exists_of_bind_eq_ok hrest
    obtain ⟨u, hbudget, hrest⟩ := exists_of_bind_eq_ok hrest
    obtain ⟨hunder, rfl⟩ := foldlM_hold_eq_ok_iff.1 hheld
    refine ⟨page, hpage, hunder, withinKeyBudget_eq_ok_iff.1 hbudget, ?_⟩
    cases hnext : page.nextContinuationToken with
    | none =>
      rw [hnext] at hrest
      exact (Except.ok.inj hrest).symm
    | some token =>
      rw [hnext] at hrest
      exact hrest
  · rintro ⟨page, hpage, hunder, hbudget, hnext⟩
    have hheld : page.contents.foldlM (hold describe root) found =
        .ok (found ++ page.documents root) := foldlM_hold_eq_ok_iff.2 ⟨hunder, rfl⟩
    have hwithin : withinKeyBudget (found ++ page.documents root).length describe = .ok () :=
      withinKeyBudget_eq_ok_iff.2 hbudget
    rw [hpage]
    change (page.contents.foldlM (hold describe root) found >>= _) = _
    rw [hheld]
    change (withinKeyBudget (found ++ page.documents root).length describe >>= _) = _
    rw [hwithin]
    cases htoken : page.nextContinuationToken with
    | none =>
      rw [htoken] at hnext
      exact congrArg Except.ok hnext.symm
    | some token =>
      rw [htoken] at hnext
      exact hnext

/-- **What any store can make it list**: documents under the prefix, within the budget. -/
theorem allowed_of_listedFrom
    (h : listedFrom describe respond root rounds n token found = .ok result) :
    result.length ≤ MOST_KEYS ∧
      ((∀ key ∈ found, isDocument root key = true) → ∀ key ∈ result, isDocument root key = true) := by
  induction rounds generalizing n token found with
  | zero => cases h
  | succ rounds ih =>
    obtain ⟨page, -, -, hbudget, hnext⟩ := listedFrom_succ_eq_ok_iff.1 h
    have hpage : (∀ key ∈ found, isDocument root key = true) →
        ∀ key ∈ found ++ page.documents root, isDocument root key = true := by
      intro hfound key hkey
      exact (List.mem_append.1 hkey).elim (hfound key) fun hmem ↦ (List.mem_filter.1 hmem).2
    split at hnext
    · rw [hnext]
      exact ⟨hbudget, hpage⟩
    · obtain ⟨hlength, hdocuments⟩ := ih hnext
      exact ⟨hlength, fun hfound ↦ hdocuments (hpage hfound)⟩

/-! ### A store that is written to -/

/-- The keys under a prefix that a bucket holds. -/
def under (root : String) (bucket : List String) : List String := bucket.filter (isUnder root)

/-- A store that pages as it promises, whatever it holds at each request: the bucket in the order of its
keys, and each token the mark of a key. -/
structure Faithful (root : String) (bucket : ℕ → List String) (mark : String → String)
    (respond : Respond) : Prop where
  sorted : ∀ n, (bucket n).Pairwise (· < ·)
  serves : ∀ n token page, respond n token = .ok page →
    Serves (under root (bucket n)) (token.map mark) page.contents.reduceOption
      (page.nextContinuationToken.map mark)

/-- The pages of a listing, each requested with the token of the one before it, up to one without a
token. -/
inductive Requested (respond : Respond) : ℕ → Option String → List Page → Prop
  | last {n : ℕ} {token : Option String} {page : Page} (answered : respond n token = .ok page)
      (ends : page.nextContinuationToken = none) : Requested respond n token [page]
  | next {n : ℕ} {token : Option String} {page : Page} {t : String} {pages : List Page}
      (answered : respond n token = .ok page) (goesOn : page.nextContinuationToken = some t)
      (rest : Requested respond (n + 1) (some t) pages) : Requested respond n token (page :: pages)

/-- A listing is a reading page by page. -/
theorem Faithful.paged {bucket : ℕ → List String} {mark : String → String}
    (hfaithful : Faithful root bucket mark respond)
    (h : listedFrom describe respond root rounds n token found = .ok result) :
    ∃ pages, Requested respond n token pages ∧
      Paged (fun i ↦ under root (bucket i)) n (token.map mark)
        (pages.map fun page ↦ page.contents.reduceOption) ∧
      pages.length ≤ rounds ∧ result = found ++ pages.flatMap (Page.documents root) := by
  induction rounds generalizing n token found with
  | zero => cases h
  | succ rounds ih =>
    obtain ⟨page, hpage, -, -, hnext⟩ := listedFrom_succ_eq_ok_iff.1 h
    have hserves := hfaithful.serves n token page hpage
    cases htoken : page.nextContinuationToken with
    | none =>
      rw [htoken] at hnext hserves
      refine ⟨[page], .last hpage htoken, .last hserves, Nat.le_add_left 1 rounds, ?_⟩
      rw [hnext, List.flatMap_singleton]
    | some next =>
      rw [htoken] at hnext hserves
      obtain ⟨pages, hrequested, hpaged, hlength, rfl⟩ := ih hnext
      refine ⟨page :: pages, .next hpage htoken hrequested, .next hserves hpaged,
        Nat.succ_le_succ hlength, ?_⟩
      rw [List.flatMap_cons, List.append_assoc]

/-- What is read is read of the store, each document under its key. -/
theorem read_eq_ok_iff {object : String → Except Error String} {keys : List String}
    {pairs : List (String × String)} :
    read object keys = .ok pairs ↔
      pairs.map Prod.fst = keys ∧ ∀ pair ∈ pairs, object pair.1 = .ok pair.2 := by
  rw [read]
  induction keys generalizing pairs with
  | nil =>
    rw [List.mapM_nil, List.map_eq_nil_iff]
    constructor
    · intro h
      cases h
      exact ⟨rfl, fun _ hpair ↦ absurd hpair List.not_mem_nil⟩
    · rintro ⟨rfl, -⟩
      rfl
  | cons key keys ih =>
    rw [List.mapM_cons]
    constructor
    · intro h
      obtain ⟨pair, hpair, hrest⟩ := exists_of_bind_eq_ok h
      obtain ⟨rest, hread, hpairs⟩ := exists_of_bind_eq_ok hrest
      obtain ⟨rfl, hall⟩ := ih.1 hread
      cases hpairs
      cases hobject : object key with
      | error error =>
        rw [hobject] at hpair
        cases hpair
      | ok text =>
        rw [hobject] at hpair
        cases hpair
        refine ⟨rfl, List.forall_mem_cons.2 ⟨hobject, hall⟩⟩
    · rintro ⟨hkeys, hall⟩
      cases pairs with
      | nil => cases hkeys
      | cons pair pairs =>
        obtain ⟨rfl, rfl⟩ := List.cons.inj hkeys
        rw [List.forall_mem_cons] at hall
        rw [hall.1, ih.2 ⟨rfl, hall.2⟩]
        rfl

/-- What a source under a prefix reads is what is listed, where that is something. -/
theorem documents_under_eq_ok_iff {object : String → Except Error String}
    {pairs : List (String × String)} :
    documents describe respond object (.under root) = .ok pairs ↔
      listed describe respond root = .ok (pairs.map Prod.fst) ∧ pairs ≠ [] ∧
        ∀ pair ∈ pairs, object pair.1 = .ok pair.2 := by
  rw [documents]
  constructor
  · intro h
    obtain ⟨keys, hkeys, hrest⟩ := exists_of_bind_eq_ok h
    dsimp only at hrest
    split at hrest
    · cases hrest
    · next hsome =>
      obtain ⟨rfl, hall⟩ := read_eq_ok_iff.1 hrest
      exact ⟨hkeys, by simpa using hsome, hall⟩
  · rintro ⟨hlisted, hsome, hall⟩
    rw [hlisted]
    change (if (pairs.map Prod.fst).isEmpty then _ else _) = _
    rw [if_neg (by simpa using hsome)]
    exact read_eq_ok_iff.2 ⟨rfl, hall⟩

/-- **A prefix that is written to while it is listed.** What a source reads are documents under its prefix,
strictly in order and so each of them once, within the budget. Each was in the bucket at one of the
pages that were requested, and what was there at all of these is read. -/
theorem documents_of_writes (describe root : String) (respond : Respond) (bucket : ℕ → List String)
    (mark : String → String) (object : String → Except Error String)
    (hfaithful : Faithful root bucket mark respond) (pairs : List (String × String))
    (h : documents describe respond object (.under root) = .ok pairs) :
    (pairs.map Prod.fst).Pairwise (· < ·) ∧ pairs.length ≤ MOST_KEYS ∧
      ∃ pages, Requested respond 0 none pages ∧ pages.length ≤ MOST_LIST_PAGES ∧
        (∀ pair ∈ pairs, isDocument root pair.1 = true ∧ object pair.1 = .ok pair.2 ∧
          ∃ n < pages.length, pair.1 ∈ bucket n) ∧
        ∀ key, isDocument root key = true → (∀ n < pages.length, key ∈ bucket n) →
          key ∈ pairs.map Prod.fst := by
  obtain ⟨hlisted, -, hobjects⟩ := documents_under_eq_ok_iff.1 h
  obtain ⟨hlength, hallowed⟩ := allowed_of_listedFrom hlisted
  obtain ⟨pages, hrequested, hpaged, hpages, hkeys⟩ := hfaithful.paged hlisted
  rw [List.nil_append] at hkeys
  have hflatten : pairs.map Prod.fst =
      (pages.map fun page ↦ page.contents.reduceOption).flatten.filter (isDocument root) := by
    rw [hkeys, List.filter_flatten, List.map_map, List.flatMap_def]
    rfl
  have hsorted : ∀ i, (under root (bucket i)).Pairwise (· < ·) := fun i ↦
    (hfaithful.sorted i).filter _
  refine ⟨hflatten ▸ (hpaged.pairwise hsorted).filter _, by simpa using hlength, pages, hrequested,
    hpages, fun pair hpair ↦ ?_, fun key hdocument hthere ↦ ?_⟩
  · have hkey : pair.1 ∈ pairs.map Prod.fst := List.mem_map_of_mem hpair
    refine ⟨hallowed (fun _ hnone ↦ absurd hnone List.not_mem_nil) _ hkey, hobjects pair hpair, ?_⟩
    rw [hflatten] at hkey
    obtain ⟨i, hi, hmem⟩ := hpaged.exists_stored (List.mem_filter.1 hkey).1
    rw [List.length_map] at hi
    exact ⟨i, by omega, (List.mem_filter.1 hmem).1⟩
  · rw [hflatten]
    refine List.mem_filter.2 ⟨hpaged.complete rfl fun i hi ↦ ?_, hdocument⟩
    rw [List.length_map] at hi
    refine List.mem_filter.2 ⟨hthere i (by omega), ?_⟩
    exact (Bool.and_eq_true_iff.1 hdocument).1

/-- A bucket of a folder and two documents, with a third from the second page on. -/
def written (n : ℕ) : List String :=
  if n = 0 then ["app/", "app/a.toml", "app/c.toml"]
  else ["app/", "app/a.toml", "app/b.toml", "app/c.toml"]

/-- Its two pages. The token is the key it goes on from. -/
def inTwo : Respond := fun n token ↦
  if n = 0 ∧ token = none then .ok ⟨[some "app/", some "app/a.toml"], some "app/a.toml"⟩
  else if n = 1 ∧ token = some "app/a.toml" then .ok ⟨[some "app/b.toml", none, some "app/c.toml"], none⟩
  else .error (.remote "s3 bucket/app/: no such page")

theorem faithful_inTwo : Faithful "app/" written id inTwo := by
  refine ⟨fun n ↦ ?_, fun n token page hpage ↦ ?_⟩
  · rw [written]
    split <;> decide
  · rw [inTwo] at hpage
    split at hpage
    · next hfirst =>
      obtain ⟨rfl, rfl⟩ := hfirst
      cases hpage
      refine ⟨by decide, fun h ↦ (by cases h), fun m hm ↦ ?_, fun m hm ↦ ?_, fun m m' hm ↦ (by cases hm)⟩
      all_goals
        obtain rfl := Option.some.inj hm
        decide
    · split at hpage
      · next hsecond =>
        obtain ⟨rfl, rfl⟩ := hsecond
        cases hpage
        exact ⟨by decide, fun _ ↦ by decide, fun m hm ↦ (by cases hm), fun m hm ↦ (by cases hm),
          fun m m' _ hm' ↦ (by cases hm')⟩
      · cases hpage

theorem documents_of_writes_inTwo :
    documents "s3 bucket/app/" inTwo .ok (.under "app/") =
        .ok [("app/a.toml", "app/a.toml"), ("app/b.toml", "app/b.toml"), ("app/c.toml", "app/c.toml")] ∧
      ("app/c.toml" ∈ ([("app/a.toml", "app/a.toml"), ("app/b.toml", "app/b.toml"),
        ("app/c.toml", "app/c.toml")] : List (String × String)).map Prod.fst) := by
  have hread : documents "s3 bucket/app/" inTwo .ok (.under "app/") =
      .ok [("app/a.toml", "app/a.toml"), ("app/b.toml", "app/b.toml"), ("app/c.toml", "app/c.toml")] := by
    rfl
  obtain ⟨-, -, pages, -, -, -, hall⟩ :=
    documents_of_writes _ _ _ written id _ faithful_inTwo _ hread
  refine ⟨hread, hall "app/c.toml" (by decide) fun n _ ↦ ?_⟩
  rw [written]
  split <;> decide

/-! ### A store that is not written to -/

/-- A store that holds one bucket, answers every request and fills every page. -/
structure Steady (root : String) (bucket : List String) (mark : String → String) (respond : Respond) :
    Prop where
  sorted : bucket.Pairwise (· < ·)
  answers : ∀ n token, ∃ page, respond n token = .ok page ∧
    Serves (under root bucket) (token.map mark) page.contents.reduceOption
      (page.nextContinuationToken.map mark) ∧
    page.contents.reduceOption = (Paging.left (under root bucket) (token.map mark)).take perPage ∧
    (page.nextContinuationToken = none ↔
      (Paging.left (under root bucket) (token.map mark)).length ≤ perPage)

/-- **What is listed from a page on** is all that is left, exactly where it fits the pages that are left
and the budget. -/
theorem Steady.listedFrom_eq_ok_iff {bucket : List String} {mark : String → String}
    (hsteady : Steady root bucket mark respond) :
    listedFrom describe respond root rounds n token found = .ok result ↔
      0 < rounds ∧ (Paging.left (under root bucket) (token.map mark)).length ≤ rounds * perPage ∧
        result = found ++
          (Paging.left (under root bucket) (token.map mark)).filter (isDocument root) ∧
        result.length ≤ MOST_KEYS := by
  induction rounds generalizing n token found with
  | zero => exact iff_of_false (fun h ↦ by cases h) fun h ↦ absurd h.1 (Nat.lt_irrefl 0)
  | succ rounds ih =>
    obtain ⟨page, hpage, hserves, hfull, hlast⟩ := hsteady.answers n token
    have hunder : ∀ key ∈ page.contents.reduceOption, isUnder root key = true := by
      intro key hkey
      exact (List.mem_filter.1 (Paging.mem_left.1 (hserves.start.subset hkey)).1).2
    rw [listedFrom_succ_eq_ok_iff]
    -- The store answers with this page, and no other.
    have hpages : ∀ P : Page → Prop, (∃ other, respond n token = .ok other ∧ P other) ↔ P page := by
      intro P
      constructor
      · rintro ⟨other, hother, hP⟩
        rw [hpage] at hother
        exact Except.ok.inj hother ▸ hP
      · exact fun hP ↦ ⟨page, hpage, hP⟩
    rw [hpages]
    set rest := Paging.left (under root bucket) (token.map mark) with hrest
    cases hnext : page.nextContinuationToken with
    | none =>
      have hshort : rest.length ≤ perPage := hlast.1 hnext
      have hall : page.documents root = rest.filter (isDocument root) := by
        rw [Page.documents, hfull, List.take_of_length_le hshort]
      rw [hall]
      constructor
      · rintro ⟨-, hbudget, rfl⟩
        refine ⟨Nat.succ_pos rounds, ?_, rfl, hbudget⟩
        rw [Nat.succ_mul]
        omega
      · rintro ⟨-, -, rfl, hbudget⟩
        exact ⟨hunder, hbudget, rfl⟩
    | some next =>
      have hlong : perPage < rest.length := by
        by_contra hshort
        rw [hlast.2 (Nat.le_of_not_lt hshort)] at hnext
        cases hnext
      rw [hnext] at hserves
      have hleft : Paging.left (under root bucket) ((some next).map mark) = rest.drop perPage := by
        rw [Option.map_some, hserves.left_eq (hsteady.sorted.filter _), hfull, List.length_take,
          Nat.min_eq_left hlong.le]
      have hdocuments : page.documents root ++ (rest.drop perPage).filter (isDocument root) =
          rest.filter (isDocument root) := by
        rw [Page.documents, hfull, ← List.filter_append, List.take_append_drop]
      show _ ∧ _ ∧ listedFrom describe respond root rounds (n + 1) (some next)
        (found ++ page.documents root) = .ok result ↔ _
      rw [ih, hleft, List.length_drop, List.append_assoc, hdocuments, Nat.succ_mul]
      constructor
      · rintro ⟨-, -, hpos, hlength, rfl, hbudget⟩
        exact ⟨Nat.succ_pos rounds, by omega, rfl, hbudget⟩
      · rintro ⟨-, hlength, rfl, hbudget⟩
        have hpos : 0 < rounds := by
          rcases Nat.eq_zero_or_pos rounds with rfl | hpos
          · omega
          · exact hpos
        refine ⟨hunder, ?_, hpos, by omega, rfl, hbudget⟩
        rw [← hdocuments, ← List.append_assoc, List.length_append] at hbudget
        omega

/-- **A prefix that is not written to.** What a source reads are exactly the documents that the bucket has
under its prefix, in the order of their keys, and it reads them exactly where there are some, no more than
the budget, and with the folders no more keys than the pages hold. -/
theorem documents_eq_ok_iff (describe root : String) (respond : Respond) (bucket : List String)
    (mark : String → String) (object : String → Except Error String)
    (hsteady : Steady root bucket mark respond) (pairs : List (String × String)) :
    documents describe respond object (.under root) = .ok pairs ↔
      pairs.map Prod.fst = bucket.filter (isDocument root) ∧
        (∀ pair ∈ pairs, object pair.1 = .ok pair.2) ∧ pairs ≠ [] ∧ pairs.length ≤ MOST_KEYS ∧
        (under root bucket).length ≤ MOST_LIST_PAGES * perPage := by
  have hfilter : (under root bucket).filter (isDocument root) = bucket.filter (isDocument root) := by
    rw [under, List.filter_filter]
    refine List.filter_congr fun key _ ↦ ?_
    cases hunder : isUnder root key with
    | true => exact Bool.and_true _
    | false =>
      rw [isUnder] at hunder
      rw [isDocument, hunder]
      rfl
  rw [documents_under_eq_ok_iff, listed, hsteady.listedFrom_eq_ok_iff, Option.map_none,
    Paging.left_none, List.nil_append, hfilter, List.length_map]
  constructor
  · rintro ⟨⟨-, hpages, hkeys, hbudget⟩, hsome, hall⟩
    exact ⟨hkeys, hall, hsome, hbudget, hpages⟩
  · rintro ⟨hkeys, hall, hsome, hbudget, hpages⟩
    exact ⟨⟨by decide, hpages, hkeys, hbudget⟩, hsome, hall⟩

/-- A bucket that fits one page. -/
def onePage : Respond := fun _ token ↦
  .ok ⟨((Paging.left ["app/", "app/a.toml", "app/c.toml"] token).map some), none⟩

theorem steady_onePage : Steady "app/" ["app/", "app/a.toml", "app/c.toml", "other"] id onePage := by
  refine ⟨by decide, fun n token ↦ ⟨_, rfl, ?_⟩⟩
  have hunder : under "app/" ["app/", "app/a.toml", "app/c.toml", "other"] =
      ["app/", "app/a.toml", "app/c.toml"] := by decide
  have hshort : (Paging.left ["app/", "app/a.toml", "app/c.toml"] token).length ≤ perPage := by
    refine Nat.le_trans (List.length_filter_le _ _) ?_
    decide
  simp only [hunder, Option.map_id, id, Option.map_none]
  have hcontents : ((Paging.left ["app/", "app/a.toml", "app/c.toml"] token).map some).reduceOption =
      Paging.left ["app/", "app/a.toml", "app/c.toml"] token := by
    rw [List.reduceOption, List.filterMap_map]
    exact List.filterMap_some
  rw [hcontents]
  refine ⟨⟨List.prefix_rfl, fun _ ↦ rfl, fun m hm ↦ (by cases hm), fun m hm ↦ (by cases hm),
    fun m m' _ hm' ↦ (by cases hm')⟩, (List.take_of_length_le hshort).symm, ?_⟩
  exact iff_of_true trivial hshort

theorem documents_eq_ok_iff_onePage :
    documents "s3 bucket/app/" onePage .ok (.under "app/") =
      .ok [("app/a.toml", "app/a.toml"), ("app/c.toml", "app/c.toml")] :=
  (documents_eq_ok_iff _ _ _ _ id _ steady_onePage _).2 (by decide)

end DynamicConfig.S3
