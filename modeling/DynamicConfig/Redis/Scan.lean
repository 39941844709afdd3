import DynamicConfig.Git.Walk
import DynamicConfig.Redis.Source
import DynamicConfig.Text.Glob
import DynamicConfig.Text.Utf8

/-!
# The keys under a prefix

`SCAN` hands the keys out in batches, round after round, each with the cursor to go on with, until the
cursor is zero again. It promises that every key is handed out, in no order and any number of times.
`scan` asks for what matches the escaped prefix and a star, refuses a key that does not begin with the
prefix all the same, and keeps what it has found sorted and without repeats.

`matches_globbed` is what the pattern means, and `scanFrom_eq_ok_iff` is all a scan can end with: the
keys of its batches, each of them once.
-/

namespace DynamicConfig.Redis

open Etcd (MOST_KEYS as_bytes)
open Git (underPrefix withinKeyBudget withinKeyBudget_eq_ok_iff)

/-- How many keys one `SCAN` round asks the server for. -/
def SCAN_BATCH : ℕ := 100

/-- The most `SCAN` rounds one prefix read will make. -/
def MOST_SCAN_ROUNDS : ℕ := 1000

/-! ### The pattern -/

/-- The characters a literal is escaped at. -/
def metacharacter (character : Char) : Bool :=
  ['\\', '*', '?', '[', ']'].contains character

/-- A literal string, escaped so `SCAN MATCH` reads it as itself. -/
def globbed (literal : String) : String :=
  String.ofList (literal.toList.flatMap fun character ↦
    if metacharacter character then ['\\', character] else [character])

/-- The pattern of a prefix. -/
def patternOf (root : String) : String := globbed root ++ "*"

/-- The bytes that mean something in a pattern of the server. -/
def marks : Glob.Marks UInt8 where
  star := 0x2a
  question := 0x3f
  bracket := 0x5b
  backslash := 0x5c
  closing := 0x5d
  caret := 0x5e
  dash := 0x2d
  backslash_ne := by decide

/-- The bytes a literal is escaped at. -/
def metabyte (byte : UInt8) : Bool :=
  [0x5c, 0x2a, 0x3f, 0x5b, 0x5d].contains byte

theorem metacharacter_iff {c : Char} :
    metacharacter c = true ↔ c = '\\' ∨ c = '*' ∨ c = '?' ∨ c = '[' ∨ c = ']' := by
  rw [metacharacter, List.contains_iff_mem]
  simp only [List.mem_cons, List.not_mem_nil, or_false]

theorem metabyte_iff {b : UInt8} :
    metabyte b = true ↔ b = 0x5c ∨ b = 0x2a ∨ b = 0x3f ∨ b = 0x5b ∨ b = 0x5d := by
  rw [metabyte, List.contains_iff_mem]
  simp only [List.mem_cons, List.not_mem_nil, or_false]

/-- A character whose byte is escaped is escaped itself. -/
theorem metacharacter_of_metabyte {c : Char} (hascii : c.val.toNat ≤ 0x7f)
    (h : metabyte (UInt8.ofNat c.val.toNat) = true) : metacharacter c = true := by
  have hchar {d : Char} (hbyte : UInt8.ofNat c.val.toNat = UInt8.ofNat d.val.toNat)
      (hd : d.val.toNat ≤ 0x7f) : c = d := by
    have hnat := congrArg UInt8.toNat hbyte
    rw [UInt8.toNat_ofNat_of_lt' (show c.val.toNat < 2 ^ 8 by omega),
      UInt8.toNat_ofNat_of_lt' (show d.val.toNat < 2 ^ 8 by omega)] at hnat
    exact Char.ext (UInt32.toNat_inj.1 hnat)
  rw [metacharacter_iff]
  rcases metabyte_iff.1 h with h | h | h | h | h
  · exact .inl (hchar h (by decide))
  · exact .inr (.inl (hchar h (by decide)))
  · exact .inr (.inr (.inl (hchar h (by decide))))
  · exact .inr (.inr (.inr (.inl (hchar h (by decide)))))
  · exact .inr (.inr (.inr (.inr (hchar h (by decide)))))

/-- A character is escaped just where one of its bytes is. -/
theorem encode_escaped (c : Char) :
    Utf8.encode (if metacharacter c then ['\\', c] else [c]) =
      Glob.escape marks metabyte (String.utf8EncodeChar c) := by
  split_ifs with hmeta
  · rcases metacharacter_iff.1 hmeta with rfl | rfl | rfl | rfl | rfl <;> rfl
  · have hnone : ∀ b ∈ String.utf8EncodeChar c, metabyte b = false := by
      intro b hb
      by_cases hascii : c.val.toNat ≤ 0x7f
      · rw [Utf8.encodeChar_of_ascii hascii, List.mem_singleton] at hb
        exact eq_false_of_ne_true fun h ↦ hmeta (metacharacter_of_metabyte hascii (hb ▸ h))
      · -- The bytes of any other character are above all of the five.
        have hhigh := (Utf8.mem_encodeChar hascii hb).1
        refine eq_false_of_ne_true fun h ↦ ?_
        rcases metabyte_iff.1 h with rfl | rfl | rfl | rfl | rfl <;> exact absurd hhigh (by decide)
    rw [Glob.escape_eq_self marks hnone, Utf8.encode_cons, Utf8.encode_nil, List.append_nil]

theorem encode_globbed (cs : List Char) :
    Utf8.encode (cs.flatMap fun character ↦
        if metacharacter character then ['\\', character] else [character]) =
      Glob.escape marks metabyte (Utf8.encode cs) := by
  induction cs with
  | nil => rfl
  | cons c cs ih =>
    rw [List.flatMap_cons, Utf8.encode_append, encode_escaped, ih, Utf8.encode_cons,
      Glob.escape_append]

theorem as_bytes_patternOf (root : String) :
    as_bytes (patternOf root) =
      Glob.escape marks metabyte (Utf8.encode root.toList) ++ [marks.star] := by
  rw [as_bytes, Utf8.toList_toUTF8, patternOf, String.toList_append, globbed, String.toList_ofList,
    Utf8.encode_append, encode_globbed]
  rfl

/-- **The pattern of a prefix matches just what begins with the prefix.** -/
theorem matches_globbed (root : String) (text : List UInt8) :
    Glob.Matches marks (as_bytes (patternOf root)) text ↔ as_bytes root <+: text := by
  rw [as_bytes_patternOf, as_bytes, Utf8.toList_toUTF8]
  exact Glob.matches_escape_star marks (by decide)

/-! ### The rounds -/

/-- A `SCAN` command. -/
structure Scan where
  cursor : UInt64
  pattern : String
  count : ℕ

/-- What the server answers at each round: the cursor to go on with and a batch, or an error as it is
classified. -/
abbrev Server := ℕ → Scan → Except Error (UInt64 × List String)

/-- `sort`. The order of the bytes is the order of the characters. -/
def sorted (keys : List String) : List String :=
  keys.mergeSort fun a b ↦ decide (a ≤ b)

/-- `dedup`: of equal neighbours, one. -/
def dedup : List String → List String
  | [] => []
  | key :: keys =>
    match dedup keys with
    | [] => [key]
    | next :: kept => if key = next then next :: kept else key :: next :: kept

/-- What is found once a batch was added. -/
def gathered (found batch : List String) : List String := dedup (sorted (found ++ batch))

/-- The command of a round. -/
def command (root : String) (cursor : UInt64) : Scan := ⟨cursor, patternOf root, SCAN_BATCH⟩

/-- The rounds that are left, from a round, its cursor and what is found. -/
def scanFrom (described : String) (server : Server) (root : String) :
    ℕ → ℕ → UInt64 → List String → Except Error (List String)
  | 0, _, _, _ =>
    .error (.remote (described ++ ": the scan did not finish in " ++ toString MOST_SCAN_ROUNDS ++
      " rounds; the server is not advancing the cursor"))
  | left + 1, round, cursor, found => do
    let (next, batch) ← server round (command root cursor)
    batch.forM fun key ↦ underPrefix key root described
    withinKeyBudget (gathered found batch).length described
    if next = 0 then .ok (gathered found batch)
    else scanFrom described server root left (round + 1) next (gathered found batch)

/-- `scan`. -/
def scan (redis : Source) (server : Server) (root : String) : Except Error (List String) :=
  scanFrom redis.describe server root MOST_SCAN_ROUNDS 0 0 []

/-! ### What is found, sorted and without repeats -/

theorem mem_dedup {keys : List String} {key : String} : key ∈ dedup keys ↔ key ∈ keys := by
  induction keys with
  | nil => rfl
  | cons first keys ih =>
    rw [dedup, List.mem_cons, ← ih]
    rcases dedup keys with - | ⟨next, kept⟩
    · rw [List.mem_singleton]
      simp only [List.not_mem_nil, or_false]
    · show key ∈ (if first = next then next :: kept else first :: next :: kept) ↔ _
      split_ifs with heq
      · -- The first key is the one that is kept.
        rw [heq, List.mem_cons]
        exact ⟨fun h ↦ .inr h, fun h ↦ h.elim .inl id⟩
      · rw [List.mem_cons]

/-- Equal keys of a sorted list are neighbours, so nothing is left twice. -/
theorem pairwise_dedup {keys : List String} (h : keys.Pairwise (· ≤ ·)) :
    (dedup keys).Pairwise (· < ·) := by
  induction keys with
  | nil => exact List.Pairwise.nil
  | cons first keys ih =>
    obtain ⟨hfirst, hkeys⟩ := List.pairwise_cons.1 h
    have hrest := ih hkeys
    have hle : ∀ key ∈ dedup keys, first ≤ key := fun key hkey ↦ hfirst key (mem_dedup.1 hkey)
    rw [dedup]
    rcases hdedup : dedup keys with - | ⟨next, kept⟩
    · exact List.pairwise_singleton _ _
    · rw [hdedup] at hrest hle
      show (if first = next then next :: kept else first :: next :: kept).Pairwise (· < ·)
      split_ifs with heq
      · exact hrest
      · have hlt : first < next := lt_of_le_of_ne (hle next List.mem_cons_self) heq
        refine List.pairwise_cons.2 ⟨fun key hkey ↦ ?_, hrest⟩
        rcases List.mem_cons.1 hkey with rfl | hkey
        · exact hlt
        · exact hlt.trans ((List.pairwise_cons.1 hrest).1 key hkey)

theorem pairwise_sorted (keys : List String) : (sorted keys).Pairwise (· ≤ ·) := by
  have htotal (a b : String) : (decide (a ≤ b) || decide (b ≤ a)) = true := by
    rw [Bool.or_eq_true, decide_eq_true_iff, decide_eq_true_iff]
    exact le_total a b
  have hpairwise : (sorted keys).Pairwise fun a b ↦ decide (a ≤ b) = true :=
    List.pairwise_mergeSort
      (fun a b c hab hbc ↦ decide_eq_true ((of_decide_eq_true hab).trans (of_decide_eq_true hbc)))
      htotal keys
  exact hpairwise.imp of_decide_eq_true

theorem mem_gathered {found batch : List String} {key : String} :
    key ∈ gathered found batch ↔ key ∈ found ∨ key ∈ batch := by
  rw [gathered, mem_dedup, sorted, List.mem_mergeSort, List.mem_append]

theorem pairwise_gathered (found batch : List String) : (gathered found batch).Pairwise (· < ·) :=
  pairwise_dedup (pairwise_sorted _)

/-- Lists of the same keys, each once and in order, are one list. -/
theorem eq_of_mem_iff {found found' : List String} (h : found.Pairwise (· < ·))
    (h' : found'.Pairwise (· < ·)) (hmem : ∀ key, key ∈ found ↔ key ∈ found') : found = found' := by
  have hperm : found.Perm found' := (List.perm_ext_iff_of_nodup h.nodup h'.nodup).2 hmem
  exact hperm.eq_of_pairwise (fun a b _ _ hab hba ↦ absurd hab hba.not_gt) h h'

/-- **A batch after another finds what the two of them find together.** -/
theorem gathered_gathered (found batch more : List String) :
    gathered (gathered found batch) more = gathered found (batch ++ more) := by
  refine eq_of_mem_iff (pairwise_gathered _ _) (pairwise_gathered _ _) fun key ↦ ?_
  rw [mem_gathered, mem_gathered, mem_gathered, List.mem_append, or_assoc]

/-- What is found only grows. -/
theorem length_gathered_le (found batch more : List String) :
    (gathered found batch).length ≤ (gathered found (batch ++ more)).length := by
  refine (List.subperm_of_subset (pairwise_gathered found batch).nodup fun key hkey ↦ ?_).length_le
  rw [mem_gathered] at hkey ⊢
  exact hkey.imp_right (List.mem_append_left more)

/-! ### What a scan ends with -/

theorem underPrefix_eq_ok_iff {key root described : String} {u : Unit} :
    underPrefix key root described = .ok u ↔ as_bytes root <+: as_bytes key := by
  rw [as_bytes, as_bytes, Utf8.toList_toUTF8, Utf8.toList_toUTF8, Utf8.encode_prefix_iff, underPrefix]
  split_ifs with hroot
  · exact iff_of_true rfl (List.isPrefixOf_iff_prefix.1 hroot)
  · exact iff_of_false (fun h ↦ by cases h) fun h ↦ hroot (List.isPrefixOf_iff_prefix.2 h)

theorem forM_underPrefix_eq_ok_iff {batch : List String} {root described : String} {u : Unit} :
    (batch.forM fun key ↦ underPrefix key root described) = .ok u ↔
      ∀ key ∈ batch, as_bytes root <+: as_bytes key := by
  induction batch with
  | nil => exact iff_of_true rfl fun _ h ↦ absurd h List.not_mem_nil
  | cons key batch ih =>
    rw [List.forall_mem_cons, ← ih, ← @underPrefix_eq_ok_iff key root described u]
    constructor
    · intro h
      obtain ⟨⟨⟩, hkey, hbatch⟩ := exists_of_bind_eq_ok h
      exact ⟨hkey, hbatch⟩
    · rintro ⟨hkey, hbatch⟩
      show (underPrefix key root described >>= fun _ ↦
        batch.forM fun key ↦ underPrefix key root described) = _
      rw [hkey]
      exact hbatch

/-- The batches of the rounds from a cursor on, up to the round that ends the scan. -/
inductive Batches (server : Server) (root : String) : ℕ → UInt64 → List (List String) → Prop
  | last {round : ℕ} {cursor : UInt64} {batch : List String} :
    server round (command root cursor) = .ok (0, batch) → Batches server root round cursor [batch]
  | more {round : ℕ} {cursor next : UInt64} {batch : List String} {batches : List (List String)} :
    server round (command root cursor) = .ok (next, batch) → next ≠ 0 →
      Batches server root (round + 1) next batches →
        Batches server root round cursor (batch :: batches)

variable {described root : String} {server : Server} {left round : ℕ} {cursor : UInt64}
  {found result : List String}

/-- What a round does. -/
theorem scanFrom_succ_eq_ok_iff :
    scanFrom described server root (left + 1) round cursor found = .ok result ↔
      ∃ next batch, server round (command root cursor) = .ok (next, batch) ∧
        (∀ key ∈ batch, as_bytes root <+: as_bytes key) ∧
        (gathered found batch).length ≤ MOST_KEYS ∧
        (next = 0 ∧ gathered found batch = result ∨
          next ≠ 0 ∧ scanFrom described server root left (round + 1) next (gathered found batch) =
            .ok result) := by
  rw [scanFrom]
  constructor
  · intro h
    obtain ⟨⟨next, batch⟩, hreply, h⟩ := exists_of_bind_eq_ok h
    obtain ⟨_, hunder, h⟩ := exists_of_bind_eq_ok h
    obtain ⟨_, hbudget, h⟩ := exists_of_bind_eq_ok h
    refine ⟨next, batch, hreply, forM_underPrefix_eq_ok_iff.1 hunder,
      withinKeyBudget_eq_ok_iff.1 hbudget, ?_⟩
    split_ifs at h with hzero
    · exact .inl ⟨hzero, Except.ok.inj h⟩
    · exact .inr ⟨hzero, h⟩
  · rintro ⟨next, batch, hreply, hunder, hbudget, h⟩
    have hunder : (batch.forM fun key ↦ underPrefix key root described) = .ok () :=
      forM_underPrefix_eq_ok_iff.2 hunder
    have hbudget : withinKeyBudget (gathered found batch).length described = .ok () :=
      withinKeyBudget_eq_ok_iff.2 hbudget
    rw [hreply]
    show (do
      batch.forM fun key ↦ underPrefix key root described
      withinKeyBudget (gathered found batch).length described
      if next = 0 then .ok (gathered found batch)
      else scanFrom described server root left (round + 1) next (gathered found batch)) = _
    rw [hunder]
    show (do
      withinKeyBudget (gathered found batch).length described
      if next = 0 then .ok (gathered found batch)
      else scanFrom described server root left (round + 1) next (gathered found batch)) = _
    rw [hbudget]
    rcases h with ⟨hzero, rfl⟩ | ⟨hzero, h⟩
    · exact if_pos hzero
    · exact (if_neg hzero).trans h

/-- **A scan ends with the keys of its batches**, each once and in order, where it ends within its
rounds, every key is under the prefix and there are no more of them than the budget. -/
theorem scanFrom_eq_ok_iff :
    scanFrom described server root left round cursor found = .ok result ↔
      ∃ batches, Batches server root round cursor batches ∧ batches.length ≤ left ∧
        (∀ batch ∈ batches, ∀ key ∈ batch, as_bytes root <+: as_bytes key) ∧
        result = gathered found batches.flatten ∧ result.length ≤ MOST_KEYS := by
  induction left generalizing round cursor found with
  | zero =>
    refine iff_of_false (fun h ↦ by cases h) ?_
    rintro ⟨batches, hbatches, hlength, -⟩
    obtain rfl := List.length_eq_zero_iff.1 (Nat.le_zero.1 hlength)
    cases hbatches
  | succ left ih =>
    rw [scanFrom_succ_eq_ok_iff]
    constructor
    · rintro ⟨next, batch, hreply, hunder, hbudget, ⟨rfl, rfl⟩ | ⟨hzero, h⟩⟩
      · refine ⟨[batch], .last hreply, Nat.le_add_left 1 left, ?_, ?_, hbudget⟩
        · exact fun _ hmem ↦ List.mem_singleton.1 hmem ▸ hunder
        · rw [List.flatten_singleton]
      · obtain ⟨batches, hbatches, hlength, hall, rfl, hresult⟩ := ih.1 h
        refine ⟨batch :: batches, .more hreply hzero hbatches, Nat.succ_le_succ hlength,
          List.forall_mem_cons.2 ⟨hunder, hall⟩, ?_, hresult⟩
        rw [List.flatten_cons, gathered_gathered]
    · rintro ⟨batches, hbatches, hlength, hall, rfl, hresult⟩
      rcases hbatches with ⟨hreply⟩ | ⟨hreply, hzero, hbatches⟩
      · rw [List.flatten_singleton] at hresult ⊢
        exact ⟨0, _, hreply, hall _ List.mem_cons_self, hresult, .inl ⟨rfl, rfl⟩⟩
      · obtain ⟨hunder, hall⟩ := List.forall_mem_cons.1 hall
        rw [List.flatten_cons] at hresult ⊢
        refine ⟨_, _, hreply, hunder, (length_gathered_le _ _ _).trans hresult, .inr ⟨hzero, ?_⟩⟩
        exact ih.2 ⟨_, hbatches, Nat.le_of_succ_le_succ hlength, hall,
          (gathered_gathered _ _ _).symm, hresult⟩

/-! ### A prefix means itself -/

/-- The replies cover the keys that are stored under the prefix: all of these are in a batch, and a
batch has no other key under the prefix. -/
def Covers (server : Server) (root : String) (stored : Set String) : Prop :=
  ∀ batches, Batches server root 0 0 batches → ∀ key, as_bytes root <+: as_bytes key →
    (key ∈ stored ↔ ∃ batch ∈ batches, key ∈ batch)

/-- **A prefix means itself.** Its pattern matches just what begins with it, and replies that cover
the keys under it make a scan return these keys, sorted and each once, or an error. -/
theorem scan_exact (redis : Source) (server : Server) (root : String) :
    (∀ text, Glob.Matches marks (as_bytes (patternOf root)) text ↔ as_bytes root <+: text) ∧
      ∀ stored, Covers server root stored →
        (∃ error, scan redis server root = .error error) ∨
          ∃ found, scan redis server root = .ok found ∧ found.Pairwise (· < ·) ∧
            ∀ key, key ∈ found ↔ key ∈ stored ∧ as_bytes root <+: as_bytes key := by
  refine ⟨matches_globbed root, fun stored hcovers ↦ ?_⟩
  rcases hscan : scan redis server root with error | found
  · exact .inl ⟨error, rfl⟩
  · obtain ⟨batches, hbatches, -, hunder, rfl, -⟩ := scanFrom_eq_ok_iff.1 hscan
    refine .inr ⟨_, rfl, pairwise_gathered _ _, fun key ↦ ?_⟩
    rw [mem_gathered, List.mem_flatten]
    constructor
    · rintro (hnone | ⟨batch, hbatch, hkey⟩)
      · exact absurd hnone List.not_mem_nil
      · have hroot := hunder batch hbatch key hkey
        exact ⟨(hcovers batches hbatches key hroot).2 ⟨batch, hbatch, hkey⟩, hroot⟩
    · rintro ⟨hstored, hroot⟩
      exact .inr ((hcovers batches hbatches key hroot).1 hstored)

/-- A server that hands one of two keys out twice. -/
def twoRounds : Server
  | 0, _ => .ok (7, ["a*2", "a*1"])
  | _ + 1, _ => .ok (0, ["a*1"])

theorem covers_twoRounds : Covers twoRounds "a*" {"a*1", "a*2", "ab"} := by
  intro batches hbatches key hroot
  have heq : batches = [["a*2", "a*1"], ["a*1"]] := by
    rcases hbatches with ⟨hreply⟩ | ⟨hreply, -, hbatches⟩
    · exact absurd (Prod.mk.inj (Except.ok.inj hreply)).1 (by decide)
    · obtain ⟨rfl, rfl⟩ := Prod.mk.inj (Except.ok.inj hreply)
      rcases hbatches with ⟨hreply⟩ | ⟨hreply, hzero, -⟩
      · rw [(Prod.mk.inj (Except.ok.inj hreply)).2]
      · exact absurd (Prod.mk.inj (Except.ok.inj hreply)).1.symm hzero
  have hother : key ≠ "ab" := by
    rintro rfl
    exact absurd hroot (by decide)
  rw [heq, Set.mem_insert_iff, Set.mem_insert_iff, Set.mem_singleton_iff]
  simp only [List.mem_cons, List.not_mem_nil, or_false, exists_eq_or_imp, exists_eq_left]
  tauto

/-- Both keys are found, once each and in order. -/
theorem scan_twoRounds :
    Covers twoRounds "a*" {"a*1", "a*2", "ab"} ∧
      scan ⟨"localhost", .prefixed "a*", none, none⟩ twoRounds "a*" = .ok ["a*1", "a*2"] ∧
        ∀ key, key ∈ ["a*1", "a*2"] ↔
          key ∈ ({"a*1", "a*2", "ab"} : Set String) ∧ as_bytes "a*" <+: as_bytes key := by
  have hgathered : ["a*1", "a*2"] = gathered [] ["a*2", "a*1", "a*1"] := by
    rw [gathered, sorted]
    simp [List.mergeSort, List.MergeSort.Internal.splitInTwo, dedup]
  have hscan : scan ⟨"localhost", .prefixed "a*", none, none⟩ twoRounds "a*" =
      .ok ["a*1", "a*2"] :=
    scanFrom_eq_ok_iff.2 ⟨[["a*2", "a*1"], ["a*1"]], .more rfl (by decide) (.last rfl), by decide,
      by decide, hgathered, by decide⟩
  refine ⟨covers_twoRounds, hscan, ?_⟩
  rcases (scan_exact ⟨"localhost", .prefixed "a*", none, none⟩ twoRounds "a*").2 _ covers_twoRounds with
    ⟨error, herror⟩ | ⟨found, hfound, -, hmem⟩
  · rw [hscan] at herror
    cases herror
  · obtain rfl := Except.ok.inj (hscan.symm.trans hfound)
    exact hmem

end DynamicConfig.Redis
