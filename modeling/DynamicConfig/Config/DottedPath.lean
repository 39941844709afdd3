import Mathlib.Data.List.Basic

/-!
# Dotted key paths

A key path is text: `pool.max_size` is the field `max_size` of the table `pool`. Every part of the
crate that reads one splits it at the dots, so a path is carried as the list of its `segments`.

Splitting is a bijection onto the non-empty lists of dot-free segments: `segments` is injective,
never empty, and turns a dot between two texts into an append. That last fact is what makes a test
on the text (*is one the other with a dot and more behind it*) a prefix test on the segments
(`segments_prefix_iff`).
-/

namespace DynamicConfig

/-- `path.split('.')`. -/
def segments (path : String) : List String :=
  (path.toList.splitOn '.').map String.ofList

/-- The segments a lookup walks: figment stops at the first empty one and answers with what it has
reached, so `"a..b"` and `"a."` both read as `a` and the empty path reads as the root. -/
def walked (path : String) : List String :=
  (segments path).takeWhile fun s ↦ !decide (s = "")

/-- `str::strip_prefix`, on the characters. -/
def stripPrefix (text start : String) : Option String :=
  if start.toList <+: text.toList then some (String.ofList (text.toList.drop start.toList.length))
  else none

@[simp] theorem segments_ne_nil (path : String) : segments path ≠ [] := by
  rw [segments, Ne, List.map_eq_nil_iff]
  exact List.splitOn_ne_nil _ _

theorem segments_injective : Function.Injective segments := by
  intro a b h
  have hsplit : a.toList.splitOn '.' = b.toList.splitOn '.' :=
    List.map_injective_iff.2 (fun _ _ ↦ String.ofList_inj.1) h
  have htext : a.toList = b.toList := by
    have ha : ['.'].intercalate (a.toList.splitOn '.') = a.toList := List.intercalate_splitOn '.'
    have hb : ['.'].intercalate (b.toList.splitOn '.') = b.toList := List.intercalate_splitOn '.'
    rw [← ha, hsplit, hb]
  exact String.toList_inj.1 htext

/-- A dot between two texts is an append of their segments. -/
theorem segments_append_dot (a b : String) :
    segments (a ++ "." ++ b) = segments a ++ segments b := by
  have htext : (a ++ "." ++ b).toList = a.toList ++ '.' :: b.toList := by
    rw [String.toList_append, String.toList_append, List.append_assoc]
    rfl
  rw [segments, htext, List.splitOn_append_cons_self, List.map_append]
  rfl

/-- Text with no dot in it is one segment. -/
theorem segments_eq_singleton {a : String} (h : '.' ∉ a.toList) : segments a = [a] := by
  rw [segments, List.splitOn_eq_singleton h, List.map_singleton, String.ofList_toList]

theorem not_mem_of_mem_splitOn {c : Char} {l xs : List Char} (h : l ∈ xs.splitOn c) : c ∉ l := by
  induction xs generalizing l with
  | nil =>
    rw [List.splitOn_nil, List.mem_singleton] at h
    exact h ▸ List.not_mem_nil
  | cons x xs ih =>
    rw [List.splitOn_cons_eq_if_modifyHead] at h
    obtain ⟨l₀, ls, hsplit⟩ := List.exists_cons_of_ne_nil (List.splitOn_ne_nil c xs)
    by_cases hx : (x == c) = true
    · rw [if_pos hx] at h
      rcases List.mem_cons.1 h with rfl | h
      · exact List.not_mem_nil
      · exact ih h
    · rw [if_neg hx, hsplit, List.modifyHead_cons] at h
      rcases List.mem_cons.1 h with rfl | h
      · have hl₀ : c ∉ l₀ := ih (hsplit ▸ List.mem_cons_self)
        rw [List.mem_cons, not_or]
        exact ⟨fun hcx ↦ hx (by simp [hcx]), hl₀⟩
      · exact ih (hsplit ▸ List.mem_cons_of_mem l₀ h)

/-- Segments hold no dot. -/
theorem not_dot_mem_of_mem_segments {a s : String} (h : s ∈ segments a) : '.' ∉ s.toList := by
  obtain ⟨l, hl, rfl⟩ := List.mem_map.1 h
  rw [String.toList_ofList]
  exact not_mem_of_mem_splitOn hl

/-- The text of a list of segments: the segments with a dot between each. -/
def joined (ss : List String) : String :=
  String.ofList (['.'].intercalate (ss.map String.toList))

/-- Splitting a joined text gives its segments back. -/
theorem segments_joined {ss : List String} (hne : ss ≠ []) (h : ∀ s ∈ ss, '.' ∉ s.toList) :
    segments (joined ss) = ss := by
  have hsplit : (['.'].intercalate (ss.map String.toList)).splitOn '.' = ss.map String.toList := by
    refine List.splitOn_intercalate '.' ?_ (by simpa using hne)
    intro l hl
    obtain ⟨s, hs, rfl⟩ := List.mem_map.1 hl
    exact h s hs
  rw [segments, joined, String.toList_ofList, hsplit, List.map_map]
  exact List.map_id'' (fun s ↦ String.ofList_toList) ss

/-- Joining the segments of a text gives it back. -/
theorem joined_segments (path : String) : joined (segments path) = path :=
  segments_injective
    (segments_joined (segments_ne_nil path) fun _ hs ↦ not_dot_mem_of_mem_segments hs)

/-- **A prefix of the segments is the text itself, or the text before a dot.** -/
theorem segments_prefix_iff {a b : String} :
    segments a <+: segments b ↔ a = b ∨ ∃ rest, b = a ++ "." ++ rest := by
  constructor
  · rintro ⟨r, hr⟩
    rcases r with - | ⟨s, ss⟩
    · exact Or.inl (segments_injective (by rw [← hr, List.append_nil]))
    · have hdot : ∀ t ∈ s :: ss, '.' ∉ t.toList := fun t ht ↦
        not_dot_mem_of_mem_segments (hr ▸ List.mem_append_right _ ht)
      refine Or.inr ⟨joined (s :: ss), segments_injective ?_⟩
      rw [segments_append_dot, segments_joined (by simp) hdot, hr]
  · rintro (rfl | ⟨rest, rfl⟩)
    · exact List.prefix_refl _
    · exact segments_append_dot a rest ▸ List.prefix_append _ _

theorem walked_prefix (path : String) : walked path <+: segments path :=
  List.takeWhile_prefix _

end DynamicConfig
