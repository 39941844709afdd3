import DynamicConfig.Loader.Providers

/-!
# The variant of a file name

A profile's variant of a file is a sibling: the directory is never touched, the last extension stays
last, and of an encrypted file the suffix stays outermost, over the variant of what is under it.

`VariantOf` says what a variant is, suffix by suffix, and `nameVariant` finds it and nothing else
(`nameVariant_eq_some_iff`). It looks through suffixes, and each makes the name shorter, so it comes to
an end by itself: the fuel it is given never decides (`nameVariant_of_lt`).
-/

namespace DynamicConfig.Variant

open UnixPath (parse parent component join trimRight)

/-! ### Extensions -/

/-- `Path::extension`, of a file name. -/
def extension (name : List Char) : Option (List Char) := (stemAndExtension name).map Prod.snd

/-- **A stem and an extension**: the last dot is between them, and nothing but the stem before it. -/
theorem stemAndExtension_eq_some_iff {name stem rest : List Char} :
    stemAndExtension name = some (stem, rest) ↔
      name = stem ++ '.' :: rest ∧ stem ≠ [] ∧ '.' ∉ rest ∧ name ≠ ['.', '.'] := by
  constructor
  · intro h
    have hdot : '.' ∈ name := by
      by_contra hnot
      rw [stemAndExtension] at h
      simp only [hnot, false_and, if_false] at h
      cases h
    obtain ⟨back, front, hsplit, hback⟩ := List.eq_append_cons_of_mem (List.mem_reverse.2 hdot)
    have hname : name = front.reverse ++ '.' :: back.reverse := by
      rw [← List.reverse_reverse name, hsplit]
      simp
    have hrest : '.' ∉ back.reverse := fun hmem ↦ hback (List.mem_reverse.1 hmem)
    rw [hname, stemAndExtension_around hrest] at h
    split at h
    · next hok =>
      obtain ⟨rfl, rfl⟩ := Prod.mk.inj (Option.some.inj h)
      exact ⟨hname, hok.1, hrest, hname ▸ hok.2⟩
    · cases h
  · rintro ⟨rfl, hstem, hrest, hdots⟩
    rw [stemAndExtension_around hrest, if_pos ⟨hstem, hdots⟩]

theorem extension_append {stem rest : List Char} (hstem : stem ≠ []) (hrest : '.' ∉ rest)
    (hdots : stem ++ '.' :: rest ≠ ['.', '.']) : extension (stem ++ '.' :: rest) = some rest := by
  rw [extension, stemAndExtension_eq_some_iff.2 ⟨rfl, hstem, hrest, hdots⟩]
  rfl

/-! ### Suffixes -/

/-- The suffix of an encrypted file, with its dot. -/
def suffix : List Char := '.' :: encryptedSuffix.toList

/-- Under the suffix there is a shorter name, with an extension of its own. -/
theorem innerName_eq_some {name inner : List Char} (h : innerName name = some inner) :
    name = inner ++ suffix ∧ inner ≠ [] := by
  rw [innerName] at h
  split at h
  · next hsuffix =>
    obtain ⟨start, hstart⟩ := hsuffix
    obtain ⟨e, he, rfl⟩ := Option.map_eq_some_iff.1 h
    have hinner : name.take (name.length - ('.' :: encryptedSuffix.toList).length) = start := by
      rw [← hstart, List.length_append, Nat.add_sub_cancel, List.take_left]
    rw [hinner] at he ⊢
    refine ⟨hstart.symm, ?_⟩
    rintro rfl
    cases he
  · cases h

theorem length_lt_of_innerName {name inner : List Char} (h : innerName name = some inner) :
    inner.length < name.length := by
  rw [(innerName_eq_some h).1, List.length_append]
  exact Nat.lt_add_of_pos_right (by decide)

/-- An encrypted file's extension is the suffix. -/
theorem extension_of_innerName {inner : List Char} (hinner : inner ≠ []) :
    extension (inner ++ suffix) = some encryptedSuffix.toList := by
  refine extension_append hinner (by decide) fun h ↦ ?_
  have hlength := congrArg List.length h
  rw [List.length_append] at hlength
  have hfour : ('.' :: encryptedSuffix.toList).length = 4 := by decide
  rw [hfour] at hlength
  simp only [List.length_cons, List.length_nil] at hlength
  omega

/-! ### Variants -/

/-- A name's variant: the profile goes before the extension, under every suffix. -/
inductive VariantOf (profile : List Char) : List Char → List Char → Prop where
  | plain {name stem rest : List Char} : innerName name = none →
      stemAndExtension name = some (stem, rest) →
        VariantOf profile name (stem ++ '.' :: profile ++ '.' :: rest)
  | encrypted {name inner variant : List Char} : innerName name = some inner →
      VariantOf profile inner variant → VariantOf profile name (variant ++ suffix)

namespace VariantOf

variable {profile name variant : List Char}

/-- The profile and a dot are what is new. -/
theorem length_eq (h : VariantOf profile name variant) :
    variant.length = name.length + profile.length + 1 := by
  induction h with
  | plain _ hstem =>
    rw [(stemAndExtension_eq_some_iff.1 hstem).1]
    simp only [List.length_append, List.length_cons]
    omega
  | encrypted hinner _ ih =>
    rw [(innerName_eq_some hinner).1, List.length_append, List.length_append, ih]
    omega

theorem not_mem_sep (h : VariantOf profile name variant) (hprofile : '/' ∉ profile)
    (hname : '/' ∉ name) : '/' ∉ variant := by
  induction h with
  | plain _ hstem =>
    rw [(stemAndExtension_eq_some_iff.1 hstem).1] at hname
    simp only [List.mem_append, List.mem_cons, not_or] at hname ⊢
    exact ⟨⟨hname.1, hname.2.1, hprofile⟩, hname.2⟩
  | encrypted hinner _ ih =>
    rw [(innerName_eq_some hinner).1, List.mem_append, not_or] at hname
    rw [List.mem_append, not_or]
    exact ⟨ih hname.1, hname.2⟩

theorem ne_nil (h : VariantOf profile name variant) : variant ≠ [] := by
  intro hnil
  have hlength := h.length_eq
  rw [hnil, List.length_nil] at hlength
  omega

/-- **The extension stays.** -/
theorem extension_eq (h : VariantOf profile name variant) : extension variant = extension name := by
  induction h with
  | plain _ hstem =>
    obtain ⟨rfl, hne, hrest, hdots⟩ := stemAndExtension_eq_some_iff.1 hstem
    rw [extension_append hne hrest hdots]
    refine extension_append ?_ hrest fun h ↦ ?_
    · exact List.append_ne_nil_of_left_ne_nil hne _
    · have hlength := congrArg List.length h
      have hpos := List.length_pos_iff.2 hne
      simp only [List.length_append, List.length_cons, List.length_nil] at hlength
      omega
  | encrypted hinner hvariant _ =>
    obtain ⟨rfl, hne⟩ := innerName_eq_some hinner
    rw [extension_of_innerName hne, extension_of_innerName hvariant.ne_nil]

/-- A variant is a name: longer than the two dot entries. -/
theorem component_eq (h : VariantOf profile name variant) :
    component variant = some (.normal variant) := by
  have hne : variant ≠ ['.'] ∧ variant ≠ ['.', '.'] := by
    have hlength := h.length_eq
    induction h with
    | plain _ hstem =>
      have hpos := List.length_pos_iff.2 (stemAndExtension_eq_some_iff.1 hstem).2.1
      refine ⟨fun heq ↦ ?_, fun heq ↦ ?_⟩
      all_goals
        have htwo := congrArg List.length heq
        simp only [List.length_append, List.length_cons, List.length_nil] at htwo
        omega
    | encrypted hinner hvariant =>
      have hpos := List.length_pos_iff.2 hvariant.ne_nil
      have hfour : suffix.length = 4 := by decide
      refine ⟨fun heq ↦ ?_, fun heq ↦ ?_⟩
      all_goals
        have htwo := congrArg List.length heq
        rw [List.length_append, hfour] at htwo
        simp only [List.length_cons, List.length_nil] at htwo
        omega
  rw [component, if_neg (not_or.2 ⟨h.ne_nil, hne.1⟩), if_neg hne.2]

end VariantOf

/-- **Looking through suffixes finds the variant**, where there is fuel for the length of the name. -/
theorem nameVariant_eq_some_iff {profile name variant : List Char} {fuel : Nat}
    (h : name.length < fuel) :
    nameVariant profile fuel name = some variant ↔ VariantOf profile name variant := by
  induction fuel generalizing name variant with
  | zero => omega
  | succ fuel ih =>
    rw [nameVariant]
    rcases hinner : innerName name with - | inner
    · dsimp only
      rw [Option.map_eq_some_iff]
      constructor
      · rintro ⟨⟨stem, rest⟩, hstem, rfl⟩
        exact .plain hinner hstem
      · intro hvariant
        rcases hvariant with ⟨-, hstem⟩ | ⟨hsome, -⟩
        · exact ⟨_, hstem, rfl⟩
        · rw [hinner] at hsome
          cases hsome
    · have hlt := length_lt_of_innerName hinner
      dsimp only
      rw [Option.map_eq_some_iff]
      constructor
      · rintro ⟨inner', hinner', rfl⟩
        exact .encrypted hinner ((ih (by omega)).1 hinner')
      · intro hvariant
        rcases hvariant with ⟨hnone, -⟩ | ⟨hsome, hvariant⟩
        · rw [hinner] at hnone
          cases hnone
        · obtain rfl := Option.some.inj (hinner.symm.trans hsome)
          exact ⟨_, (ih (by omega)).2 hvariant, rfl⟩

/-- **The recursion ends by itself**: more fuel than the name is long changes nothing. -/
theorem nameVariant_of_lt {profile name : List Char} {fuel fuel' : Nat} (h : name.length < fuel)
    (h' : name.length < fuel') : nameVariant profile fuel name = nameVariant profile fuel' name :=
  Option.ext fun _ ↦ (nameVariant_eq_some_iff h).trans (nameVariant_eq_some_iff h').symm

/-! ### Siblings -/

/-- Behind a directory a name is a component of its own. -/
theorem parse_join (base : List Char) {name : List Char} (hsep : '/' ∉ name)
    (hname : component name = some (.normal name)) :
    parse (join base name) = parse base ++ [.normal name] := by
  have hhead : name.head? ≠ some '/' := fun h ↦ hsep (List.mem_of_head? h)
  have hlead : UnixPath.lead (join base name) = UnixPath.lead base := by
    rw [join, if_neg hhead]
    split_ifs with hbase
    · rcases hbase with rfl | hbase
      · have hdot : name ≠ ['.'] := by
          rintro rfl
          exact absurd hname (by decide)
        have hsplit : (name.splitOn '/').head? ≠ some ['.'] := by
          rw [List.splitOn_eq_singleton hsep]
          exact fun h ↦ hdot (Option.some.inj h)
        rw [List.nil_append, UnixPath.lead, if_neg hhead, if_neg hsplit]
        rfl
      · obtain ⟨start, rfl⟩ := List.getLast?_eq_some_iff.1 hbase
        rw [List.append_assoc, List.singleton_append, UnixPath.lead, UnixPath.lead,
          UnixPath.head?_splitOn_append, UnixPath.head?_splitOn_append]
        rcases start with - | ⟨c, start⟩ <;> rfl
    · rw [UnixPath.lead, UnixPath.lead, UnixPath.head?_splitOn_append]
      rcases base with - | ⟨c, base⟩
      · exact absurd (Or.inl rfl) ‹_›
      · rfl
  rw [parse, hlead, UnixPath.body_join base hhead, UnixPath.body_of_not_mem hsep, hname,
    ← List.append_assoc]
  rfl

/-- **The text of a path and another name**: what stands before a file name is its directory, whatever
name is put to it. -/
theorem exists_of_splitFileName {text start name : List Char}
    (h : UnixPath.splitFileName text = some (start, name)) :
    '/' ∉ name ∧ component name = some (.normal name) ∧
      ∃ base, parse text = parse base ++ [.normal name] ∧
        ∀ other, '/' ∉ other → component other = some (.normal other) →
          parse (start ++ other) = parse base ++ [.normal other] := by
  set back := (trimRight text).reverse with hback
  set last := (back.takeWhile (· ≠ '/')).reverse with hlast
  set dir := (back.dropWhile (· ≠ '/')).reverse with hdir
  have htext : trimRight text = dir ++ last := by
    rw [hdir, hlast, ← List.reverse_append, List.takeWhile_append_dropWhile, hback,
      List.reverse_reverse]
  have hlastSep : '/' ∉ last := by
    rw [hlast, List.mem_reverse]
    exact fun hmem ↦ by simpa using List.mem_takeWhile_imp hmem
  have hdirSep : dir = [] ∨ dir.getLast? = some '/' := by
    rw [hdir, List.getLast?_reverse, List.reverse_eq_nil_iff]
    refine or_iff_not_imp_left.2 fun hne ↦ ?_
    have hhead := List.head?_dropWhile_not (· ≠ '/') back
    rcases hdrop : back.dropWhile (· ≠ '/') with - | ⟨c, rest⟩
    · exact absurd hdrop hne
    · rw [hdrop] at hhead
      simpa using hhead
  rw [UnixPath.splitFileName] at h
  simp only [← hback, ← hlast] at h
  split at h
  · cases h
  · next hname =>
    obtain ⟨hstart, rfl⟩ := Prod.mk.inj (Option.some.inj h)
    rw [not_or, not_or] at hname
    have hcomponent : component last = some (.normal last) := by
      rw [component, if_neg (not_or.2 ⟨hname.1, hname.2.1⟩), if_neg hname.2.2]
    have htake : (trimRight text).take ((trimRight text).length - last.length) = dir := by
      rw [htext, List.length_append, Nat.add_sub_cancel, List.take_left]
    have hhead : ∀ {other : List Char}, '/' ∉ other → other.head? ≠ some '/' :=
      fun hsep hhead ↦ hsep (List.mem_of_head? hhead)
    refine ⟨hlastSep, hcomponent, trimRight dir, ?_, fun other hsep hother ↦ ?_⟩
    · have hjoin : dir ++ last = join dir last := by
        rw [join, if_neg (hhead hlastSep), if_pos hdirSep]
      rw [← UnixPath.parse_trimRight text, htext, hjoin, parse_join dir hlastSep hcomponent,
        UnixPath.parse_trimRight]
    · have hjoin : join (trimRight dir) [] ++ other = join (trimRight dir) other := by
        rw [join, join, if_neg (hhead hsep), if_neg (by simp)]
        split_ifs
        · rw [List.append_nil]
        · rw [List.append_assoc, List.singleton_append]
      rw [← hstart, htake, hjoin, parse_join (trimRight dir) hsep hother]

theorem parent_append (path : UnixPath.Path) (name : List Char) :
    parent (path ++ [.normal name]) = some path := by
  rw [parent, if_neg, List.dropLast_concat]
  rw [not_or, List.getLast?_concat]
  exact ⟨List.append_ne_nil_of_right_ne_nil _ (List.cons_ne_nil _ _), nofun⟩

theorem fileName_append (path : UnixPath.Path) (name : List Char) :
    UnixPath.fileName (path ++ [.normal name]) = some name := by
  rw [UnixPath.fileName, List.getLast?_concat]

/-- What a variant is to its file: it is in the same directory under another name, with the same
extension, and its name is the file's variant, suffix by suffix. -/
structure Sibling (profile path variant : List Char) : Prop where
  parent_eq : parent (parse variant) = parent (parse path)
  named : ∃ name other, UnixPath.fileName (parse path) = some name ∧
    UnixPath.fileName (parse variant) = some other ∧ other ≠ name ∧
      extension other = extension name ∧ VariantOf profile name other

theorem not_mem_sep_of_safe {profile : String} (h : profileIsSafe profile = true) :
    '/' ∉ profile.toList := by
  intro hmem
  rw [profileIsSafe] at h
  simp only [List.contains_iff_mem.2 hmem, Bool.not_true, Bool.false_and] at h
  cases h

/-- **A variant is a sibling**, and the search for it ends by itself: the name under a suffix is
shorter, so it looks through no more suffixes than the name is long. -/
theorem sibling_profileVariant {profile : String} (hsafe : profileIsSafe profile = true)
    (path : String) :
    (∀ variant, profileVariant path profile = some variant →
        Sibling profile.toList path.toList variant.toList) ∧
      (∀ name inner, innerName name = some inner → inner.length < name.length) ∧
        ∀ name fuel, name.length < fuel →
          nameVariant profile.toList fuel name = nameVariant profile.toList (name.length + 1) name := by
  refine ⟨fun variant hvariant ↦ ?_, fun name inner ↦ length_lt_of_innerName,
    fun name fuel hfuel ↦ nameVariant_of_lt hfuel (Nat.lt_succ_self _)⟩
  rw [profileVariant] at hvariant
  obtain ⟨⟨start, name⟩, hsplit, hmap⟩ := Option.bind_eq_some_iff.1 hvariant
  obtain ⟨other, hother, rfl⟩ := Option.map_eq_some_iff.1 hmap
  have hother : VariantOf profile.toList name other :=
    (nameVariant_eq_some_iff (Nat.lt_succ_self name.length)).1 hother
  obtain ⟨hsep, hname, base, hpath, hput⟩ := exists_of_splitFileName hsplit
  have hparse := hput other (hother.not_mem_sep (not_mem_sep_of_safe hsafe) hsep) hother.component_eq
  have hlonger : other ≠ name := by
    intro heq
    have hlength := hother.length_eq
    rw [heq] at hlength
    omega
  rw [String.toList_ofList]
  constructor
  · rw [hparse, hpath, parent_append, parent_append]
  · exact ⟨name, other, by rw [hpath, fileName_append], by rw [hparse, fileName_append], hlonger,
      hother.extension_eq, hother⟩

theorem sibling_nested :
    profileIsSafe "production" = true ∧
      Sibling "production".toList "/etc/app/secrets.json.age.age".toList
        "/etc/app/secrets.production.json.age.age".toList :=
  ⟨by decide, (sibling_profileVariant (by decide) "/etc/app/secrets.json.age.age").1
    "/etc/app/secrets.production.json.age.age" (by decide)⟩

end DynamicConfig.Variant
