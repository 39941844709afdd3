import DynamicConfig.Loader.Spec
import Mathlib.Data.List.Forall2

/-!
# Several keys as one document

What the stores share: `documents::merged`, which folds the texts of several keys into the one
document a fetch returns. Keys that were named are an order, so the later one wins; that is
`Overlap::LaterWins`, and the only overlap a source that can be watched has.

`InOrderMerge` says what the document is in terms of the texts alone, and `merged_eq_ok_iff` that the
fold comes to it. One text is passed through byte for byte, so no parser is asked there.
-/

namespace DynamicConfig

/-- `Error::remote`. -/
def Error.remote (message : String) : Error := { kind := .remote, message }

/-- The parsers and writers of the formats, which are other crates'. An error is kept as it is
displayed. -/
structure Formats where
  /-- `Value::parse`. -/
  parse : String → Format → Except String Value
  /-- `Value::render`. -/
  render : Value → Format → Except String String

mutual

/-- `Value::merge`: tables deeply, anything else whole. -/
def Value.merge : Value → Value → Value
  | .table base, .table overlay => .table (Value.mergeAll base overlay)
  | _, overlay => overlay

/-- The entries of a table laid over another's, one by one. -/
def Value.mergeAll (base : List (String × Value)) : List (String × Value) → List (String × Value)
  | [] => base
  | (key, value) :: overlay =>
    Value.mergeAll (Entries.insert key
      (match base.lookup key with
        | some existing => existing.merge value
        | none => value) base) overlay

end

/-- The results of a list of computations that all came to one. -/
theorem mapM_eq_ok_iff {ε α β : Type} {f : α → Except ε β} {xs : List α} {ys : List β} :
    xs.mapM f = .ok ys ↔ List.Forall₂ (fun x y ↦ f x = .ok y) xs ys := by
  induction xs generalizing ys with
  | nil =>
    rw [List.mapM_nil, List.forall₂_nil_left_iff]
    exact ⟨fun h ↦ (Except.ok.inj h).symm, fun h ↦ congrArg Except.ok h.symm⟩
  | cons x xs ih =>
    rw [List.mapM_cons, List.forall₂_cons_left_iff]
    refine ⟨fun h ↦ ?_, ?_⟩
    · obtain ⟨y, hy, hrest⟩ := exists_of_bind_eq_ok h
      obtain ⟨zs, hzs, hall⟩ := exists_of_bind_eq_ok hrest
      exact ⟨y, zs, hy, ih.1 hzs, (Except.ok.inj hall).symm⟩
    · rintro ⟨y, zs, hy, hzs, rfl⟩
      rw [hy, ih.2 hzs]
      rfl

namespace Documents

/-- One document of several, parsed. -/
def parsed (formats : Formats) (format : Format) (described : String) (document : String × String) :
    Except Error Value :=
  (formats.parse document.2 format).mapError fun error ↦
    .remote (described ++ ": `" ++ document.1 ++ "` is not a " ++ format.debug ++ " document: " ++
      error)

/-- The merge itself. -/
def folded (formats : Formats) (documents : List (String × String)) (format : Format)
    (described : String) : Except Error Value := do
  match ← documents.mapM (parsed formats format described) with
  | [] => .error (.remote described)
  | first :: rest => return rest.foldl Value.merge first

/-- Folds documents into the one document a fetch returns. A single document is passed through byte
for byte. -/
def merged (formats : Formats) (documents : List (String × String)) (format : Format)
    (described : String) : Except Error Fetched :=
  match documents with
  | [] => .error (.remote (described ++ ": no key held a value, so there is nothing to load"))
  | [(_, only)] => .ok ⟨only, format⟩
  | _ => do
    let value ← folded formats documents format described
    let text ← (formats.render value format).mapError fun error ↦
      .remote (described ++ ": the merged document cannot be written back as " ++ format.debug ++
        ": " ++ error)
    return ⟨text, format⟩

/-! ### What the fold comes to -/

/-- A document is the texts merged in order: the text itself where there is one, and else what the
parsed texts come to, each laid over those before it, written back. -/
def InOrderMerge (formats : Formats) (format : Format) (texts : List String) (document : Fetched) :
    Prop :=
  texts = [document.text] ∧ document.format = format ∨
    1 < texts.length ∧ document.format = format ∧ ∃ first rest,
      List.Forall₂ (fun text value ↦ formats.parse text format = .ok value) texts (first :: rest) ∧
        formats.render (rest.foldl Value.merge first) format = .ok document.text

theorem mapError_eq_ok_iff {ε δ α : Type} {f : ε → δ} {x : Except ε α} {a : α} :
    x.mapError f = .ok a ↔ x = .ok a := by
  rcases x with e | b
  · exact ⟨fun h ↦ (by cases h), fun h ↦ (by cases h)⟩
  · show (Except.ok b : Except δ α) = .ok a ↔ _
    rw [Except.ok.injEq, Except.ok.injEq]

theorem folded_eq_ok_iff {formats : Formats} {documents : List (String × String)} {format : Format}
    {described : String} {value : Value} :
    folded formats documents format described = .ok value ↔ ∃ first rest,
      List.Forall₂ (fun text value ↦ formats.parse text format = .ok value)
        (documents.map Prod.snd) (first :: rest) ∧ rest.foldl Value.merge first = value := by
  have hparsed : ∀ values, documents.mapM (parsed formats format described) = .ok values ↔
      List.Forall₂ (fun text value ↦ formats.parse text format = .ok value)
        (documents.map Prod.snd) values := by
    intro values
    rw [mapM_eq_ok_iff, List.forall₂_map_left_iff]
    exact iff_of_eq (congrArg (List.Forall₂ · documents values)
      (funext₂ fun document value ↦ propext mapError_eq_ok_iff))
  refine ⟨fun h ↦ ?_, ?_⟩
  · obtain ⟨values, hvalues, hfold⟩ := exists_of_bind_eq_ok h
    rcases values with - | ⟨first, rest⟩
    · cases hfold
    · exact ⟨first, rest, (hparsed _).1 hvalues, Except.ok.inj hfold⟩
  · rintro ⟨first, rest, hall, rfl⟩
    rw [folded, (hparsed _).2 hall]
    rfl

/-- **The fold is the in-order merge of the texts.** -/
theorem merged_eq_ok_iff {formats : Formats} {documents : List (String × String)} {format : Format}
    {described : String} {document : Fetched} :
    merged formats documents format described = .ok document ↔
      InOrderMerge formats format (documents.map Prod.snd) document := by
  obtain ⟨text, chosen⟩ := document
  rcases documents with - | ⟨⟨key, only⟩, - | ⟨second, rest⟩⟩
  · refine iff_of_false (fun h ↦ (by cases h)) ?_
    rintro (⟨htexts, -⟩ | ⟨hlength, -⟩)
    · cases htexts
    · exact absurd hlength (by decide)
  · refine ⟨fun h ↦ ?_, ?_⟩
    · obtain ⟨rfl, rfl⟩ := Fetched.mk.inj (Except.ok.inj h)
      exact Or.inl ⟨rfl, rfl⟩
    · rintro (⟨htexts, rfl⟩ | ⟨hlength, -⟩)
      · obtain rfl : only = text := List.singleton_inj.1 htexts
        rfl
      · exact absurd hlength (by simp)
  · have hlength : 1 < (((key, only) :: second :: rest).map Prod.snd).length := by simp
    refine ⟨fun h ↦ ?_, ?_⟩
    · obtain ⟨value, hvalue, hrest⟩ := exists_of_bind_eq_ok h
      obtain ⟨written, hwritten, hdocument⟩ := exists_of_bind_eq_ok hrest
      obtain ⟨rfl, rfl⟩ := Fetched.mk.inj (Except.ok.inj hdocument)
      obtain ⟨first, others, hall, rfl⟩ := folded_eq_ok_iff.1 hvalue
      exact Or.inr ⟨hlength, rfl, first, others, hall, mapError_eq_ok_iff.1 hwritten⟩
    · rintro (⟨htexts, -⟩ | ⟨-, rfl, first, others, hall, hwritten⟩)
      · exact absurd (congrArg List.length htexts) (by simp)
      · have hfolded : folded formats ((key, only) :: second :: rest) chosen described =
            .ok (others.foldl Value.merge first) := folded_eq_ok_iff.2 ⟨first, others, hall, rfl⟩
        have hrendered : formats.render (others.foldl Value.merge first) chosen = .ok text := hwritten
        simp only [merged, hfolded]
        show ((formats.render _ chosen).mapError _ >>= fun text ↦ _) = _
        rw [hrendered]
        rfl

end Documents

end DynamicConfig
