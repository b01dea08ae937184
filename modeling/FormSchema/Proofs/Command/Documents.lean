import FormSchema.Proofs.Attempt
import FormSchema.Proofs.Command.Stages

/-!
# Taking values from the text of a file

The documents in a text are the ones that it holds, the part of a document is the one that the
tokens of the pointer lead to, and the values are the outputs of the filter for that part.  Where
one of these steps fails, it fails as the stage does.
-/

namespace FormSchema

section

variable {path text : String} {error : CommandError}

/-! ## Documents -/

/-- The first of some lines that is neither blank nor a document, where the first of all has the
given number. -/
def FirstBroken (path : String) (number : Nat) (lines : List (List Char)) (error : CommandError) :
    Prop :=
  ∃ before line after fault, lines = before ++ line :: after ∧
    (∀ other ∈ before, Text.allBlank other = false →
      ∃ document, Json.read (String.ofList other) = .ok document) ∧
    Text.allBlank line = false ∧ Json.read (String.ofList line) = .error fault ∧
    error = .malformedLine path (before.length + number) fault

/-- A line that is blank or a document is not the first one that is neither. -/
theorem firstBroken_cons_iff {number : Nat} {first : List Char} {rest : List (List Char)}
    (passes : Text.allBlank first = false →
      ∃ document, Json.read (String.ofList first) = .ok document) :
    FirstBroken path number (first :: rest) error ↔ FirstBroken path (number + 1) rest error := by
  constructor
  · rintro ⟨before, line, after, fault, split, earlier, notBlank, isMalformed, rfl⟩
    cases before with
    | nil =>
        cases split
        obtain ⟨document, isDocument⟩ := passes notBlank
        cases isMalformed.symm.trans isDocument
    | cons _ before =>
        cases split
        refine ⟨before, line, after, fault, rfl, (List.forall_mem_cons.mp earlier).2, notBlank,
          isMalformed, ?_⟩
        rw [List.length_cons, Nat.add_right_comm, Nat.add_assoc]
  · rintro ⟨before, line, after, fault, rfl, earlier, notBlank, isMalformed, rfl⟩
    refine ⟨first :: before, line, after, fault, rfl, List.forall_mem_cons.mpr ⟨passes, earlier⟩,
      notBlank, isMalformed, ?_⟩
    rw [List.length_cons, Nat.add_right_comm, Nat.add_assoc]

/-- Reading documents from lines fails at the first line that is neither blank nor a document. -/
theorem documentsOnLines_eq_error_iff {number : Nat} {lines : List (List Char)} :
    documentsOnLines path number lines = .error error ↔ FirstBroken path number lines error := by
  induction lines generalizing number with
  | nil =>
      refine iff_of_false nofun ?_
      rintro ⟨before, line, after, fault, split, -⟩
      exact absurd split.symm (by simp)
  | cons first rest inductionHypothesis =>
      rw [documentsOnLines]
      split
      · rename_i isBlank
        rw [firstBroken_cons_iff fun notBlank => by cases isBlank.symm.trans notBlank]
        exact inductionHypothesis
      · rename_i notBlank
        cases isRead : Json.read (String.ofList first) with
        | error fault =>
            constructor
            · rintro ⟨⟩
              refine ⟨[], first, rest, fault, rfl, nofun, Bool.eq_false_iff.mpr notBlank, isRead,
                ?_⟩
              rw [List.length_nil, Nat.zero_add]
            · rintro ⟨before, line, after, _, split, earlier, -, isMalformed, rfl⟩
              cases before with
              | nil =>
                  cases split
                  cases isRead.symm.trans isMalformed
                  rw [List.length_nil, Nat.zero_add]
              | cons other before =>
                  cases split
                  obtain ⟨document, isDocument⟩ :=
                    earlier first List.mem_cons_self (Bool.eq_false_iff.mpr notBlank)
                  cases isRead.symm.trans isDocument
        | ok document =>
            rw [firstBroken_cons_iff fun _ => ⟨document, isRead⟩, ← inductionHypothesis]
            refine Attempt.bind_eq_error_iff.trans (or_iff_left ?_)
            rintro ⟨_, _, ⟨⟩⟩

theorem documents_eq_error_iff {ndjson : Bool} :
    documents ndjson path text = .error error ↔ TextFails ndjson path text error := by
  cases ndjson with
  | false =>
      rw [documents, if_neg Bool.false_ne_true]
      constructor
      · intro fails
        split at fails
        · cases fails
          exact .whole rfl ‹_›
        · cases fails
      · rintro (⟨-, isMalformed⟩ | ⟨⟨⟩, -⟩)
        rw [isMalformed]
  | true =>
      rw [documents, if_pos rfl, documentsOnLines_eq_error_iff]
      constructor
      · rintro ⟨before, line, after, fault, split, earlier, notBlank, isMalformed, rfl⟩
        exact .line rfl split earlier notBlank isMalformed
      · rintro (⟨⟨⟩, -⟩ | ⟨-, split, earlier, notBlank, isMalformed⟩)
        exact ⟨_, _, _, _, split, earlier, notBlank, isMalformed, rfl⟩

theorem hold_cons_iff {line : List Char} {lines : List (List Char)} {found : List Json} :
    Hold (line :: lines) found ↔
      if Text.allBlank line then Hold lines found
      else ∃ first others, Json.read (String.ofList line) = .ok first ∧ Hold lines others ∧
        found = first :: others := by
  cases isBlank : Text.allBlank line with
  | true => simp [Hold, isBlank]
  | false => simp [Hold, isBlank, List.forall₂_cons_left_iff]

theorem documentsOnLines_eq_ok_iff {number : Nat} {lines : List (List Char)}
    {found : List Json} :
    documentsOnLines path number lines = .ok found ↔ Hold lines found := by
  induction lines generalizing number found with
  | nil =>
      rw [documentsOnLines, Hold, List.filter_nil, List.forall₂_nil_left_iff, Except.ok.injEq,
        eq_comm]
  | cons line rest inductionHypothesis =>
      rw [documentsOnLines, hold_cons_iff]
      split
      · exact inductionHypothesis
      · cases isRead : Json.read (String.ofList line) with
        | error error =>
            constructor
            · intro isFound
              cases isFound
            · rintro ⟨_, _, ⟨⟩, _⟩
        | ok first =>
            refine Attempt.bind_eq_ok_iff.trans ?_
            constructor
            · rintro ⟨others, areRead, ⟨⟩⟩
              exact ⟨first, others, rfl, inductionHypothesis.mp areRead, rfl⟩
            · rintro ⟨_, others, ⟨⟩, hold, rfl⟩
              exact ⟨others, inductionHypothesis.mpr hold, rfl⟩

theorem documents_eq_ok_iff {ndjson : Bool} {found : List Json} :
    documents ndjson path text = .ok found ↔ TextHolds ndjson text found := by
  cases ndjson with
  | false =>
      rw [documents, if_neg Bool.false_ne_true]
      cases isRead : Json.read text with
      | error error =>
          refine iff_of_false nofun ?_
          rintro (⟨-, isDocument⟩ | ⟨⟨⟩, -⟩)
          cases isRead.symm.trans isDocument
      | ok document =>
          constructor
          · rintro ⟨⟩
            exact .whole rfl isRead
          · rintro (⟨-, isDocument⟩ | ⟨⟨⟩, -⟩)
            cases isRead.symm.trans isDocument
            rfl
  | true =>
      rw [documents, if_pos rfl, documentsOnLines_eq_ok_iff]
      constructor
      · exact .lines rfl
      · rintro (⟨⟨⟩, -⟩ | ⟨-, hold⟩)
        exact hold

/-! ## Parts -/

theorem pointer?_eq_some_iff {document part : Json} {pointer : String} :
    document.pointer? pointer = some part ↔ PartAt document (some pointer) part := by
  rw [Json.pointer?, Option.bind_eq_some_iff]
  constructor
  · rintro ⟨tokens, isPointer, isFound⟩
    exact .pointer isPointer (Json.at?_eq_some_iff.mp isFound)
  · intro isPart
    cases isPart with
    | pointer isPointer leads => exact ⟨_, isPointer, Json.at?_eq_some_iff.mpr leads⟩

theorem selectPart_eq_ok_iff {document part : Json} {pointer : Option String} :
    selectPart pointer path document = .ok part ↔ PartAt document pointer part := by
  cases pointer with
  | none =>
      constructor
      · rintro ⟨⟩
        exact .whole
      · rintro ⟨⟩
        rfl
  | some pointer =>
      rw [← pointer?_eq_some_iff, selectPart]
      cases document.pointer? pointer with
      | none => exact iff_of_false nofun nofun
      | some found =>
          dsimp only
          rw [Except.ok.injEq, Option.some.injEq]

theorem selectPart_eq_error_iff {document : Json} {pointer : Option String} :
    selectPart pointer path document = .error error ↔
      ∃ text, pointer = some text ∧ (∀ part, ¬ PartAt document (some text) part) ∧
        error = .nothingAtPointer path text := by
  cases pointer with
  | none => exact iff_of_false nofun (by rintro ⟨_, ⟨⟩, _⟩)
  | some pointer =>
      simp only [← pointer?_eq_some_iff, selectPart]
      cases isFound : document.pointer? pointer with
      | none =>
          constructor
          · rintro ⟨⟩
            refine ⟨pointer, rfl, fun part isPart => ?_, rfl⟩
            cases isFound.symm.trans isPart
          · rintro ⟨_, ⟨⟩, -, rfl⟩
            rfl
      | some found =>
          refine iff_of_false (fun fails => by cases fails) ?_
          rintro ⟨_, ⟨⟩, isNothing, -⟩
          exact isNothing found isFound

/-! ## Outputs -/

section

variable {language : FilterLanguage} {filter : Option language.Program}

theorem applyFilter_eq_ok_iff {value : Json} {values : List Json} :
    applyFilter filter path value = .ok values ↔ FilterGives value filter values := by
  cases filter with
  | none =>
      constructor
      · rintro ⟨⟩
        exact .same
      · rintro ⟨⟩
        rfl
  | some program =>
      rw [applyFilter]
      cases isRun : language.outputs program value with
      | none =>
          refine iff_of_false nofun ?_
          rintro (_ | areOutputs)
          cases isRun.symm.trans areOutputs
      | some outputs =>
          dsimp only
          rw [Attempt.mapError_eq_ok_iff, Attempt.mapM_id_eq_ok_iff]
          constructor
          · rintro rfl
            exact .outputs isRun
          · rintro (_ | areOutputs)
            exact Option.some.inj (isRun.symm.trans areOutputs)

theorem selectValues_eq_ok_iff {selection : Selection} {document : Json} {values : List Json} :
    selectValues selection.pointer filter path document = .ok values ↔
      Takes selection filter document values := by
  simp only [selectValues, Attempt.bind_eq_ok_iff, selectPart_eq_ok_iff, applyFilter_eq_ok_iff]
  rfl

theorem selectValues_eq_error_iff {selection : Selection} {document : Json} :
    selectValues selection.pointer filter path document = .error error ↔
      DocumentFails selection filter path document error := by
  simp only [selectValues, Attempt.bind_eq_error_iff, selectPart_eq_ok_iff,
    selectPart_eq_error_iff]
  constructor
  · rintro (⟨pointer, isPointer, isNothing, rfl⟩ | ⟨part, isPart, fails⟩)
    · exact .nothingThere isPointer isNothing
    · unfold applyFilter at fails
      split at fails
      · cases fails
      · split at fails
        · cases fails
          exact .filterEndless isPart rfl ‹_›
        · rename_i isRun
          obtain ⟨reason, isFailure, rfl⟩ := Attempt.mapError_eq_error_iff.mp fails
          obtain ⟨before, _, after, rfl, earlier, rfl⟩ := Attempt.mapM_eq_error_iff.mp isFailure
          exact .filterFails isPart rfl isRun earlier
  · rintro (⟨isPointer, isNothing⟩ | ⟨isPart, rfl, split, earlier⟩ | ⟨isPart, rfl, never⟩)
    · exact .inl ⟨_, isPointer, isNothing, rfl⟩
    · refine .inr ⟨_, isPart, ?_⟩
      rw [applyFilter, split]
      exact Attempt.mapError_eq_error_iff.mpr
        ⟨_, Attempt.mapM_eq_error_iff.mpr ⟨_, _, _, rfl, earlier, rfl⟩, rfl⟩
    · refine .inr ⟨_, isPart, ?_⟩
      rw [applyFilter, never]

end

end

end FormSchema
