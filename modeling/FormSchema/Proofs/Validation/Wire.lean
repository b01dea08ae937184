import FormSchema.Proofs.Decoding.ReadBack
import FormSchema.Proofs.Schema.Grammar
import FormSchema.Validation.Finding

/-!
# Findings on the wire

A finding is read back from the document that is written for it, and so is a list of findings.  The
document can be written as text and read again, because it is flat and repeats no name.
-/

namespace FormSchema.Finding

/-- A finding is read from its document. -/
theorem ofJson_toJson (finding : Finding) : ofJson finding.toJson = .ok finding := by
  have paths (path : List String) : Decode.strings .sequence (.ofStrings path) = .ok path :=
    Decode.strings_eq_ok_iff.mpr rfl
  simp only [toJson, ofJson, ofMembers, paths, Decode.under, Except.mapError]
  rfl

theorem items_ofJson_toJson (findings : List Finding) (position : Nat) :
    Decode.items ofJson position (findings.map toJson) = .ok findings := by
  induction findings generalizing position with
  | nil => rfl
  | cons finding rest inductionHypothesis =>
      rw [List.map_cons, Decode.items, ofJson_toJson, inductionHypothesis]
      rfl

/-- Every member of a finding is a list of texts. -/
theorem exists_ofStrings_of_mem {finding : Finding} {name : String} {value : Json}
    {members : List (String × Json)} (isFinding : finding.toJson = .object members)
    (isMember : (name, value) ∈ members) : ∃ texts, value = .ofStrings texts := by
  cases isFinding
  simp only [List.mem_cons, Prod.mk.injEq, List.not_mem_nil, or_false] at isMember
  exact isMember.elim (fun same => ⟨_, same.2⟩) fun same => ⟨_, same.2⟩

theorem legible_toJson {levels : Nat} (finding : Finding) :
    finding.toJson.Legible (levels + 2) := by
  refine .object fun name value isMember => ?_
  obtain ⟨texts, rfl⟩ := exists_ofStrings_of_mem rfl isMember
  exact Json.legible_ofStrings texts

theorem proper_toJson (finding : Finding) : finding.toJson.proper = true := by
  refine Json.proper_object_iff.mpr ⟨by simp [Members.names], fun name value isMember => ?_⟩
  obtain ⟨texts, rfl⟩ := exists_ofStrings_of_mem rfl isMember
  exact Decode.proper_ofStrings texts

end FormSchema.Finding
