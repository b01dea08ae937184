import FormSchema.Proofs.Validation.Allowance

/-!
# The limit of findings

A limit of findings cuts the list of findings off and does nothing else.  Two replays of the
same notes stay together until the lower limit is reached; there the one stops, and the
other goes on to findings that only come behind.
-/

namespace FormSchema

section Replay

variable {limits : Limits} {frames : Nat}

/-- What was found when a finding was made is the beginning of what is found in the end. -/
theorem take_found_of_finding (rejection : Finding) (rest : List Note) (record : Record) :
    (replay limits [] frames (.finding rejection :: rest) record).2.found.reverse.take
        (record.found.length + 1) =
      (record.withFinding rejection).found.reverse := by
  obtain ⟨added, found⟩ := @withFinding_found_suffix limits frames rejection rest record
  rw [← found, List.reverse_append]
  exact List.take_left' List.length_reverse

/-- Replaying with a limit of findings, beside replaying with a looser one or none. -/
theorem replay_findings_limit {wanted : Nat}
    (looser : ∀ limit, limits.findings = some limit → wanted ≤ limit) (notes : List Note)
    (record : Record) (fewer : record.found.length < wanted) :
    ((replay limits [] frames notes record).2.found.length < wanted →
      replay { limits with findings := some wanted } [] frames notes record =
        replay limits [] frames notes record) ∧
    (wanted ≤ (replay limits [] frames notes record).2.found.length →
      ∃ reached, replay { limits with findings := some wanted } [] frames notes record =
          (.error .enoughFindings, reached) ∧
        reached.found.reverse =
          (replay limits [] frames notes record).2.found.reverse.take wanted) := by
  have notYet : ¬ wanted ≤ record.found.length := Nat.not_le_of_lt fewer
  induction notes generalizing record with
  | nil => exact ⟨fun _ => rfl, fun enough => absurd enough notYet⟩
  | cons note rest inductionHypothesis =>
      cases note with
      | exhausted => exact ⟨fun _ => rfl, fun enough => absurd enough notYet⟩
      | hop definition pending => exact inductionHypothesis (record.withHop _) fewer notYet
      | reference pending =>
          simp only [replay, Limits.tooDeep?]
          split
          · exact ⟨fun _ => rfl, fun enough => absurd enough notYet⟩
          · exact inductionHypothesis record fewer notYet
      | finding rejection =>
          by_cases last : record.found.length + 1 = wanted
          · -- The limit is reached here, whether or not the other replay goes on.
            have taken := @take_found_of_finding limits frames rejection rest record
            rw [last] at taken
            constructor
            · intro few
              have counted := congrArg List.length taken
              rw [List.length_take, List.length_reverse, List.length_reverse] at counted
              have grown : (record.withFinding rejection).found.length = wanted := last
              omega
            · intro _
              refine ⟨record.withFinding rejection, ?_, taken.symm⟩
              rw [replay_finding]
              simp only [Limits.enough, last, le_refl, decide_true, if_true]
          · have further : record.found.length + 1 < wanted := by omega
            have goesOn : limits.enough (record.found.length + 1) = false := by
              rw [Limits.enough]
              split
              · rename_i limit isLimit
                have bound := looser limit isLimit
                simp only [decide_eq_false_iff_not]
                omega
              · rfl
            have staysBelow : Limits.enough { limits with findings := some wanted }
                (record.found.length + 1) = false := by
              simp only [Limits.enough, decide_eq_false_iff_not]
              omega
            rw [replay_finding, replay_finding, goesOn, staysBelow]
            exact inductionHypothesis (record.withFinding rejection) further
              (Nat.not_le_of_lt further)

end Replay

/-- What a limit of findings does to an outcome, beside a looser limit or none. -/
theorem outcome_findings_limit (limits : Limits) {wanted : Nat} (positive : 1 ≤ wanted)
    (looser : ∀ limit, limits.findings = some limit → wanted ≤ limit) (allowance : Nat)
    (schema : Schema) (value : Json) :
    ((outcome limits allowance schema value).2.found.length < wanted →
      outcome { limits with findings := some wanted } allowance schema value =
        outcome limits allowance schema value) ∧
    (wanted ≤ (outcome limits allowance schema value).2.found.length →
      ∃ reached, outcome { limits with findings := some wanted } allowance schema value =
          (.error .enoughFindings, reached) ∧
        reached.found.reverse =
          (outcome limits allowance schema value).2.found.reverse.take wanted) :=
  replay_findings_limit looser (trace schema allowance schema value [] none) {} positive

/-- The findings that a walk writes down, up to its end or to where it is stopped. -/
def recordedFindings (options : Options) (schema : Schema) (value : Json) : List Finding :=
  (runWalk options.limits schema value).2.found.reverse

section Options

variable {schema : Schema} {value : Json} {maxDepth : Option Nat}

theorem recordedFindings_eq (options : Options) :
    recordedFindings options schema value =
      (outcome options.limits (hopAllowance schema value options.limits) schema
        value).2.found.reverse := by
  rw [recordedFindings, runWalk_found]

theorem limits_of_maxErrors {count : Nat} (positive : 1 ≤ count) :
    Options.limits { maxDepth, maxErrors := some count } =
      { Options.limits { maxDepth } with findings := some count } := by
  have counts : 0 < count := positive
  simp only [Options.limits, Option.filter_some, counts, decide_true, if_true]

/-- A limit that is not reached changes nothing, in the result and in what is reported. -/
theorem validate_of_few {wanted : Nat} (positive : 1 ≤ wanted)
    (few : (recordedFindings { maxDepth } schema value).length < wanted) :
    validate { maxDepth, maxErrors := some wanted } schema value =
      validate { maxDepth } schema value := by
  rw [recordedFindings_eq, List.length_reverse] at few
  have beside := outcome_findings_limit (Options.limits { maxDepth }) positive nofun
    (hopAllowance schema value (Options.limits { maxDepth })) schema value
  rw [validate_eq_conclude, validate_eq_conclude, limits_of_maxErrors positive]
  exact congrArg (conclude schema.form) (beside.1 few)

/-- A limit that is reached gives so many of the findings that are recorded without it. -/
theorem validate_result_of_enough {wanted : Nat} (positive : 1 ≤ wanted)
    (enough : wanted ≤ (recordedFindings { maxDepth } schema value).length) :
    (validate { maxDepth, maxErrors := some wanted } schema value).result =
      .ok ((recordedFindings { maxDepth } schema value).take wanted) := by
  rw [recordedFindings_eq, List.length_reverse] at enough
  rw [recordedFindings_eq]
  have beside := outcome_findings_limit (Options.limits { maxDepth }) positive nofun
    (hopAllowance schema value (Options.limits { maxDepth })) schema value
  obtain ⟨reached, stopped, found⟩ := beside.2 enough
  rw [validate_result, limits_of_maxErrors positive, verdict_eq_ok_iff]
  constructor
  · exact .inr (congrArg Prod.fst stopped)
  · exact (congrArg (fun replayed => replayed.2.found.reverse) stopped).trans found

/-- A lower limit gives the beginning of the findings that a higher one gives. -/
theorem validate_result_of_more {wanted more : Nat} (positive : 1 ≤ wanted)
    (fewer : wanted ≤ more) {findings : List Finding}
    (result : (validate { maxDepth, maxErrors := some more } schema value).result =
      .ok findings) :
    (validate { maxDepth, maxErrors := some wanted } schema value).result =
      .ok (findings.take wanted) := by
  have looser : ∀ limit, Limits.findings { Options.limits { maxDepth } with
      findings := some more } = some limit → wanted ≤ limit := by
    intro limit isLimit
    cases isLimit
    exact fewer
  have beside := outcome_findings_limit _ positive looser
    (hopAllowance schema value (Options.limits { maxDepth })) schema value
  rw [validate_result, limits_of_maxErrors (positive.trans fewer), verdict_eq_ok_iff] at result
  rw [validate_result, limits_of_maxErrors positive, verdict_eq_ok_iff]
  obtain ⟨ending, rfl⟩ := result
  rcases Nat.lt_or_ge _ wanted with few | enough
  · have same := beside.1 few
    rw [List.take_of_length_le (by rw [List.length_reverse]; exact Nat.le_of_lt few)]
    constructor
    · exact ending.imp (congrArg Prod.fst same).trans (congrArg Prod.fst same).trans
    · exact congrArg (fun replayed => replayed.2.found.reverse) same
  · obtain ⟨reached, stopped, found⟩ := beside.2 enough
    constructor
    · exact .inr (congrArg Prod.fst stopped)
    · exact (congrArg (fun replayed => replayed.2.found.reverse) stopped).trans found

end Options

/-- A limit of findings truncates and does nothing else, whatever the depth limit is.  It
gives the beginning of what is recorded without it, even where the walk would be stopped
later by its depth, and it changes nothing if it is not reached; a limit of zero is no
limit. -/
theorem validate_maxErrors_truncates (schema : Schema) (value : Json) (maxDepth : Option Nat)
    (wanted : Nat) (positive : 1 ≤ wanted) :
    (wanted ≤ (recordedFindings { maxDepth } schema value).length →
      (validate { maxDepth, maxErrors := some wanted } schema value).result =
        .ok ((recordedFindings { maxDepth } schema value).take wanted)) ∧
    ((recordedFindings { maxDepth } schema value).length < wanted →
      validate { maxDepth, maxErrors := some wanted } schema value =
        validate { maxDepth } schema value) ∧
    (∀ more findings, wanted ≤ more →
      (validate { maxDepth, maxErrors := some more } schema value).result = .ok findings →
      (validate { maxDepth, maxErrors := some wanted } schema value).result =
        .ok (findings.take wanted)) ∧
    validate { maxDepth, maxErrors := some 0 } schema value =
      validate { maxDepth } schema value := by
  refine ⟨validate_result_of_enough positive, validate_of_few positive, ?_, rfl⟩
  intro more findings fewer result
  exact validate_result_of_more positive fewer result

/-- A schema that asks for a name and then follows a reference without end. -/
def restlessSchema : Schema where
  definitions := some [("loop", { ref := some "loop" })]
  properties := some [("name", { type := some .string }), ("next", { ref := some "loop" })]

/-- One finding is enough to keep the walk from a reference that would be too deep. -/
theorem validate_maxErrors_before_depth :
    1 ≤ 1 ∧
    (validate { maxDepth := some 2 } restlessSchema
      (.object [("name", .null), ("next", .null)])).result = .error (.tooDeep 2) ∧
    (validate { maxDepth := some 2, maxErrors := some 1 } restlessSchema
      (.object [("name", .null), ("next", .null)])).result =
        .ok [⟨["name"], ["properties", "name", "type"]⟩] := by
  refine ⟨Nat.le_refl 1, rfl, ?_⟩
  have truncates := validate_maxErrors_truncates restlessSchema
    (.object [("name", .null), ("next", .null)]) (some 2) 1 (Nat.le_refl 1)
  exact truncates.1 (by decide)

end FormSchema
