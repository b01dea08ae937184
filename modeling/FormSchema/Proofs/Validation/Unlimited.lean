import FormSchema.Proofs.Validation.Allowance
import FormSchema.Proofs.Validation.Find

/-!
# Validation without limits

Without limits a validation goes through its whole trace, so its result is the list of
findings of the trace, and these are what `find` gives.  The stack-free `find` is therefore
the reference for the walk: they agree on every schema, verified or not, and on every value,
and the validation has no end exactly if `find` has no value at any allowance.
-/

namespace FormSchema

/-! ## The findings of a trace -/

namespace Note

/-- The findings among some notes, unless the allowance was exhausted. -/
def findings? : List Note → Option (List Finding)
  | [] => some []
  | .finding rejection :: rest => (findings? rest).map (rejection :: ·)
  | .reference _ :: rest => findings? rest
  | .hop _ _ :: rest => findings? rest
  | .exhausted :: _ => none

theorem findings?_append (first second : List Note) :
    findings? (first ++ second) =
      (findings? first).bind fun found => (findings? second).map (found ++ ·) := by
  induction first with
  | nil => simp [findings?]
  | cons note rest inductionHypothesis =>
      rw [List.cons_append]
      cases note with
      | finding rejection =>
          rw [findings?, findings?, inductionHypothesis]
          cases findings? rest <;> simp [Function.comp_def]
      | reference pending => exact inductionHypothesis
      | hop definition pending => exact inductionHypothesis
      | exhausted => rfl

theorem findings?_flatMap {α : Type} {items : List α} {notes : α → List Note}
    {finder : α → Option (List Finding)}
    (finds : ∀ item ∈ items, findings? (notes item) = finder item) :
    findings? (items.flatMap notes) = (items.mapM finder).map List.flatten := by
  induction items with
  | nil => rfl
  | cons item rest inductionHypothesis =>
      obtain ⟨first, later⟩ := List.forall_mem_cons.mp finds
      rw [List.flatMap_cons, findings?_append, first, inductionHypothesis later, List.mapM_cons]
      cases finder item with
      | none => rfl
      | some found => cases rest.mapM finder <;> simp

theorem findings?_under (tokens : List String) (notes : List Note) :
    findings? (notes.map (under tokens)) =
      (findings? notes).map (List.map (Finding.under tokens)) := by
  induction notes with
  | nil => rfl
  | cons note rest inductionHypothesis =>
      rw [List.map_cons]
      cases note with
      | finding rejection =>
          rw [under_finding, findings?, findings?, inductionHypothesis]
          cases findings? rest <;> rfl
      | reference pending => exact inductionHypothesis
      | hop definition pending => exact inductionHypothesis
      | exhausted => rfl

theorem findings?_deeper (notes : List Note) :
    findings? (notes.map deeper) = findings? notes := by
  induction notes with
  | nil => rfl
  | cons note rest inductionHypothesis =>
      rw [List.map_cons]
      cases note with
      | finding rejection => rw [deeper_finding, findings?, findings?, inductionHypothesis]
      | reference pending => exact inductionHypothesis
      | hop definition pending => exact inductionHypothesis
      | exhausted => rfl

end Note

/-- The findings of a trace are those by recursion, once this is so of references. -/
theorem findings?_trace_of_references {root : Schema} {allowance : Nat}
    (references : ∀ name value, Note.findings? (traceReference root allowance name value) =
      findReference root allowance name value)
    (schema : Schema) (value : Json) (place : List String) (tag : Option String) :
    Note.findings? (trace root allowance schema value place tag) =
      find root allowance schema value place tag := by
  induction schema using Schema.shapeInduction generalizing value place tag with
  | step schema inductionHypothesis =>
      rw [trace_eq, find_eq]
      apply Note.findings?_flatMap
      intro task isTask
      cases task with
      | reject suffix place => rfl
      | follow name => exact references name value
      | visit inner innerValue suffix innerPlace innerTag =>
          have isInner := (Shape.inward_of_mem_expand isTask).mem_inner
          rw [traceTask_visit, findTask_visit, Note.findings?_under,
            inductionHypothesis inner isInner]

theorem findings?_traceReference (root : Schema) (allowance : Nat) (name : String)
    (value : Json) :
    Note.findings? (traceReference root allowance name value) =
      findReference root allowance name value := by
  induction allowance generalizing name value with
  | zero =>
      rw [traceReference, findReference]
      cases root.definition? name <;> rfl
  | succ allowance inductionHypothesis =>
      cases defined : root.definition? name with
      | none =>
          rw [traceReference_of_undefined defined, findReference_of_undefined defined]
          rfl
      | some target =>
          rw [traceReference_succ defined, findReference_succ defined, Note.findings?,
            Note.findings?, Note.findings?_deeper]
          exact findings?_trace_of_references inductionHypothesis target value
            ["definitions", name] none

/-- The findings of a trace are those by recursion. -/
theorem findings?_trace (root : Schema) (allowance : Nat) (schema : Schema) (value : Json)
    (place : List String) (tag : Option String) :
    Note.findings? (trace root allowance schema value place tag) =
      find root allowance schema value place tag :=
  findings?_trace_of_references (findings?_traceReference root allowance) schema value place tag

/-! ## Replaying without limits -/

/-- Without limits, replaying notes collects their findings, and only an exhausted
allowance stops it. -/
theorem replay_unlimited (frames : Nat) (notes : List Note) (record : Record) :
    match Note.findings? notes with
    | some findings => ∃ hops, replay {} [] frames notes record =
        (.ok (), ⟨findings.reverse ++ record.found, hops⟩)
    | none => (replay {} [] frames notes record).1 = .error .endless := by
  induction notes generalizing record with
  | nil => exact ⟨record.hops, rfl⟩
  | cons note rest inductionHypothesis =>
      cases note with
      | exhausted => rfl
      | reference pending => exact inductionHypothesis record
      | hop definition pending => exact inductionHypothesis _
      | finding rejection =>
          have later := inductionHypothesis (record.withFinding rejection)
          rw [Note.findings?]
          cases found : Note.findings? rest with
          | none =>
              rw [found] at later
              exact later
          | some findings =>
              rw [found] at later
              obtain ⟨hops, replayed⟩ := later
              refine ⟨hops, replayed.trans ?_⟩
              rw [List.reverse_cons, List.append_assoc, List.singleton_append]
              rfl

/-- Without limits, the outcome at an allowance is the list that `find` gives. -/
theorem verdict_outcome_unlimited (allowance : Nat) (schema : Schema) (value : Json) :
    verdict (outcome {} allowance schema value) =
      match find schema allowance schema value [] none with
      | some findings => .ok findings
      | none => .error .endless := by
  have replayed := replay_unlimited 1 (trace schema allowance schema value [] none) {}
  rw [findings?_trace] at replayed
  rw [outcome]
  cases found : find schema allowance schema value [] none with
  | none =>
      rw [found] at replayed
      exact verdict_eq_endless_iff.mpr replayed
  | some findings =>
      rw [found] at replayed
      obtain ⟨hops, ends⟩ := replayed
      rw [ends]
      simp only [verdict, List.append_nil, List.reverse_reverse]

theorem outcome_endless_iff_find {allowance : Nat} {schema : Schema} {value : Json} :
    (outcome {} allowance schema value).1 = .error .endless ↔
      find schema allowance schema value [] none = none := by
  rw [← verdict_eq_endless_iff, verdict_outcome_unlimited]
  cases find schema allowance schema value [] none with
  | none => exact iff_of_true rfl rfl
  | some findings => exact iff_of_false nofun nofun

/-- Without limits, validation gives what `find` gives at the allowance that it takes. -/
theorem validate_result_unlimited (schema : Schema) (value : Json) :
    (validate {} schema value).result =
      match find schema (hopAllowance schema value {}) schema value [] none with
      | some findings => .ok findings
      | none => .error .endless :=
  (validate_result {} schema value).trans (verdict_outcome_unlimited _ schema value)

/-- Findings at some allowance are the findings of validation. -/
theorem validate_result_of_find {schema : Schema} {value : Json} {allowance : Nat}
    {findings : List Finding}
    (found : find schema allowance schema value [] none = some findings) :
    (validate {} schema value).result = .ok findings := by
  have settled : (outcome (Options.limits {}) allowance schema value).1 ≠ .error .endless := by
    intro endless
    cases found.symm.trans (outcome_endless_iff_find.mp endless)
  apply (validate_result_of_settled settled).trans
  apply (verdict_outcome_unlimited allowance schema value).trans
  rw [found]

/-- The walk refines the stack-free reference.  Where the recursion of `find` is finite,
validation without limits gives exactly its findings, with the same places and in the same
order; where it is not, validation has no end. -/
theorem validate_result_iff_find (schema : Schema) (value : Json) :
    (∀ findings, (validate {} schema value).result = .ok findings ↔
      ∃ allowance, find schema allowance schema value [] none = some findings) ∧
    ((validate {} schema value).result = .error .endless ↔
      ∀ allowance, find schema allowance schema value [] none = none) := by
  have taken := validate_result_unlimited schema value
  constructor
  · intro findings
    constructor
    · intro result
      refine ⟨hopAllowance schema value {}, ?_⟩
      cases found : find schema (hopAllowance schema value {}) schema value [] none with
      | none =>
          rw [found] at taken
          cases result.symm.trans taken
      | some others =>
          rw [found] at taken
          cases result.symm.trans taken
          rfl
    · rintro ⟨allowance, found⟩
      exact validate_result_of_find found
  · rw [validate_endless_iff]
    exact forall_congr' fun allowance => outcome_endless_iff_find

end FormSchema
