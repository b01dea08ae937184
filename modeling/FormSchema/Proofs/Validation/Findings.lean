import FormSchema.Proofs.Validation.Recursion
import FormSchema.Proofs.Validation.Simulation

/-!
# Findings of a trace

Whatever the limits are, a validation that succeeds has gone through a part of its trace, and
its findings are the first ones of the trace.  What holds of all findings of a trace therefore
holds of the findings of every validation, and `traceFindings_eq` is the recursion to prove it
by.
-/

namespace FormSchema

/-- The finding that is noted, if it is one. -/
def Note.finding? : Note → Option Finding
  | .finding rejection => some rejection
  | _ => none

theorem Note.finding?_under (tokens : List String) (note : Note) :
    (note.under tokens).finding? = note.finding?.map (Finding.under tokens) := by
  cases note <;> rfl

theorem Note.finding?_deeper (note : Note) : note.deeper.finding? = note.finding? := by
  cases note <;> rfl

/-- The findings in the trace of a schema. -/
def traceFindings (root : Schema) (allowance : Nat) (schema : Schema) (value : Json)
    (place : List String) (tag : Option String) : List Finding :=
  (trace root allowance schema value place tag).filterMap Note.finding?

/-- The findings on one task of a schema. -/
def taskFindings (root : Schema) (allowance : Nat) (value : Json) (task : Task Schema) :
    List Finding :=
  (traceTask root allowance value task).filterMap Note.finding?

section Equations

variable {root : Schema} {allowance : Nat}

theorem traceFindings_eq (schema : Schema) (value : Json) (place : List String)
    (tag : Option String) :
    traceFindings root allowance schema value place tag =
      (schema.shape.expand value place tag).flatMap (taskFindings root allowance value) := by
  rw [traceFindings, trace_eq, List.filterMap_flatMap]
  rfl

@[simp]
theorem taskFindings_reject (value : Json) (suffix place : List String) :
    taskFindings root allowance value (.reject suffix place) = [⟨suffix, place⟩] :=
  rfl

@[simp]
theorem taskFindings_visit (value innerValue : Json) (inner : Schema)
    (suffix place : List String) (tag : Option String) :
    taskFindings root allowance value (.visit inner innerValue suffix place tag) =
      (traceFindings root allowance inner innerValue place tag).map (Finding.under suffix) := by
  rw [taskFindings, traceTask_visit, traceFindings, List.filterMap_map, List.map_filterMap]
  congr 1
  funext note
  exact Note.finding?_under suffix note

theorem taskFindings_follow {name : String} {target : Schema}
    (defined : root.definition? name = some target) (value : Json) :
    taskFindings root (allowance + 1) value (.follow name) =
      traceFindings root allowance target value ["definitions", name] none := by
  rw [taskFindings, traceTask_follow, traceReference_succ defined, List.filterMap_cons_none rfl,
    List.filterMap_cons_none rfl, List.filterMap_map, traceFindings]
  congr 1
  funext note
  exact note.finding?_deeper

/-- A reference that can be followed has the findings of its definition, and any other has
none. -/
theorem taskFindings_follow_cases (root : Schema) (allowance : Nat) (value : Json)
    (name : String) :
    taskFindings root allowance value (.follow name) = [] ∨
      ∃ target less, root.definition? name = some target ∧ allowance = less + 1 ∧
        taskFindings root allowance value (.follow name) =
          traceFindings root less target value ["definitions", name] none := by
  cases defined : root.definition? name with
  | none =>
      refine .inl ?_
      rw [taskFindings, traceTask_follow, traceReference_of_undefined defined]
      rfl
  | some target =>
      cases allowance with
      | zero =>
          refine .inl ?_
          rw [taskFindings, traceTask_follow, traceReference_zero defined]
          rfl
      | succ less => exact .inr ⟨target, less, rfl, rfl, taskFindings_follow defined value⟩

end Equations

section Replay

variable {limits : Limits} {frames : Nat}

/-- Replaying notes adds the first ones of their findings. -/
theorem replay_found_prefix (notes : List Note) (record : Record) :
    (replay limits [] frames notes record).2.found.reverse <+:
      record.found.reverse ++ notes.filterMap Note.finding? := by
  induction notes generalizing record with
  | nil => exact List.prefix_append _ _
  | cons note rest inductionHypothesis =>
      cases note with
      | finding rejection =>
          have grown :
              record.found.reverse ++ (.finding rejection :: rest).filterMap Note.finding? =
              (record.withFinding rejection).found.reverse ++ rest.filterMap Note.finding? := by
            simp [Record.withFinding, Note.finding?]
          rw [replay_finding, grown]
          split
          · exact List.prefix_append _ _
          · exact inductionHypothesis _
      | reference pending =>
          simp only [replay]
          split
          · exact List.prefix_append _ _
          · exact inductionHypothesis record
      | hop definition pending => exact inductionHypothesis (record.withHop _)
      | exhausted => exact List.prefix_append _ _

end Replay

/-- A validation that succeeds gives the first ones of the findings of its trace. -/
theorem prefix_traceFindings_of_ok {options : Options} {schema : Schema} {value : Json}
    {findings : List Finding} (isOk : (validate options schema value).result = .ok findings) :
    findings <+: traceFindings schema (hopAllowance schema value options.limits) schema value []
      none := by
  rw [validate_result, verdict_eq_ok_iff] at isOk
  rw [← isOk.2]
  exact replay_found_prefix _ {}

end FormSchema
