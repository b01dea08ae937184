import FormSchema.Proofs.Validation.Trace

/-!
# Induction along validation

Validation goes from a schema to what its expansion visits, where the schema becomes smaller,
and from a reference to its definition, where the allowance of hops does.
`recursionInduction` is the induction over both, for properties of a schema together with the
value, the place and the tag with which it is entered.
-/

namespace FormSchema

/-- What holds of a schema once it holds of what its expansion visits, and of its definition
with one hop less, holds of every schema with any allowance. -/
theorem recursionInduction (root : Schema)
    {motive : Nat → Schema → Json → List String → Option String → Prop}
    (step : ∀ allowance schema value place tag,
      (∀ inner innerValue suffix innerPlace innerTag,
        .visit inner innerValue suffix innerPlace innerTag ∈
          schema.shape.expand value place tag →
        motive allowance inner innerValue innerPlace innerTag) →
      (∀ name target less, schema.shape = .ref name → root.definition? name = some target →
        allowance = less + 1 → motive less target value ["definitions", name] none) →
      motive allowance schema value place tag)
    (allowance : Nat) (schema : Schema) (value : Json) (place : List String)
    (tag : Option String) : motive allowance schema value place tag := by
  induction allowance using Nat.strongRecOn generalizing schema value place tag with
  | _ allowance behind =>
      induction schema using Schema.shapeInduction generalizing value place tag with
      | step schema inductionHypothesis =>
          apply step
          · intro inner innerValue suffix innerPlace innerTag isTask
            exact inductionHypothesis inner (Shape.inward_of_mem_expand isTask).mem_inner
              innerValue innerPlace innerTag
          · intro name target less _ _ isLess
            exact behind less (by omega) target value ["definitions", name] none

section Notes

variable {root : Schema} {allowance : Nat} {value : Json} {note : Note}

/-- A note in the trace of a schema comes from one of its tasks. -/
theorem mem_trace_iff {schema : Schema} {place : List String} {tag : Option String} :
    note ∈ trace root allowance schema value place tag ↔
      ∃ task ∈ schema.shape.expand value place tag, note ∈ traceTask root allowance value task := by
  rw [trace_eq, List.mem_flatMap]

/-- A note in the trace of a reference is about the reference itself, or comes from the trace
of its definition. -/
theorem mem_traceReference_iff {name : String} :
    note ∈ traceReference root allowance name value ↔
      note = .reference 0 ∨ ∃ target, root.definition? name = some target ∧
        ((allowance = 0 ∧ note = .exhausted) ∨ ∃ less, allowance = less + 1 ∧
          (note = .hop name 0 ∨
            ∃ inner ∈ trace root less target value ["definitions", name] none,
              note = inner.deeper)) := by
  cases defined : root.definition? name with
  | none => simp [traceReference_of_undefined defined]
  | some target =>
      cases allowance with
      | zero => simp [traceReference_zero defined]
      | succ less => simp [traceReference_succ defined, eq_comm]

variable {schema : Schema} {place : List String} {tag : Option String} {pending : Nat}

/-- Every hop of a trace is noted as a reference as well. -/
theorem reference_mem_of_hop_mem {definition : String}
    (isHop : .hop definition pending ∈ trace root allowance schema value place tag) :
    .reference pending ∈ trace root allowance schema value place tag := by
  induction allowance, schema, value, place, tag using recursionInduction root
    generalizing pending with
  | step allowance schema value place tag inside behind =>
      obtain ⟨task, isTask, isNote⟩ := mem_trace_iff.mp isHop
      refine mem_trace_iff.mpr ⟨task, isTask, ?_⟩
      cases task with
      | reject suffix place => cases List.mem_singleton.mp isNote
      | visit inner innerValue suffix innerPlace innerTag =>
          obtain ⟨note, isInner, same⟩ := List.mem_map.mp isNote
          cases note <;> cases same
          exact List.mem_map_of_mem (f := Note.under suffix) (inside _ _ _ _ _ isTask isInner)
      | follow name =>
          rw [traceTask_follow, mem_traceReference_iff] at isNote
          rw [traceTask_follow, mem_traceReference_iff]
          obtain isReference | ⟨target, defined, ⟨-, isLast⟩ | ⟨less, isLess, isFirst | isInner⟩⟩ :=
            isNote
          · cases isReference
          · cases isLast
          · cases isFirst
            exact .inl rfl
          · obtain ⟨note, isInner, same⟩ := isInner
            cases note <;> cases same
            have noted := behind name target less (Shape.follow_mem_expand_iff.mp isTask) defined
              isLess isInner
            exact .inr ⟨target, defined, .inr ⟨less, isLess, .inr ⟨_, noted, rfl⟩⟩⟩

/-- The references of a trace are inside no more others than the allowance has hops. -/
theorem pending_le_of_reference_mem
    (isReference : .reference pending ∈ trace root allowance schema value place tag) :
    pending ≤ allowance := by
  induction allowance, schema, value, place, tag using recursionInduction root
    generalizing pending with
  | step allowance schema value place tag inside behind =>
      obtain ⟨task, isTask, isNote⟩ := mem_trace_iff.mp isReference
      cases task with
      | reject suffix place => cases List.mem_singleton.mp isNote
      | visit inner innerValue suffix innerPlace innerTag =>
          obtain ⟨note, isInner, same⟩ := List.mem_map.mp isNote
          cases note <;> cases same
          exact inside _ _ _ _ _ isTask isInner
      | follow name =>
          rw [traceTask_follow, mem_traceReference_iff] at isNote
          obtain isFirst | ⟨target, defined, ⟨-, isLast⟩ | ⟨less, isLess, isHop | isInner⟩⟩ :=
            isNote
          · cases isFirst
            exact Nat.zero_le _
          · cases isLast
          · cases isHop
          · obtain ⟨note, isInner, same⟩ := isInner
            cases note <;> cases same
            have bounded := behind name target less (Shape.follow_mem_expand_iff.mp isTask) defined
              isLess isInner
            omega

end Notes

end FormSchema
