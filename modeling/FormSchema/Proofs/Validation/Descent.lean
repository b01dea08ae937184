import FormSchema.Proofs.Validation.Lead
import FormSchema.Proofs.Validation.Recursion

/-!
# The descent of a schema and a value

`Descent` goes down into a schema and a value together, along one chain: to a schema inside
and the value it is about, or from a reference to its definition.  It counts the references
on the chain, and knows nothing of limits, of order or of what other branches do.  The
references that it attempts are those that a trace notes.
-/

namespace FormSchema

/-- The descent of a schema and a value together comes to a schema inside and a value
inside, on a chain with that many references. -/
inductive Descent (root : Schema) (value : Json) : Schema → Json → Nat → Prop where
  | start : Descent root value root value 0
  | inward {schema inside : Schema} {outer inner : Json} {pending : Nat}
      (reached : Descent root value schema outer pending)
      (step : Shape.Inward schema.shape outer inside inner) :
      Descent root value inside inner pending
  | hop {schema target : Schema} {inner : Json} {pending : Nat} {name : String}
      (reached : Descent root value schema inner pending) (shaped : schema.shape = .ref name)
      (defined : root.definition? name = some target) :
      Descent root value target inner (pending + 1)

/-- The descent attempts a reference while that many are pending on its chain. -/
def Attempts (root : Schema) (value : Json) (pending : Nat) : Prop :=
  ∃ schema inner name, Descent root value schema inner pending ∧ schema.shape = .ref name

/-! ## Attempts are the references of the trace -/

namespace Note

theorem reference_mem_map_under {tokens : List String} {notes : List Note} {pending : Nat} :
    .reference pending ∈ notes.map (under tokens) ↔ .reference pending ∈ notes := by
  constructor
  · intro isNote
    obtain ⟨note, isOther, same⟩ := List.mem_map.mp isNote
    cases note <;> cases same
    exact isOther
  · intro isNote
    exact List.mem_map_of_mem (f := under tokens) isNote

end Note

section Attempts

variable {root : Schema} {value : Json}

/-- What the trace of a reached schema notes on references, the whole trace notes with
those that are pending. -/
theorem Descent.reference_mem {schema : Schema} {inner : Json} {pending : Nat}
    (descent : Descent root value schema inner pending) {allowance further : Nat}
    (noted : ∀ place tag,
      .reference further ∈ trace root allowance schema inner place tag) :
    ∀ place tag,
      .reference (further + pending) ∈ trace root (allowance + pending) root value place tag := by
  induction descent generalizing allowance further with
  | start => exact noted
  | inward _ step inductionHypothesis =>
      apply inductionHypothesis
      intro place tag
      obtain ⟨suffix, innerPlace, innerTag, isTask⟩ := step.mem_expand place tag
      rw [trace_eq]
      refine List.mem_flatMap.mpr ⟨_, isTask, ?_⟩
      exact Note.reference_mem_map_under.mpr (noted innerPlace innerTag)
  | @hop schema target inner pending name _ shaped defined inductionHypothesis =>
      rw [Nat.add_comm pending 1, ← Nat.add_assoc, ← Nat.add_assoc]
      apply inductionHypothesis
      intro place tag
      rw [trace_of_lead (Schema.lead_of_ref shaped inner), traceReference_succ defined]
      apply List.mem_cons_of_mem
      apply List.mem_cons_of_mem
      exact List.mem_map_of_mem (f := Note.deeper) (noted ["definitions", name] none)

theorem Attempts.reference_mem {pending : Nat} (attempts : Attempts root value pending)
    (allowance : Nat) :
    .reference pending ∈ trace root (allowance + pending) root value [] none := by
  obtain ⟨schema, inner, name, descent, shaped⟩ := attempts
  have first : ∀ place tag, .reference 0 ∈ trace root allowance schema inner place tag := by
    intro place tag
    rw [trace_of_lead (Schema.lead_of_ref shaped inner)]
    exact mem_traceReference_iff.mpr (.inl rfl)
  have noted := descent.reference_mem first [] none
  rwa [Nat.zero_add] at noted

/-- Behind a reached schema, what the trace notes on references is attempted. -/
theorem attempts_of_trace {allowance : Nat} {schema : Schema} {inner : Json}
    {pending further : Nat} (descent : Descent root value schema inner pending)
    {place : List String} {tag : Option String}
    (noted : .reference further ∈ trace root allowance schema inner place tag) :
    Attempts root value (pending + further) := by
  induction allowance, schema, inner, place, tag using recursionInduction root
    generalizing pending further with
  | step allowance schema inner place tag inside behind =>
      obtain ⟨task, isTask, isNote⟩ := mem_trace_iff.mp noted
      cases task with
      | reject suffix place => cases List.mem_singleton.mp isNote
      | visit innermost innerValue suffix innerPlace innerTag =>
          have step := Shape.inward_of_mem_expand isTask
          exact inside _ _ _ _ _ isTask (descent.inward step)
            (Note.reference_mem_map_under.mp isNote)
      | follow name =>
          have shaped := Shape.follow_mem_expand_iff.mp isTask
          rw [traceTask_follow, mem_traceReference_iff] at isNote
          obtain isFirst | ⟨target, defined, ⟨-, isLast⟩ | ⟨less, isLess, isHop | isInner⟩⟩ :=
            isNote
          · cases isFirst
            exact ⟨schema, inner, name, descent, shaped⟩
          · cases isLast
          · cases isHop
          · obtain ⟨note, isInner, same⟩ := isInner
            cases note <;> cases same
            have attempts := behind name target less shaped defined isLess
              (descent.hop shaped defined) isInner
            rwa [Nat.add_right_comm, Nat.add_assoc] at attempts

end Attempts

end FormSchema
