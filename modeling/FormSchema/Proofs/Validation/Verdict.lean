import FormSchema.Proofs.Validation.Conformance
import FormSchema.Proofs.Validation.Parting
import FormSchema.Proofs.Validation.Simulation

/-!
# The verdict

A trace is silent only if the value conforms, and if the value conforms the trace has no
findings.  Both go down one level at a time, over the tasks of an expansion, and from a
reference to its definition with one less allowance.  Neither limit turns one verdict into
the other: the limit of findings stops a validation behind a finding, and the limit of depth
gives no verdict.
-/

namespace FormSchema

/-! ## Findings in a trace -/

/-- Is it anything but a finding? -/
def Note.Quiet : Note → Prop
  | finding _ => False
  | _ => True

@[simp]
theorem Note.quiet_under_iff {note : Note} {tokens : List String} :
    Quiet (note.under tokens) ↔ Quiet note := by
  cases note <;> exact Iff.rfl

@[simp]
theorem Note.quiet_deeper_iff {note : Note} : Quiet note.deeper ↔ Quiet note := by
  cases note <;> exact Iff.rfl

section Trace

variable {root : Schema} {allowance : Nat}

/-- A value conforms to a checked schema whose trace is silent, if this is so behind
references. -/
theorem conforms_of_silent_trace
    (behind : ∀ name target value, root.definition? name = some target →
      (∀ note ∈ traceReference root allowance name value, note.Silent) →
      Conforms root target none value)
    {schema : Schema} {outermost : Bool} (passed : Schema.check root outermost schema = .ok ())
    {value : Json} {place : List String} {tag : Option String}
    (silent : ∀ note ∈ trace root allowance schema value place tag, note.Silent) :
    Conforms root schema tag value := by
  induction schema using Schema.shapeInduction generalizing outermost value place tag with
  | step schema inductionHypothesis =>
      rw [trace_eq] at silent
      apply conforms_of_fulfilled
      intro task isTask
      have taskSilent : ∀ note ∈ traceTask root allowance value task, note.Silent := by
        intro note isNote
        exact silent note (List.mem_flatMap.mpr ⟨task, isTask, isNote⟩)
      cases task with
      | reject suffix place => exact taskSilent _ (List.mem_singleton_self _)
      | follow name =>
          obtain ⟨target, defined⟩ :=
            Schema.definition_of_check passed (Shape.follow_mem_expand_iff.mp isTask)
          exact ⟨target, defined, behind name target value defined taskSilent⟩
      | visit inner innerValue suffix innerPlace innerTag =>
          have isInner := (Shape.inward_of_mem_expand isTask).mem_inner
          apply inductionHypothesis inner isInner (Schema.check_inner passed isInner)
          intro note isNote
          exact Note.silent_under_iff.mp (taskSilent _ (List.mem_map_of_mem isNote))

theorem conforms_of_silent_reference (verified : root.verify = .ok ()) (allowance : Nat)
    (name : String) (target : Schema) (value : Json)
    (defined : root.definition? name = some target)
    (silent : ∀ note ∈ traceReference root allowance name value, note.Silent) :
    Conforms root target none value := by
  induction allowance generalizing name target value with
  | zero =>
      rw [traceReference_zero defined] at silent
      exact (silent .exhausted (List.mem_cons_of_mem _ List.mem_cons_self)).elim
  | succ allowance inductionHypothesis =>
      rw [traceReference_succ defined] at silent
      apply conforms_of_silent_trace inductionHypothesis
        (Schema.check_of_definition verified defined)
      intro note isNote
      apply Note.silent_deeper_iff.mp
      apply silent
      apply List.mem_cons_of_mem
      apply List.mem_cons_of_mem
      exact List.mem_map_of_mem isNote

/-- The trace of a value that conforms has no findings, if this is so behind references. -/
theorem quiet_of_conforms
    (behind : ∀ name target value, root.definition? name = some target →
      Conforms root target none value →
      ∀ note ∈ traceReference root allowance name value, note.Quiet)
    {schema : Schema} {tag : Option String} {value : Json}
    (conforms : Conforms root schema tag value) (place : List String) :
    ∀ note ∈ trace root allowance schema value place tag, note.Quiet := by
  induction schema using Schema.shapeInduction generalizing value place tag with
  | step schema inductionHypothesis =>
      intro note isNote
      rw [trace_eq] at isNote
      obtain ⟨task, isTask, isNote⟩ := List.mem_flatMap.mp isNote
      have fulfilled := fulfilled_of_conforms conforms place task isTask
      cases task with
      | reject suffix place => exact fulfilled.elim
      | follow name =>
          obtain ⟨target, defined, targetConforms⟩ := fulfilled
          exact behind name target value defined targetConforms note isNote
      | visit inner innerValue suffix innerPlace innerTag =>
          have isInner := (Shape.inward_of_mem_expand isTask).mem_inner
          obtain ⟨innerNote, isInnerNote, rfl⟩ := List.mem_map.mp isNote
          exact Note.quiet_under_iff.mpr
            (inductionHypothesis inner isInner fulfilled innerPlace innerNote isInnerNote)

theorem quiet_reference_of_conforms (allowance : Nat) (name : String) (target : Schema)
    (value : Json) (defined : root.definition? name = some target)
    (conforms : Conforms root target none value) :
    ∀ note ∈ traceReference root allowance name value, note.Quiet := by
  induction allowance generalizing name target value with
  | zero =>
      rw [traceReference_zero defined, List.forall_mem_cons, List.forall_mem_singleton]
      exact ⟨trivial, trivial⟩
  | succ allowance inductionHypothesis =>
      rw [traceReference_succ defined, List.forall_mem_cons, List.forall_mem_cons]
      refine ⟨trivial, trivial, ?_⟩
      intro note isNote
      obtain ⟨inner, isInner, rfl⟩ := List.mem_map.mp isNote
      exact Note.quiet_deeper_iff.mpr
        (quiet_of_conforms inductionHypothesis conforms ["definitions", name] inner isInner)

end Trace

/-! ## Findings in a replay -/

section Replay

variable {limits : Limits} {frames : Nat}

/-- A replay that is not cut short by its depth and finds nothing goes over silent notes
only. -/
theorem silent_of_found_nil {notes : List Note} {record : Record}
    (ends : (replay limits [] frames notes record).1 = .ok () ∨
      (replay limits [] frames notes record).1 = .error .enoughFindings)
    (nothing : (replay limits [] frames notes record).2.found = []) :
    ∀ note ∈ notes, note.Silent := by
  induction notes generalizing record with
  | nil => exact nofun
  | cons note rest inductionHypothesis =>
      rw [List.forall_mem_cons]
      cases note with
      | exhausted => rcases ends with ending | ending <;> cases ending
      | hop definition pending => exact ⟨trivial, inductionHypothesis ends nothing⟩
      | reference pending =>
          simp only [replay] at ends nothing
          split at ends
          · rcases ends with ending | ending <;> cases ending
          · rename_i allowed
            rw [allowed] at nothing
            exact ⟨trivial, inductionHypothesis ends nothing⟩
      | finding rejection =>
          have grown : (record.withFinding rejection).found <:+
              (replay limits [] frames (.finding rejection :: rest) record).2.found :=
            withFinding_found_suffix rejection rest record
          rw [nothing, List.suffix_nil] at grown
          cases grown

/-- Without findings in the notes, a replay finds nothing more. -/
theorem found_of_quiet {notes : List Note} {record : Record}
    (quiet : ∀ note ∈ notes, note.Quiet) :
    (replay limits [] frames notes record).2.found = record.found := by
  induction notes generalizing record with
  | nil => rfl
  | cons note rest inductionHypothesis =>
      obtain ⟨first, later⟩ := List.forall_mem_cons.mp quiet
      cases note with
      | exhausted => rfl
      | hop definition pending => exact @inductionHypothesis (record.withHop _) later
      | finding rejection => exact first.elim
      | reference pending =>
          simp only [replay]
          split
          · rfl
          · exact inductionHypothesis later

end Replay

/-! ## The result of a validation -/

section Result

variable {options : Options} {schema : Schema} {value : Json}

/-- An accepted value conforms. -/
theorem conforms_of_accepted (verified : schema.verify = .ok ())
    (accepted : (validate options schema value).result = .ok []) :
    Conforms schema schema none value := by
  rw [validate_result, verdict_eq_ok_iff, List.reverse_eq_nil_iff] at accepted
  obtain ⟨ends, nothing⟩ := accepted
  exact conforms_of_silent_trace (conforms_of_silent_reference verified _) verified
    (silent_of_found_nil ends nothing)

/-- A validation that ends gives findings, or it is stopped by a depth limit that is set. -/
theorem ok_or_tooDeep (returns : (validate options schema value).result ≠ .error .endless) :
    (∃ findings, (validate options schema value).result = .ok findings) ∨
      ∃ limit, options.maxDepth = some limit ∧ 0 < limit ∧
        (validate options schema value).result = .error (.tooDeep limit) := by
  cases result : (validate options schema value).result with
  | ok findings => exact .inl ⟨findings, rfl⟩
  | error abort =>
      cases abort with
      | endless => exact absurd result returns
      | tooDeep limit =>
          rw [validate_result, verdict_eq_tooDeep_iff] at result
          obtain ⟨bounded, -⟩ := reference_of_tooDeep result
          obtain ⟨isSet, positive⟩ := Option.filter_eq_some_iff.mp bounded
          exact .inr ⟨limit, isSet, by simpa using positive, rfl⟩

/-- There are no findings about a value that conforms. -/
theorem findings_eq_nil_of_conforms (conforms : Conforms schema schema none value)
    {findings : List Finding} (result : (validate options schema value).result = .ok findings) :
    findings = [] := by
  rw [validate_result, verdict_eq_ok_iff] at result
  have quiet := quiet_of_conforms
    (quiet_reference_of_conforms (hopAllowance schema value options.limits)) conforms []
  have found := @found_of_quiet options.limits 1 _ {} quiet
  rw [← result.2, outcome, found]
  rfl

end Result

/-- The verdict is sound and complete, whatever the limits are.  If the validation of a value
with a verified schema ends, then it accepts only a value that conforms; about a value that
conforms it has no findings, though it may be too deep, if a depth limit is set; and about
one that does not it has some, or is too deep. -/
theorem validate_verdict (options : Options) (schema : Schema) (value : Json)
    (verified : schema.verify = .ok ())
    (returns : (validate options schema value).result ≠ .error .endless) :
    ((validate options schema value).result = .ok [] → Conforms schema schema none value) ∧
    (Conforms schema schema none value →
      (validate options schema value).result = .ok [] ∨
        ∃ limit, options.maxDepth = some limit ∧ 0 < limit ∧
          (validate options schema value).result = .error (.tooDeep limit)) ∧
    (¬ Conforms schema schema none value →
      (∃ findings, findings ≠ [] ∧ (validate options schema value).result = .ok findings) ∨
        ∃ limit, options.maxDepth = some limit ∧ 0 < limit ∧
          (validate options schema value).result = .error (.tooDeep limit)) := by
  refine ⟨conforms_of_accepted verified, ?_, ?_⟩
  · intro conforms
    rcases ok_or_tooDeep returns with ⟨findings, result⟩ | deep
    · rw [findings_eq_nil_of_conforms conforms result] at result
      exact .inl result
    · exact .inr deep
  · intro deviates
    rcases ok_or_tooDeep returns with ⟨findings, result⟩ | deep
    · refine .inl ⟨findings, ?_, result⟩
      rintro rfl
      exact deviates (conforms_of_accepted verified result)
    · exact .inr deep

/-- Trees whose nodes are told apart by a tag. -/
def treeSchema : Schema where
  definitions := some [("tree", { discriminator := some ⟨"kind", [
    ("leaf", { properties := some [("label", { type := some .string })] }),
    ("node", { properties := some [("below", { elements := some { ref := some "tree" } })] })]⟩ })]
  ref := some "tree"

/-- A node above one leaf with the given members. -/
def treeAbove (leaf : List (String × Json)) : Json :=
  .object [("kind", .string "node"), ("below", .array [.object (("kind", .string "leaf") :: leaf)])]

/-- A tree is accepted and conforms.  With a member that its leaf does not declare it is
rejected, and does not conform. -/
theorem validate_verdict_trees :
    treeSchema.verify = .ok () ∧
    (validate {} treeSchema (treeAbove [("label", .string "a")])).result = .ok [] ∧
    Conforms treeSchema treeSchema none (treeAbove [("label", .string "a")]) ∧
    (validate {} treeSchema (treeAbove [("label", .string "a"), ("weight", .null)])).result ≠
      .error .endless ∧
    ¬ Conforms treeSchema treeSchema none
      (treeAbove [("label", .string "a"), ("weight", .null)]) := by
  have verified : treeSchema.verify = .ok () := rfl
  have accepted : (validate {} treeSchema (treeAbove [("label", .string "a")])).result = .ok [] :=
    rfl
  have rejected : (validate {} treeSchema
      (treeAbove [("label", .string "a"), ("weight", .null)])).result =
        .ok [⟨["below", "0", "weight"], ["definitions", "tree", "discriminator", "mapping",
          "leaf"]⟩] :=
    rfl
  have returns : (validate {} treeSchema
      (treeAbove [("label", .string "a"), ("weight", .null)])).result ≠ .error .endless := by
    rw [rejected]
    exact nofun
  refine ⟨verified, accepted, ?_, returns, ?_⟩
  · exact (validate_verdict {} _ _ verified (by rw [accepted]; exact nofun)).1 accepted
  · intro conforms
    rcases (validate_verdict {} _ _ verified returns).2.1 conforms with empty | ⟨_, isSet, _⟩
    · cases rejected.symm.trans empty
    · cases isSet

end FormSchema
