import FormSchema.Proofs.Validation.Allowance
import FormSchema.Proofs.Validation.Breach
import FormSchema.Proofs.Validation.Recursion

/-!
# The definitions that validation can reach

Definitions are only entered through references.  `Reaches` names the definitions that some
chain of references leads to: those that the outermost schema refers to in its own tree, and
those that a reached definition refers to in its tree.  It does not look at values, and it
counts references whether or not the form of a schema lets them be followed.

Everything else among the definitions has no influence.  Two schemas that differ in nothing but
definitions, and agree on the ones that are reached, have the same traces, and so the same
validations.
-/

namespace FormSchema

namespace Schema

mutual

/-- The references in the tree of a schema, those in definitions left out. -/
def references : Schema → List String
  | ⟨_, ref, _, _, elements, properties, optionalProperties, _, values, discriminator⟩ =>
      ref.toList ++ singleReferences elements ++ namedReferences properties ++
      namedReferences optionalProperties ++ singleReferences values ++
      mappingReferences discriminator

/-- The references in the tree of a schema inside another, if there is one. -/
def singleReferences : Option Schema → List String
  | none => []
  | some schema => references schema

/-- The references in the trees of the named schemas under a keyword. -/
def namedReferences : Option (List (String × Schema)) → List String
  | none => []
  | some fields => fieldReferences fields

/-- The references in the trees of the branches of a discriminator. -/
def mappingReferences : Option (Discriminator Schema) → List String
  | none => []
  | some ⟨_, mapping⟩ => fieldReferences mapping

/-- The references in the trees of named schemas. -/
def fieldReferences : List (String × Schema) → List String
  | [] => []
  | (_, schema) :: rest => references schema ++ fieldReferences rest

end

/-- References lead from the outermost schema to the definition with that name, whether or not
there is one. -/
inductive Reaches (root : Schema) : String → Prop where
  | own {name : String} (refers : name ∈ root.references) : Reaches root name
  | definition {name next : String} {target : Schema} (reached : Reaches root name)
      (defined : root.definition? name = some target) (refers : next ∈ target.references) :
      Reaches root next

section References

variable {root schema inner : Schema} {name : String}

theorem mem_references_iff :
    name ∈ schema.references ↔
      schema.ref = some name ∨ name ∈ singleReferences schema.elements ∨
      name ∈ namedReferences schema.properties ∨
      name ∈ namedReferences schema.optionalProperties ∨
      name ∈ singleReferences schema.values ∨ name ∈ mappingReferences schema.discriminator := by
  obtain ⟨_, ref, _, _, _, _, _, _, _, _⟩ := schema
  simp only [references, List.mem_append, Option.mem_toList, or_assoc]

theorem mem_fieldReferences {fields : List (String × Schema)} {field : String}
    (isField : (field, inner) ∈ fields) (refers : name ∈ inner.references) :
    name ∈ fieldReferences fields := by
  induction fields with
  | nil => cases isField
  | cons first rest inductionHypothesis =>
      obtain ⟨other, firstSchema⟩ := first
      rw [fieldReferences, List.mem_append]
      rcases List.mem_cons.mp isField with same | isLater
      · cases same
        exact .inl refers
      · exact .inr (inductionHypothesis isLater)

/-- A schema directly inside refers to nothing else than the schema around it. -/
theorem Child.mem_references {tokens : List String} {tag : Option String}
    (step : Child schema tokens tag inner) (refers : name ∈ inner.references) :
    name ∈ schema.references := by
  rw [mem_references_iff]
  cases step with
  | elements isSet =>
      rw [isSet]
      exact .inr (.inl refers)
  | required isSet isField =>
      rw [isSet]
      exact .inr (.inr (.inl (mem_fieldReferences isField refers)))
  | optional isSet isField =>
      rw [isSet]
      exact .inr (.inr (.inr (.inl (mem_fieldReferences isField refers))))
  | values isSet =>
      rw [isSet]
      exact .inr (.inr (.inr (.inr (.inl refers))))
  | branch isSet isBranch =>
      rw [isSet]
      exact .inr (.inr (.inr (.inr (.inr (mem_fieldReferences isBranch refers)))))

/-- Names that have the references of the outermost schema among them, and those of every
definition that they name, have all among them that are reached. -/
theorem Reaches.mem_of_closed {names : List String}
    (own : ∀ name ∈ root.references, name ∈ names)
    (closed : ∀ name ∈ names, ∀ target, root.definition? name = some target →
      ∀ next ∈ target.references, next ∈ names)
    (reached : Reaches root name) : name ∈ names := by
  induction reached with
  | own refers => exact own _ refers
  | definition _ defined refers inductionHypothesis =>
      exact closed _ inductionHypothesis _ defined _ refers

end References

/-- The shape of a schema has nothing to do with its definitions. -/
theorem shape_eq_of_same {schema other : Schema}
    (same : { schema with definitions := none } = { other with definitions := none }) :
    schema.shape = other.shape := by
  have sameShape := congrArg shape same
  exact sameShape

end Schema

section Agreement

variable {root other : Schema}

/-- Two schemas have the same definitions under all names that the first one reaches. -/
def AgreeOnReached (root other : Schema) : Prop :=
  ∀ name, root.Reaches name → root.definition? name = other.definition? name

/-- The trace of a schema all of whose references are reached does not depend on the other
definitions. -/
theorem trace_eq_of_agree (agree : AgreeOnReached root other) {allowance : Nat}
    {schema : Schema} {value : Json} {place : List String} {tag : Option String}
    (enclosed : ∀ name ∈ schema.references, root.Reaches name) :
    trace root allowance schema value place tag = trace other allowance schema value place tag := by
  induction allowance, schema, value, place, tag using recursionInduction root with
  | step allowance schema value place tag inside behind =>
      rw [trace_eq, trace_eq]
      refine List.flatMap_congr fun task isTask => ?_
      cases task with
      | reject suffix rejected => rfl
      | visit inner innerValue suffix innerPlace innerTag =>
          obtain ⟨tokens, -, step, -⟩ := child_of_visit_mem_expand isTask
          have sameInside := inside _ _ _ _ _ isTask fun name refers =>
            enclosed name (step.mem_references refers)
          rw [traceTask_visit, traceTask_visit, sameInside]
      | follow name =>
          have shaped := Shape.follow_mem_expand_iff.mp isTask
          have refers := Schema.mem_references_iff.mpr (.inl (Schema.ref_of_shape shaped))
          have reached := enclosed name refers
          rw [traceTask_follow, traceTask_follow]
          cases defined : root.definition? name with
          | none =>
              have otherUndefined := (agree name reached).symm.trans defined
              rw [traceReference_of_undefined defined, traceReference_of_undefined otherUndefined]
          | some target =>
              have otherDefined := (agree name reached).symm.trans defined
              cases allowance with
              | zero => rw [traceReference_zero defined, traceReference_zero otherDefined]
              | succ less =>
                  have sameBehind := behind name target less shaped defined rfl
                    fun next refers => .definition reached defined refers
                  rw [traceReference_succ defined, traceReference_succ otherDefined, sameBehind]

/-- The trace of a schema depends on its shape only. -/
theorem trace_eq_of_shape {allowance : Nat} {schema inner : Schema}
    (same : schema.shape = inner.shape) (value : Json) (place : List String)
    (tag : Option String) :
    trace root allowance schema value place tag = trace root allowance inner value place tag := by
  rw [trace_eq, trace_eq, same]

theorem outcome_eq_of_agree (agree : AgreeOnReached root other)
    (same : { root with definitions := none } = { other with definitions := none })
    (limits : Limits) (allowance : Nat) (value : Json) :
    outcome limits allowance root value = outcome limits allowance other value := by
  rw [outcome, outcome, trace_eq_of_agree agree fun _ refers => .own refers,
    trace_eq_of_shape (Schema.shape_eq_of_same same)]

end Agreement

/-- Definitions that no reference leads to have no influence.  If two schemas, verified or not,
have the same keywords and agree on the definitions that are reached, then a value has the same
result with either, whatever the limits are: the same findings in the same order, or the same
failure.  If validation ends, it also reports the same events. -/
theorem validate_eq_of_agree_on_reached (options : Options) (schema other : Schema) (value : Json)
    (same : { schema with definitions := none } = { other with definitions := none })
    (agree : ∀ name, schema.Reaches name → schema.definition? name = other.definition? name) :
    (validate options schema value).result = (validate options other value).result ∧
    ((validate options schema value).result ≠ .error .endless →
      (validate options schema value).events = (validate options other value).events) := by
  have sameOutcome := outcome_eq_of_agree agree same options.limits
  have sameForm : schema.form = other.form := congrArg Shape.form (Schema.shape_eq_of_same same)
  by_cases settled : (validate options schema value).result = .error .endless
  · refine ⟨settled.trans (Eq.symm ?_), fun ends => absurd settled ends⟩
    rw [validate_endless_iff] at settled ⊢
    exact fun allowance => sameOutcome allowance value ▸ settled allowance
  · rw [validate_result, verdict_eq_endless_iff] at settled
    have settledOther := settled
    rw [sameOutcome] at settledOther
    have sameValidation : validate options schema value = validate options other value := by
      rw [validate_eq_conclude, validate_eq_conclude, outcome_settles settledOther, sameOutcome,
        sameForm]
    rw [sameValidation]
    exact ⟨rfl, fun _ => rfl⟩

/-- Books with chapters, which may have chapters again.  Nothing refers to notes. -/
def bookSchema : Schema where
  definitions := some [
    ("note", { type := some .string }),
    ("chapter", {
      properties := some [("title", { ref := some "title" })]
      optionalProperties := some [("chapters", { elements := some { ref := some "chapter" } })] }),
    ("title", { type := some .string })]
  elements := some { ref := some "chapter" }

/-- The same books with their definitions in another order.  Notes are spoiled, and an index
refers to pages that there are not. -/
def bookReordered : Schema :=
  { bookSchema with
    definitions := some [
      ("title", { type := some .string }),
      ("index", { ref := some "page" }),
      ("note", { ref := some "page", enum := some [] }),
      ("chapter", {
        properties := some [("title", { ref := some "title" })]
        optionalProperties := some [("chapters",
          { elements := some { ref := some "chapter" } })] })] }

/-- A book with one chapter in another, both without a title. -/
def untitled : Json :=
  .array [.object [("title", .null), ("chapters", .array [.object []])]]

/-- Only chapters and titles are reached, so the definitions of notes and of the index have no
influence, although only one of the schemas can be verified. -/
theorem validate_eq_of_agree_on_reached_books :
    (∀ name, bookSchema.Reaches name →
      bookSchema.definition? name = bookReordered.definition? name) ∧
    bookSchema.verify = .ok () ∧ bookReordered.verify ≠ .ok () ∧
    (validate { maxDepth := some 4 } bookSchema untitled).result =
      (validate { maxDepth := some 4 } bookReordered untitled).result ∧
    (validate { maxDepth := some 4 } bookSchema untitled).result = .ok
      [⟨["0", "title"], ["definitions", "title", "type"]⟩,
        ⟨["0", "chapters", "0"], ["definitions", "chapter", "properties", "title"]⟩] := by
  have agree : ∀ name, bookSchema.Reaches name →
      bookSchema.definition? name = bookReordered.definition? name := by
    intro name reached
    have isReached : name ∈ ["chapter", "title"] := by
      refine reached.mem_of_closed (by decide) ?_
      intro name isName target defined next refers
      rcases List.mem_pair.mp isName with rfl | rfl <;> cases defined
      · revert next
        decide
      · cases refers
    rcases List.mem_pair.mp isReached with rfl | rfl <;> rfl
  have same := validate_eq_of_agree_on_reached { maxDepth := some 4 } bookSchema bookReordered
    untitled rfl agree
  have refused : bookReordered.verify ≠ .ok () := by
    intro verified
    cases verified
  exact ⟨agree, rfl, refused, same.1, rfl⟩

end FormSchema
