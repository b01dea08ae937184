import FormSchema.Proofs.Validation.Expansion

/-!
# Validation without stacks

`trace` writes down, in order, everything that validating a value comes upon: findings,
references and hops.  It knows no limits and no state.  What lies inside is traced from
its own place, and the notes are then moved to where they belong: tokens are put before
places in the value, and the references inside a reference are counted one deeper.

References may lead to each other without end, so `trace` takes an allowance of nested
hops, and a trace that would need more of them says so.
-/

namespace FormSchema

/-- What validation comes upon. -/
inductive Note where
  | finding (finding : Finding)
  /-- A reference, inside as many others as `pending` says. -/
  | reference (pending : Nat)
  /-- The reference is followed to the definition it names. -/
  | hop (definition : String) (pending : Nat)
  /-- More hops are nested than the allowance has. -/
  | exhausted
  deriving DecidableEq

namespace Note

/-- Put tokens before the place in the value. -/
def under (tokens : List String) : Note → Note
  | finding rejection => .finding (rejection.under tokens)
  | other => other

/-- Count one more reference around. -/
def deeper : Note → Note
  | reference pending => .reference (pending + 1)
  | hop definition pending => .hop definition (pending + 1)
  | other => other

@[simp]
theorem under_nil : under [] = id := by
  funext note
  cases note <;> rfl

@[simp]
theorem under_finding (tokens : List String) (rejection : Finding) :
    under tokens (.finding rejection) = .finding (rejection.under tokens) :=
  rfl

@[simp]
theorem under_reference (tokens : List String) (pending : Nat) :
    under tokens (.reference pending) = .reference pending :=
  rfl

@[simp]
theorem under_hop (tokens : List String) (definition : String) (pending : Nat) :
    under tokens (.hop definition pending) = .hop definition pending :=
  rfl

@[simp]
theorem under_exhausted (tokens : List String) : under tokens .exhausted = .exhausted :=
  rfl

@[simp]
theorem deeper_finding (rejection : Finding) : deeper (.finding rejection) = .finding rejection :=
  rfl

@[simp]
theorem deeper_reference (pending : Nat) :
    deeper (.reference pending) = .reference (pending + 1) :=
  rfl

@[simp]
theorem deeper_hop (definition : String) (pending : Nat) :
    deeper (.hop definition pending) = .hop definition (pending + 1) :=
  rfl

@[simp]
theorem deeper_exhausted : deeper .exhausted = .exhausted :=
  rfl

end Note

/-- The trace of a schema: of a value, at a place, with the tag that chose the schema. -/
abbrev Tracer :=
  Json → List String → Option String → List Note

/-- The notes on one task, given those on following a reference. -/
def Task.trace (follow : String → List Note) : Task Tracer → List Note
  | .reject suffix place => [.finding ⟨suffix, place⟩]
  | .visit inner value suffix place tag => (inner value place tag).map (Note.under suffix)
  | .follow name => follow name

/-- The notes on all tasks of a shape, one after the other. -/
def traceShape (follow : String → Json → List Note) (shape : Shape Tracer) : Tracer :=
  fun value place tag =>
    (shape.expand value place tag).flatMap (Task.trace fun name => follow name value)

/-- The notes on following a reference.  The definition begins a place of its own. -/
def traceReference (root : Schema) : Nat → String → Json → List Note
  | 0, name, _ =>
      match root.definition? name with
      | some _ => [.reference 0, .exhausted]
      | none => [.reference 0]
  | allowance + 1, name, value =>
      match root.definition? name with
      | some target =>
          .reference 0 :: .hop name 0 ::
            (target.fold (traceShape (traceReference root allowance)) value
              ["definitions", name] none).map Note.deeper
      | none => [.reference 0]

/-- The notes on validating a value with a schema whose references are resolved in
`root`. -/
def trace (root : Schema) (allowance : Nat) (schema : Schema) : Tracer :=
  schema.fold (traceShape (traceReference root allowance))

section Equations

variable {root : Schema} {allowance : Nat}

/-- The notes on one task of a schema. -/
def traceTask (root : Schema) (allowance : Nat) (value : Json) (task : Task Schema) :
    List Note :=
  (task.map (trace root allowance)).trace fun name => traceReference root allowance name value

theorem trace_eq (schema : Schema) (value : Json) (place : List String)
    (tag : Option String) :
    trace root allowance schema value place tag =
      (schema.shape.expand value place tag).flatMap (traceTask root allowance value) := by
  rw [trace, Schema.fold_eq, traceShape, Shape.expand_map, List.flatMap_map]
  rfl

theorem traceReference_zero {name : String} {target : Schema}
    (defined : root.definition? name = some target) (value : Json) :
    traceReference root 0 name value = [.reference 0, .exhausted] := by
  rw [traceReference, defined]

theorem traceReference_succ {name : String} {target : Schema}
    (defined : root.definition? name = some target) (value : Json) :
    traceReference root (allowance + 1) name value =
      .reference 0 :: .hop name 0 ::
        (trace root allowance target value ["definitions", name] none).map Note.deeper := by
  rw [traceReference, defined]
  rfl

theorem traceReference_of_undefined {name : String} (undefined : root.definition? name = none)
    (value : Json) : traceReference root allowance name value = [.reference 0] := by
  cases allowance with
  | zero => rw [traceReference, undefined]
  | succ allowance => rw [traceReference, undefined]

@[simp]
theorem traceTask_reject (value : Json) (suffix place : List String) :
    traceTask root allowance value (.reject suffix place) = [.finding ⟨suffix, place⟩] :=
  rfl

@[simp]
theorem traceTask_visit (value innerValue : Json) (inner : Schema) (suffix place : List String)
    (tag : Option String) :
    traceTask root allowance value (.visit inner innerValue suffix place tag) =
      (trace root allowance inner innerValue place tag).map (Note.under suffix) :=
  rfl

@[simp]
theorem traceTask_follow (value : Json) (name : String) :
    traceTask root allowance value (.follow name) = traceReference root allowance name value :=
  rfl

end Equations

end FormSchema
