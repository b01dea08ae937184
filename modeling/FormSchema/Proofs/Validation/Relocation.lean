import FormSchema.Proofs.Validation.Reach

/-!
# Schemas at other places

The place of a finding in the schema begins where validation began, or at the definition that was
entered last.  If a schema is entered at another place, what it reports at its own place moves
along, and what is reported behind a reference stays where it is.  The first token tells the two
apart, since no rule of a schema begins with the keyword for definitions.

Besides, a trace does not look at anything of the outermost schema but its definitions.  So what a
schema leaves in the trace of another is what it leaves as the outermost schema with the same
definitions, moved to its place.
-/

namespace FormSchema

/-- A place after the schema that it begins at has been put behind another place.  Places that
begin at a definition stay as they are. -/
def placeBehind (outer place : List String) : List String :=
  if place.head? = some "definitions" then place else outer ++ place

theorem placeBehind_nil (outer : List String) : placeBehind outer [] = outer :=
  List.append_nil outer

/-- What stands further inside moves along. -/
theorem placeBehind_append (outer place : List String) {tokens : List String}
    (own : tokens.head? ≠ some "definitions") :
    placeBehind outer (place ++ tokens) = placeBehind outer place ++ tokens := by
  cases place with
  | nil => rw [placeBehind_nil, List.nil_append, placeBehind, if_neg own]
  | cons first rest =>
      by_cases isDefinition : first = "definitions"
      · simp [placeBehind, isDefinition]
      · simp [placeBehind, isDefinition]

/-- The finding after its schema has been put behind a place. -/
def Finding.movedTo (outer : List String) (rejection : Finding) : Finding :=
  ⟨rejection.instancePath, placeBehind outer rejection.schemaPath⟩

/-- The note after its schema has been put behind a place. -/
def Note.movedTo (outer : List String) : Note → Note
  | finding rejection => .finding (rejection.movedTo outer)
  | other => other

theorem map_movedTo_under (outer tokens : List String) (notes : List Note) :
    (notes.map (Note.under tokens)).map (Note.movedTo outer) =
      (notes.map (Note.movedTo outer)).map (Note.under tokens) := by
  rw [List.map_map, List.map_map]
  refine List.map_congr_left fun note _ => ?_
  cases note <;> rfl

theorem map_movedTo_deeper (outer : List String) (notes : List Note) :
    (notes.map Note.deeper).map (Note.movedTo outer) =
      (notes.map (Note.movedTo outer)).map Note.deeper := by
  rw [List.map_map, List.map_map]
  refine List.map_congr_left fun note _ => ?_
  cases note <;> rfl

/-! ## Expansions at other places -/

/-- The task of a schema that is put behind a place. -/
def Task.behind {α : Type} (outer : List String) : Task α → Task α
  | reject suffix place => .reject suffix (outer ++ place)
  | visit inner value suffix place tag => .visit inner value suffix (outer ++ place) tag
  | follow name => .follow name

namespace Shape

variable {α : Type}

theorem expandProperties_behind (required optional : Option (List (String × α)))
    (additional : Bool) (members : List (String × Json)) (place : List String)
    (tag : Option String) :
    expandProperties required optional additional members place tag =
      (expandProperties required optional additional members [] tag).map (Task.behind place) := by
  have requiredTasks : (required.getD []).map (expandRequired members place) =
      ((required.getD []).map (expandRequired members [])).map (Task.behind place) := by
    rw [List.map_map]
    refine List.map_congr_left fun field _ => ?_
    simp only [Function.comp_apply, expandRequired]
    cases members.lookup field.1 <;> rfl
  have optionalTasks : (optional.getD []).filterMap (expandOptional members place) =
      ((optional.getD []).filterMap (expandOptional members [])).map (Task.behind place) := by
    rw [List.map_filterMap]
    refine List.filterMap_congr fun field _ => ?_
    simp only [expandOptional]
    cases members.lookup field.1 <;> rfl
  rw [expandProperties, expandProperties, requiredTasks, optionalTasks]
  cases additional <;> simp [Task.behind]

/-- Entering a shape at a place puts all its tasks behind the place. -/
theorem expand_behind (shape : Shape α) (value : Json) (place : List String)
    (tag : Option String) :
    shape.expand value place tag = (shape.expand value [] tag).map (Task.behind place) := by
  cases shape with
  | empty => rfl
  | ref name => rfl
  | type primitive =>
      simp only [expand]
      cases primitive.accepts value <;> rfl
  | enum texts =>
      cases value <;> try rfl
      simp only [expand]
      split <;> rfl
  | elements item =>
      cases value <;> try rfl
      simp [expand, Task.behind]
  | properties required optional additional =>
      cases value <;> try rfl
      exact expandProperties_behind ..
  | values member =>
      cases value <;> try rfl
      simp [expand, Task.behind]
  | discriminator rule =>
      cases value <;> try rfl
      simp only [expand, expandBranches, List.map_cons, List.map_nil]
      split
      · rfl
      · split <;> rfl
      · rfl

end Shape

/-! ## Traces at other places -/

section Trace

variable {root schema inner : Schema} {allowance : Nat} {value : Json}

/-- No rule begins with the keyword for definitions. -/
theorem Breach.head?_ne {tag : Option String} {suffix rule : List String}
    (breach : Breach schema tag value suffix rule) : rule.head? ≠ some "definitions" := by
  cases breach <;> simp

/-- No schema that validation goes to inside another stands among definitions. -/
theorem Schema.Child.head?_ne {tokens : List String} {tag : Option String}
    (step : Child schema tokens tag inner) : tokens.head? ≠ some "definitions" := by
  cases step <;> simp

/-- The trace of a reference is not moved, for definitions stay where they are. -/
theorem map_movedTo_traceReference (outer : List String) {name : String}
    (stays : ∀ target less, root.definition? name = some target → allowance = less + 1 →
      (trace root less target value ["definitions", name] none).map (Note.movedTo outer) =
        trace root less target value ["definitions", name] none) :
    (traceReference root allowance name value).map (Note.movedTo outer) =
      traceReference root allowance name value := by
  cases defined : root.definition? name with
  | none =>
      rw [traceReference_of_undefined defined]
      rfl
  | some target =>
      cases allowance with
      | zero =>
          rw [traceReference_zero defined]
          rfl
      | succ less =>
          rw [traceReference_succ defined, List.map_cons, List.map_cons, map_movedTo_deeper,
            stays target less defined rfl]
          rfl

/-- The trace of a schema that is put behind a place is the same, with its findings moved. -/
theorem trace_placeBehind (outer : List String) (root : Schema) (allowance : Nat)
    (schema : Schema) (value : Json) (place : List String) (tag : Option String) :
    trace root allowance schema value (placeBehind outer place) tag =
      (trace root allowance schema value place tag).map (Note.movedTo outer) := by
  induction allowance, schema, value, place, tag using recursionInduction root with
  | step allowance schema value place tag inside behind =>
      rw [trace_eq, trace_eq, Shape.expand_behind _ _ (placeBehind outer place),
        Shape.expand_behind _ _ place, List.flatMap_map, List.flatMap_map, List.map_flatMap]
      refine List.flatMap_congr fun task isTask => ?_
      have isPlaced : task.behind place ∈ schema.shape.expand value place tag := by
        rw [Shape.expand_behind]
        exact List.mem_map_of_mem isTask
      cases task with
      | reject suffix rule =>
          obtain ⟨rule, rfl, breach⟩ := breach_of_reject_mem_expand isTask
          simp only [Task.behind, traceTask_reject, List.map_cons, List.map_nil, Note.movedTo,
            Finding.movedTo, placeBehind_append outer place breach.head?_ne]
      | visit inner innerValue suffix tokens innerTag =>
          obtain ⟨tokens, rfl, step, -⟩ := child_of_visit_mem_expand isTask
          simp only [Task.behind, traceTask_visit, map_movedTo_under,
            ← placeBehind_append outer place step.head?_ne]
          rw [inside _ _ _ _ _ isPlaced]
      | follow name =>
          refine (map_movedTo_traceReference outer fun target less defined isLess => ?_).symm
          have shaped := Shape.follow_mem_expand_iff.mp isTask
          exact (behind name target less shaped defined isLess).symm

/-- Entered at a place of its own, a schema has the trace that it has by itself, moved to that
place. -/
theorem trace_moved (outer : List String) (tag : Option String) :
    trace root allowance schema value outer tag =
      (trace root allowance schema value [] tag).map (Note.movedTo outer) := by
  have moved := trace_placeBehind outer root allowance schema value [] tag
  rwa [placeBehind_nil] at moved

end Trace

/-! ## Results at other places -/

/-- Replaying moved findings gives what replaying the findings gives, moved. -/
theorem verdict_replay_moved_from (outer : List String) {limits : Limits} {frames : Nat}
    {notes : List Note} {record moved : Record}
    (areMoved : moved.found = record.found.map (Finding.movedTo outer)) :
    verdict (replay limits [] frames (notes.map (Note.movedTo outer)) moved) =
      (verdict (replay limits [] frames notes record)).map
        (List.map (Finding.movedTo outer)) := by
  have sameFound (record moved : Record)
      (areMoved : moved.found = record.found.map (Finding.movedTo outer)) :
      moved.found.reverse = record.found.reverse.map (Finding.movedTo outer) := by
    rw [areMoved, List.map_reverse]
  induction notes generalizing record moved with
  | nil => exact congrArg Except.ok (sameFound record moved areMoved)
  | cons note rest inductionHypothesis =>
      rw [List.map_cons]
      cases note with
      | exhausted => rfl
      | hop definition pending =>
          exact @inductionHypothesis (record.withHop _) (moved.withHop _) areMoved
      | reference pending =>
          simp only [Note.movedTo, replay]
          split
          · rfl
          · exact inductionHypothesis areMoved
      | finding rejection =>
          have grown : (moved.withFinding (rejection.movedTo outer)).found =
              (record.withFinding rejection).found.map (Finding.movedTo outer) :=
            congrArg (rejection.movedTo outer :: ·) areMoved
          rw [Note.movedTo, replay_finding, replay_finding, areMoved, List.length_map]
          split
          · exact congrArg Except.ok (sameFound _ _ grown)
          · exact inductionHypothesis grown

theorem verdict_replay_moved (outer : List String) (limits : Limits) (frames : Nat)
    (notes : List Note) :
    verdict (replay limits [] frames (notes.map (Note.movedTo outer)) {}) =
      (verdict (replay limits [] frames notes {})).map (List.map (Finding.movedTo outer)) :=
  verdict_replay_moved_from outer rfl

/-! ## Other outermost schemas -/

section Roots

variable {root other : Schema}

theorem traceReference_eq_of_definitions (same : root.definitions = other.definitions)
    (allowance : Nat) : traceReference root allowance = traceReference other allowance := by
  have sameDefinition (name : String) : root.definition? name = other.definition? name := by
    rw [Schema.definition?, same, Schema.definition?]
  induction allowance with
  | zero =>
      funext name value
      rw [traceReference, traceReference, sameDefinition]
  | succ allowance inductionHypothesis =>
      funext name value
      rw [traceReference, traceReference, sameDefinition, inductionHypothesis]

/-- References lead to the same definitions, whatever else the outermost schema has. -/
theorem trace_eq_of_definitions (same : root.definitions = other.definitions) (allowance : Nat) :
    trace root allowance = trace other allowance := by
  funext schema
  rw [trace, traceReference_eq_of_definitions same, trace]

/-- A schema inside another leaves in the trace what it leaves there as the outermost schema with
the same definitions, moved to its place. -/
theorem trace_eq_of_standalone (root schema : Schema) (allowance : Nat) (value : Json)
    (place : List String) :
    trace root allowance schema value place none =
      (trace { schema with definitions := root.definitions } allowance
        { schema with definitions := root.definitions } value [] none).map
          (Note.movedTo place) := by
  let standalone : Schema := { schema with definitions := root.definitions }
  have sameDefinitions : root.definitions = standalone.definitions := rfl
  have sameShape : schema.shape = standalone.shape := Schema.shape_eq_of_same rfl
  rw [trace_moved, trace_eq_of_definitions sameDefinitions, trace_eq_of_shape sameShape]

end Roots

end FormSchema
