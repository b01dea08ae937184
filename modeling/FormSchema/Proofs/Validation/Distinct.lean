import Mathlib.Data.List.Nodup
import FormSchema.Proofs.Schema.WellFormed
import FormSchema.Proofs.Validation.Breach
import FormSchema.Proofs.Validation.Findings

/-!
# No finding is made twice

A reference forgets the place that it was followed from, and a definition may be entered from
many places, so it is the place in the value that tells findings apart.  Every task of a schema
that visits something goes on to another item or member.  The only exceptions are a reference
and the branch of a discriminator, which are followed alone.

Two tasks for the properties of an object are about different names, since verification keeps
required and optional properties apart.  A missing property has no place in the value, but its
rule has one of its own in the schema.
-/

namespace FormSchema

/-- What tells the findings of a task from those of others: the first token of their place in
the value, or their place in the schema where the value itself is to blame. -/
def Finding.mark : Finding → String ⊕ List String
  | ⟨token :: _, _⟩ => .inl token
  | ⟨[], place⟩ => .inr place

/-- The mark of all findings of a task.  A task that goes on with the same value may have
findings with any mark. -/
def Task.mark? {α : Type} : Task α → Option (String ⊕ List String)
  | .reject suffix place => some (Finding.mark ⟨suffix, place⟩)
  | .visit _ _ (token :: _) _ _ => some (.inl token)
  | .visit _ _ [] _ _ => none
  | .follow _ => none

/-- Two tasks have different marks. -/
def Task.Apart {α : Type} (first second : Task α) : Prop :=
  ∃ mark other, first.mark? = some mark ∧ second.mark? = some other ∧ mark ≠ other

section Marks

variable {root : Schema} {allowance : Nat} {value : Json}

theorem mark_of_mem_taskFindings {task : Task Schema} {mark : String ⊕ List String}
    (marked : task.mark? = some mark) {finding : Finding}
    (isFinding : finding ∈ taskFindings root allowance value task) : finding.mark = mark := by
  cases task with
  | reject suffix place =>
      cases List.mem_singleton.mp isFinding
      exact Option.some.inj marked
  | visit inner innerValue suffix place tag =>
      rw [taskFindings_visit] at isFinding
      obtain ⟨finding, -, rfl⟩ := List.mem_map.mp isFinding
      cases suffix with
      | nil => cases marked
      | cons token rest => exact Option.some.inj marked
  | follow name => cases marked

/-- Tasks with different marks have no finding in common. -/
theorem Task.Apart.disjoint {first second : Task Schema} (apart : first.Apart second) :
    (taskFindings root allowance value first).Disjoint
      (taskFindings root allowance value second) := by
  obtain ⟨mark, other, firstMarked, secondMarked, different⟩ := apart
  intro finding isFirst isSecond
  have same := mark_of_mem_taskFindings firstMarked isFirst
  exact different (same.symm.trans (mark_of_mem_taskFindings secondMarked isSecond))

end Marks

/-! ## The tasks of an expansion are apart -/

section Properties

variable {place : List String}

/-- A task is about a property or a member of an object: it rejects or visits the member with
this name, or rejects the object because the property is missing. -/
def Task.About (place : List String) (name : String) (task : Task Schema) : Prop :=
  task.mark? = some (.inl name) ∨ task.mark? = some (.inr (place ++ ["properties", name]))

theorem Task.About.apart {name other : String} {first second : Task Schema}
    (isFirst : first.About place name) (isSecond : second.About place other)
    (different : name ≠ other) : first.Apart second := by
  rcases isFirst with isFirst | isFirst <;> rcases isSecond with isSecond | isSecond <;>
    exact ⟨_, _, isFirst, isSecond, by simp [different]⟩

theorem about_expandRequired (members : List (String × Json)) (place : List String)
    (field : String × Schema) :
    (Shape.expandRequired members place field).About place field.1 := by
  obtain ⟨name, property⟩ := field
  obtain ⟨value, -, expanded⟩ | ⟨-, expanded⟩ :=
    Shape.expandRequired_cases members place name property
  · exact .inl (by rw [expanded]; rfl)
  · exact .inr (by rw [expanded]; rfl)

theorem about_of_expandOptional {members : List (String × Json)} {field : String × Schema}
    {task : Task Schema} (expanded : Shape.expandOptional members place field = some task) :
    task.About place field.1 := by
  obtain ⟨value, -, rfl⟩ := Option.map_eq_some_iff.mp expanded
  exact .inl rfl

theorem about_reject (name : String) : Task.About place name (.reject [name] place) :=
  .inl rfl

/-- The tasks for the properties of an object are about different names. -/
theorem pairwise_expandProperties {required optional : Option (List (String × Schema))}
    {additional : Bool} {members : List (String × Json)} {tag : Option String}
    (requiredDistinct : (Members.names (required.getD [])).Nodup)
    (optionalDistinct : (Members.names (optional.getD [])).Nodup)
    (disjoint : ∀ name ∈ Members.names (required.getD []),
      name ∉ Members.names (optional.getD []))
    (membersDistinct : (Members.names members).Nodup) :
    (Shape.expandProperties required optional additional members place tag).Pairwise
      Task.Apart := by
  rw [Members.names, List.Nodup, List.pairwise_map] at requiredDistinct optionalDistinct
  rw [Members.names, List.Nodup, List.pairwise_map] at membersDistinct
  rw [Shape.expandProperties, List.pairwise_append, List.pairwise_append, List.pairwise_map,
    List.pairwise_filterMap]
  refine ⟨⟨?amongRequired, ?amongOptional, ?betweenDeclared⟩, ?amongUndeclared, ?others⟩
  case amongRequired =>
    exact requiredDistinct.imp fun different =>
      (about_expandRequired ..).apart (about_expandRequired ..) different
  case amongOptional =>
    exact optionalDistinct.imp fun different first isFirst second isSecond =>
      (about_of_expandOptional isFirst).apart (about_of_expandOptional isSecond) different
  case betweenDeclared =>
    intro first isRequired second isOptional
    obtain ⟨field, isField, rfl⟩ := List.mem_map.mp isRequired
    obtain ⟨other, isOther, expanded⟩ := List.mem_filterMap.mp isOptional
    have isName := List.mem_map_of_mem (f := Prod.fst) isField
    refine (about_expandRequired ..).apart (about_of_expandOptional expanded) ?_
    intro same
    exact disjoint field.1 isName (same ▸ List.mem_map_of_mem (f := Prod.fst) isOther)
  case amongUndeclared =>
    cases additional with
    | true => exact .nil
    | false =>
        rw [if_neg (by decide), List.pairwise_map]
        exact (membersDistinct.filter _).imp fun different =>
          (about_reject _).apart (about_reject _) different
  case others =>
    intro first isDeclared second isUndeclared
    cases additional with
    | true => cases isUndeclared
    | false =>
        obtain ⟨⟨name, value⟩, isKept, rfl⟩ := List.mem_map.mp isUndeclared
        have undeclared := (List.mem_filter.mp isKept).2
        simp only [Bool.not_eq_true', Bool.or_eq_false_iff] at undeclared
        rcases List.mem_append.mp isDeclared with isRequired | isOptional
        · obtain ⟨field, isField, rfl⟩ := List.mem_map.mp isRequired
          refine (about_expandRequired ..).apart (about_reject name) ?_
          rintro rfl
          have declared := Shape.declares_iff.mpr (List.mem_map_of_mem (f := Prod.fst) isField)
          exact absurd declared (Bool.eq_false_iff.mp undeclared.1.1)
        · obtain ⟨field, isField, expanded⟩ := List.mem_filterMap.mp isOptional
          refine (about_of_expandOptional expanded).apart (about_reject name) ?_
          rintro rfl
          have declared := Shape.declares_iff.mpr (List.mem_map_of_mem (f := Prod.fst) isField)
          exact absurd declared (Bool.eq_false_iff.mp undeclared.1.2)

end Properties

/-- The tasks of a schema that verification accepts are apart. -/
theorem pairwise_expand {root schema : Schema} {outermost : Bool} {value : Json}
    {place : List String} {tag : Option String} (lawful : root.Lawful outermost schema)
    (schemaProper : schema.toJson.proper = true) (valueProper : value.proper = true) :
    (schema.shape.expand value place tag).Pairwise Task.Apart := by
  cases shaped : schema.shape with
  | empty => exact .nil
  | ref name => exact List.pairwise_singleton _ _
  | type primitive =>
      simp only [Shape.expand]
      split
      · exact .nil
      · exact List.pairwise_singleton _ _
  | enum texts =>
      simp only [Shape.expand]
      split
      · split
        · exact .nil
        · exact List.pairwise_singleton _ _
      · exact List.pairwise_singleton _ _
  | elements item =>
      simp only [Shape.expand]
      split
      · rename_i items
        have positions : (items.zipIdx.map Prod.snd).Nodup := by
          rw [List.zipIdx_map_snd]
          exact List.nodup_range'
        rw [List.Nodup, List.pairwise_map] at positions
        rw [List.pairwise_map]
        refine positions.imp fun different => ⟨_, _, rfl, rfl, ?_⟩
        exact Sum.inl_injective.ne fun same => different (Pointer.toString_injective same)
      · exact List.pairwise_singleton _ _
  | properties required optional additional =>
      simp only [Shape.expand]
      split
      · rename_i members
        obtain ⟨rfl, rfl, -⟩ := Schema.properties_of_shape shaped
        exact pairwise_expandProperties
          (Schema.distinct_of_written schemaProper .properties rfl)
          (Schema.distinct_of_written schemaProper .optionalProperties rfl)
          lawful.disjoint (Json.proper_object_iff.mp valueProper).1
      · exact List.pairwise_singleton _ _
  | values member =>
      simp only [Shape.expand]
      split
      · have distinct := (Json.proper_object_iff.mp valueProper).1
        rw [Members.names, List.Nodup, List.pairwise_map] at distinct
        rw [List.pairwise_map]
        exact distinct.imp fun different => ⟨_, _, rfl, rfl, Sum.inl_injective.ne different⟩
      · exact List.pairwise_singleton _ _
  | discriminator rule =>
      simp only [Shape.expand]
      split <;> exact List.pairwise_singleton _ _

/-! ## Findings -/

/-- Putting the same tokens before them keeps findings apart. -/
theorem Finding.under_injective (tokens : List String) :
    Function.Injective (Finding.under tokens) := by
  rintro ⟨instancePath, schemaPath⟩ ⟨otherInstance, otherSchema⟩ same
  simp only [Finding.under, Finding.mk.injEq, List.append_cancel_left_eq] at same
  rw [same.1, same.2]

section Verified

variable {root : Schema}

/-- The findings of a trace that begins at a place where validation can get to are distinct. -/
theorem nodup_traceFindings (verified : root.verify = .ok ())
    (schemaProper : root.toJson.proper = true) {allowance : Nat} {schema : Schema}
    {value : Json} {place : List String} {tag : Option String}
    (isPlaced : root.Placed place tag schema) (valueProper : value.proper = true) :
    (traceFindings root allowance schema value place tag).Nodup := by
  have wellFormed := Schema.verify_eq_ok_iff.mp verified
  induction allowance, schema, value, place, tag using recursionInduction root with
  | step allowance schema value place tag inside behind =>
      have lawful := wellFormed place schema isPlaced.contains
      have isProper := Json.proper_of_at? schemaProper (isPlaced.at?_toJson schemaProper)
      rw [traceFindings_eq, List.nodup_flatMap]
      refine ⟨?_, (pairwise_expand lawful isProper valueProper).imp fun apart => apart.disjoint⟩
      intro task isTask
      cases task with
      | reject suffix rejected => exact List.nodup_singleton _
      | visit inner innerValue suffix innerPlace innerTag =>
          obtain ⟨tokens, rfl, step, lies⟩ := child_of_visit_mem_expand isTask
          rw [taskFindings_visit]
          exact (inside _ _ _ _ _ isTask (.child isPlaced step)
            (Json.proper_of_at? valueProper (lies valueProper))).map
              (Finding.under_injective suffix)
      | follow name =>
          obtain none | ⟨target, less, defined, isLess, same⟩ :=
            taskFindings_follow_cases root allowance value name
          · rw [none]
            exact List.nodup_nil
          · rw [same]
            exact behind name target less (Shape.follow_mem_expand_iff.mp isTask) defined isLess
              (.definition defined) valueProper

end Verified

/-- A validation with a schema that verification accepts makes no finding twice, whatever the
limits are. -/
theorem validate_findings_nodup (options : Options) (schema : Schema) (value : Json)
    (verified : schema.verify = .ok ()) (schemaProper : schema.toJson.proper = true)
    (valueProper : value.proper = true) (findings : List Finding)
    (isOk : (validate options schema value).result = .ok findings) : findings.Nodup :=
  (nodup_traceFindings verified schemaProper .root valueProper).sublist
    (prefix_traceFindings_of_ok isOk).sublist

/-- Words under two names, and further ones in a list. -/
def wordSchema : Schema where
  definitions := some [("word", { type := some .string })]
  properties := some [("first", { ref := some "word" }), ("second", { ref := some "word" })]
  optionalProperties := some [("more", { elements := some { ref := some "word" } })]

/-- Four values that are no words. -/
def wordless : Json :=
  .object [("first", .null), ("second", .null), ("more", .array [.null, .null])]

/-- The rule on words rejects all of them. -/
def wordlessFindings : List Finding :=
  [["first"], ["second"], ["more", "0"], ["more", "1"]].map fun path =>
    ⟨path, ["definitions", "word", "type"]⟩

/-- Four values are rejected by one rule, each at a place of its own. -/
theorem validate_findings_nodup_words :
    wordSchema.verify = .ok () ∧ wordSchema.toJson.proper = true ∧ wordless.proper = true ∧
    (validate {} wordSchema wordless).result = .ok wordlessFindings ∧
    wordlessFindings.Nodup := by
  refine ⟨rfl, rfl, rfl, rfl, ?_⟩
  exact validate_findings_nodup {} wordSchema wordless rfl rfl rfl wordlessFindings rfl

/-- Without verification a property may be required and optional, and is then rejected twice
by the same rule. -/
example :
    (validate {} { wordSchema with optionalProperties := wordSchema.properties }
      (.object [("first", .null), ("second", .string "b")])).result = .ok
        [⟨["first"], ["definitions", "word", "type"]⟩,
          ⟨["first"], ["definitions", "word", "type"]⟩] :=
  rfl

end FormSchema
