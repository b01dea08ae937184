import FormSchema.Schema.Verify
import FormSchema.Proofs.Schema.Tree

/-!
# All violations of a schema

The check of a schema stops at the first violation.  `violations` goes on and lists all of
them, in the order of the check: for every schema of the tree its own placement, then its
definitions, its own keywords, the schemas inside, and last what concerns both.  The main
result is `check_eq_firstOf`: the check fails with the first violation of the list, and it
passes if there is none.
-/

namespace FormSchema

/-- The forms that a keyword belongs to, in order of precedence. -/
def Form.groups : List Form :=
  [.ref, .type, .enum, .elements, .properties, .values, .discriminator]

namespace Schema

/-- Does the form have a keyword set? -/
def populates (schema : Schema) : Form → Bool
  | .ref => schema.ref.isSome
  | .type => schema.type.isSome
  | .enum => schema.enum.isSome
  | .elements => schema.elements.isSome
  | .properties => schema.properties.isSome || schema.optionalProperties.isSome
  | .values => schema.values.isSome
  | .discriminator => schema.discriminator.isSome
  | .empty => false

/-! ## The violations of single rules -/

/-- Definitions that are not empty, below the outermost schema. -/
def placementViolations (outermost : Bool) (definitions : Option (List (String × Schema))) :
    List Violation :=
  if outermost = false ∧ definitions.getD [] ≠ [] then [.nestedDefinitions] else []

/-- A reference that names no definition of the outermost schema. -/
def refViolations (root : Schema) : Option String → List Violation
  | none => []
  | some name =>
      if name ∈ Members.names (root.definitions.getD []) then [] else [.unresolvedRef name]

/-- Keywords of several forms. -/
def formViolations (schema : Schema) : List Violation :=
  if 1 < (Form.groups.filter schema.populates).length then
    [.multipleForms (Form.groups.filter schema.populates)]
  else
    []

/-- An enumeration without values. -/
def enumViolations (enum : Option (List String)) : List Violation :=
  if enum = some [] then [.emptyEnum] else []

/-- The first required property that is optional too. -/
def overlapViolations (required optional : Option (List (String × Schema))) : List Violation :=
  (((Members.names (required.getD [])).find? fun name =>
    name ∈ Members.names (optional.getD [])).map .ambiguousProperty).toList

/-- A branch of another form than properties, and one that declares the tag. -/
def branchViolations (tag : String) : String × Schema → List Violation
  | (tagValue, branch) =>
      (if branch.form = .properties then [] else [.branchNotProperties tagValue]) ++
      (if branch.declares tag then [.branchDeclaresTag tagValue tag] else [])

/-- The branches that do not suit the rule of a tagged union. -/
def ruleViolations : Option (Discriminator Schema) → List Violation
  | none => []
  | some rule => rule.mapping.flatMap (branchViolations rule.tag)

/-! ## The violations of a tree -/

mutual

/-- The violations of a schema and of all schemas inside, in the order of the check. -/
def violations (root : Schema) (outermost : Bool) : Schema → List Violation
  | schema@⟨definitions, ref, _, enum, elements, properties, optionalProperties, _, values,
      discriminator⟩ =>
      placementViolations outermost definitions ++
      namedViolations root definitions ++
      refViolations root ref ++
      formViolations schema ++
      enumViolations enum ++
      singleViolations root elements ++
      namedViolations root properties ++
      namedViolations root optionalProperties ++
      singleViolations root values ++
      mappingViolations root discriminator ++
      overlapViolations properties optionalProperties ++
      ruleViolations discriminator

/-- The violations of a schema inside another, if there is one. -/
def singleViolations (root : Schema) : Option Schema → List Violation
  | none => []
  | some schema => violations root false schema

/-- The violations of the named schemas under a keyword. -/
def namedViolations (root : Schema) : Option (List (String × Schema)) → List Violation
  | none => []
  | some fields => fieldViolations root fields

/-- The violations of the branches of a discriminator. -/
def mappingViolations (root : Schema) : Option (Discriminator Schema) → List Violation
  | none => []
  | some ⟨_, mapping⟩ => fieldViolations root mapping

/-- The violations of named schemas, one schema after the other. -/
def fieldViolations (root : Schema) : List (String × Schema) → List Violation
  | [] => []
  | (_, schema) :: rest => violations root false schema ++ fieldViolations root rest

end

/-! ## The check and the first violation -/

/-- The result of a check that stops at the first of some violations. -/
def firstOf : List Violation → Except Violation Unit
  | [] => .ok ()
  | violation :: _ => .error violation

theorem firstOf_append (first later : List Violation) :
    firstOf (first ++ later) = firstOf first >>= fun _ => firstOf later := by
  cases first <;> rfl

theorem firstOf_eq_ok_iff {found : List Violation} : firstOf found = .ok () ↔ found = [] := by
  cases found with
  | nil => exact iff_of_true rfl rfl
  | cons violation rest => exact iff_of_false nofun (List.cons_ne_nil _ _)

theorem firstOf_eq_error_iff {found : List Violation} {violation : Violation} :
    firstOf found = .error violation ↔ found.head? = some violation := by
  cases found with
  | nil => exact iff_of_false nofun nofun
  | cons first rest => simp [firstOf]

theorem forbid_eq_firstOf (condition : Bool) (violation : Violation) :
    forbid condition violation = firstOf (if condition then [violation] else []) := by
  cases condition <;> rfl

/-- The forms that have a keyword set are listed in the order of precedence. -/
theorem populatedForms_eq_filter (schema : Schema) :
    schema.populatedForms = Form.groups.filter schema.populates := by
  have oneByOne (form : Form) (rest : List Form) : (form :: rest).filter schema.populates =
      (if schema.populates form then [form] else []) ++ rest.filter schema.populates := by
    rw [List.filter_cons]
    split <;> rfl
  simp only [populatedForms, Form.groups, oneByOne, List.filter_nil, List.append_nil,
    List.append_assoc]
  rfl

theorem checkPlacement_eq_firstOf (outermost : Bool)
    (definitions : Option (List (String × Schema))) :
    checkPlacement outermost definitions = firstOf (placementViolations outermost definitions) := by
  cases definitions with
  | none => simp [checkPlacement, placementViolations, firstOf]
  | some fields =>
      rw [checkPlacement, forbid_eq_firstOf, placementViolations]
      cases outermost <;> cases fields <;> rfl

theorem definition?_isNone_iff {root : Schema} {name : String} :
    (root.definition? name).isNone = true ↔
      name ∉ Members.names (root.definitions.getD []) := by
  rw [← Members.has_iff_mem_names, definition?]
  cases root.definitions with
  | none => exact iff_of_true rfl Bool.false_ne_true
  | some fields =>
      rw [Option.bind_some, Option.getD_some, Members.has]
      cases fields.lookup name <;> simp

theorem checkRef_eq_firstOf (root : Schema) (ref : Option String) :
    checkRef root ref = firstOf (refViolations root ref) := by
  cases ref with
  | none => rfl
  | some name =>
      rw [checkRef, forbid_eq_firstOf, refViolations]
      by_cases isDefined : name ∈ Members.names (root.definitions.getD [])
      · rw [if_pos isDefined, if_neg fun missing => definition?_isNone_iff.mp missing isDefined]
      · rw [if_neg isDefined, if_pos (definition?_isNone_iff.mpr isDefined)]

theorem checkForms_eq_firstOf (schema : Schema) :
    checkForms schema.populatedForms = firstOf (formViolations schema) := by
  rw [populatedForms_eq_filter, checkForms, forbid_eq_firstOf, formViolations]
  simp only [gt_iff_lt, decide_eq_true_eq]

theorem checkEnum_eq_firstOf (enum : Option (List String)) :
    checkEnum enum = firstOf (enumViolations enum) := by
  rcases enum with _ | _ | ⟨first, rest⟩ <;> rfl

theorem checkOverlap_eq_firstOf (required optional : Option (List (String × Schema))) :
    checkOverlap required optional = firstOf (overlapViolations required optional) := by
  cases required with
  | none => cases optional <;> rfl
  | some required =>
      cases optional with
      | none =>
          have absent : ((Members.names required).find? fun name =>
              decide (name ∈ Members.names ([] : List (String × Schema)))) = none :=
            List.find?_eq_none.mpr fun _ _ => by simp [Members.names]
          simp only [checkOverlap, overlapViolations, Option.getD_some, Option.getD_none, absent]
          rfl
      | some optional =>
          have same : (fun name => Members.has name optional) =
              fun name => decide (name ∈ Members.names optional) := by
            funext name
            rw [Bool.eq_iff_iff, Members.has_iff_mem_names, decide_eq_true_iff]
          simp only [checkOverlap, overlapViolations, Option.getD_some, same]
          cases (Members.names required).find? fun name =>
            decide (name ∈ Members.names optional) <;> rfl

theorem checkBranches_eq_firstOf (tag : String) (mapping : List (String × Schema)) :
    checkBranches tag mapping = firstOf (mapping.flatMap (branchViolations tag)) := by
  induction mapping with
  | nil => rfl
  | cons entry rest inductionHypothesis =>
      obtain ⟨tagValue, branch⟩ := entry
      rw [checkBranches, List.flatMap_cons, branchViolations, firstOf_append, firstOf_append,
        forbid_eq_firstOf, forbid_eq_firstOf, inductionHypothesis]
      by_cases suits : branch.form = .properties <;> simp [suits]

theorem checkRule_eq_firstOf (discriminator : Option (Discriminator Schema)) :
    checkRule discriminator = firstOf (ruleViolations discriminator) := by
  cases discriminator with
  | none => rfl
  | some rule => exact checkBranches_eq_firstOf rule.tag rule.mapping

section Inner

variable {root : Schema}

theorem checkFields_eq_firstOf {fields : List (String × Schema)}
    (each : ∀ name inner, (name, inner) ∈ fields →
      check root false inner = firstOf (violations root false inner)) :
    checkFields root fields = firstOf (fieldViolations root fields) := by
  induction fields with
  | nil => rfl
  | cons field rest inductionHypothesis =>
      obtain ⟨name, inner⟩ := field
      rw [checkFields, fieldViolations, firstOf_append, each name inner List.mem_cons_self,
        inductionHypothesis fun other inside isField =>
          each other inside (List.mem_cons_of_mem _ isField)]

theorem checkNamed_eq_firstOf {named : Option (List (String × Schema))}
    (each : ∀ fields name inner, named = some fields → (name, inner) ∈ fields →
      check root false inner = firstOf (violations root false inner)) :
    checkNamed root named = firstOf (namedViolations root named) := by
  cases named with
  | none => rfl
  | some fields =>
      rw [checkNamed, namedViolations]
      exact checkFields_eq_firstOf fun name inner => each fields name inner rfl

theorem checkSingle_eq_firstOf {single : Option Schema}
    (each : ∀ inner, single = some inner →
      check root false inner = firstOf (violations root false inner)) :
    checkSingle root single = firstOf (singleViolations root single) := by
  cases single with
  | none => rfl
  | some inner =>
      rw [checkSingle, singleViolations]
      exact each inner rfl

theorem checkMapping_eq_firstOf {discriminator : Option (Discriminator Schema)}
    (each : ∀ rule tagValue inner, discriminator = some rule → (tagValue, inner) ∈ rule.mapping →
      check root false inner = firstOf (violations root false inner)) :
    checkMapping root discriminator = firstOf (mappingViolations root discriminator) := by
  cases discriminator with
  | none => rfl
  | some rule =>
      obtain ⟨tag, mapping⟩ := rule
      rw [checkMapping, mappingViolations]
      exact checkFields_eq_firstOf fun tagValue inner => each ⟨tag, mapping⟩ tagValue inner rfl

end Inner

/-- The check fails with the first violation, and passes if there is none. -/
theorem check_eq_firstOf (root : Schema) (outermost : Bool) (schema : Schema) :
    check root outermost schema = firstOf (violations root outermost schema) := by
  induction schema using treeInduction generalizing outermost with
  | step schema insideChild insideDefinition =>
      obtain ⟨definitions, ref, type, enum, elements, properties, optionalProperties,
        additionalProperties, values, discriminator⟩ := schema
      have elementsCheck := @checkSingle_eq_firstOf root elements fun inner isSet =>
        insideChild _ _ inner (.elements isSet) false
      have valuesCheck := @checkSingle_eq_firstOf root values fun inner isSet =>
        insideChild _ _ inner (.values isSet) false
      have definitionsCheck := @checkNamed_eq_firstOf root definitions
        fun fields name inner isSet isField =>
          insideDefinition fields name inner isSet isField false
      have requiredCheck := @checkNamed_eq_firstOf root properties
        fun fields name inner isSet isField =>
          insideChild _ _ inner (.required isSet isField) false
      have optionalCheck := @checkNamed_eq_firstOf root optionalProperties
        fun fields name inner isSet isField =>
          insideChild _ _ inner (.optional isSet isField) false
      have mappingCheck := @checkMapping_eq_firstOf root discriminator
        fun rule tagValue inner isSet isBranch =>
          insideChild _ _ inner (.branch isSet isBranch) false
      rw [check, violations]
      simp only [checkPlacement_eq_firstOf, definitionsCheck, checkRef_eq_firstOf,
        checkForms_eq_firstOf, checkEnum_eq_firstOf, elementsCheck, requiredCheck, optionalCheck,
        valuesCheck, mappingCheck, checkOverlap_eq_firstOf, checkRule_eq_firstOf, firstOf_append,
        bind_assoc]

end Schema

end FormSchema
