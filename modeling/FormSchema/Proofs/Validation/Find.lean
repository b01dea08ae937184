import FormSchema.Proofs.Validation.Expansion

/-!
# Findings by recursion

`find` gives the findings of a value without a stack, a state or a limit.  What a shape asks
of a value is answered task by task and put together in order: a visit puts its tokens before
the places in the value, and a reference begins the place in the schema anew.

References may lead to each other without end, so the recursion has an allowance of nested
references.  It has no value where that is exceeded.
-/

namespace FormSchema

/-- The findings of a schema: of a value, at a place, with the tag that chose the schema. -/
abbrev Finder :=
  Json → List String → Option String → Option (List Finding)

/-- The findings on one task, given those on following a reference. -/
def Task.find (follow : String → Option (List Finding)) : Task Finder → Option (List Finding)
  | .reject suffix place => some [⟨suffix, place⟩]
  | .visit inner value suffix place tag =>
      (inner value place tag).map (List.map (Finding.under suffix))
  | .follow name => follow name

/-- The findings on all tasks of a shape, one after the other. -/
def findShape (follow : String → Json → Option (List Finding)) (shape : Shape Finder) : Finder :=
  fun value place tag =>
    ((shape.expand value place tag).mapM (Task.find fun name => follow name value)).map
      List.flatten

/-- The findings on following a reference.  The definition begins a place of its own. -/
def findReference (root : Schema) : Nat → String → Json → Option (List Finding)
  | 0, name, _ =>
      match root.definition? name with
      | some _ => none
      | none => some []
  | allowance + 1, name, value =>
      match root.definition? name with
      | some target =>
          target.fold (findShape (findReference root allowance)) value ["definitions", name] none
      | none => some []

/-- The findings of a value at a place in a schema, if nested references do not exceed the
allowance. -/
def find (root : Schema) (allowance : Nat) (schema : Schema) : Finder :=
  schema.fold (findShape (findReference root allowance))

section Equations

variable {root : Schema} {allowance : Nat}

/-- The findings on one task of a schema. -/
def findTask (root : Schema) (allowance : Nat) (value : Json) (task : Task Schema) :
    Option (List Finding) :=
  (task.map (find root allowance)).find fun name => findReference root allowance name value

/-- The findings of a schema are those on the tasks of its expansion, one after the other. -/
theorem find_eq (schema : Schema) (value : Json) (place : List String) (tag : Option String) :
    find root allowance schema value place tag =
      ((schema.shape.expand value place tag).mapM (findTask root allowance value)).map
        List.flatten := by
  rw [find, Schema.fold_eq, findShape, Shape.expand_map, List.mapM_map]
  rfl

@[simp]
theorem findTask_visit (value innerValue : Json) (inner : Schema) (suffix place : List String)
    (tag : Option String) :
    findTask root allowance value (.visit inner innerValue suffix place tag) =
      (find root allowance inner innerValue place tag).map (List.map (Finding.under suffix)) :=
  rfl

theorem findReference_of_undefined {name : String} (undefined : root.definition? name = none)
    (value : Json) : findReference root allowance name value = some [] := by
  cases allowance with
  | zero => rw [findReference, undefined]
  | succ allowance => rw [findReference, undefined]

theorem findReference_succ {name : String} {target : Schema}
    (defined : root.definition? name = some target) (value : Json) :
    findReference root (allowance + 1) name value =
      find root allowance target value ["definitions", name] none := by
  rw [findReference, defined]
  rfl

end Equations

end FormSchema
