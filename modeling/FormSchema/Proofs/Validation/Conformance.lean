import FormSchema.Proofs.Schema.Checked
import FormSchema.Proofs.Validation.Allowance

/-!
# Conformance

`Conforms` says what the eight forms mean, without places, order or limits: it is the least
relation between schemas and values with one rule for each form.  A verified schema finds
nothing wrong with a value exactly if the value conforms to it, unless the depth limit stops
the validation.

The link is one level deep: a value conforms exactly if it fulfils every task of the
expansion of its schema.
-/

namespace FormSchema

/-- A value conforms to a schema whose references are resolved in `root`.  The tag is that
of the discriminator which chose the schema as a branch, if any; a schema of the properties
form allows it as a member. -/
inductive Conforms (root : Schema) : Schema → Option String → Json → Prop where
  | ref {schema target : Schema} {tag : Option String} {value : Json} {name : String}
      (shaped : schema.shape = .ref name) (defined : root.definition? name = some target)
      (conforms : Conforms root target none value) : Conforms root schema tag value
  | type {schema : Schema} {tag : Option String} {value : Json} {primitive : Primitive}
      (shaped : schema.shape = .type primitive) (accepted : primitive.accepts value = true) :
      Conforms root schema tag value
  | enum {schema : Schema} {tag : Option String} {text : String} {texts : List String}
      (shaped : schema.shape = .enum texts) (listed : text ∈ texts) :
      Conforms root schema tag (.string text)
  | elements {schema item : Schema} {tag : Option String} {items : List Json}
      (shaped : schema.shape = .elements item)
      (conform : ∀ value ∈ items, Conforms root item none value) :
      Conforms root schema tag (.array items)
  | properties {schema : Schema} {tag : Option String} {members : List (String × Json)}
      {required optional : Option (List (String × Schema))} {additional : Bool}
      (shaped : schema.shape = .properties required optional additional)
      (present : ∀ name property, (name, property) ∈ required.getD [] →
        ∃ value, members.lookup name = some value)
      (requiredConform : ∀ name property value, (name, property) ∈ required.getD [] →
        members.lookup name = some value → Conforms root property none value)
      (optionalConform : ∀ name property value, (name, property) ∈ optional.getD [] →
        members.lookup name = some value → Conforms root property none value)
      (declared : additional = false → ∀ name value, (name, value) ∈ members →
        name ∈ Members.names (required.getD []) ∨ name ∈ Members.names (optional.getD []) ∨
          tag = some name) :
      Conforms root schema tag (.object members)
  | values {schema member : Schema} {tag : Option String} {members : List (String × Json)}
      (shaped : schema.shape = .values member)
      (conform : ∀ name value, (name, value) ∈ members → Conforms root member none value) :
      Conforms root schema tag (.object members)
  | discriminator {schema branch : Schema} {tag : Option String}
      {members : List (String × Json)} {rule : Discriminator Schema} {tagValue : String}
      (shaped : schema.shape = .discriminator rule)
      (tagged : members.lookup rule.tag = some (.string tagValue))
      (mapped : rule.mapping.lookup tagValue = some branch)
      (conforms : Conforms root branch (some rule.tag) (.object members)) :
      Conforms root schema tag (.object members)
  | empty {schema : Schema} {tag : Option String} {value : Json}
      (shaped : schema.shape = .empty) : Conforms root schema tag value

/-- What a task asks is the case. -/
def Task.Fulfilled (root : Schema) (value : Json) : Task Schema → Prop
  | .reject _ _ => False
  | .visit inner innerValue _ _ tag => Conforms root inner tag innerValue
  | .follow name =>
      ∃ target, root.definition? name = some target ∧ Conforms root target none value

theorem Shape.declares_iff {α : Type} {fields : Option (List (String × α))} {name : String} :
    declares fields name = true ↔ name ∈ Members.names (fields.getD []) := by
  cases fields with
  | none => simp [declares, Members.names]
  | some fields => exact Members.has_iff_mem_names

section Expansion

variable {root schema : Schema} {tag : Option String}

/-- An object conforms to the properties form when the tasks for its members are
fulfilled. -/
theorem conforms_of_expandProperties {required optional : Option (List (String × Schema))}
    {additional : Bool} {members : List (String × Json)} {place : List String}
    (shaped : schema.shape = .properties required optional additional)
    (fulfilled : ∀ task ∈ Shape.expandProperties required optional additional members place tag,
      task.Fulfilled root (.object members)) :
    Conforms root schema tag (.object members) := by
  have requiredTask (name : String) (property : Schema)
      (isField : (name, property) ∈ required.getD []) :
      (Shape.expandRequired members place (name, property)).Fulfilled root (.object members) := by
    apply fulfilled
    exact List.mem_append_left _ (List.mem_append_left _ (List.mem_map_of_mem isField))
  apply Conforms.properties shaped
  case present =>
    intro name property isField
    have task := requiredTask name property isField
    rw [Shape.expandRequired] at task
    cases present : members.lookup name with
    | none =>
        rw [present] at task
        exact task.elim
    | some value => exact ⟨value, rfl⟩
  case requiredConform =>
    intro name property value isField present
    have task := requiredTask name property isField
    rw [Shape.expandRequired, present] at task
    exact task
  case optionalConform =>
    intro name property value isField present
    have expanded : Shape.expandOptional members place (name, property) =
        some (.visit property value [name] (place ++ ["optionalProperties", name]) none) := by
      rw [Shape.expandOptional, present, Option.map_some]
    apply fulfilled (.visit property value [name] (place ++ ["optionalProperties", name]) none)
    apply List.mem_append_left
    exact List.mem_append_right _ (List.mem_filterMap.mpr ⟨_, isField, expanded⟩)
  case declared =>
    rintro rfl name value isMember
    by_contra undeclared
    apply fulfilled (.reject [name] place)
    apply List.mem_append_right
    refine List.mem_map.mpr ⟨(name, value), List.mem_filter.mpr ⟨isMember, ?_⟩, rfl⟩
    rw [← Shape.declares_iff, ← Shape.declares_iff] at undeclared
    simpa [and_assoc] using undeclared

/-- The tasks for the members of an object are fulfilled when it conforms to the properties
form. -/
theorem fulfilled_of_properties {required optional : Option (List (String × Schema))}
    {additional : Bool} {members : List (String × Json)}
    (present : ∀ name property, (name, property) ∈ required.getD [] →
      ∃ value, members.lookup name = some value)
    (requiredConform : ∀ name property value, (name, property) ∈ required.getD [] →
      members.lookup name = some value → Conforms root property none value)
    (optionalConform : ∀ name property value, (name, property) ∈ optional.getD [] →
      members.lookup name = some value → Conforms root property none value)
    (declared : additional = false → ∀ name value, (name, value) ∈ members →
      name ∈ Members.names (required.getD []) ∨ name ∈ Members.names (optional.getD []) ∨
        tag = some name)
    (place : List String) :
    ∀ task ∈ Shape.expandProperties required optional additional members place tag,
      task.Fulfilled root (.object members) := by
  intro task isTask
  rcases List.mem_append.mp isTask with isDeclared | isUndeclared
  · rcases List.mem_append.mp isDeclared with isRequired | isOptional
    · obtain ⟨⟨name, property⟩, isField, rfl⟩ := List.mem_map.mp isRequired
      obtain ⟨value, found⟩ := present name property isField
      rw [Shape.expandRequired, found]
      exact requiredConform name property value isField found
    · obtain ⟨⟨name, property⟩, isField, expanded⟩ := List.mem_filterMap.mp isOptional
      obtain ⟨value, found, rfl⟩ := Option.map_eq_some_iff.mp expanded
      exact optionalConform name property value isField found
  · cases additional with
    | true => cases isUndeclared
    | false =>
        obtain ⟨⟨name, value⟩, isFiltered, -⟩ := List.mem_map.mp isUndeclared
        obtain ⟨isMember, unknown⟩ := List.mem_filter.mp isFiltered
        have known := declared rfl name value isMember
        rw [← Shape.declares_iff, ← Shape.declares_iff] at known
        simp only [Bool.not_eq_true', Bool.or_eq_false_iff, decide_eq_false_iff_not] at unknown
        rcases known with isRequired | isOptional | isTag
        · exact absurd isRequired (by simp [unknown])
        · exact absurd isOptional (by simp [unknown])
        · exact absurd isTag unknown.2

/-- A value that conforms fulfils every task of the expansion, wherever the schema
stands. -/
theorem fulfilled_of_conforms {value : Json} (conforms : Conforms root schema tag value)
    (place : List String) :
    ∀ task ∈ schema.shape.expand value place tag, task.Fulfilled root value := by
  cases conforms with
  | ref shaped defined conforms =>
      rw [shaped]
      intro task isTask
      cases List.mem_singleton.mp isTask
      exact ⟨_, defined, conforms⟩
  | type shaped accepted =>
      rw [shaped, Shape.expand, if_pos accepted]
      intro task isTask
      cases isTask
  | enum shaped listed =>
      simp only [shaped, Shape.expand, List.contains_iff_mem.mpr listed, if_true]
      intro task isTask
      cases isTask
  | elements shaped conform =>
      rw [shaped]
      intro task isTask
      obtain ⟨⟨value, position⟩, isItem, rfl⟩ := List.mem_map.mp isTask
      exact conform value (List.fst_mem_of_mem_zipIdx isItem)
  | properties shaped present requiredConform optionalConform declared =>
      rw [shaped]
      exact fulfilled_of_properties present requiredConform optionalConform declared place
  | values shaped conform =>
      rw [shaped]
      intro task isTask
      obtain ⟨⟨name, value⟩, isMember, rfl⟩ := List.mem_map.mp isTask
      exact conform name value isMember
  | discriminator shaped tagged mapped conforms =>
      rw [shaped]
      intro task isTask
      simp only [Shape.expand, Shape.expandBranches, tagged, mapped] at isTask
      cases List.mem_singleton.mp isTask
      exact conforms
  | empty shaped =>
      rw [shaped]
      intro task isTask
      cases isTask

/-- A value conforms when every task of the expansion is fulfilled. -/
theorem conforms_of_fulfilled {value : Json} {place : List String}
    (fulfilled : ∀ task ∈ schema.shape.expand value place tag, task.Fulfilled root value) :
    Conforms root schema tag value := by
  cases shaped : schema.shape with
  | ref name =>
      rw [shaped] at fulfilled
      obtain ⟨target, defined, conforms⟩ := fulfilled _ (List.mem_singleton_self _)
      exact .ref shaped defined conforms
  | type primitive =>
      rw [shaped, Shape.expand] at fulfilled
      apply Conforms.type shaped
      by_contra refused
      rw [if_neg refused] at fulfilled
      exact fulfilled _ (List.mem_singleton_self _)
  | enum texts =>
      rw [shaped] at fulfilled
      cases value <;> try exact (fulfilled _ (List.mem_singleton_self _)).elim
      rename_i text
      apply Conforms.enum shaped
      by_contra unlisted
      rw [← List.contains_iff_mem] at unlisted
      simp only [Shape.expand, if_neg unlisted] at fulfilled
      exact fulfilled _ (List.mem_singleton_self _)
  | elements item =>
      rw [shaped] at fulfilled
      cases value <;> try exact (fulfilled _ (List.mem_singleton_self _)).elim
      apply Conforms.elements shaped
      intro value isItem
      obtain ⟨position, isAt⟩ := List.mem_iff_getElem?.mp isItem
      have isEntry := List.mk_mem_zipIdx_iff_getElem?.mpr isAt
      exact fulfilled _ (List.mem_map_of_mem isEntry)
  | properties required optional additional =>
      rw [shaped] at fulfilled
      cases value <;> try exact (fulfilled _ (List.mem_singleton_self _)).elim
      exact conforms_of_expandProperties shaped fulfilled
  | values member =>
      rw [shaped] at fulfilled
      cases value <;> try exact (fulfilled _ (List.mem_singleton_self _)).elim
      apply Conforms.values shaped
      intro name value isMember
      exact fulfilled _ (List.mem_map_of_mem isMember)
  | discriminator rule =>
      rw [shaped] at fulfilled
      cases value <;> try exact (fulfilled _ (List.mem_singleton_self _)).elim
      rename_i members
      have task := fulfilled _ (List.mem_singleton_self _)
      unfold Shape.expandBranches at task
      split at task <;> try exact task.elim
      rename_i tagValue tagged
      split at task <;> try exact task.elim
      exact .discriminator shaped tagged ‹_› task
  | empty => exact .empty shaped

end Expansion

end FormSchema
