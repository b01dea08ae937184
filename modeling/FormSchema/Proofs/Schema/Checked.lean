import FormSchema.Schema.Verify
import FormSchema.Proofs.Schema.Shape

/-!
# What a checked schema promises

A schema that passes the check names only definitions that exist, and everything inside it
passes the check as well.  For the outermost schema this includes the definitions, so what
holds of a verified schema holds wherever its references lead.
-/

namespace FormSchema

namespace Schema

/-- Both of two checks pass if one after the other does. -/
theorem eq_ok_of_bind_eq_ok {first : Except Violation Unit}
    {next : Unit → Except Violation Unit} (passed : first >>= next = .ok ()) :
    first = .ok () ∧ next () = .ok () := by
  cases first with
  | error violation => cases passed
  | ok => exact ⟨rfl, passed⟩

/-- Everything among fields that pass the check passes it. -/
theorem check_of_checkFields {root inner : Schema} {fields : List (String × Schema)}
    (passed : checkFields root fields = .ok ()) (isField : inner ∈ fields.map Prod.snd) :
    check root false inner = .ok () := by
  induction fields with
  | nil => cases isField
  | cons field rest inductionHypothesis =>
      rw [checkFields] at passed
      obtain ⟨first, later⟩ := eq_ok_of_bind_eq_ok passed
      rcases List.mem_cons.mp isField with rfl | isLater
      · exact first
      · exact inductionHypothesis later isLater

theorem check_of_checkNamed {root inner : Schema} {named : Option (List (String × Schema))}
    (passed : checkNamed root named = .ok ()) (isField : inner ∈ (named.getD []).map Prod.snd) :
    check root false inner = .ok () := by
  cases named with
  | none => cases isField
  | some fields =>
      rw [checkNamed] at passed
      exact check_of_checkFields passed isField

/-- What the check establishes for the keywords that lead on to other schemas. -/
structure Checked (root schema : Schema) : Prop where
  definitions : checkNamed root schema.definitions = .ok ()
  ref : checkRef root schema.ref = .ok ()
  elements : checkSingle root schema.elements = .ok ()
  properties : checkNamed root schema.properties = .ok ()
  optionalProperties : checkNamed root schema.optionalProperties = .ok ()
  values : checkSingle root schema.values = .ok ()
  mapping : checkMapping root schema.discriminator = .ok ()

theorem checked_of_check {root schema : Schema} {outermost : Bool}
    (passed : check root outermost schema = .ok ()) : Checked root schema := by
  obtain ⟨definitions, ref, type, enum, elements, properties, optionalProperties,
    additionalProperties, values, discriminator⟩ := schema
  rw [check] at passed
  obtain ⟨-, passed⟩ := eq_ok_of_bind_eq_ok passed
  obtain ⟨definitionsPass, passed⟩ := eq_ok_of_bind_eq_ok passed
  obtain ⟨refPasses, passed⟩ := eq_ok_of_bind_eq_ok passed
  obtain ⟨-, passed⟩ := eq_ok_of_bind_eq_ok passed
  obtain ⟨-, passed⟩ := eq_ok_of_bind_eq_ok passed
  obtain ⟨elementsPass, passed⟩ := eq_ok_of_bind_eq_ok passed
  obtain ⟨propertiesPass, passed⟩ := eq_ok_of_bind_eq_ok passed
  obtain ⟨optionalPass, passed⟩ := eq_ok_of_bind_eq_ok passed
  obtain ⟨valuesPass, passed⟩ := eq_ok_of_bind_eq_ok passed
  obtain ⟨mappingPasses, -⟩ := eq_ok_of_bind_eq_ok passed
  exact ⟨definitionsPass, refPasses, elementsPass, propertiesPass, optionalPass, valuesPass,
    mappingPasses⟩

/-- Everything inside a checked schema passes the check. -/
theorem check_inner {root schema inner : Schema} {outermost : Bool}
    (passed : check root outermost schema = .ok ()) (isInner : inner ∈ schema.shape.inner) :
    check root false inner = .ok () := by
  have checked := checked_of_check passed
  cases shaped : schema.shape with
  | ref name => simp [shaped, Shape.inner] at isInner
  | type primitive => simp [shaped, Shape.inner] at isInner
  | enum values => simp [shaped, Shape.inner] at isInner
  | empty => simp [shaped, Shape.inner] at isInner
  | elements item =>
      have itemPasses := checked.elements
      rw [elements_of_shape shaped, checkSingle] at itemPasses
      rw [shaped] at isInner
      rwa [List.mem_singleton.mp isInner]
  | values member =>
      have memberPasses := checked.values
      rw [values_of_shape shaped, checkSingle] at memberPasses
      rw [shaped] at isInner
      rwa [List.mem_singleton.mp isInner]
  | discriminator rule =>
      have mappingPasses := checked.mapping
      rw [discriminator_of_shape shaped, checkMapping] at mappingPasses
      rw [shaped] at isInner
      exact check_of_checkFields mappingPasses isInner
  | properties required optional additional =>
      obtain ⟨sameRequired, sameOptional, -⟩ := properties_of_shape shaped
      rw [shaped, Shape.inner, ← sameRequired, ← sameOptional] at isInner
      rcases List.mem_append.mp isInner with isRequired | isOptional
      · exact check_of_checkNamed checked.properties isRequired
      · exact check_of_checkNamed checked.optionalProperties isOptional

/-- The reference of a checked schema names a definition. -/
theorem definition_of_check {root schema : Schema} {outermost : Bool} {name : String}
    (passed : check root outermost schema = .ok ()) (shaped : schema.shape = .ref name) :
    ∃ target, root.definition? name = some target := by
  have refPasses := (checked_of_check passed).ref
  rw [ref_of_shape shaped, checkRef] at refPasses
  cases defined : root.definition? name with
  | none =>
      rw [defined] at refPasses
      cases refPasses
  | some target => exact ⟨target, rfl⟩

/-- The definitions of a verified schema pass the check. -/
theorem check_of_definition {root target : Schema} {name : String}
    (verified : root.verify = .ok ()) (defined : root.definition? name = some target) :
    check root false target = .ok () := by
  obtain ⟨definitions, named, found⟩ := Option.bind_eq_some_iff.mp defined
  have definitionsPass := (checked_of_check verified).definitions
  rw [named, checkNamed] at definitionsPass
  exact check_of_checkFields definitionsPass
    (List.mem_map_of_mem (f := Prod.snd) (Members.mem_of_lookup found))

end Schema

end FormSchema
