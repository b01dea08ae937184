import FormSchema.Schema.Basic

/-!
# Verifying a schema

Verification checks what the keywords of a schema must satisfy together, at every
depth.  References are resolved in the definitions of the outermost schema only, and
the first violation found is reported.
-/

namespace FormSchema

/-- A rule that a schema breaks. -/
inductive Violation where
  /-- Definitions that are not empty occur below the outermost schema. -/
  | nestedDefinitions
  /-- Keywords of several forms are set. -/
  | multipleForms (forms : List Form)
  /-- A reference names no definition. -/
  | unresolvedRef (name : String)
  /-- An enumeration has no values. -/
  | emptyEnum
  /-- A property is both required and optional. -/
  | ambiguousProperty (name : String)
  /-- A branch of a discriminator is not of the properties form. -/
  | branchNotProperties (tagValue : String)
  /-- A branch of a discriminator declares the tag as a property of its own. -/
  | branchDeclaresTag (tagValue tag : String)
  deriving DecidableEq, Inhabited

/-- The message for a violation. -/
def Violation.message : Violation → String
  | nestedDefinitions => "definitions may only appear on the root schema"
  | multipleForms forms =>
      "schema mixes more than one form: " ++ String.intercalate ", " (forms.map Form.name)
  | unresolvedRef name => "ref `" ++ name ++ "` does not name a root definition"
  | emptyEnum => "enum must contain at least one value"
  | ambiguousProperty name =>
      "`" ++ name ++ "` is declared in both properties and optionalProperties"
  | branchNotProperties tagValue =>
      "discriminator mapping `" ++ tagValue ++ "` must be of the properties form"
  | branchDeclaresTag tagValue tag =>
      "discriminator mapping `" ++ tagValue ++ "` redeclares the tag `" ++ tag ++ "`"

namespace Schema

/-- The forms that have a keyword set, in order of precedence. -/
def populatedForms (schema : Schema) : List Form :=
  (if schema.ref.isSome then [.ref] else []) ++
  (if schema.type.isSome then [.type] else []) ++
  (if schema.enum.isSome then [.enum] else []) ++
  (if schema.elements.isSome then [.elements] else []) ++
  (if schema.properties.isSome || schema.optionalProperties.isSome then [.properties] else []) ++
  (if schema.values.isSome then [.values] else []) ++
  (if schema.discriminator.isSome then [.discriminator] else [])

/-- Is the name declared as a property, required or optional? -/
def declares (schema : Schema) (name : String) : Bool :=
  (match schema.properties with
    | some fields => Members.has name fields
    | none => false) ||
  (match schema.optionalProperties with
    | some fields => Members.has name fields
    | none => false)

/-- Fail with a violation if the condition holds. -/
def forbid (condition : Bool) (violation : Violation) : Except Violation Unit :=
  if condition then .error violation else .ok ()

/-- The reference, if any, must name a definition of the outermost schema. -/
def checkRef (root : Schema) : Option String → Except Violation Unit
  | none => .ok ()
  | some name => forbid (root.definition? name).isNone (.unresolvedRef name)

/-- An enumeration must have a value. -/
def checkEnum : Option (List String) → Except Violation Unit
  | none => .ok ()
  | some values => forbid values.isEmpty .emptyEnum

/-- No property may be both required and optional. -/
def checkOverlap (required optional : Option (List (String × Schema))) :
    Except Violation Unit :=
  match required, optional with
  | some required, some optional =>
      match (Members.names required).find? fun name => Members.has name optional with
      | some name => .error (.ambiguousProperty name)
      | none => .ok ()
  | _, _ => .ok ()

/-- Only the outermost schema may have definitions. -/
def checkPlacement (outermost : Bool) :
    Option (List (String × Schema)) → Except Violation Unit
  | none => .ok ()
  | some definitions => forbid (!outermost && !definitions.isEmpty) .nestedDefinitions

/-- At most one form may have a keyword set. -/
def checkForms (forms : List Form) : Except Violation Unit :=
  forbid (forms.length > 1) (.multipleForms forms)

/-- Every branch of a discriminator must be of the properties form and leave the tag
undeclared. -/
def checkBranches (tag : String) : List (String × Schema) → Except Violation Unit
  | [] => .ok ()
  | (tagValue, branch) :: rest => do
      forbid (branch.form != .properties) (.branchNotProperties tagValue)
      forbid (branch.declares tag) (.branchDeclaresTag tagValue tag)
      checkBranches tag rest

/-- The rule of a tagged union, if any, must have branches that suit it. -/
def checkRule : Option (Discriminator Schema) → Except Violation Unit
  | none => .ok ()
  | some rule => checkBranches rule.tag rule.mapping

mutual

/-- Check a schema and the schemas inside it.  Definitions come first, then the
schema's own keywords, then the inner schemas, and last what concerns both. -/
def check (root : Schema) (outermost : Bool) : Schema → Except Violation Unit
  | schema@⟨definitions, ref, _, enum, elements, properties, optionalProperties, _, values,
      discriminator⟩ => do
      checkPlacement outermost definitions
      checkNamed root definitions
      checkRef root ref
      checkForms schema.populatedForms
      checkEnum enum
      checkSingle root elements
      checkNamed root properties
      checkNamed root optionalProperties
      checkSingle root values
      checkMapping root discriminator
      checkOverlap properties optionalProperties
      checkRule discriminator

/-- Check a schema inside another, if there is one. -/
def checkSingle (root : Schema) : Option Schema → Except Violation Unit
  | none => .ok ()
  | some schema => check root false schema

/-- Check the named schemas under a keyword, if it is set. -/
def checkNamed (root : Schema) : Option (List (String × Schema)) → Except Violation Unit
  | none => .ok ()
  | some fields => checkFields root fields

/-- Check the branches of a discriminator, if there is one. -/
def checkMapping (root : Schema) : Option (Discriminator Schema) → Except Violation Unit
  | none => .ok ()
  | some ⟨_, mapping⟩ => checkFields root mapping

/-- Check named schemas, in order. -/
def checkFields (root : Schema) : List (String × Schema) → Except Violation Unit
  | [] => .ok ()
  | (_, schema) :: rest => do
      check root false schema
      checkFields root rest

end

/-- Check a schema as the outermost one. -/
def verify (schema : Schema) : Except Violation Unit :=
  check schema true schema

end Schema

end FormSchema
