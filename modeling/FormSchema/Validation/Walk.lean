import FormSchema.Schema.Basic
import FormSchema.Validation.Finding

/-!
# The walk through a schema and a value

A value is validated by walking it together with its schema.  The walk is a state
machine: `Walk` holds the tokens that lead to the current place, the findings so far and
the references that were followed.

Places in the schema are kept as frames.  Following a reference opens a frame that
starts at the definition, and only the innermost frame is reported, so a definition
reports its places in the same way from wherever it is entered.

A walk ends early in one of two ways: when there are as many findings as wanted, or when
a reference would open a frame too many.  It then stops at once, with its tokens and frames
as they are.  This is how the state after a halt is modelled here.  A program that returns
through all of its calls takes most of the tokens and frames off on the way back, but
nothing is found or followed there, so this changes no finding and no event.
-/

namespace FormSchema

/-- Limits of a walk; a limit that is absent does not apply. -/
structure Limits where
  /-- How many frames may be open, the first one included. -/
  depth : Option Nat := none
  /-- After how many findings the walk stops. -/
  findings : Option Nat := none
  deriving DecidableEq, Inhabited

/-- Why a walk ends early. -/
inductive Halt where
  | enoughFindings
  | tooDeep (limit : Nat)
  /-- References lead to each other without end. -/
  | endless
  deriving DecidableEq, Inhabited

/-- A reference that was followed: the definition it names, and how many frames were open
before. -/
structure Hop where
  definition : String
  depth : Nat
  deriving DecidableEq, Inhabited

/-- The state of a walk.  Stacks hold their innermost entry first, and lists of what
happened the latest. -/
structure Walk where
  limits : Limits
  instanceTokens : List String := []
  frames : List (List String) := [[]]
  found : List Finding := []
  hops : List Hop := []
  deriving Inhabited

/-- A part of a walk. -/
abbrev Walking :=
  ExceptT Halt (StateM Walk)

/-- What a schema does with a value, given the tag of the discriminator that chose the
schema as a branch. -/
abbrev Visitor :=
  Json → Option String → Walking Unit

namespace Walk

/-- Put a token on the innermost frame. -/
def pushSchemaToken (token : String) (walk : Walk) : Walk :=
  match walk.frames with
  | [] => walk
  | frame :: outer => { walk with frames := (token :: frame) :: outer }

/-- Take the last token off the innermost frame. -/
def popSchemaToken (walk : Walk) : Walk :=
  match walk.frames with
  | [] => walk
  | frame :: outer => { walk with frames := frame.tail :: outer }

/-- Put a token on the place in the value. -/
def pushInstanceToken (token : String) (walk : Walk) : Walk :=
  { walk with instanceTokens := token :: walk.instanceTokens }

/-- Take the last token off the place in the value. -/
def popInstanceToken (walk : Walk) : Walk :=
  { walk with instanceTokens := walk.instanceTokens.tail }

/-- Open a frame for a definition. -/
def openFrame (name : String) (walk : Walk) : Walk :=
  { walk with frames := [name, "definitions"] :: walk.frames }

/-- Close the innermost frame. -/
def closeFrame (walk : Walk) : Walk :=
  { walk with frames := walk.frames.tail }

/-- Taking off a token undoes putting it on. -/
@[simp]
theorem popSchemaToken_pushSchemaToken (token : String) (walk : Walk) :
    (walk.pushSchemaToken token).popSchemaToken = walk := by
  obtain ⟨limits, instanceTokens, frames, found, hops⟩ := walk
  cases frames <;> rfl

/-- Taking off a token undoes putting it on. -/
@[simp]
theorem popInstanceToken_pushInstanceToken (token : String) (walk : Walk) :
    (walk.pushInstanceToken token).popInstanceToken = walk :=
  rfl

/-- Closing a frame undoes opening it. -/
@[simp]
theorem closeFrame_openFrame (name : String) (walk : Walk) :
    (walk.openFrame name).closeFrame = walk :=
  rfl

/-- Record that a reference is followed. -/
def recordHop (name : String) (walk : Walk) : Walk :=
  { walk with hops := ⟨name, walk.frames.length⟩ :: walk.hops }

/-- The finding that is made at the current place. -/
def findingHere (walk : Walk) : Finding :=
  ⟨walk.instanceTokens.reverse, (walk.frames.headD []).reverse⟩

/-- Record a finding at the current place. -/
def recordFinding (walk : Walk) : Walk :=
  { walk with found := walk.findingHere :: walk.found }

/-- Are there as many findings as wanted? -/
def hasEnough (walk : Walk) : Bool :=
  match walk.limits.findings with
  | some limit => limit ≤ walk.found.length
  | none => false

end Walk

namespace Walking

/-- Reject the value at the current place. -/
def reject : Walking Unit := do
  modify Walk.recordFinding
  if (← get).hasEnough then
    throw .enoughFindings

/-- Reject the value at the current place unless the condition holds. -/
def require (condition : Bool) : Walking Unit :=
  if condition then pure () else reject

/-- Go one token further in the schema. -/
def atSchema (token : String) (inside : Walking Unit) : Walking Unit := do
  modify (Walk.pushSchemaToken token)
  inside
  modify Walk.popSchemaToken

/-- Go one token further in the value. -/
def atInstance (token : String) (inside : Walking Unit) : Walking Unit := do
  modify (Walk.pushInstanceToken token)
  inside
  modify Walk.popInstanceToken

/-- Visit the items of a list, the first of which has the given position. -/
def eachItem (item : Visitor) (position : Nat) : List Json → Walking Unit
  | [] => pure ()
  | value :: rest => do
      atInstance (toString position) (item value none)
      eachItem item (position + 1) rest

/-- Visit the members of an object. -/
def eachMember (member : Visitor) : List (String × Json) → Walking Unit
  | [] => pure ()
  | (name, value) :: rest => do
      atInstance name (member value none)
      eachMember member rest

/-- Visit the required properties of an object; each must be present. -/
def eachRequired (members : List (String × Json)) : List (String × Visitor) → Walking Unit
  | [] => pure ()
  | (name, property) :: rest => do
      atSchema name <|
        match members.lookup name with
        | some value => atInstance name (property value none)
        | none => reject
      eachRequired members rest

/-- Visit the optional properties of an object that are present. -/
def eachOptional (members : List (String × Json)) : List (String × Visitor) → Walking Unit
  | [] => pure ()
  | (name, property) :: rest => do
      match members.lookup name with
      | some value => atSchema name (atInstance name (property value none))
      | none => pure ()
      eachOptional members rest

/-- Reject every member of an object whose name is not declared. -/
def eachUndeclared (declared : String → Bool) : List (String × Json) → Walking Unit
  | [] => pure ()
  | (name, _) :: rest => do
      if declared name then
        pure ()
      else
        atInstance name reject
      eachUndeclared declared rest

/-- Visit the properties of an object.  Every member must be declared as required or
optional, or be the tag that chose this schema, unless others are allowed. -/
def properties (required optional : Option (List (String × Visitor))) (additional : Bool)
    (members : List (String × Json)) (parentTag : Option String) : Walking Unit := do
  match required with
  | some fields => atSchema "properties" (eachRequired members fields)
  | none => pure ()
  match optional with
  | some fields => atSchema "optionalProperties" (eachOptional members fields)
  | none => pure ()
  if additional then
    pure ()
  else
    eachUndeclared
      (fun name =>
        (match required with
          | some fields => Members.has name fields
          | none => false) ||
        (match optional with
          | some fields => Members.has name fields
          | none => false) ||
        parentTag = some name)
      members

/-- Visit an object with the branch that its tag chooses. -/
def branches (rule : Discriminator Visitor) (members : List (String × Json)) : Walking Unit :=
  match members.lookup rule.tag with
  | none => atSchema "tag" reject
  | some (.string tagValue) =>
      atSchema "mapping" <|
        match rule.mapping.lookup tagValue with
        | some branch => atSchema tagValue (branch (.object members) (some rule.tag))
        | none => atInstance rule.tag reject
  | some _ => atSchema "tag" (atInstance rule.tag reject)

/-- What a shape does with a value, given what its inner schemas do and how to follow a
reference. -/
def visit (follow : String → Json → Walking Unit) : Shape Visitor → Visitor
  | .empty, _, _ => pure ()
  | .ref name, value, _ => follow name value
  | .type primitive, value, _ => atSchema "type" (require (primitive.accepts value))
  | .enum values, value, _ =>
      atSchema "enum" <| require <|
        match value with
        | .string text => values.contains text
        | _ => false
  | .elements item, value, _ =>
      atSchema "elements" <|
        match value with
        | .array items => eachItem item 0 items
        | _ => reject
  | .properties required optional additional, value, parentTag =>
      match value with
      | .object members => properties required optional additional members parentTag
      | _ =>
          atSchema (if required.isSome then "properties" else "optionalProperties") reject
  | .values member, value, _ =>
      atSchema "values" <|
        match value with
        | .object members => eachMember member members
        | _ => reject
  | .discriminator rule, value, _ =>
      atSchema "discriminator" <|
        match value with
        | .object members => branches rule members
        | _ => reject

/-- Look up the definition that a reference names and go on with it, unless too many
frames are open.  A reference without a definition accepts every value. -/
def resolve (root : Schema) (name : String) (go : Schema → Walking Unit) : Walking Unit := do
  let walk ← get
  match walk.limits.depth with
  | some limit => if limit ≤ walk.frames.length then throw (.tooDeep limit)
  | none => pure ()
  match root.definition? name with
  | some target => go target
  | none => pure ()

/-- Follow a reference; `allowance` is the number of references that may be followed
inside one another. -/
def follow (root : Schema) : Nat → String → Json → Walking Unit
  | 0, name, _ => resolve root name fun _ => throw .endless
  | allowance + 1, name, value =>
      resolve root name fun target => do
        modify (Walk.recordHop name)
        modify (Walk.openFrame name)
        target.fold (visit (follow root allowance)) value none
        modify Walk.closeFrame

/-- Walk a value together with a schema, whose references are resolved in `root`. -/
def walk (root : Schema) (allowance : Nat) (schema : Schema) : Visitor :=
  schema.fold (visit (follow root allowance))

end Walking

end FormSchema
