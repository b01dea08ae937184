import FormSchema.Filter.Datum
import FormSchema.Text.Order

/-!
# Filters

A filter turns a value into any number of outputs, each of which is a value or a
failure.  Filters select what to validate from larger documents, so a small language is
enough to run commands with: access to members and items, combination of outputs,
construction of values and a few tests.  Other languages may take its place.

The outputs of a filter are given as one list.  Where two filters are combined, the
outputs of the first vary slowest.

Accesses that follow each other form a `Path`.  The keys of a path are computed from the
value that the whole filter works on, before any of them is used, and then each choice of
keys is followed from the beginning of the path to its end.
-/

namespace FormSchema

mutual

/-- A filter. -/
inductive Filter where
  /-- The value itself. -/
  | identity
  | literal (value : Datum)
  /-- What lies at the end of a path. -/
  | path (start : Filter) (way : Filter.Path)
  /-- The outputs of another filter before its first failure. -/
  | attempt (body : Filter)
  | pipe (first second : Filter)
  | comma (first second : Filter)
  /-- The outputs of `first` other than null and false, or else those of `second`. -/
  | alternative (first second : Filter)
  | equal (left right : Filter)
  | both (left right : Filter)
  | either (left right : Filter)
  | negative (body : Filter)
  | not
  | select (condition : Filter)
  | map (body : Filter)
  | length
  | keys
  | type
  | empty
  /-- All outputs of another filter as one array. -/
  | collect (body : Filter)
  | entry (key value : Filter)
  /-- Two objects in one; of members with the same name the second one counts. -/
  | merge (left right : Filter)

/-- Accesses one after the other.  A lenient access has no output where it would fail. -/
inductive Filter.Path where
  | done
  /-- A member of an object or an item of an array. -/
  | part (key : Filter) (lenient : Bool) (rest : Filter.Path)
  /-- All items or members. -/
  | parts (lenient : Bool) (rest : Filter.Path)

end

instance : Inhabited Filter := ⟨.identity⟩

instance : Inhabited Filter.Path := ⟨.done⟩

namespace Filter

/-- One output of a filter. -/
inductive Output where
  | value (datum : Datum)
  | failure
  deriving Inhabited

namespace Output

/-- Go on with the value of an output; a failure stays one. -/
def andThen (output : Output) (next : Datum → List Output) : List Output :=
  match output with
  | value datum => next datum
  | failure => [failure]

/-- Is the output a value? -/
def isValue : Output → Bool
  | value _ => true
  | failure => false

/-- Is the output something else than null or false?  Failures are. -/
def counts : Output → Bool
  | value .null => false
  | value (.bool false) => false
  | _ => true

/-- The values of outputs among which there is no failure. -/
def values? : List Output → Option (List Datum)
  | [] => some []
  | value datum :: rest => (values? rest).map (datum :: ·)
  | failure :: _ => none

/-- One output for every pair of outputs, which is a failure if one of the two is. -/
def pairwise (left right : List Output) (combine : Datum → Datum → Output) : List Output :=
  left.flatMap fun first => right.map fun second =>
    match first, second with
    | value first, value second => combine first second
    | _, _ => failure

/-- The output as others see it, who are not told why there is a failure. -/
def toExcept : Output → Except String Json
  | value datum => .ok datum.toJson
  | failure => .error ""

end Output

/-- Does a value count as true?  All do but null and false. -/
def isTrue : Datum → Bool
  | .null => false
  | .bool value => value
  | _ => true

/-- The position in an array of the given size that an integer names, which counts from
the end when it is negative. -/
def position? (size : Nat) (place : Int) : Option Nat :=
  if 0 ≤ place then some place.toNat
  else if 0 ≤ place + size then some (place + size).toNat
  else none

/-- The member or item of a value.  One that is missing is null. -/
def partOf (target key : Datum) : Output :=
  match target, key with
  | .object members, .string name => .value ((members.lookup name).getD .null)
  | .array items, .number (.word place) =>
      .value (((position? items.length place).bind fun position => items[position]?).getD .null)
  | _, _ => .failure

/-- The items or members of a value. -/
def partsOf : Datum → List Output
  | .array items => items.map .value
  | .object members => members.map fun member => .value member.2
  | _ => [.failure]

/-- One access of a path whose key is known. -/
inductive Access where
  | part (key : Datum) (lenient : Bool)
  | parts (lenient : Bool)
  deriving Inhabited

/-- Drop failures if asked to. -/
def whenLenient (lenient : Bool) (outputs : List Output) : List Output :=
  if lenient then outputs.filter Output.isValue else outputs

/-- What an access finds in a value. -/
def Access.outputs (target : Datum) : Access → List Output
  | part key lenient => whenLenient lenient [partOf target key]
  | parts lenient => whenLenient lenient (partsOf target)

/-- What several accesses find one after the other. -/
def follow : List Access → Datum → List Output
  | [], target => [.value target]
  | access :: rest, target =>
      (access.outputs target).flatMap fun output => output.andThen (follow rest)

/-- The length of a value. -/
def lengthOf : Datum → Output
  | .null => .value (.ofNat 0)
  | .bool _ => .failure
  | .number quantity => .value (.number quantity.abs)
  | .string text => .value (.ofNat text.length)
  | .array items => .value (.ofNat items.length)
  | .object members => .value (.ofNat members.length)

/-- The number with the opposite sign. -/
def negativeOf : Datum → Output
  | .number quantity => .value (.number quantity.neg)
  | _ => .failure

/-- The names of an object in increasing order, or the positions of an array. -/
def keysOf : Datum → Output
  | .object members => .value (.array ((Text.sorted (Members.names members)).map .string))
  | .array items => .value (.array ((List.range items.length).map .ofNat))
  | _ => .failure

/-- The name of the kind of a value. -/
def typeOf : Datum → String
  | .null => "null"
  | .bool _ => "boolean"
  | .number _ => "number"
  | .string _ => "string"
  | .array _ => "array"
  | .object _ => "object"

/-- All values as one array, or a failure if there is one among them. -/
def collected (outputs : List Output) : Output :=
  match Output.values? outputs with
  | some values => .value (.array values)
  | none => .failure

/-- An object with one member, whose name must be a string. -/
def memberOf (key value : Datum) : Output :=
  match key with
  | .string name => .value (.object [(name, value)])
  | _ => .failure

/-- The members of two objects. -/
def merged (left right : Datum) : Output :=
  match left, right with
  | .object first, .object second =>
      .value (.object (second.foldl (fun members member => Members.put member.1 member.2 members)
        first))
  | _, _ => .failure

mutual

/-- The outputs of a filter for a value. -/
def outputs : Filter → Datum → List Output
  | identity, input => [.value input]
  | literal value, _ => [.value value]
  | path start way, input =>
      (start.outputs input).flatMap fun output =>
        output.andThen fun target =>
          (way.choices input).flatMap fun choice =>
            match choice with
            | some accesses => follow accesses target
            | none => [.failure]
  | attempt body, input => (body.outputs input).takeWhile Output.isValue
  | pipe first second, input =>
      (first.outputs input).flatMap fun output => output.andThen second.outputs
  | comma first second, input => first.outputs input ++ second.outputs input
  | alternative first second, input =>
      let preferred := (first.outputs input).filter Output.counts
      if preferred.isEmpty then second.outputs input else preferred
  | equal left right, input =>
      Output.pairwise (left.outputs input) (right.outputs input) fun left right =>
        .value (.bool (left.same right))
  | both left right, input =>
      (left.outputs input).flatMap fun output =>
        output.andThen fun left =>
          if isTrue left then
            (right.outputs input).flatMap fun output =>
              output.andThen fun right => [.value (.bool (isTrue right))]
          else
            [.value (.bool false)]
  | either left right, input =>
      (left.outputs input).flatMap fun output =>
        output.andThen fun left =>
          if isTrue left then
            [.value (.bool true)]
          else
            (right.outputs input).flatMap fun output =>
              output.andThen fun right => [.value (.bool (isTrue right))]
  | negative body, input =>
      (body.outputs input).flatMap fun output => output.andThen fun value => [negativeOf value]
  | not, input => [.value (.bool (!isTrue input))]
  | select condition, input =>
      (condition.outputs input).flatMap fun output =>
        output.andThen fun chosen => if isTrue chosen then [.value input] else []
  | map body, input =>
      [collected ((partsOf input).flatMap fun output => output.andThen body.outputs)]
  | length, input => [lengthOf input]
  | keys, input => [keysOf input]
  | type, input => [.value (.string (typeOf input))]
  | empty, _ => []
  | collect body, input => [collected (body.outputs input)]
  | entry key value, input =>
      Output.pairwise (key.outputs input) (value.outputs input) memberOf
  | merge left right, input =>
      Output.pairwise (left.outputs input) (right.outputs input) merged

/-- The choices of keys for a path, computed from a value.  A choice to which a failure
belongs is `none`. -/
def Path.choices : Path → Datum → List (Option (List Access))
  | .done, _ => [some []]
  | .part key lenient rest, input =>
      (key.outputs input).flatMap fun output =>
        (rest.choices input).map fun choice =>
          match output, choice with
          | .value key, some accesses => some (.part key lenient :: accesses)
          | _, _ => none
  | .parts lenient rest, input =>
      (rest.choices input).map fun choice =>
        choice.map fun accesses => .parts lenient :: accesses

end

end Filter

end FormSchema
