/-!
# Command line options

An `OptionRule` says how one option is written and what follows it.  `gather` sorts the
words of a command line by such rules.

A value may be attached to its option, as in `--input=a`, `-i=a` and `-ia`, and then
nothing else belongs to that occurrence.  Otherwise the words behind the option are its
values, up to the next word that starts with a dash; a dash alone is a value.  An
occurrence is only checked when it is complete, which is when another known option or the
end of the line follows it.
-/

namespace FormSchema

/-- Why a command line is not accepted. -/
inductive UsageError where
  | nothingGiven
  | helpRequested
  | versionRequested
  | unknownSubcommand (name : String)
  | missingOption (option : String)
  | unknownArgument (argument : String)
  | missingValue (option : String)
  | unparsableValue (option value : String)
  | repeatedOption (option : String)
  | valueForFlag (option : String)
  deriving DecidableEq, Inhabited

namespace UsageError

/-- The message for a rejected command line. -/
def message : UsageError → String
  | nothingGiven => "a subcommand is required"
  | helpRequested => "help was requested"
  | versionRequested => "the version was requested"
  | unknownSubcommand name => "unknown subcommand " ++ name
  | missingOption option => "option --" ++ option ++ " is required"
  | unknownArgument argument => "unexpected argument " ++ argument
  | missingValue option => "option --" ++ option ++ " needs a value"
  | unparsableValue option value => "invalid value " ++ value ++ " for option --" ++ option
  | repeatedOption option => "option --" ++ option ++ " may only be given once"
  | valueForFlag option => "option --" ++ option ++ " takes no value"

/-- The exit status of a program whose command line is not accepted.  Asking for help or
for the version is no failure. -/
def exitStatus : UsageError → Nat
  | helpRequested => 0
  | versionRequested => 0
  | _ => 2

end UsageError

/-- What an option does with the words behind it. -/
inductive Arity where
  | flag
  /-- Nothing else counts: the user asks for help. -/
  | help
  | one
  | many
  deriving DecidableEq, Inhabited

/-- What the value of an option must be. -/
inductive ValueKind where
  | text
  /-- A text that is not empty. -/
  | path
  /-- A number of at most 64 bits. -/
  | count
  deriving DecidableEq, Inhabited

/-- An option of a command line. -/
structure OptionRule where
  long : String
  short : Option Char := none
  arity : Arity := .one
  kind : ValueKind := .text
  required : Bool := false
  deriving DecidableEq, Inhabited

namespace OptionRule

/-- The option that every subcommand has. -/
def help : OptionRule where
  long := "help"
  short := some 'h'
  arity := .help

/-- Is the option followed by values? -/
def takesValues (rule : OptionRule) : Bool :=
  rule.arity = .one || rule.arity = .many

end OptionRule

/-- The number with the given decimal digits, which may follow a plus sign. -/
def countOf? (text : String) : Option Nat :=
  let digits :=
    match text.toList with
    | '+' :: rest => rest
    | all => all
  let value : Nat := digits.foldl (fun value c => 10 * value + (c.toNat - '0'.toNat)) 0
  if !digits.isEmpty && digits.all Char.isDigit && decide (value < Nat.pow 2 64) then some value
  else none

/-- Check a value of an option. -/
def OptionRule.check (rule : OptionRule) (value : String) : Except UsageError Unit :=
  match rule.kind with
  | .text => .ok ()
  | .path => if value.isEmpty then .error (.missingValue rule.long) else .ok ()
  | .count =>
      if (countOf? value).isSome then .ok () else .error (.unparsableValue rule.long value)

/-- The options of a command line: the long name and the values of each occurrence. -/
abbrev GivenOptions :=
  List (String × List String)

namespace GivenOptions

/-- Is the option given? -/
def has (given : GivenOptions) (long : String) : Bool :=
  given.any fun occurrence => occurrence.1 = long

/-- The values of all occurrences of an option. -/
def values (given : GivenOptions) (long : String) : List String :=
  (given.filter fun occurrence => occurrence.1 = long).flatMap Prod.snd

/-- The first value of an option. -/
def value? (given : GivenOptions) (long : String) : Option String :=
  (given.values long).head?

/-- Add an occurrence of an option. -/
def add (given : GivenOptions) (rule : OptionRule) (values : List String) :
    Except UsageError GivenOptions :=
  if rule.arity = .help then
    .error .helpRequested
  else if rule.takesValues && values.isEmpty then
    .error (.missingValue rule.long)
  else if rule.arity ≠ .many ∧ given.has rule.long then
    .error (.repeatedOption rule.long)
  else do
    let _ ← values.mapM rule.check
    return given ++ [(rule.long, values)]

/-- Every required option must be given. -/
def complete (given : GivenOptions) (rules : List OptionRule) : Except UsageError GivenOptions :=
  match rules.find? fun rule => rule.required && !given.has rule.long with
  | some rule => .error (.missingOption rule.long)
  | none => .ok given

end GivenOptions

/-- The options gathered so far, and the last occurrence if values may still follow. -/
structure Gathering where
  given : GivenOptions := []
  pending : Option (OptionRule × List String) := none

namespace Gathering

/-- Complete the last occurrence. -/
def settle (gathering : Gathering) : Except UsageError GivenOptions :=
  match gathering.pending with
  | some (rule, values) => gathering.given.add rule values
  | none => .ok gathering.given

/-- Start an occurrence of an option, to which a value may be attached. -/
def start (gathering : Gathering) (rule : OptionRule) (attached : Option String) :
    Except UsageError Gathering := do
  let given ← gathering.settle
  match attached with
  | some value => return { given := ← given.add rule [value] }
  | none =>
      if rule.takesValues then
        return { given, pending := some (rule, []) }
      else
        return { given := ← given.add rule [] }

/-- Take a word that is not an option. -/
def word (gathering : Gathering) (text : String) : Except UsageError Gathering :=
  match gathering.pending with
  | some (rule, values) =>
      if rule.arity = .many ∨ values = [] then
        .ok { gathering with pending := some (rule, values ++ [text]) }
      else
        .error (.unknownArgument text)
  | none => .error (.unknownArgument text)

/-- Take an option that is written with its long name: the word behind its two dashes. -/
def long (rules : List OptionRule) (gathering : Gathering) (text : List Char) :
    Except UsageError Gathering :=
  let name := String.ofList (text.takeWhile (· ≠ '='))
  let attached :=
    match text.dropWhile (· ≠ '=') with
    | _ :: value => some (String.ofList value)
    | [] => none
  match rules.find? fun rule => rule.long = name with
  | none => .error (.unknownArgument ("--" ++ name))
  | some rule =>
      if attached.isSome && !rule.takesValues then
        .error (.valueForFlag name)
      else
        gathering.start rule attached

/-- What is attached to a short option by the characters behind it. -/
def attachedTo : List Char → Option String
  | [] => none
  | '=' :: value => some (String.ofList value)
  | value => some (String.ofList value)

/-- Take options that are written with their short names: the characters behind a dash. -/
def short (rules : List OptionRule) (gathering : Gathering) :
    List Char → Except UsageError Gathering
  | [] => .ok gathering
  | c :: rest =>
      match rules.find? fun rule => rule.short = some c with
      | none => .error (.unknownArgument (String.ofList ['-', c]))
      | some rule =>
          if rule.takesValues then
            gathering.start rule (attachedTo rest)
          else do
            short rules (← gathering.start rule none) rest

end Gathering

/-- Sort the words of a command line by the options that they belong to.  Behind two
dashes nothing but words may follow, and none is expected there. -/
def gatherFrom (rules : List OptionRule) (gathering : Gathering) :
    List String → Except UsageError GivenOptions
  | [] => gathering.settle
  | argument :: rest =>
      match argument.toList with
      | ['-', '-'] =>
          match rest with
          | [] => gathering.settle
          | word :: _ => .error (.unknownArgument word)
      | '-' :: '-' :: name => do
          gatherFrom rules (← gathering.long rules name) rest
      | '-' :: c :: more => do
          gatherFrom rules (← gathering.short rules (c :: more)) rest
      | _ => do
          gatherFrom rules (← gathering.word argument) rest

/-- The options of a command line. -/
def gather (rules : List OptionRule) (arguments : List String) :
    Except UsageError GivenOptions := do
  (← gatherFrom rules {} arguments).complete rules

end FormSchema
