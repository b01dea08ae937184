import FormSchema.Command.Arguments
import FormSchema.Validation.Validator

/-!
# Commands

The two things that can be asked for on the command line: to verify a schema, or to
validate values with one.  `Command.ofArguments` reads a command from the words of a
command line, of which the first is its name.
-/

namespace FormSchema

/-- Which values to validate: where the documents are, and what to take from each. -/
structure Selection where
  /-- Paths and patterns of files. -/
  inputs : List String
  /-- Does every line hold a document of its own? -/
  ndjson : Bool := false
  /-- The part of a document to take. -/
  pointer : Option String := none
  /-- What to make of that part. -/
  filter : Option String := none
  deriving DecidableEq, Inhabited

/-- A command. -/
inductive Command where
  | verify (schema : String) (print : Bool)
  | validate (schema : String) (selection : Selection) (options : Options)
      (out : Option String)
  deriving DecidableEq, Inhabited

namespace Command

/-- The option for the schema. -/
def schemaRule : OptionRule where
  long := "schema"
  short := some 's'
  kind := .path
  required := true

/-- The options of the verify command. -/
def verifyRules : List OptionRule :=
  [.help, schemaRule, { long := "print", arity := .flag }]

/-- The options of the validate command. -/
def validateRules : List OptionRule :=
  [.help, schemaRule,
    { long := "ndjson", arity := .flag },
    { long := "json-pointer" },
    { long := "jq-expr" },
    { long := "input", short := some 'i', arity := .many, required := true },
    { long := "max-depth", kind := .count },
    { long := "max-errors", kind := .count },
    { long := "out", short := some 'o', kind := .path }]

/-- The verify command with the given options. -/
def verifyOf (given : GivenOptions) : Command :=
  .verify ((given.value? "schema").getD "") (given.has "print")

/-- The validate command with the given options. -/
def validateOf (given : GivenOptions) : Command :=
  let selection : Selection :=
    { inputs := given.values "input"
      ndjson := given.has "ndjson"
      pointer := given.value? "json-pointer"
      filter := given.value? "jq-expr" }
  let options : Options :=
    { maxDepth := (given.value? "max-depth").bind countOf?
      maxErrors := (given.value? "max-errors").bind countOf? }
  .validate ((given.value? "schema").getD "") selection options (given.value? "out")

/-- The words that can start a command line. -/
def subcommands : List String :=
  ["verify", "validate", "help"]

/-- What asking for help on subcommands comes to. -/
def helpOn : List String → UsageError
  | [] => .helpRequested
  | [name] => if subcommands.contains name then .helpRequested else .unknownSubcommand name
  | name :: next :: _ =>
      if subcommands.contains name then .unknownSubcommand next else .unknownSubcommand name

/-- Why a command line that starts with a long option is not accepted. -/
def leadingLong (text : List Char) : UsageError :=
  let name := String.ofList (text.takeWhile (· ≠ '='))
  if name = "help" ∨ name = "version" then
    if text.contains '=' then .valueForFlag name
    else if name = "help" then .helpRequested
    else .versionRequested
  else
    .unknownArgument ("--" ++ name)

/-- Why a command line that starts with a short option is not accepted. -/
def leadingShort (c : Char) : UsageError :=
  if c = 'h' then .helpRequested
  else if c = 'V' then .versionRequested
  else .unknownArgument (String.ofList ['-', c])

/-- Why a command line that starts with two dashes is not accepted. -/
def leadingDashes : List String → UsageError
  | [] => .nothingGiven
  | name :: _ =>
      if subcommands.contains name then .unknownArgument name else .unknownSubcommand name

/-- Why a command line is not accepted if its first word is no command. -/
def noCommand (name : String) (rest : List String) : UsageError :=
  match name.toList with
  | ['-', '-'] => leadingDashes rest
  | '-' :: '-' :: text => leadingLong text
  | '-' :: c :: _ => leadingShort c
  | _ => .unknownSubcommand name

/-- The command that the words of a command line ask for. -/
def ofArguments : List String → Except UsageError Command
  | [] => .error .nothingGiven
  | name :: rest =>
      if name = "verify" then do
        return verifyOf (← gather verifyRules rest)
      else if name = "validate" then do
        return validateOf (← gather validateRules rest)
      else if name = "help" then
        .error (helpOn rest)
      else
        .error (noCommand name rest)

end Command

end FormSchema
