import FormSchema.Command.Report
import FormSchema.Glob.Expand
import FormSchema.Schema.Encode
import FormSchema.Schema.Text

/-!
# What a command comes to

Commands first read all they need and only then write.  `Command.plan` is the first half:
it reads files, and its result says what to write and where.  A command that fails at this
stage therefore writes nothing at all.

The stages are the schema, the files that the inputs stand for, the filter, and then the
documents, file by file.  When the values have been loaded, all of them are validated; a
validation that never ends keeps the command from ever writing anything.
-/

namespace FormSchema

/-- What to write, and how to finish. -/
structure Plan where
  /-- The text to write. -/
  output : String
  /-- The file to write it to, if it is not meant for standard output. -/
  target : Option String
  /-- The text for standard error. -/
  notice : String
  exitStatus : Nat
  deriving DecidableEq, Inhabited

/-- Reading files, which may fail, and logging events. -/
abbrev Job (m : Type → Type) : Type → Type :=
  ExceptT CommandError (StateT (List Event) m)

namespace Job

variable {m : Type → Type} [Monad m] [FileSource m]

/-- Add events to the log. -/
def log (events : List Event) : Job m Unit :=
  modify fun old => old ++ events

/-- The text of a file. -/
def readText (path : String) (failure : FileError → CommandError) : Job m String := do
  let result ← (monadLift (FileSource.readText path : m (Except FileError String)) :
    Job m (Except FileError String))
  match result with
  | .ok text => return text
  | .error error => throw (failure error)

/-- The schema in a file. -/
def loadSchema (path : String) : Job m Schema := do
  let text ← readText path (.unreadableSchema path)
  match Schema.readLeading text with
  | .error error => throw (.malformedSchema path error)
  | .ok schema =>
      match schema.verify with
      | .error violation => do
          log [.verificationFailed violation]
          throw (.invalidSchema path violation)
      | .ok () => do
          log [.schemaVerified path schema.form]
          return schema

/-- The files that an input stands for. -/
def resolveInput (input : String) : Job m (List String) := do
  if Glob.isPattern input then
    match Glob.Pattern.ofText input with
    | .error error => throw (.badPattern input error)
    | .ok pattern => do
        let search ← (monadLift (pattern.expand : m (Except Glob.Interruption (List String))) :
          Job m (Except Glob.Interruption (List String)))
        match search with
        | .error interruption => throw (.unreadableDirectory interruption)
        | .ok paths => if paths.isEmpty then throw (.nothingMatches input) else return paths
  else
    return [input]

/-- The filter with the given text, if there is one. -/
def loadFilter (language : FilterLanguage) : Option String → Job m (Option language.Program)
  | none => return none
  | some text =>
      match language.compile text with
      | .error fault => throw (.badFilter text fault)
      | .ok program => do
          log [.filterCompiled text]
          return some program

/-- The values to take from a file. -/
def loadSource {language : FilterLanguage} (selection : Selection)
    (filter : Option language.Program) (path : String) : Job m (List Instance) := do
  let text ← readText path (.unreadableSource path)
  match instancesIn selection filter path text with
  | .ok instances => return instances
  | .error error => throw error

/-- The selected values. -/
def loadInstances (language : FilterLanguage) (selection : Selection) :
    Job m (List Instance) := do
  let paths ← selection.inputs.mapM resolveInput
  let filter ← loadFilter language selection.filter
  let instances ← paths.flatten.mapM (loadSource selection filter)
  log [.instancesLoaded instances.flatten.length]
  return instances.flatten

/-- The reports on values whose validations have the given outcomes. -/
def reportAll (values : List Instance) (validations : List Validation) : Job m (List Report) :=
  match reportEach values validations with
  | .ok reports => return reports
  | .error error => throw error

/-- Log the validation of a value if it is the only one.  Validations of several values
need not happen one after the other, and leave no log. -/
def logValidations : List Validation → Job m Unit
  | [validation] => log validation.events
  | _ => return ()

end Job

namespace Plan

/-- What to write about a schema that is fine. -/
def ofSchema (path : String) (print : Bool) (schema : Schema) : Plan where
  output := if print then schema.toJson.pretty ++ "\n" else ""
  target := none
  notice := "✔ " ++ path ++ "\n"
  exitStatus := 0

/-- What to write about values. -/
def ofReports (out : Option String) (reports : List Report) : Plan where
  output := String.join (reports.map Report.line)
  target := out
  notice := (Summary.ofReports reports).notice
  exitStatus := (Summary.ofReports reports).exitStatus

end Plan

/-- Read all that a command needs, and settle what it has to write. -/
def Command.plan {m : Type → Type} [Monad m] [FileSource m] (language : FilterLanguage) :
    Command → Job m Plan
  | .verify path print => do
      return .ofSchema path print (← Job.loadSchema path)
  | .validate path selection options out => do
      let schema ← Job.loadSchema path
      let instances ← Job.loadInstances language selection
      let validations := validateEach options schema instances
      let reports ← Job.reportAll instances validations
      Job.logValidations validations
      return .ofReports out reports

end FormSchema
