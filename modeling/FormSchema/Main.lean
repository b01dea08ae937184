import FormSchema.Command.Plan
import FormSchema.Filter.Reader
import FormSchema.Suite.Run

/-!
# The program

The command line.  What a command reads comes from the files of the machine, and what it
has to say is written to standard output, to standard error or to a file.  Behind the word
`suite` stand the options for running a test suite.

The exit status is 2 if a command fails.
-/

namespace FormSchema

/-- The reason why a file of the machine cannot be used. -/
def FileError.ofSystem : IO.Error → FileError
  | .noFileOrDirectory _ _ _ => .notFound
  | .alreadyExists _ _ _ => .alreadyExists
  | .inappropriateType _ 20 _ => .notDirectory
  | .inappropriateType _ 21 _ => .isDirectory
  | .permissionDenied _ _ _ => .denied
  | error => .other (toString error)

/-- The outcome of an action on the files of the machine. -/
def attempting {α : Type} (action : IO α) : IO (Except FileError α) := do
  match ← action.toBaseIO with
  | .ok result => return .ok result
  | .error error => return .error (.ofSystem error)

instance : FileSource IO where
  readText path := do
    match ← attempting (IO.FS.readBinFile path) with
    | .error error => return .error error
    | .ok content =>
        match String.fromUTF8? content with
        | some text => return .ok text
        | none => return .error .notText
  kind? path := do
    let place := (← IO.currentDir) / path
    if path.isEmpty then return none
    else if ← place.isDir then return some .directory
    else if ← place.pathExists then return some .file
    else return none
  entries path := do
    let place := (← IO.currentDir) / path
    match ← attempting place.readDir with
    | .error error => return .error error
    | .ok listing => return .ok (listing.toList.map fun entry => entry.fileName)

/-- Report a failure on standard error. -/
def reportFailure (message : String) : IO Unit :=
  IO.eprint ("error: " ++ message ++ "\n")

/-- Write what a plan says to the files of the machine. -/
def Plan.perform (plan : Plan) : IO (Except CommandError Unit) := do
  match plan.target with
  | none =>
      IO.print plan.output
      return .ok ()
  | some path =>
      let place := (← IO.currentDir) / path
      let prepared ←
        match place.parent with
        | some parent => attempting (IO.FS.createDirAll parent)
        | none => pure (.ok ())
      match prepared with
      | .error error => return .error (.directoryNotCreated error)
      | .ok () =>
          match ← attempting (IO.FS.writeFile path plan.output) with
          | .error error => return .error (.outputNotCreated path error)
          | .ok () => return .ok ()

/-- Carry a command out. -/
def Command.perform (command : Command) : IO UInt32 := do
  let job : Job IO Plan := command.plan Filter.language
  match (← job.run.run []).1 with
  | .error error => do
      reportFailure error.message
      return 2
  | .ok plan => do
      match ← plan.perform with
      | .error error => do
          reportFailure error.message
          return 2
      | .ok () => do
          IO.eprint plan.notice
          return plan.exitStatus.toUInt32

/-- Run a test suite. -/
def Suite.perform (settings : Suite.Settings) : IO UInt32 := do
  let report : Suite.SuiteReport ←
    Suite.run Suite.NamePattern.language settings
  IO.print (report.text settings.verbose)
  IO.eprint report.notice
  return report.exitStatus.toUInt32

/-- Refuse a command line. -/
def reject (error : UsageError) : IO UInt32 := do
  reportFailure error.message
  return error.exitStatus.toUInt32

end FormSchema

/-- Run the program. -/
def main (arguments : List String) : IO UInt32 := do
  match arguments with
  | "suite" :: rest =>
      match FormSchema.Suite.Settings.ofArguments rest with
      | .error error => FormSchema.reject error
      | .ok settings => FormSchema.Suite.perform settings
  | words =>
      match FormSchema.Command.ofArguments words with
      | .error error => FormSchema.reject error
      | .ok command => command.perform
