import FormSchema.Command.Plan
import FormSchema.Files.Tree

/-!
# Running a command on a tree of files

`Command.run` carries a command out on a `FileTree` and tells all that can be seen of it
afterwards.
-/

namespace FormSchema

/-- All that can be seen of a command afterwards. -/
structure Outcome where
  stdout : String := ""
  stderr : String := ""
  /-- The exit status, or why the command failed. -/
  result : Except CommandError Nat
  files : FileTree
  events : List Event := []

/-- Write what a plan says.  The file for the reports is created together with the
directories that it lies in. -/
def Plan.carryOut (plan : Plan) (files : FileTree) (events : List Event) : Outcome :=
  match plan.target with
  | none =>
      { stdout := plan.output, stderr := plan.notice, result := .ok plan.exitStatus, files,
        events }
  | some path =>
      match files.createParent path with
      | .error error => { result := .error (.directoryNotCreated error), files, events }
      | .ok prepared =>
          match prepared.writeText path plan.output with
          | .error error =>
              { result := .error (.outputNotCreated path error), files := prepared, events }
          | .ok written =>
              { stderr := plan.notice, result := .ok plan.exitStatus, files := written, events }

/-- Run a command, with filters of the given language. -/
def Command.run (command : Command) (language : FilterLanguage) (files : FileTree) : Outcome :=
  let job : Job (ReaderM FileTree) Plan := command.plan language
  let (result, events) := (job.run.run []).run files
  match result with
  | .error error => { result := .error error, files, events }
  | .ok plan => plan.carryOut files events

end FormSchema
