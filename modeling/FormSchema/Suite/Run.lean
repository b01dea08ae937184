import FormSchema.Command.Arguments
import FormSchema.Decoding.Value
import FormSchema.Files.Basic
import FormSchema.Suite.Case
import FormSchema.Suite.NamePattern

/-!
# Running a test suite

A suite is a directory with two files, each a JSON object whose members are named cases:
`validation.json` holds test cases, `invalid_schemas.json` schemas that must be rejected.
The cases are run in the order of the files.

The second file is only looked at when the cases of the first have been run, so a suite
of which it cannot be read still reports on those.
-/

namespace FormSchema.Suite

/-- What to run. -/
structure Settings where
  directory : String := "suite"
  /-- The pattern of the names to run; all are without a pattern. -/
  names : Option String := none
  /-- Should cases that pass be reported as well? -/
  verbose : Bool := false
  deriving DecidableEq, Inhabited

namespace Settings

/-- The options for running a suite. -/
def rules : List OptionRule :=
  [.help, { long := "suite-dir", kind := .path }, { long := "filter" },
    { long := "verbose", short := some 'v', arity := .flag }]

/-- The settings that the words of a command line ask for. -/
def ofArguments (arguments : List String) : Except UsageError Settings := do
  let given ← gather rules arguments
  return {
    directory := (given.value? "suite-dir").getD "suite"
    names := given.value? "filter"
    verbose := given.has "verbose" }

/-- Which names to run. -/
def selects (settings : Settings) (language : PatternLanguage) : Except String (String → Bool) :=
  match settings.names with
  | none => .ok fun _ => true
  | some text => language text

end Settings

/-- Why a suite cannot be run to its end. -/
inductive SuiteError where
  | badPattern (reason : String)
  | unreadable (path : String) (error : FileError)
  | malformed (path : String) (error : DecodeError)
  deriving DecidableEq, Inhabited

/-- The message for a suite that cannot be run to its end. -/
def SuiteError.message : SuiteError → String
  | badPattern reason => "bad --filter regex: " ++ reason
  | unreadable path error => "failed to read " ++ path ++ ": " ++ error.message
  | malformed path error => "malformed suite file " ++ path ++ ": " ++ error.display

/-- What became of a case. -/
structure CaseOutcome where
  name : String
  result : Except CaseFailure Unit

namespace CaseOutcome

/-- Did the case pass? -/
def passed (outcome : CaseOutcome) : Bool :=
  outcome.result.isOk

/-- The lines about a case. -/
def text (verbose : Bool) (outcome : CaseOutcome) : String :=
  match outcome.result with
  | .ok () => if verbose then "PASS " ++ outcome.name ++ "\n" else ""
  | .error failure => "FAIL " ++ outcome.name ++ "\n     " ++ failure.message ++ "\n"

end CaseOutcome

/-- What became of a suite: the cases that were run, and why there are no more if it was
not run to its end. -/
structure SuiteReport where
  outcomes : List CaseOutcome
  error : Option SuiteError := none

namespace SuiteReport

/-- The number of cases that passed. -/
def passed (report : SuiteReport) : Nat :=
  report.outcomes.countP CaseOutcome.passed

/-- The number of cases that failed. -/
def failed (report : SuiteReport) : Nat :=
  report.outcomes.countP fun outcome => !outcome.passed

/-- The line at the end of the report. -/
def tally (report : SuiteReport) : String :=
  "—— " ++ toString report.passed ++ " passed, " ++ toString report.failed ++ " failed ——\n"

/-- The text for standard output. -/
def text (verbose : Bool) (report : SuiteReport) : String :=
  String.join (report.outcomes.map (CaseOutcome.text verbose)) ++
    if report.error.isNone then report.tally else ""

/-- The text for standard error. -/
def notice (report : SuiteReport) : String :=
  match report.error with
  | some error => "error: " ++ error.message ++ "\n"
  | none => ""

/-- The exit status: whether all cases passed, or that not all were run. -/
def exitStatus (report : SuiteReport) : Nat :=
  if report.error.isSome then 2
  else if report.failed = 0 then 0
  else 1

end SuiteReport

/-- The members of the JSON object at the beginning of a text. -/
def readMembers (text : String) : Except DecodeError (List (String × Json)) :=
  let reader : Reader (List (String × Json)) :=
    Reader.objectOr .map <|
      Reader.object []
        (fun gathered name => do
          return .ok (Members.put name (← Reader.value (Reader.nestingLimit - 1)) gathered))
        .ok
  (reader.run text).map Prod.fst

/-- Run those of some named cases whose names are selected. -/
def runCases (selects : String → Bool) (run : Json → Except CaseFailure Unit)
    (cases : List (String × Json)) : List CaseOutcome :=
  (cases.filter fun entry => selects entry.1).map fun entry => ⟨entry.1, run entry.2⟩

section

variable {m : Type → Type} [Monad m] [FileSource m]

/-- The named cases in a file. -/
def loadCases (path : String) : m (Except SuiteError (List (String × Json))) := do
  match ← FileSource.readText path with
  | .error error => return .error (.unreadable path error)
  | .ok text => return (readMembers text).mapError (.malformed path)

/-- Run the cases in a directory whose names are selected, in whichever way that is decided. -/
def runDirectory (selects : String → Bool) (directory : String) : m SuiteReport := do
  match ← loadCases (joinPath directory "validation.json") with
  | .error error => return { outcomes := [], error := some error }
  | .ok cases =>
      let outcomes := runCases selects Case.runJson cases
      match ← loadCases (joinPath directory "invalid_schemas.json") with
      | .error error => return { outcomes, error := some error }
      | .ok schemas =>
          return { outcomes := outcomes ++ runCases selects checkRejected schemas }

/-- Run a suite, with patterns of the given language.  No case is run if the pattern of the names
cannot be read. -/
def run (language : PatternLanguage) (settings : Settings) : m SuiteReport := do
  match settings.selects language with
  | .error reason => return { outcomes := [], error := some (.badPattern reason) }
  | .ok selects => runDirectory selects settings.directory

end

end FormSchema.Suite
