import FormSchema.Decoding.Fault
import FormSchema.Filter.Language
import FormSchema.Glob.Expand
import FormSchema.Schema.Verify

/-!
# Why a command fails

Every failure belongs to one stage of a command: the schema, the patterns of the inputs,
the filter, the documents, or the file for the reports.  Beside these there are commands
that never end, because a filter does not or because references lead to each other without
end.
-/

namespace FormSchema

/-- Why a command fails. -/
inductive CommandError where
  | unreadableSchema (path : String) (error : FileError)
  | malformedSchema (path : String) (error : DecodeError)
  | invalidSchema (path : String) (violation : Violation)
  | badPattern (pattern : String) (error : Glob.PatternError)
  | unreadableDirectory (interruption : Glob.Interruption)
  | nothingMatches (pattern : String)
  | badFilter (filter : String) (fault : FilterFault)
  | unreadableSource (path : String) (error : FileError)
  | malformedSource (path : String) (error : DecodeError)
  | malformedLine (path : String) (line : Nat) (error : DecodeError)
  | nothingAtPointer (path pointer : String)
  | filterFails (path reason : String)
  /-- The command never ends, and tells nothing. -/
  | endless
  | directoryNotCreated (error : FileError)
  | outputNotCreated (path : String) (error : FileError)
  deriving DecidableEq, Inhabited

/-- The message for a failure. -/
def CommandError.message : CommandError → String
  | unreadableSchema path error =>
      "failed to read schema file (" ++ path ++ "): " ++ error.message
  | malformedSchema path error => "malformed schema (" ++ path ++ "): " ++ error.display
  | invalidSchema path violation => "invalid schema (" ++ path ++ "): " ++ violation.message
  | badPattern pattern error => "bad glob pattern: " ++ pattern ++ ": " ++ error.message
  | nothingMatches pattern => "glob pattern matched no files: " ++ pattern
  | unreadableDirectory interruption => interruption.message
  | badFilter filter fault =>
      "failed to compile jq expression `" ++ filter ++ "`: " ++ fault.message
  | unreadableSource path error =>
      "failed to read source file (" ++ path ++ "): " ++ error.message
  | malformedSource path error =>
      "failed to parse JSON source file (" ++ path ++ "): " ++ error.message
  | malformedLine path line error =>
      "failed to parse NDJSON line " ++ toString line ++ " of (" ++ path ++ "): " ++ error.message
  | nothingAtPointer path pointer => "JSON pointer " ++ pointer ++ " matched nothing in " ++ path
  | filterFails path reason =>
      "failed to apply jq expression to source file (" ++ path ++ "): jq runtime error: " ++ reason
  | endless => ""
  | directoryNotCreated error => error.message
  | outputNotCreated path error => "failed to create " ++ path ++ ": " ++ error.message

end FormSchema
