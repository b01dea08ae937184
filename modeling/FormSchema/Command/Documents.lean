import FormSchema.Command.Basic
import FormSchema.Command.Error
import FormSchema.Decoding.Value
import FormSchema.Filter.Language
import FormSchema.Json.Pointer
import FormSchema.Text.Blank

/-!
# From the text of a file to values

A file holds one document, or one on every line that is not blank.  Of each document a
part may be selected, and of that part the results of a filter, which is a program of any
language.  The values that come out are numbered through the whole file.
-/

namespace FormSchema

/-- A value to validate, and where it comes from. -/
structure Instance where
  source : String
  index : Nat
  value : Json
  deriving Inhabited

/-- The documents on lines, the first of which has the given number. -/
def documentsOnLines (source : String) (number : Nat) :
    List (List Char) → Except CommandError (List Json)
  | [] => .ok []
  | line :: rest =>
      if Text.allBlank line then
        documentsOnLines source (number + 1) rest
      else
        match Json.read (String.ofList line) with
        | .error error => .error (.malformedLine source number error)
        | .ok document => do
            return document :: (← documentsOnLines source (number + 1) rest)

/-- The documents in the text of a file. -/
def documents (ndjson : Bool) (source text : String) : Except CommandError (List Json) :=
  if ndjson then
    documentsOnLines source 1 (Text.lines text.toList)
  else
    match Json.read text with
    | .error error => .error (.malformedSource source error)
    | .ok document => .ok [document]

/-- The part of a document that a pointer leads to; the whole of it without a pointer. -/
def selectPart (pointer : Option String) (source : String) (document : Json) :
    Except CommandError Json :=
  match pointer with
  | none => .ok document
  | some pointer =>
      match document.pointer? pointer with
      | some part => .ok part
      | none => .error (.nothingAtPointer source pointer)

section

variable {language : FilterLanguage}

/-- The results of a filter; the value itself without a filter. -/
def applyFilter (filter : Option language.Program) (source : String) (value : Json) :
    Except CommandError (List Json) :=
  match filter with
  | none => .ok [value]
  | some program =>
      match language.outputs program value with
      | none => .error .endless
      | some outputs => (outputs.mapM id).mapError (.filterFails source)

/-- The values to take from a document. -/
def selectValues (pointer : Option String) (filter : Option language.Program) (source : String)
    (document : Json) : Except CommandError (List Json) := do
  applyFilter filter source (← selectPart pointer source document)

/-- Number the values from one file. -/
def numbered (source : String) (values : List Json) : List Instance :=
  values.zipIdx.map fun entry => ⟨source, entry.2, entry.1⟩

/-- The values to take from the text of a file. -/
def instancesIn (selection : Selection) (filter : Option language.Program)
    (source text : String) : Except CommandError (List Instance) := do
  let found ← documents selection.ndjson source text
  let values ← found.mapM (selectValues selection.pointer filter source)
  return numbered source values.flatten

end

end FormSchema
