/-!
# Pieces and lines of a text

`splitTerminated` cuts a text at every occurrence of a character and expects one at its end.
`lines` cuts it behind every line feed; a carriage return directly before a line feed belongs to
the line end.
-/

namespace FormSchema.Text

/-- The pieces between the occurrences of a separator, without an empty last one. -/
def splitTerminated (separator : Char) (text : List Char) : List (List Char) :=
  let pieces := text.splitOn separator
  if pieces.getLast? = some [] then pieces.dropLast else pieces

/-- A line without the carriage return at its end, if it has one. -/
def withoutReturn (line : List Char) : List Char :=
  if line.getLast? = some '\r' then line.dropLast else line

/-- The lines of a text, without their ends.  The last line may lack an end, and then
keeps a carriage return. -/
def lines (text : List Char) : List (List Char) :=
  let pieces := text.splitOn '\n'
  pieces.dropLast.map withoutReturn ++
    (match pieces.getLast? with
      | some [] => []
      | some line => [line]
      | none => [])

end FormSchema.Text
