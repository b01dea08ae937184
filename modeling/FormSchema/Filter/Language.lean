import FormSchema.Json.Basic

/-!
# Languages for filters

What a filter makes of a value is for the language to say that it is written in.  All that this
library asks of a `FilterLanguage` is that it reads programs and runs them on values, so whatever
it says about commands holds for every language.
-/

namespace FormSchema

/-- Why a text is no program of a language. -/
inductive FilterFault where
  /-- Pieces of program text that cannot be read, each with the reason. -/
  | unreadable (pieces : List (String × String))
  /-- Names that mean nothing, each with what they are used for. -/
  | undefinedNames (names : List (String × String))
  deriving DecidableEq, Inhabited

/-- The message for a text that is no program. -/
def FilterFault.message : FilterFault → String
  | unreadable pieces =>
      "\n".intercalate <|
        pieces.map fun piece => "cannot parse jq filter `" ++ piece.1 ++ "`: " ++ piece.2
  | undefinedNames names =>
      "jq filter uses undefined names: " ++
        ", ".intercalate (names.map fun name => "`" ++ name.1 ++ "` (" ++ name.2 ++ ")")

/-- A language for filters. -/
structure FilterLanguage where
  /-- A program that has been read. -/
  Program : Type
  /-- Read a program. -/
  compile : String → Except FilterFault Program
  /-- The outputs of a program for a value, one after the other, each of which is a value or the
  reason for a failure.  Those behind the first failure do not matter.  Nothing comes of a program
  that goes on for ever. -/
  outputs : Program → Json → Option (List (Except String Json))

end FormSchema
