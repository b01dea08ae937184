import FormSchema.Text.Split

/-!
# Patterns for names

Which names of cases a pattern selects is for the language to say that it is written in.  A
`NamePattern` is a pattern of a small language that is enough to run suites with.  It selects names
by what occurs in them: it is a list of alternatives between vertical bars, and in an alternative a
circumflex stands for the beginning of the name and every other character for itself.
-/

namespace FormSchema.Suite

/-- A language for patterns: what the pattern with a given text selects, or what is wrong with the
text. -/
abbrev PatternLanguage :=
  String → Except String (String → Bool)

/-- A pattern: its alternatives, each as a list of characters. -/
structure NamePattern where
  alternatives : List (List Char)
  deriving DecidableEq, Inhabited

namespace NamePattern

/-- The pattern with the given text. -/
def ofText (text : String) : NamePattern :=
  ⟨text.toList.splitOn '|'⟩

/-- Does an alternative fit the beginning of a text, which may be the beginning of the
name? -/
def fits : Bool → List Char → List Char → Bool
  | _, [], _ => true
  | atStart, '^' :: rest, text => atStart && fits atStart rest text
  | _, _ :: _, [] => false
  | _, c :: rest, other :: text => c = other && fits false rest text

/-- Does an alternative occur in a text, which may be the beginning of the name? -/
def occurs (alternative : List Char) : Bool → List Char → Bool
  | atStart, [] => fits atStart alternative []
  | atStart, c :: rest => fits atStart alternative (c :: rest) || occurs alternative false rest

/-- Does the pattern select the name? -/
def selects (pattern : NamePattern) (name : String) : Bool :=
  pattern.alternatives.any fun alternative => occurs alternative true name.toList

/-- The language of these patterns, in which every text is one. -/
def language : PatternLanguage :=
  fun text => .ok (ofText text).selects

end NamePattern

end FormSchema.Suite
