import FormSchema.Text.Split

/-!
# Wildcard patterns

A pattern is split at slashes into components, each of which stands for one name on the
way to a file.  In a component `?` stands for one character, `*` for any number of them,
and brackets for one character of a set; a closing bracket directly behind the opening
one, or behind `[!`, belongs to the set.  The component `**` stands for any number of
directories.
-/

namespace FormSchema.Glob

/-- What brackets may contain: single characters and ranges. -/
inductive CharSet where
  | single (c : Char)
  | range (first last : Char)
  deriving DecidableEq, Inhabited

/-- A part of a pattern. -/
inductive Part where
  | char (c : Char)
  | anyChar
  | anyText
  /-- Two stars, which may only be a whole component. -/
  | directories
  | within (sets : List CharSet)
  | outside (sets : List CharSet)
  deriving DecidableEq, Inhabited

/-- What is wrong with a pattern. -/
inductive PatternFault where
  | tooManyStars
  | starsWithinName
  | unclosedBracket
  deriving DecidableEq, Inhabited

/-- A fault of a pattern, and the number of characters before it. -/
structure PatternError where
  position : Nat
  fault : PatternFault
  deriving DecidableEq, Inhabited

/-- The message for a fault of a pattern. -/
def PatternFault.message : PatternFault → String
  | tooManyStars => "wildcards are either regular `*` or recursive `**`"
  | starsWithinName => "recursive wildcards must form a single path component"
  | unclosedBracket => "invalid range pattern"

/-- The message for a faulty pattern. -/
def PatternError.message (error : PatternError) : String :=
  "Pattern syntax error near position " ++ toString error.position ++ ": " ++ error.fault.message

/-- The sets that the text between brackets describes. -/
def charSets : List Char → List CharSet
  | [] => []
  | first :: '-' :: last :: rest => .range first last :: charSets rest
  | c :: rest => .single c :: charSets rest

/-- Split a text at its first closing bracket. -/
def untilBracket : List Char → Option (List Char × List Char)
  | [] => none
  | ']' :: rest => some ([], rest)
  | c :: rest => (untilBracket rest).map fun split => (c :: split.1, split.2)

/-- The part that starts with an opening bracket, which stands before the text; with the
number of its characters and the text behind it. -/
def bracketPart? (text : List Char) : Option (Part × Nat × List Char) :=
  match text with
  | '!' :: first :: rest =>
      (untilBracket rest).map fun split =>
        (.outside (charSets (first :: split.1)), split.1.length + 4, split.2)
  | first :: rest =>
      if first = '!' then
        none
      else
        (untilBracket rest).map fun split =>
          (.within (charSets (first :: split.1)), split.1.length + 3, split.2)
  | [] => none

/-- The parts of a text at the given position, behind the given character.  Every part
takes at least one character, so `limit` may be the number of characters. -/
def partsFrom : Nat → Nat → Option Char → List Char → Except PatternError (List Part)
  | _, _, _, [] => .ok []
  | 0, _, _, _ => .ok []
  | limit + 1, position, previous, c :: rest =>
      if c = '?' then do
        return .anyChar :: (← partsFrom limit (position + 1) (some c) rest)
      else if c = '*' then
        let stars := (rest.takeWhile (· = '*')).length + 1
        let behind := rest.dropWhile (· = '*')
        if 2 < stars then
          .error ⟨position + 2, .tooManyStars⟩
        else if stars = 1 then do
          return .anyText :: (← partsFrom limit (position + 1) (some c) behind)
        else if previous.isSome ∧ previous ≠ some '/' then
          .error ⟨position - 1, .starsWithinName⟩
        else
          match behind with
          | [] => .ok [.directories]
          | '/' :: behind => do
              return .directories :: (← partsFrom limit (position + 3) (some '/') behind)
          | _ => .error ⟨position + 2, .starsWithinName⟩
      else if c = '[' then
        match bracketPart? rest with
        | some (part, length, behind) => do
            return part :: (← partsFrom limit (position + length) (some ']') behind)
        | none => .error ⟨position, .unclosedBracket⟩
      else do
        return .char c :: (← partsFrom limit (position + 1) (some c) rest)

/-- The parts of a text. -/
def parts (text : List Char) : Except PatternError (List Part) :=
  partsFrom text.length 0 none text

/-- Is the character in one of the sets? -/
def isInSets (c : Char) (sets : List CharSet) : Bool :=
  sets.any fun set => match set with
    | .single other => c = other
    | .range first last => first ≤ c && c ≤ last

/-- Does the text or one of its endings, down to the empty one, satisfy the test? -/
def someEnding (test : List Char → Bool) : List Char → Bool
  | [] => test []
  | c :: rest => test (c :: rest) || someEnding test rest

/-- Does a part that stands for one character stand for this one? -/
def Part.accepts (c : Char) : Part → Bool
  | char other => c = other
  | anyChar => true
  | within sets => isInSets c sets
  | outside sets => !isInSets c sets
  | anyText => false
  | directories => false

/-- Do the parts stand for the whole text? -/
def accepts : List Part → List Char → Bool
  | [], text => text.isEmpty
  | .anyText :: rest, text => someEnding (accepts rest) text
  | .directories :: rest, text => someEnding (accepts rest) text
  | part :: rest, text =>
      match text with
      | [] => false
      | c :: behind => part.accepts c && accepts rest behind

/-- A component of a pattern. -/
inductive Component where
  /-- A name without wildcards. -/
  | name (text : String)
  /-- A name with wildcards. -/
  | wild (parts : List Part)
  | directories
  deriving DecidableEq, Inhabited

namespace Component

/-- The characters of parts that stand for themselves, if all do. -/
def plainText? : List Part → Option (List Char)
  | [] => some []
  | .char c :: rest => (plainText? rest).map (c :: ·)
  | _ => none

/-- The component with the given parts. -/
def ofParts (parts : List Part) : Component :=
  match plainText? parts with
  | some text => name (String.ofList text)
  | none => if parts.contains .directories then directories else wild parts

/-- Does the component stand for a name? -/
def accepts (component : Component) (text : String) : Bool :=
  match component with
  | name other => text = other
  | wild parts => Glob.accepts parts text.toList
  | directories => true

end Component

/-- A pattern: where it starts, its components, and whether it only stands for
directories, as a slash at its end says. -/
structure Pattern where
  base : String
  components : List Component
  onlyDirectories : Bool
  deriving DecidableEq, Inhabited

/-- The components that the pieces of a pattern describe. -/
def componentsOf : List (List Char) → Except PatternError (List Component)
  | [] => .ok []
  | piece :: rest => do
      let first ← parts piece
      return .ofParts first :: (← componentsOf rest)

/-- The pattern with the given text.  The text is checked as a whole before it is split. -/
def Pattern.ofText (text : String) : Except PatternError Pattern := do
  let _ ← parts text.toList
  let (base, rest) :=
    match text.toList with
    | '/' :: rest => ("/", rest)
    | all => (".", all)
  let components ← componentsOf (Text.splitTerminated '/' rest)
  return ⟨base, components, text.toList.getLast? = some '/'⟩

/-- Is the text meant as a pattern, rather than as the path of a file? -/
def isPattern (text : String) : Bool :=
  text.toList.any fun c => c = '*' || c = '?' || c = '[' || c = '\x7b'

end FormSchema.Glob
