import FormSchema.Files.Basic
import FormSchema.Glob.Pattern
import FormSchema.Text.Order

/-!
# The files that a pattern stands for

A pattern is expanded from left to right, and names with wildcards are looked for among
the names of a directory in increasing order.  The matches come in the order in which
this search finds them: a directory before what it contains.

Names without wildcards are not looked for but tried, so they may also be `.` or `..`.
The first directory on the way that cannot be listed ends the search.
-/

namespace FormSchema.Glob

/-- A place that the search has reached: its path, and the last name on it. -/
structure Match where
  path : String
  name : String
  deriving DecidableEq, Inhabited

/-- A directory that could not be listed, which ends the search. -/
structure Interruption where
  path : String
  error : FileError
  deriving DecidableEq, Inhabited

/-- The message for a search that ended early. -/
def Interruption.message (interruption : Interruption) : String :=
  "attempting to read `" ++ interruption.path ++ "` resulted in an error: " ++
    interruption.error.message

/-- Looking for files, which a directory that cannot be listed ends. -/
abbrev Search (m : Type → Type) : Type → Type :=
  ExceptT Interruption m

variable {m : Type → Type} [Monad m] [FileSource m]

/-- What the path leads to, if to anything. -/
def kind? (path : String) : Search m (Option FileKind) :=
  (FileSource.kind? path : m (Option FileKind))

/-- Is there a directory at the path? -/
def isDirectory (path : String) : Search m Bool := do
  return (← kind? path) = some .directory

/-- Does the path say nothing but that it is the current directory? -/
def isCurrent (path : String) : Bool :=
  let pieces := path.toList.splitOn '/'
  pieces.head? = some ['.'] && pieces.all fun piece => piece = [] || piece = ['.']

/-- The path of a name in a directory.  Nothing is written before a name in the current
directory. -/
def step (directory name : String) : String :=
  if isCurrent directory then name else joinPath directory name

/-- What is in a directory, in increasing order of names. -/
def children (directory : String) : Search m (List Match) := do
  let listing ← (FileSource.entries directory : m (Except FileError (List String)))
  match listing with
  | .error error => throw ⟨directory, error⟩
  | .ok names => return (Text.sorted names).map fun name => ⟨step directory name, name⟩

/-- The results of a search in each of a list of places, in order. -/
def searchAll (search : Match → Search m (List String)) : List Match → Search m (List String)
  | [] => return []
  | place :: rest => do
      let first ← search place
      let others ← searchAll search rest
      return first ++ others

/-- How deeply directories may be nested: the path of every level takes two characters,
and no path is longer than 4096. -/
def depthLimit : Nat :=
  2048

/-- The results of a search in each place below a directory.  A directory is searched before it is
listed, and before the places that it contains. -/
def searchBelow (search : Match → Search m (List String)) :
    Nat → String → Search m (List String)
  | 0, _ => return []
  | depth + 1, directory => do
      if ← isDirectory directory then
        searchAll
          (fun child => do return (← search child) ++ (← searchBelow search depth child.path))
          (← children directory)
      else
        return []

/-- The special names that a pattern stands for.  Only one that starts with a dot stands
for any. -/
def specialNames (parts : List Part) : List String :=
  if parts.head? = some (.char '.') then
    ["..", "."].filter fun name => accepts parts name.toList
  else
    []

/-- The path, if it may be a result. -/
def result (onlyDirectories : Bool) (path : String) : Search m (List String) := do
  if onlyDirectories then
    if ← isDirectory path then return [path] else return []
  else
    return [path]

/-- Does a name without wildcards lead anywhere from a path? -/
def isPresent (path name : String) : Search m Bool := do
  if name = "." ∨ name = ".." then
    isDirectory path
  else
    return (← kind? (step path name)).isSome

/-- What components stand for below a path. -/
def expandFrom (onlyDirectories : Bool) : List Component → String → Search m (List String)
  | [], path => result onlyDirectories path
  | .name text :: rest, path => do
      if ← isPresent path text then expandFrom onlyDirectories rest (step path text) else return []
  | .wild parts :: rest, path => do
      if ← isDirectory path then
        let found ← children path
        let special := (specialNames parts).map fun name => ⟨joinPath path name, name⟩
        let accepted := found.filter fun place => accepts parts place.name.toList
        searchAll (fun place => expandFrom onlyDirectories rest place.path) (special ++ accepted)
      else
        return []
  | [.directories], path =>
      searchBelow (fun place => result true place.path) depthLimit path
  | .directories :: .directories :: rest, path =>
      expandFrom onlyDirectories (.directories :: rest) path
  | .directories :: next :: rest, path =>
      searchBelow
        (fun place =>
          if next.accepts place.name then
            expandFrom onlyDirectories rest place.path
          else
            return [])
        depthLimit path

/-- The paths that a pattern stands for, in order, unless a directory cannot be listed. -/
def Pattern.expand (pattern : Pattern) : m (Except Interruption (List String)) :=
  (expandFrom pattern.onlyDirectories pattern.components pattern.base).run

end FormSchema.Glob
