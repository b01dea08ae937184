import FormSchema.Files.Basic
import FormSchema.Members
import FormSchema.Text.Split

/-!
# A tree of files

A `FileTree` holds files and directories by the names that lead to them from the root of the
machine.  Every file also makes directories of the places that lead to it.

A path starts at the root if it starts with a slash, and otherwise in the working directory.  Paths
are followed one name at a time, as operating systems do: `..` is the directory above the one
reached so far, and a name below something that is not a directory is an error, even if `..` comes
next.
-/

namespace FormSchema

/-- Where something lies in a tree: the names that lead to it from the root. -/
abbrev Place :=
  List String

/-- Files with their contents, and directories that may be empty. -/
structure FileTree where
  files : List (Place × ByteArray) := []
  directories : List Place := []
  /-- Directories in which names may be looked for, but not be listed. -/
  locked : List Place := []
  /-- The directory in which paths start that do not start at the root. -/
  workingDirectory : Place := []
  deriving Inhabited

namespace FileTree

/-- The content of the file at a place. -/
def content? (tree : FileTree) (place : Place) : Option ByteArray :=
  tree.files.lookup place

/-- Is there a directory at a place? -/
def hasDirectory (tree : FileTree) (place : Place) : Bool :=
  (tree.workingDirectory :: tree.directories).any (fun other => place.isPrefixOf other) ||
    tree.files.any fun entry => place.isPrefixOf entry.1 && place != entry.1

/-- What lies at a place. -/
def kindAt? (tree : FileTree) (place : Place) : Option FileKind :=
  if (tree.content? place).isSome then some .file
  else if tree.hasDirectory place then some .directory
  else none

/-- The names of a path.  A path that ends in a slash ends in an empty name. -/
def pathNames (path : String) : List String :=
  (path.toList.splitOn '/').map String.ofList

/-- Does the path end in a slash? -/
def endsInSlash (path : String) : Bool :=
  path.toList.getLast? = some '/'

/-- Where a path starts. -/
def start (tree : FileTree) (path : String) : Place :=
  if path.toList.head? = some '/' then [] else tree.workingDirectory

/-- The number of bytes that a name may have. -/
def nameLimit : Nat :=
  255

/-- The number of bytes that a path may have. -/
def pathLimit : Nat :=
  4095

/-- Does a path contain the character that ends paths inside the machine? -/
def isUnusable (path : String) : Bool :=
  path.toList.any fun c => c.toNat = 0

/-- The place that names lead to from a place.  Only the last name may lead to nothing. -/
def follow (tree : FileTree) (place : Place) : List String → Except FileError Place
  | [] => .ok place
  | name :: rest =>
      match tree.kindAt? place with
      | none => .error .notFound
      | some .file => .error .notDirectory
      | some .directory =>
          if name = "." ∨ name = "" then follow tree place rest
          else if name = ".." then follow tree place.dropLast rest
          else if nameLimit < name.utf8ByteSize then .error .nameTooLong
          else follow tree (place ++ [name]) rest

/-- The place that a path leads to. -/
def locate (tree : FileTree) (path : String) : Except FileError Place :=
  if isUnusable path then .error .unusablePath
  else if pathLimit < path.utf8ByteSize then .error .nameTooLong
  else if path.isEmpty then .error .notFound
  else tree.follow (tree.start path) (pathNames path)

/-- What a path leads to. -/
def kind? (tree : FileTree) (path : String) : Option FileKind :=
  match tree.locate path with
  | .ok place => tree.kindAt? place
  | .error _ => none

/-- The text of the file that a path leads to. -/
def readText (tree : FileTree) (path : String) : Except FileError String := do
  let place ← tree.locate path
  match tree.content? place with
  | some content =>
      match String.fromUTF8? content with
      | some text => .ok text
      | none => .error .notText
  | none => if tree.hasDirectory place then .error .isDirectory else .error .notFound

/-- The name directly below `place` on the way to `other`, if that lies further down. -/
def nameBelow? (place other : Place) : Option String :=
  if place.isPrefixOf other then (other.drop place.length).head? else none

/-- The names in the directory that a path leads to, each once. -/
def entries (tree : FileTree) (path : String) : Except FileError (List String) := do
  let place ← tree.locate path
  match tree.kindAt? place with
  | none => .error .notFound
  | some .file => .error .notDirectory
  | some .directory =>
      if tree.locked.contains place then
        .error .denied
      else
        let places := tree.files.map Prod.fst ++ tree.directories ++ [tree.workingDirectory]
        .ok (places.filterMap (nameBelow? place)).eraseDups

/-- Create the directories that names lead to from a place. -/
def createFrom (tree : FileTree) (place : Place) : List String → Except FileError FileTree
  | [] => .ok tree
  | name :: rest =>
      if name = "." ∨ name = "" then createFrom tree place rest
      else if name = ".." then createFrom tree place.dropLast rest
      else
        let inner := place ++ [name]
        match tree.kindAt? inner with
        | some .directory => createFrom tree inner rest
        | some .file => if rest.isEmpty then .error .alreadyExists else .error .notDirectory
        | none =>
            if nameLimit < name.utf8ByteSize then .error .nameTooLong
            else createFrom { tree with directories := tree.directories ++ [inner] } inner rest

/-- The names of the directory that a path lies in. -/
def parentNames (path : String) : List String :=
  ((pathNames path).filter fun name => name != "." && name != "").dropLast

/-- Create the directory that a path lies in, and those above it. -/
def createParent (tree : FileTree) (path : String) : Except FileError FileTree :=
  if (parentNames path).any isUnusable then .error .unusablePath
  else tree.createFrom (tree.start path) (parentNames path)

/-- The path without the slashes at its end.  One slash remains of a path to the root. -/
def withoutEndSlashes (path : String) : String :=
  match path.toList.reverse.dropWhile (· = '/') with
  | [] => String.ofList (path.toList.take 1)
  | kept => String.ofList kept.reverse

/-- Write a text to the file that a path leads to, which creates it if there is nothing yet.  The
way up to the last name must exist; slashes behind that name then tell that a directory is
meant. -/
def writeText (tree : FileTree) (path text : String) : Except FileError FileTree := do
  let place ← tree.locate (withoutEndSlashes path)
  if endsInSlash path ∨ tree.kindAt? place = some .directory then
    .error .isDirectory
  else
    .ok { tree with files := Members.put place text.toUTF8 tree.files }

instance : FileSource (ReaderM FileTree) where
  readText path := do return (← read).readText path
  kind? path := do return (← read).kind? path
  entries path := do return (← read).entries path

end FileTree

end FormSchema
