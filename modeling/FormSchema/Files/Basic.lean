/-!
# Files

What the library needs to know about files.  `FileSource` is the reading half of a file
system, as operations of a monad, so that the same code reads the files of the machine
and those of a `FileTree`.
-/

namespace FormSchema

/-- Why a file cannot be read or written. -/
inductive FileError where
  | notFound
  | notDirectory
  | isDirectory
  | alreadyExists
  | notText
  | nameTooLong
  | denied
  /-- The path contains the character with the code point zero. -/
  | unusablePath
  | other (message : String)
  deriving DecidableEq, Inhabited

/-- The message for a file error. -/
def FileError.message : FileError → String
  | notFound => "No such file or directory (os error 2)"
  | notDirectory => "Not a directory (os error 20)"
  | isDirectory => "Is a directory (os error 21)"
  | alreadyExists => "File exists (os error 17)"
  | notText => "stream did not contain valid UTF-8"
  | nameTooLong => "File name too long (os error 36)"
  | denied => "Permission denied (os error 13)"
  | unusablePath => "file name contained an unexpected NUL byte"
  | other message => message

/-- What a path leads to. -/
inductive FileKind where
  | file
  | directory
  deriving DecidableEq, Inhabited

/-- Files that can be read. -/
class FileSource (m : Type → Type) where
  /-- The text of a file. -/
  readText : String → m (Except FileError String)
  /-- What a path leads to, if to anything. -/
  kind? : String → m (Option FileKind)
  /-- The names in a directory, in any order. -/
  entries : String → m (Except FileError (List String))

/-- The path of a name in a directory. -/
def joinPath (directory name : String) : String :=
  if directory.toList.getLast? = some '/' then directory ++ name else directory ++ "/" ++ name

end FormSchema
