import MemoryKit.Bytes

/-!
# Access to files

The calls that regeneration makes to the system, each of which can fail. A file is read whole, and a
new content first goes to a temporary file, which is then moved to the place of the old one.
-/

namespace MemoryKit

/-! ## 1. Paths and errors -/

/-- The names that lead from the root to a file or directory. -/
abbrev Location := List String

abbrev Permissions := BitVec 32

inductive FileError where
  | notFound
  | notADirectory
  | isADirectory
  | nameTooLong
  | nulInPath
  /-- A failure that only its text tells apart. -/
  | other (text : String)
  deriving DecidableEq, Repr

def FileError.message : FileError → String
  | .notFound => "No such file or directory (os error 2)"
  | .notADirectory => "Not a directory (os error 20)"
  | .isADirectory => "Is a directory (os error 21)"
  | .nameTooLong => "File name too long (os error 36)"
  | .nulInPath => "file name contained an unexpected NUL byte"
  | .other text => text

def pathNames (path : String) : List String :=
  (path.toList.splitOn '/').map String.ofList

def isIdleName (name : String) : Bool :=
  name = "" || name = "."

def isAbsolute (path : String) : Bool :=
  path.toList.head? = some '/'

/-! ## 2. Calls -/

/-- Files behind calls that can fail. A temporary file is named by its location. -/
class FileStore (m : Type → Type) where
  read : (path : String) → ExceptT FileError m Bytes
  permissions : (path : String) → ExceptT FileError m Permissions
  /-- Makes an empty file under a new name in a directory. -/
  createTemporary : (directory : String) → ExceptT FileError m Location
  /-- Appends bytes to a temporary file. -/
  write : (temporary : Location) → Bytes → ExceptT FileError m Unit
  /-- Waits until a temporary file is on the disk. -/
  sync : (temporary : Location) → ExceptT FileError m Unit
  setPermissions : (temporary : Location) → Permissions → ExceptT FileError m Unit
  /-- Moves a temporary file to the place of the file that a path leads to. -/
  persist : (temporary : Location) → (path : String) → ExceptT FileError m Unit
  /-- Removes a temporary file that is not wanted any more. -/
  remove : (temporary : Location) → m Unit

end MemoryKit
