import MemoryKit.FileStore

/-!
# Replacing a file

New content is written to a temporary file beside the old one, and put in its place by one move. The
old file is never truncated, and a temporary file that does not take its place is removed.
-/

namespace MemoryKit

/-- The path up to its last name: the directory that the path leads through at the end. -/
def directoryOf (path : String) : String :=
  match (pathNames path).reverse.dropWhile isIdleName with
  | [] => "."
  | _ :: names =>
    match names.dropWhile isIdleName with
    | [] => if isAbsolute path then "/" else "."
    | names => "/".intercalate names.reverse

example : ["a", "./a", "/a", "d/a", "/d/./a/", "../a", ""].map directoryOf =
    [".", ".", "/", "d", "/d", "..", "."] := by decide +kernel

variable {m : Type → Type} [Monad m] [FileStore m]

/-- Gives a temporary file the permissions of the file at a path, if those can be read. -/
def copyPermissions (temporary : Location) (path : String) : ExceptT FileError m Unit := do
  match ← ExceptT.lift (FileStore.permissions (m := m) path).run with
  | .ok permissions => FileStore.setPermissions temporary permissions
  | .error _ => return ()

def fillAndPersist (temporary : Location) (path : String) (content : Bytes) :
    ExceptT FileError m Unit := do
  FileStore.write temporary content
  FileStore.sync temporary
  copyPermissions temporary path
  FileStore.persist temporary path

/-- Replaces the content of a file, or fails and leaves the file as it was. -/
def replaceFile (path : String) (content : Bytes) : ExceptT FileError m Unit := do
  let temporary ← FileStore.createTemporary (directoryOf path)
  try
    fillAndPersist temporary path content
  catch error =>
    ExceptT.lift (FileStore.remove (m := m) temporary)
    throw error

end MemoryKit
