import MemoryKit.FileTree

/-!
# Disks

A file tree under a system that can refuse any call. Whether it refuses a call is settled by what
the call asks for, and a call that is refused changes nothing.
-/

namespace MemoryKit

inductive FileCall where
  | read (path : String)
  | permissions (path : String)
  | createTemporary (directory : String)
  | write (temporary : Location) (content : Bytes)
  | sync (temporary : Location)
  | setPermissions (temporary : Location) (permissions : Permissions)
  | persist (temporary : Location) (path : String)
  deriving DecidableEq, Repr

structure Disk where
  tree : FileTree
  /-- The errors of the calls that are refused. -/
  refusal? : FileCall → Option FileError := fun _ => none
  /-- The names to try for a temporary file in a directory. -/
  names : (directory : String) → List String := fun _ => [".tmp000000"]

namespace Disk

/-- Makes a call: the system refuses it, or it does to the tree what it is for. -/
def call {α : Type} (call : FileCall) (act : Disk → Except FileError (α × FileTree)) :
    ExceptT FileError (StateM Disk) α :=
  ExceptT.mk fun disk =>
    match disk.refusal? call with
    | some error => (.error error, disk)
    | none =>
      match act disk with
      | .error error => (.error error, disk)
      | .ok (a, tree) => (.ok a, { disk with tree })

instance : FileStore (StateM Disk) where
  read path := call (.read path) fun disk => do
    let (_, file) ← disk.tree.find path
    return (file.content, disk.tree)
  permissions path := call (.permissions path) fun disk => do
    let (_, file) ← disk.tree.find path
    return (file.permissions, disk.tree)
  createTemporary directory := call (.createTemporary directory) fun disk => do
    let temporary ← disk.tree.newLocation directory (disk.names directory)
    return (temporary, disk.tree.put temporary (some (.file ⟨[], FileTree.ownerOnly⟩)))
  write temporary content := call (.write temporary content) fun disk =>
    return ((), disk.tree.modify temporary fun file =>
      { file with content := file.content ++ content })
  sync temporary := call (.sync temporary) fun disk => return ((), disk.tree)
  setPermissions temporary permissions := call (.setPermissions temporary permissions) fun disk =>
    return ((), disk.tree.modify temporary fun file => { file with permissions })
  persist temporary path := call (.persist temporary path) fun disk => do
    let (target, _) ← disk.tree.find path
    if (disk.tree.node? temporary).isNone then throw .notFound
    return ((), disk.tree.move temporary target)
  remove temporary := fun disk => ((), { disk with tree := disk.tree.put temporary none })

end Disk

end MemoryKit
