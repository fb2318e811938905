import MemoryKit.FileStore

/-!
# File trees

A file tree says what stands at each location below the root. A path is walked name by name, from
the root if it begins with a slash and otherwise from the directory in which the program runs, and
every name but the last must lead to a directory.
-/

namespace MemoryKit

structure File where
  content : Bytes
  permissions : Permissions := 0o644
  deriving DecidableEq, Repr

inductive Node where
  | file (file : File)
  | directory
  deriving DecidableEq, Repr

@[ext]
structure FileTree where
  /-- Where relative paths begin. -/
  start : Location
  node? : Location → Option Node

namespace FileTree

/-- The tree of a list of nodes. The root is a directory. -/
def ofList (start : Location) (nodes : List (Location × Node)) : FileTree where
  start
  node? location := if location.isEmpty then some .directory else nodes.lookup location

def put (tree : FileTree) (location : Location) (node? : Option Node) : FileTree where
  start := tree.start
  node? other := if other = location then node? else tree.node? other

/-! ## 1. Walking a path -/

def longestName : Nat := 255

def longestPath : Nat := 4095

/-- Goes from a directory to the node that a name leads to. The root is its own parent. -/
def enter (tree : FileTree) (place : Location) (name : String) : Except FileError Location :=
  -- also before an empty name, so that a slash after a file is an error
  if tree.node? place ≠ some .directory then .error .notADirectory
  else if isIdleName name then .ok place
  else if name = ".." then .ok place.dropLast
  else if longestName < (utf8 name).length then .error .nameTooLong
  else if (tree.node? (place ++ [name])).isSome then .ok (place ++ [name])
  else .error .notFound

def resolve (tree : FileTree) (path : String) : Except FileError Location :=
  if path.toList.contains '\x00' then .error .nulInPath
  else if path.isEmpty then .error .notFound
  else if longestPath < (utf8 path).length then .error .nameTooLong
  else (pathNames path).foldlM tree.enter (if isAbsolute path then [] else tree.start)

/-! ## 2. Files -/

def find (tree : FileTree) (path : String) : Except FileError (Location × File) :=
  match tree.resolve path with
  | .error error => .error error
  | .ok location =>
    match tree.node? location with
    | some (.file file) => .ok (location, file)
    | some .directory => .error .isADirectory
    | none => .error .notFound

def ownerOnly : Permissions := 0o600

/-- A location for a temporary file: the first of some names that is new in a directory. -/
def newLocation (tree : FileTree) (directory : String) (names : List String) :
    Except FileError Location :=
  match tree.resolve directory with
  | .error error => .error error
  | .ok place =>
    if tree.node? place ≠ some .directory then .error .notADirectory
    else
      match names.find? fun name => (tree.node? (place ++ [name])).isNone with
      | some name => .ok (place ++ [name])
      | none => .error (.other "too many temporary files exist")

def modify (tree : FileTree) (location : Location) (change : File → File) : FileTree :=
  match tree.node? location with
  | some (.file file) => tree.put location (some (.file (change file)))
  | _ => tree

def move (tree : FileTree) (source target : Location) : FileTree :=
  (tree.put source none).put target (tree.node? source)

end FileTree

end MemoryKit
