import MemoryKit.Bytes

/-!
# Packed name tables

A name table holds different names in the order in which they first came, each with its byte offset
in one packed string where every name is followed by a NUL.
-/

namespace MemoryKit

structure NameTable where
  /-- The names with their offsets, in order. -/
  entries : List (String × Nat)
  /-- The number of bytes of the packed string. -/
  packedLength : Nat
  deriving DecidableEq, Repr

namespace NameTable

def empty : NameTable := ⟨[], 0⟩

def names (table : NameTable) : List String :=
  table.entries.map (·.1)

def size (table : NameTable) : Nat :=
  table.entries.length

def isEmpty (table : NameTable) : Bool :=
  table.entries.isEmpty

def offset? (table : NameTable) (name : String) : Option Nat :=
  table.entries.lookup name

/-- Adds a name at the end unless it is present; the second part is its offset. -/
def insert (table : NameTable) (name : String) : NameTable × Nat :=
  match table.offset? name with
  | some offset => (table, offset)
  | none =>
    (⟨table.entries ++ [(name, table.packedLength)],
      table.packedLength + (utf8 name).length + 1⟩, table.packedLength)

/-- The table of a list of names, without the later repeats. -/
def ofList (names : List String) : NameTable :=
  names.foldl (fun table name => (table.insert name).1) empty

/-- The packed string: every name followed by a NUL. -/
def packed (table : NameTable) : String :=
  String.ofList (table.names.flatMap fun name => name.toList ++ ['\x00'])

end NameTable

end MemoryKit
