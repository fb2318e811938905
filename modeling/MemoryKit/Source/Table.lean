import MemoryKit.Bytes

/-!
# The table in a source file

A table is declared by a header `identifier[] = {`, with blanks allowed around the equals sign. Its
body reaches from the opening brace to the first closing brace after it. The first header of a file
decides, and a header whose identifier is only the end of a longer one does not count.
-/

namespace MemoryKit.Source

open Bytes

/-! ## 1. Headers -/

/-- What follows the opening brace, where a header begins here. -/
def afterHeader? (identifier s : Bytes) : Option Bytes :=
  (after? identifier s).bind fun s =>
    -- no blanks before the brackets
    (after? [ascii '[', ascii ']'] s).bind fun s =>
      (after? [ascii '='] (skipBlank s)).bind fun s =>
        after? [ascii '\x7b'] (skipBlank s)

/-- The offset of the first header and what follows it, given the offset at which the search begins
and the byte before that. -/
def firstHeader? (identifier : Bytes) :
    (offset : Nat) → (before : Option UInt8) → Bytes → Option (Nat × Bytes)
  | _, _, [] => none
  | offset, before, b :: rest =>
    if before.any isIdentifierByte then firstHeader? identifier (offset + 1) (some b) rest
    else
      match afterHeader? identifier (b :: rest) with
      | some after => some (offset, after)
      | none => firstHeader? identifier (offset + 1) (some b) rest

/-! ## 2. Tables -/

structure Table where
  /-- The offset of the identifier. -/
  start : Nat
  /-- The offset of the closing brace. -/
  stop : Nat
  /-- The bytes between the braces. -/
  body : Bytes
  deriving DecidableEq, Repr

def beforeBrace? (s : Bytes) : Option Bytes :=
  if s.contains (ascii '\x7d') then some (s.takeWhile (· != ascii '\x7d')) else none

/-- The table with the given identifier. No table has an empty identifier, and none is looked for
after a first header that no brace closes. -/
def table? (identifier source : Bytes) : Option Table :=
  if identifier.isEmpty then none
  else
    (firstHeader? identifier 0 none source).bind fun (start, after) =>
      (beforeBrace? after).map fun body =>
        { start, stop := source.length - after.length + body.length, body }

end MemoryKit.Source
