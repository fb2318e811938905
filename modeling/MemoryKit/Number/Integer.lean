import MemoryKit.Number.Digits
import MemoryKit.Text.Blank

/-!
# Integers as a user types them

An optional sign, then decimal digits or `0x` and hexadecimal digits, with blanks allowed around
the whole. The magnitude is at most `2 ^ 127 - 1`.
-/

namespace MemoryKit.Number

-- powers are those of the core library, whatever else is imported
attribute [local instance (high)] instPowNat

def largestMagnitude : Nat := 2 ^ (127 : Nat) - 1

/-- Splits off one sign; the first part says whether it is a minus. -/
def splitSign : List Char → Bool × List Char
  | '-' :: rest => (true, rest)
  | '+' :: rest => (false, rest)
  | rest => (false, rest)

/-- Splits off the mark of a hexadecimal number; the first part is the base. -/
def splitBase : List Char → Nat × List Char
  | '0' :: 'x' :: rest => (16, rest)
  | '0' :: 'X' :: rest => (16, rest)
  | rest => (10, rest)

def signed (negative : Bool) (magnitude : Nat) : Int :=
  if negative then -(magnitude : Int) else magnitude

def readInteger? (text : String) : Option Int :=
  let (negative, unsigned) := splitSign (Text.trim text.toList)
  let (base, digits) := splitBase unsigned
  (readNat? base digits).bind fun magnitude =>
    if magnitude ≤ largestMagnitude then some (signed negative magnitude) else none

end MemoryKit.Number
