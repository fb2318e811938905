/-!
# Digit strings

Natural numbers as digits in base ten or sixteen. A digit string has at least one digit and nothing
else; letters count from ten in either case.
-/

namespace MemoryKit.Number

/-! ## 1. Reading -/

/-- The number a digit stands for, in bases up to sixteen. -/
def digitValue? (c : Char) : Option Nat :=
  if '0' ≤ c ∧ c ≤ '9' then some (c.toNat - '0'.toNat)
  else if 'a' ≤ c ∧ c ≤ 'f' then some (c.toNat - 'a'.toNat + 10)
  else if 'A' ≤ c ∧ c ≤ 'F' then some (c.toNat - 'A'.toNat + 10)
  else none

def digit? (base : Nat) (c : Char) : Option Nat :=
  (digitValue? c).filter (· < base)

/-- The number that begins with `n` and goes on with the given digits. -/
def continueNat? (base : Nat) (n : Nat) (digits : List Char) : Option Nat :=
  digits.foldlM (fun n c => (digit? base c).map (n * base + ·)) n

def readNat? (base : Nat) : List Char → Option Nat
  | [] => none
  | digits => continueNat? base 0 digits

/-! ## 2. Writing -/

def decimal (n : Nat) : List Char :=
  Nat.toDigits 10 n

def decimalText (n : Nat) : String :=
  String.ofList (decimal n)

def signedDecimal (n : Int) : List Char :=
  if n < 0 then '-' :: decimal n.natAbs else decimal n.natAbs

/-- The hexadecimal digits of a number in upper case, with zeros in front up to a least count. -/
def upperHex (count n : Nat) : List Char :=
  ((Nat.toDigits 16 n).map Char.toUpper).leftpad count '0'

def prefixedHex (count n : Nat) : List Char :=
  '0' :: 'x' :: upperHex count n

end MemoryKit.Number
