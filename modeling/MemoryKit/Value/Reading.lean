import MemoryKit.Number.Shortest
import MemoryKit.Value.Basic

/-!
# Values as a user types them

The blanks around a text do not count, but an error repeats the text as it was typed.
-/

namespace MemoryKit

/-! ## 1. Errors -/

inductive Rejection where
  | notBoolean
  | notFloatingPoint
  | notANumber
  | outOfRange
  | notAscii
  | notOneUnit
  deriving DecidableEq, Repr

def Rejection.message : Rejection → String
  | .notBoolean => "expected true or false"
  | .notFloatingPoint => "not a floating-point number"
  | .notANumber => "not a number"
  | .outOfRange => "out of range"
  | .notAscii => "expected a single ASCII character or code"
  | .notOneUnit => "character does not fit in one UTF-16 unit"

inductive ValueError where
  /-- The text is no value of the type. -/
  | invalid (type : DataType) (text : String) (reason : Rejection)
  /-- No type has this name or tag. -/
  | unknownType (name : String)
  deriving DecidableEq, Repr

def ValueError.message : ValueError → String
  | .invalid type text reason => s!"invalid {type.name} value '{text}': {reason.message}"
  | .unknownType name => s!"unknown data type '{name}'. Run 'types' for the list"

def DataType.ofName (text : String) : Except ValueError DataType :=
  match DataType.ofName? text with
  | some t => .ok t
  | none => .error (.unknownType text)

/-! ## 2. Readers of one kind of type -/

def readBool (text : List Char) : Except Rejection Bool :=
  let word := String.ofList (text.map Char.toLower)
  if word ∈ ["true", "1", "yes", "on"] then .ok true
  else if word ∈ ["false", "0", "no", "off"] then .ok false
  else .error .notBoolean

namespace IntegerType

def readNumber (t : IntegerType) (text : String) : Except Rejection (BitVec t.width) :=
  match Number.readInteger? text with
  | none => .error .notANumber
  | some n =>
    match t.ofInt? n with
    | none => .error .outOfRange
    | some bits => .ok bits

/-- Reads an integer, or for the two character types a single character in its place. -/
def read (t : IntegerType) (text : List Char) : Except Rejection (BitVec t.width) :=
  match t, text with
  | .char, [c] => if c.toNat < 0x80 then .ok (BitVec.ofNat 8 c.toNat) else .error .notAscii
  | .wchar, [c] => if c.toNat < 0x10000 then .ok (BitVec.ofNat 16 c.toNat) else .error .notOneUnit
  | t, text => t.readNumber (String.ofList text)

end IntegerType

/-! ## 3. Any value -/

def DataType.readTrimmed (t : DataType) (text : List Char) : Except Rejection Value :=
  match t with
  | .bool => (readBool text).map .bool
  | .integer t => (t.read text).map (.integer t)
  | .floating t =>
    match t.format.read? text with
    | some bits => .ok (.floating t bits)
    | none => .error .notFloatingPoint

def DataType.read (t : DataType) (text : String) : Except ValueError Value :=
  (t.readTrimmed (Text.trim text.toList)).mapError (.invalid t text)

end MemoryKit
