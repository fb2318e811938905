import MemoryKit.Value.Basic

/-!
# Scalars with a fixed data type

The machine scalars that a caller may exchange with another process without naming a type: each
travels as exactly one data type, and a value of any other type is not accepted in its place.
-/

namespace MemoryKit

inductive Scalar where
  | bool
  | signed8
  | unsigned8
  | signed16
  | unsigned16
  | signed32
  | signed64
  | unsigned64
  | float32
  | float64
  | machineWord
  deriving DecidableEq, Repr

namespace Scalar

def type : Scalar → DataType
  | .bool => .bool
  | .signed8 => .integer .byte
  | .unsigned8 => .integer .char
  | .signed16 => .integer .int16
  | .unsigned16 => .integer .wchar
  | .signed32 => .integer .int32
  | .signed64 => .integer .int64
  | .unsigned64 => .integer .ullong
  | .float32 => .floating .float
  | .float64 => .floating .double
  | .machineWord => .integer .sizeT

def accept? (s : Scalar) (v : Value) : Option Value :=
  if v.type = s.type then some v else none

end Scalar

end MemoryKit
