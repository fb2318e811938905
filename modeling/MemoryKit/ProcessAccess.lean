import MemoryKit.Number.Digits
import MemoryKit.Value.Basic

/-!
# Access to another process

The rights requested when a process is opened, the place in it that a command is about, and the
errors of opening, reading, writing and closing.
-/

namespace MemoryKit

/-! ## 1. Rights -/

abbrev AccessMask := BitVec 32

namespace AccessMask

def standardRightsRequired : AccessMask := 0x000F0000

def synchronize : AccessMask := 0x00100000

def processRights : AccessMask := 0xFFF

def full : AccessMask := standardRightsRequired ||| synchronize ||| processRights

end AccessMask

structure Target where
  pid : BitVec 32
  address : BitVec 64
  access : AccessMask
  deriving DecidableEq, Repr

def demonstrationValue : Value :=
  .floating .float 0x3FC00000

/-! ## 2. Errors -/

inductive ProcessError where
  | openFailed (pid code : BitVec 32)
  | readFailed (address size : BitVec 64) (code : BitVec 32)
  | writeFailed (address size : BitVec 64) (code : BitVec 32)
  | closeFailed (code : BitVec 32)
  /-- The system has no way to reach into another process. -/
  | unsupported
  deriving DecidableEq, Repr

namespace ProcessError

def codeMessage (code : BitVec 32) : String :=
  " (error code: " ++ Number.decimalText code.toNat ++ ")"

def transferMessage (verb : String) (address size : BitVec 64) (code : BitVec 32) : String :=
  "Failed to " ++ verb ++ " " ++ Number.decimalText size.toNat ++ " bytes at " ++
    String.ofList (Number.prefixedHex 1 address.toNat) ++ codeMessage code

def message : ProcessError → String
  | .openFailed pid code =>
    "Failed to open process " ++ Number.decimalText pid.toNat ++ codeMessage code
  | .readFailed address size code => transferMessage "read" address size code
  | .writeFailed address size code => transferMessage "write" address size code
  | .closeFailed code => "Failed to close process handle" ++ codeMessage code
  | .unsupported => "Process memory access requires Windows"

end ProcessError

end MemoryKit
