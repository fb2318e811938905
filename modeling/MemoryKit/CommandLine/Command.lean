import MemoryKit.CommandLine.Argument
import MemoryKit.ProcessAccess
import MemoryKit.Settings
import MemoryKit.Value.Reading

/-!
# Commands

The first word names the command and the others are its operands. A command refuses the options
that it does not use, in one fixed order of checks, so that nothing given is ignored.
-/

namespace MemoryKit.CommandLine

-- powers are those of the core library, whatever else is imported
attribute [local instance (high)] instPowNat

/-! ## 1. Commands and errors -/

inductive Command where
  | read (target : Target) (type : DataType)
  | write (target : Target) (value : Value)
  /-- Reads a double and writes a float at one address. -/
  | demo (target : Target)
  | types
  | regen (files : List String) (settings : Settings)
  | help
  | version
  deriving DecidableEq, Repr

/-- A command with what the flags say about the log. -/
structure Invocation where
  command : Command
  /-- The number of flags that ask for more log, at most 255. -/
  verbosity : Nat
  quiet : Bool
  deriving DecidableEq, Repr

inductive NumberRole where
  | pid
  | address
  | access
  deriving DecidableEq, Repr

def NumberRole.name : NumberRole → String
  | .pid => "pid"
  | .address => "address"
  | .access => "access mask"

inductive UsageError where
  | lexical (error : LexicalError)
  | noCommand
  | unknownCommand (name : String)
  | generatorSettings (command : String)
  | memorySettings (command : String)
  | unexpectedWord (word command : String)
  | valueWithoutWrite
  | fixedTypes
  | missing (setting : Setting)
  | writeWithoutValue
  | notANumber (role : NumberRole) (text : String)
  | outOfRange (role : NumberRole) (text : String)
  | value (error : ValueError)
  deriving DecidableEq, Repr

def UsageError.message : UsageError → String
  | .lexical error => error.message
  | .noCommand => "no command given"
  | .unknownCommand name =>
    s!"unknown command '{name}'. Valid commands: read, write, demo, types, regen"
  | .generatorSettings command => s!"regen options are not valid for '{command}'"
  | .memorySettings command => s!"memory options are not valid for '{command}'"
  | .unexpectedWord word command => s!"unexpected argument '{word}' for '{command}'"
  | .valueWithoutWrite => "--value is only valid for 'write'"
  | .fixedTypes => "'demo' always reads a double and writes a float"
  | .missing setting => setting.longName ++ " is required"
  | .writeWithoutValue => "write requires --value"
  | .notANumber role text => s!"invalid {role.name} '{text}'. Must be a number"
  | .outOfRange role text => s!"{role.name} '{text}' is out of range"
  | .value error => error.message

/-! ## 2. Parts of a command -/

def readWord (role : NumberRole) (width : Nat) (text : String) :
    Except UsageError (BitVec width) :=
  match Number.readInteger? text with
  | none => .error (.notANumber role text)
  | some n =>
    if 0 ≤ n ∧ n < 2 ^ width then .ok (BitVec.ofInt width n) else .error (.outOfRange role text)

def require (gs : List Group) (setting : Setting) : Except UsageError String :=
  match value? gs setting with
  | some value => .ok value
  | none => .error (.missing setting)

/-- The target: the process and the address must be given before any number is read, and the rights
are read first. -/
def readTarget (gs : List Group) : Except UsageError Target := do
  let pid ← require gs .pid
  let address ← require gs .address
  let access ← match value? gs .access with
    | some mask => readWord .access 32 mask
    | none => .ok AccessMask.full
  let pid ← readWord .pid 32 pid
  let address ← readWord .address 64 address
  return ⟨pid, address, access⟩

def readType (gs : List Group) : Except UsageError DataType := do
  (DataType.ofName (← require gs .type)).mapError .value

def anyGiven (gs : List Group) (settings : List Setting) : Bool :=
  settings.any fun setting => (value? gs setting).isSome

def refuse (condition : Bool) (error : UsageError) : Except UsageError Unit :=
  if condition then .error error else .ok ()

def refuseOperands (command : String) : List String → Except UsageError Unit
  | [] => .ok ()
  | word :: _ => .error (.unexpectedWord word command)

/-- The generator's settings; what is not given keeps its default. -/
def readSettings (gs : List Group) : Settings :=
  let base : Settings := {}
  { table := (value? gs .table).getD base.table
    blob := (value? gs .blob).getD base.blob
    symbolPrefix := (value? gs .symbolPrefix).getD base.symbolPrefix
    symbolSuffix := (value? gs .symbolSuffix).getD base.symbolSuffix
    beginMarker := (value? gs .beginMarker).getD base.beginMarker
    endMarker := (value? gs .endMarker).getD base.endMarker }

def defaultFile : String := "DefsX86X64.cpp"

/-! ## 3. Commands by name -/

def readCommand (gs : List Group) (operands : List String) : Except UsageError Command := do
  refuse (anyGiven gs Setting.generator) (.generatorSettings "read")
  refuseOperands "read" operands
  refuse (value? gs .value).isSome .valueWithoutWrite
  let target ← readTarget gs
  let type ← readType gs
  return .read target type

def writeCommand (gs : List Group) (operands : List String) : Except UsageError Command := do
  refuse (anyGiven gs Setting.generator) (.generatorSettings "write")
  refuseOperands "write" operands
  let target ← readTarget gs
  let type ← readType gs
  match value? gs .value with
  | none => .error .writeWithoutValue
  | some text => return .write target (← (type.read text).mapError .value)

def demoCommand (gs : List Group) (operands : List String) : Except UsageError Command := do
  refuse (anyGiven gs Setting.generator) (.generatorSettings "demo")
  refuseOperands "demo" operands
  refuse (anyGiven gs [.type, .value]) .fixedTypes
  return .demo (← readTarget gs)

def typesCommand (gs : List Group) (operands : List String) : Except UsageError Command := do
  refuse (anyGiven gs Setting.generator) (.generatorSettings "types")
  refuse (anyGiven gs Setting.memory) (.memorySettings "types")
  refuseOperands "types" operands
  return .types

def regenCommand (gs : List Group) (operands : List String) : Except UsageError Command := do
  refuse (anyGiven gs Setting.memory) (.memorySettings "regen")
  return .regen (if operands.isEmpty then [defaultFile] else operands) (readSettings gs)

def commandOfWords (gs : List Group) : List String → Except UsageError Command
  | [] => .error .noCommand
  | "read" :: operands => readCommand gs operands
  | "write" :: operands => writeCommand gs operands
  | "demo" :: operands => demoCommand gs operands
  | "types" :: operands => typesCommand gs operands
  | "regen" :: operands => regenCommand gs operands
  | name :: _ => .error (.unknownCommand name)

/-! ## 4. The whole command line -/

/-- The command of the groups: a request for help comes before one for the version, and both before
any word. -/
def commandOf (gs : List Group) : Except UsageError Command :=
  if Flag.help ∈ flagsOf gs then .ok .help
  else if Flag.version ∈ flagsOf gs then .ok .version
  else commandOfWords gs (wordsOf gs)

/-- The most that the number of flags for more log counts to. -/
def verbosityLimit : Nat := 255

def read (arguments : List String) : Except UsageError Invocation := do
  let gs ← (groups arguments).mapError .lexical
  let command ← commandOf gs
  return { command
           verbosity := min verbosityLimit ((flagsOf gs).count .verbose)
           quiet := decide (Flag.quiet ∈ flagsOf gs) }

end MemoryKit.CommandLine
