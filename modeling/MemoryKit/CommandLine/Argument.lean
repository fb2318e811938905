import MemoryKit.Bytes

/-!
# Arguments of the command line

Each argument is a flag or several short flags in one, an option that takes a value, or a word. An
option takes the next argument as its value, whatever that looks like, or has it after an equals
sign. The arguments are cut into groups from the left, and the first that fits nowhere is the error.
-/

namespace MemoryKit.CommandLine

/-! ## 1. Flags and options -/

inductive Flag where
  | help
  | version
  | verbose
  | quiet
  deriving DecidableEq, Repr

namespace Flag

def all : List Flag := [.help, .version, .verbose, .quiet]

def letter : Flag → Char
  | .help => 'h'
  | .version => 'V'
  | .verbose => 'v'
  | .quiet => 'q'

def longName : Flag → String
  | .help => "--help"
  | .version => "--version"
  | .verbose => "--verbose"
  | .quiet => "--quiet"

def shortName (flag : Flag) : String :=
  String.ofList ['-', flag.letter]

def ofLetter? (c : Char) : Option Flag :=
  all.find? fun flag => flag.letter = c

def ofName? (argument : String) : Option Flag :=
  all.find? fun flag => argument = flag.shortName ∨ argument = flag.longName

end Flag

inductive Setting where
  | pid
  | address
  | type
  | value
  | access
  | table
  | blob
  | symbolPrefix
  | symbolSuffix
  | beginMarker
  | endMarker
  deriving DecidableEq, Repr

namespace Setting

def all : List Setting :=
  [.pid, .address, .type, .value, .access, .table, .blob, .symbolPrefix, .symbolSuffix,
   .beginMarker, .endMarker]

def longName : Setting → String
  | .pid => "--pid"
  | .address => "--address"
  | .type => "--type"
  | .value => "--value"
  | .access => "--access"
  | .table => "--table"
  | .blob => "--blob"
  | .symbolPrefix => "--prefix"
  | .symbolSuffix => "--suffix"
  | .beginMarker => "--begin"
  | .endMarker => "--end"

def shortName? : Setting → Option String
  | .pid => some "-p"
  | .address => some "-a"
  | .type => some "-t"
  | .value => some "-w"
  | _ => none

def memory : List Setting := [.pid, .address, .type, .value, .access]

def generator : List Setting :=
  [.table, .blob, .symbolPrefix, .symbolSuffix, .beginMarker, .endMarker]

def ofLongName? (argument : String) : Option Setting :=
  all.find? fun setting => argument = setting.longName

def ofName? (argument : String) : Option Setting :=
  all.find? fun setting => argument = setting.longName ∨ some argument = setting.shortName?

end Setting

/-! ## 2. The shape of one argument -/

inductive LexicalError where
  | unknownOption (argument : String)
  /-- A value follows an equals sign, but nothing with this name takes one. -/
  | takesNoValue (key : String)
  /-- The arguments end where a value should follow. -/
  | missingValue (setting : Setting)
  deriving DecidableEq, Repr

def LexicalError.message : LexicalError → String
  | .unknownOption argument => s!"unknown option '{argument}'"
  | .takesNoValue key => s!"option '{key}' does not take a value"
  | .missingValue setting => setting.longName ++ " requires a value"

inductive Shape where
  | flags (flags : List Flag)
  /-- An option whose value is the next argument. -/
  | key (setting : Setting)
  | keyValue (setting : Setting) (value : String)
  | word (text : String)
  deriving DecidableEq, Repr

/-- The flags of an argument that holds two or more letters of flags behind one dash. -/
def combinedFlags? : List Char → Option (List Flag)
  | '-' :: first :: second :: rest => (first :: second :: rest).mapM Flag.ofLetter?
  | _ => none

/-- The parts before and after the first equals sign. -/
def splitEquals? (text : List Char) : Option (String × String) :=
  if text.contains '=' then
    some (String.ofList (text.takeWhile (· ≠ '=')),
      String.ofList ((text.dropWhile (· ≠ '=')).drop 1))
  else none

def isLong : List Char → Bool
  | '-' :: '-' :: _ => true
  | _ => false

def isOption : List Char → Bool
  | '-' :: _ :: _ => true
  | _ => false

def keyValue? (text : List Char) : Option (String × String) :=
  if isLong text then splitEquals? text else none

/-- The shape of an argument in option position. -/
def shape (argument : String) : Except LexicalError Shape :=
  match Flag.ofName? argument, Setting.ofName? argument with
  | some flag, _ => .ok (.flags [flag])
  | none, some setting => .ok (.key setting)
  | none, none =>
    -- letters of flags hold no equals sign, so at most one of the two is present
    match combinedFlags? argument.toList, keyValue? argument.toList with
    | some flags, _ => .ok (.flags flags)
    | none, some (key, value) =>
      match Setting.ofLongName? key with
      | some setting => .ok (.keyValue setting value)
      | none => .error (.takesNoValue key)
    | none, none =>
      if isOption argument.toList then .error (.unknownOption argument) else .ok (.word argument)

/-! ## 3. Groups -/

inductive Group where
  | flags (flags : List Flag)
  | setting (setting : Setting) (value : String)
  | word (text : String)
  deriving DecidableEq, Repr

def groups : List String → Except LexicalError (List Group)
  | [] => .ok []
  | argument :: rest =>
    match shape argument with
    | .error error => .error error
    | .ok (.flags flags) => (groups rest).map (.flags flags :: ·)
    | .ok (.keyValue setting value) => (groups rest).map (.setting setting value :: ·)
    | .ok (.word text) => (groups rest).map (.word text :: ·)
    | .ok (.key setting) =>
      match rest with
      | [] => .error (.missingValue setting)
      | value :: rest => (groups rest).map (.setting setting value :: ·)

/-! ## 4. What groups say -/

def flagsOf (gs : List Group) : List Flag :=
  gs.flatMap fun
    | .flags flags => flags
    | _ => []

def wordsOf (gs : List Group) : List String :=
  gs.filterMap fun
    | .word text => some text
    | _ => none

def valuesOf (gs : List Group) (setting : Setting) : List String :=
  gs.filterMap fun
    | .setting s value => if s = setting then some value else none
    | _ => none

/-- The value of a setting: the last one given. -/
def value? (gs : List Group) (setting : Setting) : Option String :=
  (valuesOf gs setting).getLast?

end MemoryKit.CommandLine
