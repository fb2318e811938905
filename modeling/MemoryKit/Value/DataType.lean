import MemoryKit.Number.Binary
import MemoryKit.Text.Blank

/-!
# Data types

The fifteen types a value in another process's memory may have. Each has a tag, the position in
one fixed order, a canonical name, and other spellings a user may type.

The widths are those of the LP64 data model, with an `int` of 32 bits and with `long`, `size_t` and
pointers of 64 bits. On a platform where `long` has 32 bits, `long` and `unsigned long` are read and
written in 4 bytes, and what is said here about those two types does not hold.
-/

namespace MemoryKit

/-! ## 1. The three kinds of type -/

inductive IntegerType where
  | int16
  | int32
  | int64
  | long
  | ulong
  | llong
  | ullong
  | sizeT
  | char
  | byte
  | wchar
  | voidp
  deriving DecidableEq, Repr

inductive FloatType where
  | float
  | double
  deriving DecidableEq, Repr

inductive DataType where
  | bool
  | integer (type : IntegerType)
  | floating (type : FloatType)
  deriving DecidableEq, Repr

/-- The number of bits in the LP64 data model. -/
@[reducible] def IntegerType.width : IntegerType → Nat
  | .char | .byte => 8
  | .int16 | .wchar => 16
  | .int32 => 32
  | .int64 | .long | .ulong | .llong | .ullong | .sizeT | .voidp => 64

def IntegerType.isSigned : IntegerType → Bool
  | .int16 | .int32 | .int64 | .long | .llong | .byte => true
  | .ulong | .ullong | .sizeT | .char | .wchar | .voidp => false

@[reducible] def FloatType.format : FloatType → Number.BinaryFormat
  | .float => .single
  | .double => .double

namespace DataType

def all : List DataType :=
  [.bool, .integer .int16, .integer .int32, .integer .int64, .floating .float, .floating .double,
   .integer .long, .integer .ulong, .integer .llong, .integer .ullong, .integer .sizeT,
   .integer .char, .integer .byte, .integer .wchar, .integer .voidp]

/-- The number that names a type in place of a word. -/
def tag (t : DataType) : Nat :=
  all.idxOf t

def ofTag? (tag : Nat) : Option DataType :=
  all[tag]?

def size : DataType → Nat
  | .bool => 1
  | .integer t => t.width / 8
  | .floating t => t.format.width / 8

/-! ## 2. Names -/

def cName : DataType → String
  | .bool => "bool"
  | .integer .int16 => "int16_t"
  | .integer .int32 => "int32_t"
  | .integer .int64 => "int64_t"
  | .floating .float => "float"
  | .floating .double => "double"
  | .integer .long => "long"
  | .integer .ulong => "unsigned long"
  | .integer .llong => "long long"
  | .integer .ullong => "unsigned long long"
  | .integer .sizeT => "size_t"
  | .integer .char => "char"
  | .integer .byte => "signed char"
  | .integer .wchar => "wchar_t"
  | .integer .voidp => "void *"

def name : DataType → String
  | .bool => "bool"
  | .integer .int16 => "int16"
  | .integer .int32 => "int32"
  | .integer .int64 => "int64"
  | .floating .float => "float"
  | .floating .double => "double"
  | .integer .long => "long"
  | .integer .ulong => "ulong"
  | .integer .llong => "llong"
  | .integer .ullong => "ullong"
  | .integer .sizeT => "size_t"
  | .integer .char => "char"
  | .integer .byte => "byte"
  | .integer .wchar => "wchar"
  | .integer .voidp => "voidp"

def aliases : DataType → List String
  | .bool => ["boolean"]
  | .integer .int16 => ["i16", "short"]
  | .integer .int32 => ["i32", "int"]
  | .integer .int64 => ["i64"]
  | .floating .float => ["f32"]
  | .floating .double => ["f64"]
  | .integer .long => []
  | .integer .ulong => []
  | .integer .llong => ["longlong"]
  | .integer .ullong => ["ulonglong", "u64"]
  | .integer .sizeT => ["sizet", "usize"]
  | .integer .char => ["u8"]
  | .integer .byte => ["i8"]
  | .integer .wchar => ["u16"]
  | .integer .voidp => ["ptr", "pointer"]

def spellings (t : DataType) : List String :=
  t.name :: t.aliases

/-- The tag that a text writes: decimal digits, with a plus sign in front allowed. -/
def readTag? : List Char → Option Nat
  | '+' :: digits => Number.readNat? 10 digits
  | digits => Number.readNat? 10 digits

/-- The type that a user's text names, by tag or by word, in any case and with blanks around it. -/
def ofName? (text : String) : Option DataType :=
  let word := (Text.trim text.toList).map Char.toLower
  match readTag? word with
  | some tag => ofTag? tag
  | none => all.find? fun t => t.spellings.contains (String.ofList word)

end DataType

end MemoryKit
