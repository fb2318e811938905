import MemoryKit.NameTable.Basic
import MemoryKit.Number.Digits
import MemoryKit.Settings

/-!
# The generated text of a name table

A string constant with one literal for each name, an empty line, and one definition for each offset
symbol. Every line ends in the line end that the surrounding file uses.
-/

namespace MemoryKit.NameTable

/-- The literal of a name, with the NUL that ends it written as an escape. -/
def literalLine (name : String) : String :=
  "  \"" ++ name ++ "\\0\""

def symbolLine (settings : Settings) (entry : String × Nat) : String :=
  "#define " ++ settings.symbolFor entry.1 ++ " " ++ Number.decimalText entry.2

/-- The generated lines without their line ends. -/
def lines (table : NameTable) (settings : Settings) : List String :=
  ["const char " ++ settings.blob ++ "[] ="] ++ table.names.map literalLine ++ ["  ;", ""] ++
    table.entries.map (symbolLine settings)

def render (table : NameTable) (settings : Settings) (newline : String) : String :=
  String.join ((table.lines settings).map (· ++ newline))

end MemoryKit.NameTable
