import MemoryKit.Text.Uppercase

/-!
# Settings of the table generator

Which table is read, what the generated text calls its parts, and the marker lines around it.
-/

namespace MemoryKit

structure Settings where
  /-- The identifier of the table that names are read from. -/
  table : String := "instructionDescription"
  /-- The name of the generated string constant. -/
  blob : String := "instructionName"
  /-- What every offset symbol begins with. -/
  symbolPrefix : String := "INST_"
  /-- What every offset symbol ends in. -/
  symbolSuffix : String := "_INDEX"
  /-- The comment that ends the line before the generated text. -/
  beginMarker : String := "// $\x7bINSTRUCTION_DATA_BEGIN\x7d"
  /-- The comment that begins after the generated text. -/
  endMarker : String := "// $\x7bINSTRUCTION_DATA_END\x7d"
  deriving DecidableEq, Repr

/-- The offset symbol of a name: its upper-case form with underscores for spaces, between the two
affixes. -/
def Settings.symbolFor (settings : Settings) (name : String) : String :=
  let body := (Text.uppercase name.toList).map fun c => if c = ' ' then '_' else c
  settings.symbolPrefix ++ String.ofList body ++ settings.symbolSuffix

end MemoryKit
