import MemoryKit.Number.Digits
import MemoryKit.Regeneration.Basic
import MemoryKit.Value.DataType

/-!
# Result lines

What commands print, as the chunks in which it is written. A colour is set and reset around the
part that it marks; columns are padded with spaces by the number of characters.
-/

namespace MemoryKit.Report

/-! ## 1. Colours -/

inductive Colour where
  | red
  | green
  | cyan
  | white
  deriving DecidableEq, Repr

/-- The texts that set the colour of what follows, and reset it. -/
structure Palette where
  start : Colour → String
  reset : String

def Colour.index : Colour → Nat
  | .red => 9
  | .green => 10
  | .cyan => 14
  | .white => 15

def Palette.indexed : Palette where
  start colour := "\x1b[38;5;" ++ Number.decimalText colour.index ++ "m"
  reset := "\x1b[0m"

/-! ## 2. Columns -/

def padRight (width : Nat) (text : String) : String :=
  String.ofList (text.toList.rightpad width ' ')

def padLeft (width : Nat) (text : String) : String :=
  String.ofList (text.toList.leftpad width ' ')

/-! ## 3. Lines -/

variable (palette : Palette)

def statusLine (ok : Bool) (message : String) : List String :=
  let (colour, label) := if ok then (Colour.green, "[ OK ]") else (Colour.red, "[FAIL]")
  [palette.start colour, label, palette.reset, " " ++ message ++ "\n"]

def fieldLine (label value : String) : List String :=
  [palette.start .cyan, "  " ++ padRight 8 label, palette.reset, " " ++ value ++ "\n"]

def errorLine (message : String) : List String :=
  [palette.start .red, "error:", palette.reset, " " ++ message ++ "\n"]

def typesRow (tag name cName size : String) : String :=
  padLeft 3 tag ++ "  " ++ padRight 8 name ++ " " ++ padRight 20 cName ++ " " ++ padLeft 4 size ++
    "\n"

def typesTable : List String :=
  [palette.start .white, typesRow "TAG" "NAME" "C TYPE" "SIZE", palette.reset] ++
    DataType.all.map fun t =>
      typesRow (Number.decimalText t.tag) t.name t.cName
        (Number.decimalText t.size)

def outcomeWord : Outcome → String
  | .updated => "updated"
  | .unchanged => "unchanged"

def fileLine (report : FileReport) : List String :=
  statusLine palette true <|
    report.path ++ " " ++ outcomeWord report.outcome ++ " (" ++
      Number.decimalText report.names ++ " names, " ++
      Number.decimalText report.packedLength ++ " bytes)"

end MemoryKit.Report
