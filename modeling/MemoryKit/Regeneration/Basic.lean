import MemoryKit.NameTable.Render
import MemoryKit.Source.Lexeme
import MemoryKit.Source.Region
import MemoryKit.Source.Table

/-!
# Regeneration of a source text

The names are read from the table of the source, packed, and written between the two marker lines.
Everything outside the region stays as it was.
-/

namespace MemoryKit

/-! ## 1. Errors -/

inductive SourceError where
  /-- No table has this identifier. -/
  | tableNotFound (identifier : String)
  /-- The table holds no names. -/
  | emptyTable
  /-- There is no region to write to. -/
  | region (cause : Source.RegionError)
  deriving DecidableEq, Repr

def SourceError.message (path : String) : SourceError → String
  | .tableNotFound identifier => s!"Cannot match instruction data '{identifier}[]' in {path}"
  | .emptyTable => s!"Instruction table in {path} has no names"
  | .region (.markerNotFound marker) => s!"Marker '{marker}' not found in {path}"
  | .region .markersOutOfOrder => s!"End marker precedes begin marker in {path}"

/-! ## 2. Regeneration -/

/-- A regenerated source and the table that its generated text was built from. -/
structure Regenerated where
  output : Bytes
  table : NameTable
  deriving DecidableEq, Repr

/-- Replaces the generated region of a source. The table is looked for before the markers. -/
def regenerate (settings : Settings) (source : Bytes) : Except SourceError Regenerated :=
  match Source.table? (utf8 settings.table) source with
  | none => .error (.tableNotFound settings.table)
  | some found =>
    let table := NameTable.ofList (Source.names found.body)
    if table.isEmpty then .error .emptyTable
    else
      match Source.findRegion settings.beginMarker settings.endMarker source with
      | .error cause => .error (.region cause)
      | .ok region =>
        let generated := utf8 (table.render settings region.newline.text)
        .ok ⟨Source.splice source region generated, table⟩

/-- Regeneration succeeds where there are a table with names and a region, and puts the text of the
table into the region. -/
theorem regenerate_eq_ok_iff {settings : Settings} {source : Bytes} {r : Regenerated} :
    regenerate settings source = .ok r ↔ ∃ found region,
      Source.table? (utf8 settings.table) source = some found ∧
      Source.findRegion settings.beginMarker settings.endMarker source = .ok region ∧
      r.table = NameTable.ofList (Source.names found.body) ∧ r.table.isEmpty = false ∧
      r.output = Source.splice source region
        (utf8 (r.table.render settings region.newline.text)) := by
  unfold regenerate
  constructor
  · intro h
    split at h
    · cases h
    rename_i found hfound
    simp only at h
    split at h
    · cases h
    rename_i hempty
    split at h
    · cases h
    rename_i region hregion
    cases h
    exact ⟨found, region, hfound, hregion, rfl, by simpa using hempty, rfl⟩
  · rintro ⟨found, region, hfound, hregion, htable, hempty, houtput⟩
    cases r
    simp only at htable hempty houtput
    subst htable houtput
    simp only [hfound, hregion, hempty, Bool.false_eq_true, if_false]

def nameCounts? (settings : Settings) (source : Bytes) : Option (Nat × Nat) :=
  (Source.table? (utf8 settings.table) source).map fun found =>
    let names := Source.names found.body
    (names.length, (NameTable.ofList names).size)

def Regenerated.isStable (settings : Settings) (r : Regenerated) : Bool :=
  match regenerate settings r.output with
  | .ok again => again.output == r.output
  | .error _ => false

/-! ## 3. Reports -/

inductive Outcome where
  /-- New content was written. -/
  | updated
  /-- The region was up to date, and nothing was written. -/
  | unchanged
  deriving DecidableEq, Repr

structure FileReport where
  path : String
  outcome : Outcome
  /-- The number of different names. -/
  names : Nat
  packedLength : Nat
  deriving DecidableEq, Repr

def Regenerated.report (r : Regenerated) (path : String) (source : Bytes) : FileReport :=
  { path
    outcome := if r.output = source then .unchanged else .updated
    names := r.table.size
    packedLength := r.table.packedLength }

end MemoryKit
