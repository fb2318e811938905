import Mathlib.Data.List.DropRight
import MemoryKit.Proofs.LineEnds

/-!
# What a splice keeps

A region that is filled with whole lines can be filled again with what it held before, so nothing is
lost outside the region. Inside it stands more than whole lines where the end marker does not begin
its line: what stands before the marker in that line belongs to the region and goes with it.
-/

namespace MemoryKit.Source

open Bytes

variable {source u v lead : Bytes} {p : Nat}

/-! ## 1. The old bytes of a region -/

section Region

variable {beginMarker endMarker : String} {region : Region}
  (hregion : findRegion beginMarker endMarker source = .ok region)

include hregion

/-- A region replaced by its own bytes leaves the source as it was. -/
theorem splice_bytes : splice source region (region.bytes source) = source := by
  rw [splice, List.append_assoc]
  exact Region.append_eq hregion

/-- A region that is filled with whole lines without the end marker is found again, holds those
lines, and can be given its old bytes back. -/
theorem splice_reversible (hbegin : '\n' ∉ beginMarker.toList) (hend : '\n' ∉ endMarker.toList)
    {generated : Bytes} (hlines : generated = [] ∨ generated.getLast? = some 0x0A)
    (hno : ¬utf8 endMarker <:+: generated) :
    ∃ found : Region,
      findRegion beginMarker endMarker (splice source region generated) = .ok found ∧
      found.start = region.start ∧ found.newline = region.newline ∧
      found.stop = region.start + generated.length ∧
      found.bytes (splice source region generated) = generated ∧
      splice (splice source region generated) found (region.bytes source) = source := by
  have hbeginBytes : 0x0A ∉ utf8 beginMarker :=
    fun hb => hbegin ((ascii_mem_utf8_iff (by decide)).1 hb)
  have hendBytes : 0x0A ∉ utf8 endMarker :=
    fun hb => hend ((ascii_mem_utf8_iff (by decide)).1 hb)
  refine ⟨{ region with stop := region.start + generated.length },
    findRegion_splice hregion hbeginBytes hendBytes hlines hno, rfl, rfl, rfl,
    Region.bytes_splice hregion generated, ?_⟩
  rw [splice_splice hregion, splice_bytes hregion]

end Region

/-- Both markers end in a carriage return, and another one belongs to the line end behind them. -/
def returnSource : Bytes :=
  utf8 "b\r\r\nold\ne\r\r\ne\r\n"

theorem splice_reversible_return :
    findRegion "b\r" "e\r" returnSource = .ok ⟨4, 8, .crlf⟩ ∧
    ∃ found : Region,
      findRegion "b\r" "e\r" (splice returnSource ⟨4, 8, .crlf⟩ (utf8 "be\n")) = .ok found ∧
      found.start = 4 ∧ found.newline = .crlf ∧ found.stop = 7 ∧
      found.bytes (splice returnSource ⟨4, 8, .crlf⟩ (utf8 "be\n")) = utf8 "be\n" ∧
      splice (splice returnSource ⟨4, 8, .crlf⟩ (utf8 "be\n")) found (utf8 "old\n") =
        returnSource := by
  have hregion : findRegion "b\r" "e\r" returnSource = .ok ⟨4, 8, .crlf⟩ := by decide +kernel
  exact ⟨hregion, splice_reversible hregion (by decide) (by decide) (Or.inr (by decide))
    (by decide)⟩

/-! ## 2. The line of the end marker -/

/-- What stands before an offset in its line. -/
def lineLead (s : Bytes) (p : Nat) : Bytes :=
  (s.take p).rtakeWhile (· != 0x0A)

theorem lineFeed_not_mem_lineLead (s : Bytes) (p : Nat) : 0x0A ∉ lineLead s p := by
  intro hmem
  have hb := List.mem_rtakeWhile_imp hmem
  revert hb
  decide

/-- Nothing stands before a position on its line when a line feed does. -/
theorem lineLead_eq_nil_iff (hpos : 0 < p) (hp : p ≤ source.length) :
    lineLead source p = [] ↔ source[p - 1]? = some 0x0A := by
  have hne : source.take p ≠ [] := by
    rw [← List.length_pos_iff, List.length_take]
    omega
  unfold lineLead
  rw [List.rtakeWhile_eq_nil_iff, ← getLast?_take_eq_getElem? hpos hp,
    List.getLast?_eq_getLast_of_ne_nil hne]
  simp [hne]

/-- A text without line feeds at the end of another one lies behind the last of its lines. -/
theorem suffix_of_suffix_append (h : lead <:+ u ++ v) (hno : 0x0A ∉ lead)
    (hu : u.getLast? = some 0x0A) : lead <:+ v := by
  obtain ⟨t, ht⟩ := h
  rcases List.append_eq_append_iff.1 ht with ⟨w, hw, hlead⟩ | ⟨w, -, hv⟩
  · rcases List.eq_nil_or_concat w with rfl | ⟨w', b, rfl⟩
    · exact ⟨[], by rw [List.nil_append, hlead, List.nil_append]⟩
    · rw [hw, List.concat_eq_append, ← List.append_assoc, List.getLast?_concat] at hu
      obtain rfl := Option.some.inj hu
      exact absurd (by rw [hlead]; simp) hno
  · exact ⟨w, hv.symm⟩

section Region

variable {beginMarker endMarker : String} {region : Region}
  (hregion : findRegion beginMarker endMarker source = .ok region)

include hregion

/-- A region begins behind a line feed, so the line of the end marker begins in it. -/
theorem lineLead_suffix_bytes : lineLead source region.stop <:+ region.bytes source := by
  have hsplit : source.take region.stop = source.take region.start ++ region.bytes source := by
    rw [Region.bytes, ← List.take_add, Nat.add_sub_cancel' (Region.start_le_stop hregion)]
  apply suffix_of_suffix_append _ (lineFeed_not_mem_lineLead _ _)
    (Region.getLast?_take_start hregion)
  rw [← hsplit]
  exact List.rtakeWhile_suffix _ _

/-- The region ends at the start of a line exactly where nothing stands before the end marker in its
line. What stands there lies in the region, and the line of the end marker outlives a splice of
whole lines only where that is nothing. -/
theorem lineLead_survives_iff :
    utf8 endMarker <+: source.drop region.stop ∧
    lineLead source region.stop <:+ region.bytes source ∧
    (source[region.stop - 1]? = some 0x0A ↔ lineLead source region.stop = []) ∧
    ∀ generated : Bytes, generated = [] ∨ generated.getLast? = some 0x0A →
      (lineLead source region.stop ++ source.drop region.stop <:+
        splice source region generated ↔ lineLead source region.stop = []) := by
  have hstart := Region.getLast?_take_start hregion
  have hle := Region.start_le_stop hregion
  have hpos : 0 < region.start := by
    by_cases hzero : region.start = 0
    · rw [hzero, List.take_zero] at hstart
      cases hstart
    · omega
  have hmarker : utf8 endMarker <+: source.drop region.stop := by
    obtain ⟨newline, tail, hdrop⟩ := Region.exists_drop_stop_eq hregion
    exact ⟨newline.bytes ++ tail, by rw [hdrop, List.append_assoc]⟩
  refine ⟨hmarker, lineLead_suffix_bytes hregion,
    (lineLead_eq_nil_iff (by omega) (Region.stop_le_length hregion)).symm, ?_⟩
  intro generated hlines
  -- up to the end marker the output is made of whole lines
  have hwhole : (source.take region.start ++ generated).getLast? = some 0x0A := by
    rcases hlines with rfl | hlast
    · rwa [List.append_nil]
    · rw [List.getLast?_append, hlast, Option.some_or]
  constructor
  · rintro ⟨t, ht⟩
    rw [splice, ← List.append_assoc] at ht
    have hlead : lineLead source region.stop <:+ source.take region.start ++ generated :=
      ⟨t, List.append_cancel_right ht⟩
    rw [← List.append_nil (source.take region.start ++ generated)] at hlead
    exact List.suffix_nil.1
      (suffix_of_suffix_append hlead (lineFeed_not_mem_lineLead _ _) hwhole)
  · intro hnil
    rw [hnil, List.nil_append]
    exact ⟨source.take region.start ++ generated, rfl⟩

end Region

def indentedSource : Bytes :=
  utf8 "instructionDescription[] = \x7b \"MOV\" \x7d;\n" ++
    utf8 "// $\x7bINSTRUCTION_DATA_BEGIN\x7d\n" ++ utf8 "  // $\x7bINSTRUCTION_DATA_END\x7d\n"

theorem findRegion_indentedSource :
    findRegion (Settings.beginMarker {}) (Settings.endMarker {}) indentedSource =
      .ok ⟨67, 69, .lf⟩ := by
  decide +kernel

theorem lineLead_survives_iff_indented :
    findRegion (Settings.beginMarker {}) (Settings.endMarker {}) indentedSource =
      .ok ⟨67, 69, .lf⟩ ∧
    lineLead indentedSource 69 = utf8 "  " ∧
    ¬lineLead indentedSource 69 ++ indentedSource.drop 69 <:+
      splice indentedSource ⟨67, 69, .lf⟩ [] := by
  have hlead : lineLead indentedSource 69 = utf8 "  " := by decide +kernel
  obtain ⟨-, -, -, hsurvives⟩ := lineLead_survives_iff findRegion_indentedSource
  refine ⟨findRegion_indentedSource, hlead, ?_⟩
  rw [hsurvives [] (Or.inl rfl), hlead]
  decide

theorem not_forall_lineFeed_before_stop : ¬∀ (settings : Settings) (source : Bytes)
    (region : Region), IsUnbroken settings.beginMarker → IsUnbroken settings.endMarker →
      findRegion settings.beginMarker settings.endMarker source = .ok region →
      source[region.stop - 1]? = some 0x0A := by
  intro hall
  have hbyte := hall {} indentedSource _ (by decide) (by decide) findRegion_indentedSource
  revert hbyte
  decide +kernel

end MemoryKit.Source
