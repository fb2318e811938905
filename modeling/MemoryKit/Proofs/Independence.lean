import MemoryKit.Proofs.Stability

/-!
# Independence of the replaced text

What a region holds has no influence on the regenerated source. The search for the table runs
through the region, but a table outside it is read from the text before the region or, where no
table stands there, from the text behind it. The line end is that of the begin marker's line, which
stands before the region too.
-/

namespace MemoryKit

open Bytes Source

/-! ## 1. What is read from around a region -/

/-- The table's identifier is made of letters, digits and underscores, and the markers are
comments. -/
structure Settings.HasCommentMarkers (settings : Settings) : Prop where
  table : IsIdentifierText settings.table
  beginMarker : IsCommentText settings.beginMarker
  endMarker : IsCommentText settings.endMarker

/-- The markers of plain settings are comments. -/
theorem Settings.IsPlain.hasCommentMarkers {settings : Settings} (hs : settings.IsPlain) :
    settings.HasCommentMarkers where
  table := hs.table
  beginMarker := hs.beginMarker.isCommentText
  endMarker := hs.endMarker.isCommentText

variable {settings : Settings} {source before rest rest' : Bytes} {region region' : Region}
  {found : Table}

/-- The table comes from one of the two sides, and the text before the region goes first. -/
theorem body?_eq_or (hs : settings.HasCommentMarkers)
    (hregion : findRegion settings.beginMarker settings.endMarker source = .ok region)
    (hfound : table? (utf8 settings.table) source = some found) (hout : found.IsOutside region) :
    settings.body? source = (settings.body? (source.take region.start)).or
      (settings.body? (source.drop region.stop)) := by
  have hsource := Region.append_eq hregion
  have hlen := Region.length_take_start hregion
  unfold Settings.body?
  rcases hout with hstop | hstart
  · have hleft : table? (utf8 settings.table) (source.take region.start) = some found := by
      apply table?_of_append
      · rw [hsource]
        exact hfound
      · rwa [hlen]
    rw [hfound, hleft]
    rfl
  · have hnone : table? (utf8 settings.table) (source.take region.start) = none := by
      cases hleft : table? (utf8 settings.table) (source.take region.start) with
      | none => rfl
      | some early =>
        -- its header is one of the source too, and before the first
        obtain ⟨-, -, after, hearly, -⟩ := table?_eq_some_iff.1 hleft
        obtain ⟨-, -, after', hfirst, -⟩ := table?_eq_some_iff.1 hfound
        have hheader := headerAt?_append hearly.found
          (region.bytes source ++ source.drop region.stop)
        rw [hsource] at hheader
        have hle := hfirst.le (by rw [hheader]; exact Option.some_ne_none _)
        have hlt := length_le_of_headerAt? hearly.found
        have horder := Region.start_le_stop hregion
        rw [hlen, List.length_append, List.length_cons] at hlt
        omega
    rw [hnone, Option.map_none, Option.none_or,
      table?_eq_of_stop_le hregion hs.table hs.endMarker hfound hstart, Option.map_map]
    rfl

/-- Two regions behind the same text have the line end that this text ends in. -/
theorem newline_eq_of_start_eq (hs : settings.HasCommentMarkers)
    (hregion : findRegion settings.beginMarker settings.endMarker (before ++ rest) = .ok region)
    (hregion' : findRegion settings.beginMarker settings.endMarker (before ++ rest') = .ok region')
    (hstart : region.start = before.length) (hstart' : region'.start = before.length) :
    region.newline = region'.newline := by
  obtain ⟨first, _, ⟨hne, hfirst⟩, -, hsum, -⟩ := findRegion_eq_ok_iff.1 hregion
  obtain ⟨first', _, ⟨-, hfirst'⟩, -, hsum', -⟩ := findRegion_eq_ok_iff.1 hregion'
  have hpos := List.length_pos_iff.2 hne
  have hlast := Region.getLast?_take_start hregion
  rw [hstart, List.take_left] at hlast
  have hleft (v : Bytes) (q : Nat) (hq : q < before.length) :=
    markerAt?_append_left (v := v) (lineFeed_not_mem_of_isCommentText hs.beginMarker) hlast hq
  -- both begin markers are the first of the common text
  have hbefore := hfirst.congr fun q hq => hleft rest q (by omega)
  have hbefore' := hfirst'.congr fun q hq => hleft rest' q (by omega)
  exact (hbefore.unique hbefore').2

/-- Where the region is found, the result depends on the body of the table and the text around the
region. -/
theorem regenerate_eq_of_findRegion
    (hregion : findRegion settings.beginMarker settings.endMarker source = .ok region) :
    regenerate settings source =
      match settings.body? source with
      | none => .error (.tableNotFound settings.table)
      | some body =>
        let table := NameTable.ofList (names body)
        if table.isEmpty then .error .emptyTable
        else
          .ok ⟨splice source region (utf8 (table.render settings region.newline.text)), table⟩ := by
  unfold regenerate Settings.body?
  rw [hregion]
  cases table? (utf8 settings.table) source <;> rfl

/-! ## 2. Two sources that differ in the region -/

/-- Two sources that differ only in their regions, with the tables outside, regenerate alike: the
same output and the same table. -/
theorem regenerate_eq_of_isOutside (hs : settings.HasCommentMarkers)
    {inside inside' behind : Bytes} {newline newline' : Newline} {found found' : Table}
    (hregion : findRegion settings.beginMarker settings.endMarker (before ++ inside ++ behind) =
      .ok ⟨before.length, before.length + inside.length, newline⟩)
    (hregion' : findRegion settings.beginMarker settings.endMarker (before ++ inside' ++ behind) =
      .ok ⟨before.length, before.length + inside'.length, newline'⟩)
    (hfound : table? (utf8 settings.table) (before ++ inside ++ behind) = some found)
    (hfound' : table? (utf8 settings.table) (before ++ inside' ++ behind) = some found')
    (hout : found.IsOutside ⟨before.length, before.length + inside.length, newline⟩)
    (hout' : found'.IsOutside ⟨before.length, before.length + inside'.length, newline'⟩) :
    regenerate settings (before ++ inside ++ behind) =
      regenerate settings (before ++ inside' ++ behind) := by
  have hbefore (text : Bytes) : (before ++ text ++ behind).take before.length = before := by
    rw [List.append_assoc, List.take_left]
  have hbehind (text : Bytes) :
      (before ++ text ++ behind).drop (before.length + text.length) = behind := by
    rw [← List.length_append, List.drop_left]
  have hbody : settings.body? (before ++ inside ++ behind) =
      settings.body? (before ++ inside' ++ behind) := by
    rw [body?_eq_or hs hregion hfound hout, body?_eq_or hs hregion' hfound' hout']
    simp only [hbefore, hbehind]
  -- the line end belongs to the begin marker, which is the same line
  have hnewline : newline = newline' := by
    rw [List.append_assoc] at hregion hregion'
    exact newline_eq_of_start_eq hs hregion hregion' rfl rfl
  rw [regenerate_eq_of_findRegion hregion, regenerate_eq_of_findRegion hregion', hbody, hnewline]
  unfold splice
  simp only [hbefore, hbehind]

def beginLine : Bytes :=
  utf8 "// $\x7bINSTRUCTION_DATA_BEGIN\x7d\n"

def tableBehind : Bytes :=
  utf8 "// $\x7bINSTRUCTION_DATA_END\x7d\n" ++
    utf8 "instructionDescription[] = \x7b \"mov\" \x7d;\n"

def partHeader : Bytes :=
  utf8 "instructionDescription[] =\n"

theorem regenerate_eq_of_isOutside_partHeader : Settings.HasCommentMarkers {} ∧
    (regenerate {} (beginLine ++ [] ++ tableBehind)).isOk ∧
    regenerate {} (beginLine ++ [] ++ tableBehind) =
      regenerate {} (beginLine ++ partHeader ++ tableBehind) := by
  have hregion : findRegion (Settings.beginMarker {}) (Settings.endMarker {})
      (beginLine ++ [] ++ tableBehind) = .ok ⟨29, 29, .lf⟩ := by decide +kernel
  have hregion' : findRegion (Settings.beginMarker {}) (Settings.endMarker {})
      (beginLine ++ partHeader ++ tableBehind) = .ok ⟨29, 56, .lf⟩ := by decide +kernel
  have hfound : table? (utf8 (Settings.table {})) (beginLine ++ [] ++ tableBehind) =
      some ⟨56, 91, utf8 " \"mov\" "⟩ := by decide +kernel
  have hfound' : table? (utf8 (Settings.table {})) (beginLine ++ partHeader ++ tableBehind) =
      some ⟨83, 118, utf8 " \"mov\" "⟩ := by decide +kernel
  have hs := Settings.isPlain_default.hasCommentMarkers
  exact ⟨hs, by decide +kernel, regenerate_eq_of_isOutside hs hregion hregion' hfound hfound'
    (Or.inr (by decide)) (Or.inr (by decide))⟩

end MemoryKit
