import MemoryKit.Proofs.FileSteps
import MemoryKit.Proofs.GeneratedText
import MemoryKit.Proofs.Header

/-!
# Regenerating twice

The generated text holds no slash and no brace, so no header and no end marker begins in it or runs
into it. A table outside the region is therefore found again, and so is the region, with the new
length: a second regeneration changes nothing. A table inside the region is overwritten, and what is
found afterwards is the first table behind the region.
-/

namespace MemoryKit

open Bytes Source

/-! ## 1. Plain settings -/

/-- A marker that is a line comment without line ends. -/
def IsMarkerText (text : String) : Prop :=
  ['/', '/'] <+: text.toList ∧ '\n' ∉ text.toList ∧ '\r' ∉ text.toList

instance (text : String) : Decidable (IsMarkerText text) :=
  inferInstanceAs (Decidable (_ ∧ _))

/-- All names are made of letters, digits and underscores, and the markers are comments. -/
structure Settings.IsPlain (settings : Settings) : Prop extends settings.HasPlainNames where
  table : IsIdentifierText settings.table
  beginMarker : IsMarkerText settings.beginMarker
  endMarker : IsMarkerText settings.endMarker

theorem Settings.isPlain_default : Settings.IsPlain {} where
  blob := by decide
  symbolPrefix := by decide
  symbolSuffix := by decide
  table := by decide
  beginMarker := by decide
  endMarker := by decide

/-- A line comment that does not run into the next line. -/
def IsCommentText (text : String) : Prop :=
  ['/', '/'] <+: text.toList ∧ '\n' ∉ text.toList

instance (text : String) : Decidable (IsCommentText text) :=
  inferInstanceAs (Decidable (_ ∧ _))

theorem IsMarkerText.isCommentText {text : String} (h : IsMarkerText text) : IsCommentText text :=
  ⟨h.1, h.2.1⟩

theorem lineFeed_not_mem_of_isCommentText {text : String} (h : IsCommentText text) :
    0x0A ∉ utf8 text := by
  intro hb
  exact h.2 ((ascii_mem_utf8_iff (by decide)).1 hb)

theorem exists_utf8_eq_of_isCommentText {text : String} (h : IsCommentText text) :
    ∃ rest, utf8 text = ascii '/' :: rest := by
  obtain ⟨chars, hchars⟩ := h.1
  unfold utf8
  rw [← hchars]
  exact ⟨_, rfl⟩

/-! ## 2. Text that no search stops in -/

/-- Whole lines without slashes and braces that begin with a letter, digit or underscore. -/
structure IsInert (text : Bytes) : Prop where
  head : ∃ b, text.head? = some b ∧ isIdentifierByte b
  last : text.getLast? = some 0x0A
  slash : ascii '/' ∉ text
  brace : ascii '\x7b' ∉ text

/-- The generated text has nothing that could be taken for a header or a marker. -/
theorem isInert_utf8_render {settings : Settings} (hs : settings.HasPlainNames) {table : NameTable}
    (hnames : ∀ name ∈ table.names, IsNameText name) (newline : Newline) :
    IsInert (utf8 (table.render settings newline.text)) where
  head := ⟨ascii 'c', NameTable.head?_utf8_render, by decide⟩
  last := NameTable.getLast?_utf8_render
  slash := by
    apply NameTable.ascii_not_mem_utf8_render hs hnames <;> cases newline <;> decide
  brace := by
    apply NameTable.ascii_not_mem_utf8_render hs hnames <;> cases newline <;> decide

theorem IsInert.headerAt?_eq_none {text : Bytes} (h : IsInert text) (identifier : Bytes)
    (p : Nat) : headerAt? identifier text p = none := by
  cases hat : headerAt? identifier text p with
  | none => rfl
  | some rest =>
    obtain ⟨header, ⟨left, right, -, -, hheader⟩, heq⟩ := exists_header_of_headerAt? hat
    exact absurd (List.mem_of_mem_drop (by rw [heq, hheader]; simp)) h.brace

theorem not_isBlankByte_of_isIdentifierByte {b : UInt8} (hb : isIdentifierByte b) :
    ¬(isBlankByte b ∨ b = ascii '=' ∨ b = ascii '\x7b') := by
  rintro (h | rfl | rfl)
  · rw [isIdentifierByte_of_isBlankByte h] at hb
    cases hb
  · revert hb
    decide
  · revert hb
    decide

section Output

variable {settings : Settings} {source generated : Bytes} {region : Region} {found : Table}
  (hs : settings.IsPlain)
  (hregion : findRegion settings.beginMarker settings.endMarker source = .ok region)
  (hgenerated : IsInert generated)

include hregion in
/-- What stands behind the region begins with the slash of the end marker. -/
theorem head?_drop_stop (hend : IsCommentText settings.endMarker) :
    (source.drop region.stop).head? = some (ascii '/') := by
  obtain ⟨newline, tail, htail⟩ := Region.exists_drop_stop_eq hregion
  obtain ⟨rest, hrest⟩ := exists_utf8_eq_of_isCommentText hend
  rw [htail, hrest]
  rfl

include hregion in
/-- No header runs from before the region into generated text. -/
theorem seam_take_start (hgenerated : IsInert generated) (v : Bytes) :
    Seam (source.take region.start) (generated ++ v) where
  blank := ⟨0x0A, Region.getLast?_take_start hregion, by decide⟩
  noBlank := by
    obtain ⟨b, hb, hidentifier⟩ := hgenerated.head
    exact ⟨b, by rw [List.head?_append, hb, Option.some_or],
      not_isBlankByte_of_isIdentifierByte hidentifier⟩

include hs hregion hgenerated in
/-- No header runs from generated text into what stands behind the region. -/
theorem seam_drop_stop : Seam generated (source.drop region.stop) where
  blank := ⟨0x0A, hgenerated.last, by decide⟩
  noBlank := ⟨ascii '/', head?_drop_stop hregion hs.endMarker.isCommentText, by decide⟩

/-! ## 3. The table after regeneration -/

include hs hregion hgenerated in
/-- A table before the region stays where it is. -/
theorem table?_splice_of_stop_lt (hfound : table? (utf8 settings.table) source = some found)
    (hstop : found.stop < region.start) :
    table? (utf8 settings.table) (splice source region generated) = some found := by
  have hlen := Region.length_take_start hregion
  have hleft : table? (utf8 settings.table) (source.take region.start) = some found := by
    apply table?_of_append
    · rw [Region.append_eq hregion]
      exact hfound
    · rwa [hlen]
  rw [splice, List.append_assoc]
  exact (seam_take_start hregion hgenerated _).table?_append
    (fun b hb => isIdentifierByte_of_mem hs.table hb) hleft

include hs hregion hgenerated in
/-- Where no header begins before the region, the first table behind it is found. -/
theorem table?_splice_of_start_le (hfound : table? (utf8 settings.table) source = some found)
    (hstart : region.start ≤ found.start) :
    table? (utf8 settings.table) (splice source region generated) =
      (table? (utf8 settings.table) (source.drop region.stop)).map
        (Table.shift (region.start + generated.length)) := by
  have hid (b : UInt8) (hb : b ∈ utf8 settings.table) := isIdentifierByte_of_mem hs.table hb
  have hlen := Region.length_take_start hregion
  obtain ⟨-, -, rest, hfirst, -⟩ := table?_eq_some_iff.1 hfound
  -- a header before the region would be one of the source, before its first
  have hbefore (q : Nat) (hq : q < (source.take region.start).length) :
      headerAt? (utf8 settings.table) (source.take region.start) q = none := by
    cases hat : headerAt? (utf8 settings.table) (source.take region.start) q with
    | none => rfl
    | some after =>
      have hsource := headerAt?_append hat (region.bytes source ++ source.drop region.stop)
      rw [Region.append_eq hregion, hfirst.before q (by omega)] at hsource
      cases hsource
  have hgen := seam_drop_stop hs hregion hgenerated
  have hhead := seam_take_start hregion hgenerated (source.drop region.stop)
  rw [splice, List.append_assoc, table?_append_right _ hhead.headerAt?_length_eq, hlen,
    table?_append_right _ hgen.headerAt?_length_eq, Option.map_map, Table.shift_comp_shift]
  · intro q hq
    rw [hgen.headerAt?_append hid hq, hgenerated.headerAt?_eq_none, Option.map_none]
  · intro q hq
    rw [hhead.headerAt?_append hid hq, hbefore q hq, Option.map_none]

include hregion in
/-- A table behind the region is the first one of what stands there. -/
theorem table?_eq_of_stop_le (htable : IsIdentifierText settings.table)
    (hend : IsCommentText settings.endMarker)
    (hfound : table? (utf8 settings.table) source = some found)
    (hstop : region.stop ≤ found.start) :
    table? (utf8 settings.table) source =
      (table? (utf8 settings.table) (source.drop region.stop)).map (Table.shift region.stop) := by
  have hlen : (source.take region.stop).length = region.stop :=
    List.length_take_of_le (Region.stop_le_length hregion)
  obtain ⟨hne, -, rest, hfirst, -⟩ := table?_eq_some_iff.1 hfound
  -- the region is followed by a slash, and no header begins with one
  have hslash : afterHeader? (utf8 settings.table) (source.drop region.stop) = none := by
    cases hat : afterHeader? (utf8 settings.table) (source.drop region.stop) with
    | none => rfl
    | some after =>
      obtain ⟨header, hheader, heq⟩ := afterHeader?_eq_some_iff.1 hat
      obtain ⟨b, hb, hidentifier⟩ :=
        hheader.head?_eq (fun b hb => isIdentifierByte_of_mem htable hb) hne
      have hhead := head?_drop_stop hregion hend
      rw [heq, List.head?_append, hb, Option.some_or] at hhead
      obtain rfl := Option.some.inj hhead
      exact absurd hidentifier (by decide)
  have hnone : ∀ q < (source.take region.stop).length, headerAt? (utf8 settings.table)
      (source.take region.stop ++ source.drop region.stop) q = none := by
    intro q hq
    rw [List.take_append_drop]
    exact hfirst.before q (by omega)
  have hhere : headerAt? (utf8 settings.table)
      (source.take region.stop ++ source.drop region.stop) (source.take region.stop).length =
        headerAt? (utf8 settings.table) (source.drop region.stop) 0 := by
    rw [headerAt?_length, headerAt?, List.drop_zero, hslash, ite_self, ite_self]
  have hright := table?_append_right hnone hhere
  rwa [List.take_append_drop, hlen] at hright

/-! ## 4. The region after regeneration -/

include hs hregion hgenerated in
/-- Inert text in the region leaves the markers where they were. -/
theorem findRegion_splice_of_isInert :
    findRegion settings.beginMarker settings.endMarker (splice source region generated) =
      .ok { region with stop := region.start + generated.length } := by
  apply findRegion_splice hregion
    (lineFeed_not_mem_of_isCommentText hs.beginMarker.isCommentText)
    (lineFeed_not_mem_of_isCommentText hs.endMarker.isCommentText) (Or.inr hgenerated.last)
  intro hinfix
  obtain ⟨rest, hrest⟩ := exists_utf8_eq_of_isCommentText hs.endMarker.isCommentText
  apply hgenerated.slash
  apply hinfix.subset
  rw [hrest]
  exact List.mem_cons_self

end Output

/-! ## 5. A second regeneration -/

def Settings.body? (settings : Settings) (source : Bytes) : Option Bytes :=
  (table? (utf8 settings.table) source).map (·.body)

/-- The table ends before the region, or its identifier begins behind it. -/
def Source.Table.IsOutside (found : Table) (region : Region) : Prop :=
  found.stop < region.start ∨ region.stop ≤ found.start

variable {settings : Settings} {source : Bytes} {r : Regenerated} {found : Table} {region : Region}

/-- The body of a table outside the region is the same after regeneration. -/
theorem body?_splice (hs : settings.IsPlain)
    (hfound : table? (utf8 settings.table) source = some found)
    (hregion : findRegion settings.beginMarker settings.endMarker source = .ok region)
    {generated : Bytes} (hgenerated : IsInert generated) (hout : found.IsOutside region) :
    settings.body? (splice source region generated) = some found.body := by
  unfold Settings.body?
  rcases hout with hstop | hstart
  · rw [table?_splice_of_stop_lt hs hregion hgenerated hfound hstop]
    rfl
  · have hle := Region.start_le_stop hregion
    have hsource := table?_eq_of_stop_le hregion hs.table hs.endMarker.isCommentText hfound hstart
    rw [table?_splice_of_start_le hs hregion hgenerated hfound (by omega)]
    -- both times it is the first table behind the region
    cases hbehind : table? (utf8 settings.table) (source.drop region.stop) with
    | none =>
      rw [hfound, hbehind] at hsource
      cases hsource
    | some behind =>
      rw [hfound, hbehind] at hsource
      rw [Option.some.inj hsource]
      rfl

/-- Where the table is outside the region, regeneration is idempotent. A file that holds the output
is reported as unchanged in every state of every file store, and is not touched after it has been
read: what is left to do goes to the log. -/
theorem regenerate_output (hs : settings.IsPlain) (hr : regenerate settings source = .ok r)
    (hfound : table? (utf8 settings.table) source = some found)
    (hregion : findRegion settings.beginMarker settings.endMarker source = .ok region)
    (hout : found.IsOutside region) :
    regenerate settings r.output = .ok r ∧
      ∀ (σ : Type) [FileStore (StateM σ)] [Logger (StateM σ)] (path : String) (s s' : σ),
        (FileStore.read (m := StateM σ) path).run s = (.ok r.output, s') →
          regenerateFile (m := StateM σ) settings path s =
            (do
              logNames settings path r.output
              Logger.record (.regenerated ⟨path, .unchanged, r.table.size, r.table.packedLength⟩)
              return .ok ⟨path, .unchanged, r.table.size, r.table.packedLength⟩ :
                StateM σ _) s' := by
  obtain ⟨found', region', hfound', hregion', htable, hempty, houtput⟩ :=
    regenerate_eq_ok_iff.1 hr
  obtain rfl := Option.some.inj (hfound.symm.trans hfound')
  obtain rfl := Except.ok.inj (hregion.symm.trans hregion')
  have hinert := isInert_utf8_render hs.toHasPlainNames
    (fun name hname => isNameText_of_regenerate hr hname) region.newline
  -- the table and the region are found again, at their new places
  have hbody := body?_splice hs hfound hregion hinert hout
  have hregain := findRegion_splice_of_isInert hs hregion hinert
  rw [← houtput] at hbody hregain
  obtain ⟨again, hagain, hsame⟩ := Option.map_eq_some_iff.1 hbody
  have hstable : regenerate settings r.output = .ok r := by
    refine regenerate_eq_ok_iff.2 ⟨again, _, hagain, hregain, ?_, hempty, ?_⟩
    · rw [hsame]
      exact htable
    · conv => rhs; rw [houtput]
      -- the same text goes to the same place
      rw [splice_splice hregion]
      exact houtput
  exact ⟨hstable, fun _ _ _ _ _ _ hread => regenerateFile_of_output_eq hread hstable rfl⟩

def twoCasesFile : Session Disk where
  files := { tree := .ofList [] [(["a.cpp"], .file ⟨twoCases.output, 0o644⟩)] }
  filter := some (.upTo (some .info))

theorem regenerate_output_twoCases : Settings.IsPlain {} ∧
    regenerate {} twoCases.output = .ok twoCases ∧
      regenerateFile (m := SessionM Disk) {} "/a.cpp" twoCasesFile =
        (.ok ⟨"/a.cpp", .unchanged, 2, 8⟩,
          { twoCasesFile with events := [.regenerated ⟨"/a.cpp", .unchanged, 2, 8⟩] }) := by
  have hfound : table? (utf8 (Settings.table {})) twoCasesSource =
      some ⟨0, 42, utf8 " \"mov\", \"MOV\" "⟩ := by decide +kernel
  have hregion : findRegion (Settings.beginMarker {}) (Settings.endMarker {}) twoCasesSource =
      .ok ⟨74, 74, .lf⟩ := by decide +kernel
  have hstable := regenerate_output Settings.isPlain_default regenerate_twoCasesSource hfound
    hregion (Or.inl (by decide))
  have hcounts : nameCounts? {} twoCases.output = some (2, 2) := by decide +kernel
  refine ⟨Settings.isPlain_default, hstable.1,
    (hstable.2 (Session Disk) "/a.cpp" twoCasesFile twoCasesFile rfl).trans ?_⟩
  unfold logNames
  rw [hcounts]
  rfl

/-! ## 6. Tables that are overwritten -/

theorem isBlankByte_of_mem_bytes {newline : Newline} {b : UInt8} (hb : b ∈ newline.bytes) :
    isBlankByte b := by
  cases newline with
  | lf =>
    obtain rfl := List.mem_singleton.1 hb
    decide
  | crlf =>
    rcases List.mem_cons.1 hb with rfl | hb
    · decide
    · obtain rfl := List.mem_singleton.1 hb
      decide

/-- A table that begins before the region ends there too, if the begin marker ends in a brace. -/
theorem stop_lt_of_start_lt (hs : settings.IsPlain)
    (hbrace : (utf8 settings.beginMarker).getLast? = some (ascii '\x7d'))
    (hfound : table? (utf8 settings.table) source = some found)
    (hregion : findRegion settings.beginMarker settings.endMarker source = .ok region)
    (hstart : found.start < region.start) : found.stop < region.start := by
  have hid (b : UInt8) (hb : b ∈ utf8 settings.table) := isIdentifierByte_of_mem hs.table hb
  obtain ⟨head, hhead, hlength⟩ := Region.exists_take_start_eq hregion
  obtain ⟨lead, hlead⟩ := List.getLast?_eq_some_iff.1 hbrace
  rw [hlead, ← List.append_assoc head] at hhead
  -- up to its start, the region is preceded by a brace and a line end
  have hbyte (k : Nat) (hk : k < region.start) :
      source[k]? = (head ++ lead ++ [ascii '\x7d'] ++ region.newline.bytes)[k]? := by
    rw [← hhead, List.getElem?_take_of_lt hk]
  have hlen := Region.length_take_start hregion
  rw [hhead, List.length_append, List.length_append, List.length_singleton] at hlen
  have hle : found.start ≤ (head ++ lead).length := by
    rcases Nat.lt_or_ge (head ++ lead).length found.start with hlt | hge
    · exfalso
      have hbehind : (head ++ lead ++ [ascii '\x7d']).length ≤ found.start := by
        rw [List.length_append, List.length_singleton]
        exact hlt
      obtain ⟨b, hb, hidentifier⟩ := exists_getElem?_start hid hfound
      rw [hbyte _ hstart, List.getElem?_append_right hbehind] at hb
      have hblank := isBlankByte_of_mem_bytes (List.mem_of_getElem? hb)
      rw [isIdentifierByte_of_isBlankByte hblank] at hidentifier
      cases hidentifier
    · exact hge
  have hstop := Table.stop_le_of_getElem? hid hfound hle (by
    rw [hbyte _ (by omega), List.getElem?_append_left (by simp),
      List.getElem?_append_right (Nat.le_refl _), Nat.sub_self]
    rfl)
  omega

/-- The table that was read is found again exactly where it is outside the region, or where the
first table behind the region has the same body. -/
theorem body?_output_eq_iff (hr : regenerate {} source = .ok r)
    (hfound : table? (utf8 (Settings.table {})) source = some found)
    (hregion : findRegion (Settings.beginMarker {}) (Settings.endMarker {}) source = .ok region) :
    Settings.body? {} r.output = Settings.body? {} source ↔
      found.start < region.start ∨ region.stop ≤ found.start ∨
        Settings.body? {} (source.drop region.stop) = some found.body := by
  have hs := Settings.isPlain_default
  obtain ⟨_, region', -, hregion', -, -, houtput⟩ := regenerate_eq_ok_iff.1 hr
  obtain rfl := Except.ok.inj (hregion.symm.trans hregion')
  have hinert := isInert_utf8_render hs.toHasPlainNames
    (fun name hname => isNameText_of_regenerate hr hname) region.newline
  have hkept := body?_splice hs hfound hregion hinert
  have hsource : Settings.body? {} source = some found.body := by
    rw [Settings.body?, hfound]
    rfl
  rw [hsource, houtput]
  rcases Nat.lt_or_ge found.start region.start with hlt | hge
  · have hstop := stop_lt_of_start_lt hs (by decide) hfound hregion hlt
    exact iff_of_true (hkept (Or.inl hstop)) (Or.inl hlt)
  rcases Nat.lt_or_ge found.start region.stop with hin | hbehind
  · -- the table was overwritten, so what is found stands behind the region
    have houtside : ¬(found.start < region.start ∨ region.stop ≤ found.start) := by omega
    rw [Settings.body?, table?_splice_of_start_le hs hregion hinert hfound hge, Option.map_map,
      ← or_assoc, or_iff_right houtside]
    rfl
  · exact iff_of_true (hkept (Or.inr hbehind)) (Or.inr (Or.inl hbehind))

def enclosedSource : Bytes :=
  utf8 "// $\x7bINSTRUCTION_DATA_BEGIN\x7d\n" ++
    utf8 "instructionDescription[] = \x7b \"MOV\" \x7d;\n" ++
    utf8 "// $\x7bINSTRUCTION_DATA_END\x7d\n"

def enclosed : Regenerated where
  output := utf8 "// $\x7bINSTRUCTION_DATA_BEGIN\x7d\n" ++
    utf8 "const char instructionName[] =\n  \"MOV\\0\"\n  ;\n\n" ++
    utf8 "#define INST_MOV_INDEX 0\n" ++ utf8 "// $\x7bINSTRUCTION_DATA_END\x7d\n"
  table := ⟨[("MOV", 0)], 4⟩

theorem regenerate_enclosedSource : regenerate {} enclosedSource = .ok enclosed := by
  decide +kernel

theorem body?_output_eq_iff_enclosed : regenerate {} enclosedSource = .ok enclosed ∧
    (Settings.body? {} enclosed.output = Settings.body? {} enclosedSource ↔
      29 < 29 ∨ 67 ≤ 29 ∨
        Settings.body? {} (enclosedSource.drop 67) = some (utf8 " \"MOV\" ")) := by
  have hfound : table? (utf8 (Settings.table {})) enclosedSource =
      some ⟨29, 64, utf8 " \"MOV\" "⟩ := by decide +kernel
  have hregion : findRegion (Settings.beginMarker {}) (Settings.endMarker {}) enclosedSource =
      .ok ⟨29, 67, .lf⟩ := by decide +kernel
  exact ⟨regenerate_enclosedSource, body?_output_eq_iff regenerate_enclosedSource hfound hregion⟩

theorem not_forall_body?_output_eq : ¬∀ (source : Bytes) (r : Regenerated),
    regenerate {} source = .ok r → Settings.body? {} r.output = Settings.body? {} source := by
  intro hall
  have hsame := hall enclosedSource enclosed regenerate_enclosedSource
  have hlost : Settings.body? {} enclosed.output = none := by decide +kernel
  have hfound : (Settings.body? {} enclosedSource).isSome := by decide +kernel
  rw [← hsame, hlost] at hfound
  cases hfound

end MemoryKit
