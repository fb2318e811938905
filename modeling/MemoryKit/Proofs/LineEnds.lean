import MemoryKit.Proofs.Listing

/-!
# Line ends

Generated lines take the line end that stands behind the begin marker, and a source is cut behind a
line end and before a marker. So a source with one kind of line end keeps it: neither the generated
text nor a seam brings in the other kind, where no line end hides in the settings.
-/

namespace MemoryKit

open Bytes Source

variable {s u v source : Bytes}

/-! ## 1. Texts of one line -/

def IsUnbroken (text : String) : Prop :=
  '\n' ∉ text.toList ∧ '\r' ∉ text.toList

instance (text : String) : Decidable (IsUnbroken text) :=
  inferInstanceAs (Decidable (_ ∧ _))

/-- No line end hides in the markers or in the texts that generated lines are made of. -/
structure Settings.IsUnbroken (settings : Settings) : Prop where
  blob : MemoryKit.IsUnbroken settings.blob
  symbolPrefix : MemoryKit.IsUnbroken settings.symbolPrefix
  symbolSuffix : MemoryKit.IsUnbroken settings.symbolSuffix
  beginMarker : MemoryKit.IsUnbroken settings.beginMarker
  endMarker : MemoryKit.IsUnbroken settings.endMarker

theorem lineFeed_not_mem_of_isUnbroken {text : String} (h : IsUnbroken text) :
    0x0A ∉ utf8 text :=
  fun hb => h.1 ((ascii_mem_utf8_iff (by decide)).1 hb)

theorem carriageReturn_not_mem_of_isUnbroken {text : String} (h : IsUnbroken text) :
    0x0D ∉ utf8 text :=
  fun hb => h.2 ((ascii_mem_utf8_iff (by decide)).1 hb)

/-- With unbroken settings no generated line has a break in it. -/
theorem isUnbroken_of_mem_lines {settings : Settings} (hs : settings.IsUnbroken)
    {table : NameTable} (hnames : ∀ name ∈ table.names, IsNameText name) {line : String}
    (hline : line ∈ table.lines settings) : IsUnbroken line := by
  have hno {c : Char} (hlisting : isListingChar c = false)
      (hblob : c ∉ settings.blob.toList) (hfront : c ∉ settings.symbolPrefix.toList)
      (hsuffix : c ∉ settings.symbolSuffix.toList) : c ∉ line.toList := by
    intro hc
    rcases NameTable.mem_of_mem_lines hnames hline hc with h | h | h | h
    · rw [hlisting] at h
      cases h
    · exact hblob h
    · exact hfront h
    · exact hsuffix h
  exact ⟨hno (by decide) hs.blob.1 hs.symbolPrefix.1 hs.symbolSuffix.1,
    hno (by decide) hs.blob.2 hs.symbolPrefix.2 hs.symbolSuffix.2⟩

/-! ## 2. Carriage returns and line feeds in pairs -/

/-- A line feed follows every carriage return and stands nowhere else. -/
structure IsCrlf (s : Bytes) : Prop where
  head : s.head? ≠ some 0x0A
  pair : ∀ p : Nat, s[p]? = some 0x0D ↔ s[p + 1]? = some 0x0A

instance (s : Bytes) : Decidable (IsCrlf s) :=
  decidable_of_iff (s.head? ≠ some 0x0A ∧
    ∀ p < s.length, s[p]? = some 0x0D ↔ s[p + 1]? = some 0x0A) <| by
  constructor
  · rintro ⟨hhead, hpair⟩
    refine ⟨hhead, fun p => ?_⟩
    by_cases hp : p < s.length
    · exact hpair p hp
    · rw [List.getElem?_eq_none (by omega), List.getElem?_eq_none (by omega)]
      decide
  · intro h
    exact ⟨h.head, fun p _ => h.pair p⟩

theorem isCrlf_of_not_mem (hlf : 0x0A ∉ s) (hcr : 0x0D ∉ s) : IsCrlf s where
  head h := hlf (List.mem_of_mem_head? h)
  pair p := by
    constructor
    · intro h
      exact absurd (List.mem_of_getElem? h) hcr
    · intro h
      exact absurd (List.mem_of_getElem? h) hlf

theorem isCrlf_crlf : IsCrlf Newline.crlf.bytes where
  head := by decide
  pair p := by
    match p with
    | 0 => decide
    | 1 => decide
    | p + 2 => simp [Newline.bytes]

/-- What stands before a line feed is a carriage return. -/
theorem IsCrlf.eq_carriageReturn {b : UInt8} (h : IsCrlf (u ++ b :: 0x0A :: v)) : b = 0x0D := by
  have hpair := h.pair u.length
  rw [List.getElem?_append_right (Nat.le_refl _), List.getElem?_append_right (Nat.le_succ _),
    Nat.sub_self, Nat.succ_sub (Nat.le_refl _), Nat.sub_self] at hpair
  exact Option.some.inj (hpair.2 rfl)

/-- A text can be cut where no line feed follows. -/
theorem isCrlf_append_iff (hv : v.head? ≠ some 0x0A) :
    IsCrlf (u ++ v) ↔ IsCrlf u ∧ IsCrlf v := by
  have hright (q : Nat) : (u ++ v)[u.length + q]? = v[q]? := by
    rw [List.getElem?_append_right (Nat.le_add_right ..), Nat.add_sub_cancel_left]
  have hleft {q : Nat} (hq : q < u.length) : (u ++ v)[q]? = u[q]? :=
    List.getElem?_append_left hq
  have hnone {q : Nat} (hq : u.length ≤ q) : u[q]? = none := List.getElem?_eq_none hq
  -- behind the last byte of the left part both sides have no line feed
  have hnext {q : Nat} (hq : q < u.length) :
      (u ++ v)[q + 1]? = some 0x0A ↔ u[q + 1]? = some 0x0A := by
    by_cases hlast : q + 1 < u.length
    · rw [hleft hlast]
    · have hlen : u.length + 0 = q + 1 := by omega
      rw [← hlen, hright, hnone (by omega), ← List.head?_eq_getElem?]
      simp [hv]
  constructor
  · intro h
    refine ⟨⟨?_, fun p => ?_⟩, hv, fun p => ?_⟩
    · intro hu
      apply h.head
      rw [List.head?_append, hu, Option.some_or]
    · by_cases hp : p < u.length
      · rw [← hleft hp, ← hnext hp]
        exact h.pair p
      · rw [hnone (by omega), hnone (by omega)]
        simp
    · rw [← hright, ← hright]
      exact h.pair (u.length + p)
  · rintro ⟨hu, hv⟩
    refine ⟨?_, fun p => ?_⟩
    · rw [List.head?_append]
      cases hhead : u.head? with
      | none => exact hv.head
      | some b =>
        rw [Option.some_or, ← hhead]
        exact hu.head
    · by_cases hp : p < u.length
      · rw [hleft hp, hnext hp]
        exact hu.pair p
      · obtain ⟨q, rfl⟩ := Nat.exists_eq_add_of_le (Nat.le_of_not_lt hp)
        rw [hright, Nat.add_assoc, hright]
        exact hv.pair q

theorem IsCrlf.append (hu : IsCrlf u) (hv : IsCrlf v) : IsCrlf (u ++ v) :=
  (isCrlf_append_iff hv.head).2 ⟨hu, hv⟩

/-! ## 3. Generated lines -/

section Lines

variable {settings : Settings} (hs : settings.IsUnbroken) {table : NameTable}
  (hnames : ∀ name ∈ table.names, IsNameText name)

include hs hnames

/-- A text generated with carriage returns has one before each line feed. -/
theorem isCrlf_utf8_render : IsCrlf (utf8 (table.render settings Newline.crlf.text)) := by
  have hlines : ∀ line ∈ table.lines settings, IsUnbroken line :=
    fun _ hline => isUnbroken_of_mem_lines hs hnames hline
  rw [NameTable.utf8_render]
  generalize table.lines settings = lines at hlines
  induction lines with
  | nil => exact isCrlf_of_not_mem List.not_mem_nil List.not_mem_nil
  | cons line lines ih =>
    have hline := hlines line List.mem_cons_self
    have hrest := ih fun other hother => hlines other (List.mem_cons_of_mem line hother)
    have htext := isCrlf_of_not_mem (lineFeed_not_mem_of_isUnbroken hline)
      (carriageReturn_not_mem_of_isUnbroken hline)
    rw [List.flatMap_cons]
    exact (htext.append isCrlf_crlf).append hrest

/-- A text generated with line feeds alone has no carriage return. -/
theorem carriageReturn_not_mem_utf8_render :
    0x0D ∉ utf8 (table.render settings Newline.lf.text) := by
  rw [NameTable.utf8_render, List.mem_flatMap]
  rintro ⟨line, hline, hcr⟩
  rcases List.mem_append.1 hcr with hcr | hcr
  · have hbroken := isUnbroken_of_mem_lines hs hnames hline
    exact carriageReturn_not_mem_of_isUnbroken hbroken hcr
  · revert hcr
    decide

end Lines

/-! ## 4. The line end of a region -/

section Region

variable {beginMarker endMarker : String} {region : Region}
  (hregion : findRegion beginMarker endMarker source = .ok region)

include hregion

/-- A region in a text with carriage returns has the line ending of that text. -/
theorem newline_eq_crlf (hbegin : IsUnbroken beginMarker) (hsource : IsCrlf source) :
    region.newline = .crlf := by
  obtain ⟨_, _, ⟨hne, -⟩, -, -, -⟩ := findRegion_eq_ok_iff.1 hregion
  obtain ⟨head, hhead, -⟩ := Region.exists_take_start_eq hregion
  cases hnewline : region.newline with
  | crlf => rfl
  | lf =>
    -- the last byte of the marker would be the carriage return before the line feed
    obtain ⟨front, b, hfront⟩ := (List.eq_nil_or_concat _).resolve_left hne
    rw [List.concat_eq_append] at hfront
    have hsplit : source = (head ++ front) ++ b :: 0x0A :: source.drop region.start := by
      conv => lhs; rw [← List.take_append_drop region.start source, hhead, hnewline, hfront]
      simp [Newline.bytes]
    rw [hsplit] at hsource
    have hb := hsource.eq_carriageReturn
    apply absurd _ (carriageReturn_not_mem_of_isUnbroken hbegin)
    rw [hfront, hb]
    simp

/-- A region in a text without carriage returns has line feeds. -/
theorem newline_eq_lf (hsource : 0x0D ∉ source) : region.newline = .lf := by
  obtain ⟨head, hhead, -⟩ := Region.exists_take_start_eq hregion
  cases hnewline : region.newline with
  | lf => rfl
  | crlf =>
    rw [hnewline] at hhead
    apply absurd _ hsource
    apply List.mem_of_mem_take
    rw [hhead]
    simp [Newline.bytes]

/-- A region begins behind a line feed, so none follows there. -/
theorem isCrlf_take_start (hsource : IsCrlf source) : IsCrlf (source.take region.start) := by
  have hlast := Region.getLast?_take_start hregion
  have hsplit := List.take_append_drop region.start source
  have hno : (source.drop region.start).head? ≠ some 0x0A := by
    intro hhead
    obtain ⟨front, hfront⟩ := List.getLast?_eq_some_iff.1 hlast
    obtain ⟨rest, hrest⟩ := List.head?_eq_some_iff.1 hhead
    rw [← hsplit, hfront, hrest, List.append_assoc, List.singleton_append] at hsource
    exact absurd hsource.eq_carriageReturn (by decide)
  rw [← hsplit] at hsource
  exact ((isCrlf_append_iff hno).1 hsource).1

/-- A region ends before the end marker, which begins with no line feed. -/
theorem isCrlf_drop_stop (hend : IsUnbroken endMarker) (hsource : IsCrlf source) :
    IsCrlf (source.drop region.stop) := by
  obtain ⟨_, _, -, ⟨hne, -⟩, -, -⟩ := findRegion_eq_ok_iff.1 hregion
  obtain ⟨newline, tail, htail⟩ := Region.exists_drop_stop_eq hregion
  have hno : (source.drop region.stop).head? ≠ some 0x0A := by
    intro hhead
    rw [htail, List.append_assoc, List.head?_append_of_ne_nil _ hne] at hhead
    exact lineFeed_not_mem_of_isUnbroken hend (List.mem_of_mem_head? hhead)
  rw [← List.take_append_drop region.stop source] at hsource
  exact ((isCrlf_append_iff hno).1 hsource).2

end Region

/-- A source with one kind of line end keeps it. -/
theorem lineEnds_output {settings : Settings} (hs : settings.IsUnbroken) {r : Regenerated}
    (hr : regenerate settings source = .ok r) :
    (IsCrlf source → IsCrlf r.output) ∧ (0x0D ∉ source → 0x0D ∉ r.output) := by
  obtain ⟨_, region, -, hregion, -, -, houtput⟩ := regenerate_eq_ok_iff.1 hr
  have hnames (name : String) (hname : name ∈ r.table.names) := isNameText_of_regenerate hr hname
  rw [houtput, splice]
  constructor
  · intro hsource
    have hhead := isCrlf_take_start hregion hsource
    have htail := isCrlf_drop_stop hregion hs.endMarker hsource
    rw [newline_eq_crlf hregion hs.beginMarker hsource]
    exact (hhead.append (isCrlf_utf8_render hs hnames)).append htail
  · intro hsource hcr
    rw [newline_eq_lf hregion hsource, List.mem_append, List.mem_append] at hcr
    rcases hcr with (hcr | hcr) | hcr
    · exact hsource (List.mem_of_mem_take hcr)
    · exact carriageReturn_not_mem_utf8_render hs hnames hcr
    · exact hsource (List.mem_of_mem_drop hcr)

theorem lineEnds_output_short : shortSettings.IsUnbroken ∧
    regenerate shortSettings shortSource = .ok shortRegenerated ∧ IsCrlf shortSource ∧
      IsCrlf shortRegenerated.output := by
  have hs : shortSettings.IsUnbroken :=
    ⟨by decide, by decide, by decide, by decide, by decide⟩
  have hr : regenerate shortSettings shortSource = .ok shortRegenerated := by decide +kernel
  have hsource : IsCrlf shortSource := by decide +kernel
  exact ⟨hs, hr, hsource, (lineEnds_output hs hr).1 hsource⟩

end MemoryKit
