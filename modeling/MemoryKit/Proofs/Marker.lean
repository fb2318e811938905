import MemoryKit.Proofs.Search
import MemoryKit.Source.Region

/-!
# Where regions stand

The search for a marker line is described by the marker lines at its offsets. A marker without a
line feed cannot run across the end of a line, so a source can be cut behind a line feed and
searched part by part. A region that is filled with whole lines, none of which holds the end marker,
is found again with its new length.
-/

namespace MemoryKit.Source

open Bytes

variable {marker source s u v rest : Bytes} {newline : Newline} {p q : Nat}

/-! ## 1. Line ends -/

theorem isSome_after?_iff {lead : Bytes} : (after? lead s).isSome ↔ ∃ rest, s = lead ++ rest := by
  rw [Option.isSome_iff_exists]
  exact exists_congr fun _ => after?_eq_some_iff

theorem Newline.leading?_eq_some_iff :
    Newline.leading? s = some newline ↔ ∃ rest, s = newline.bytes ++ rest := by
  unfold Newline.leading?
  constructor
  · intro h
    split at h
    · obtain rfl := Option.some.inj h
      exact isSome_after?_iff.1 ‹_›
    · split at h
      · obtain rfl := Option.some.inj h
        exact isSome_after?_iff.1 ‹_›
      · cases h
  · rintro ⟨rest, rfl⟩
    have hself : (after? newline.bytes (newline.bytes ++ rest)).isSome :=
      isSome_after?_iff.2 ⟨rest, rfl⟩
    cases newline with
    | crlf => rw [if_pos hself]
    | lf =>
      rw [if_neg, if_pos hself]
      rw [isSome_after?_iff]
      rintro ⟨rest', h⟩
      exact absurd (List.cons.inj h).1 (by decide)

/-- A line end is at most one byte and the line feed. -/
theorem Newline.exists_bytes_eq (newline : Newline) :
    ∃ lead, newline.bytes = lead ++ [0x0A] ∧ 0x0A ∉ lead := by
  cases newline with
  | lf => exact ⟨[], rfl, by decide⟩
  | crlf => exact ⟨[0x0D], rfl, by decide⟩

theorem Newline.getLast?_append_bytes (s : Bytes) (newline : Newline) :
    (s ++ newline.bytes).getLast? = some 0x0A := by
  obtain ⟨lead, hlead, -⟩ := newline.exists_bytes_eq
  rw [hlead, ← List.append_assoc, List.getLast?_concat]

/-! ## 2. Marker lines by offset -/

/-- The line end after the marker that stands at an offset and ends its line. -/
def markerAt? (marker source : Bytes) (p : Nat) : Option Newline :=
  markerHere? marker (source.drop p)

theorem markerHere?_eq_some_iff :
    markerHere? marker s = some newline ↔ ∃ rest, s = marker ++ newline.bytes ++ rest := by
  unfold markerHere?
  simp only [Option.bind_eq_some_iff, after?_eq_some_iff, Newline.leading?_eq_some_iff]
  constructor
  · rintro ⟨_, rfl, rest, rfl⟩
    exact ⟨rest, (List.append_assoc _ _ _).symm⟩
  · rintro ⟨rest, rfl⟩
    exact ⟨_, List.append_assoc _ _ _, rest, rfl⟩

theorem markerHere?_nil : markerHere? marker [] = none := by
  cases h : markerHere? marker [] with
  | none => rfl
  | some newline =>
    obtain ⟨rest, hnil⟩ := markerHere?_eq_some_iff.1 h
    cases newline <;> simp [Newline.bytes] at hnil

/-- Text in front moves the places of a marker. -/
theorem markerAt?_append_right (marker u v : Bytes) (q : Nat) :
    markerAt? marker (u ++ v) (u.length + q) = markerAt? marker v q := by
  unfold markerAt?
  rw [List.drop_length_add_append]

/-- The search goes on from a place when there is no marker before it. -/
theorem markerFrom?_append_eq_some_iff
    (hnone : ∀ q < u.length, markerAt? marker (u ++ s) q = none) :
    markerFrom? marker u.length s = some (p, newline) ↔
      FirstAt (markerAt? marker (u ++ s)) p newline := by
  induction s generalizing u with
  | nil =>
    refine iff_of_false (by simp [markerFrom?]) fun h => ?_
    have hall : markerAt? marker (u ++ []) p = none := by
      rcases Nat.lt_or_ge p u.length with hlt | hge
      · exact hnone p hlt
      · unfold markerAt?
        rw [List.drop_eq_nil_of_le (by rwa [List.append_nil]), markerHere?_nil]
    rw [h.found] at hall
    cases hall
  | cons b s ih =>
    have hat : markerAt? marker (u ++ b :: s) u.length = markerHere? marker (b :: s) := by
      unfold markerAt?
      rw [List.drop_left]
    rw [markerFrom?]
    cases hhere : markerHere? marker (b :: s) with
    | some found =>
      rw [hhere] at hat
      have hfirst : FirstAt (markerAt? marker (u ++ b :: s)) u.length found := ⟨hat, hnone⟩
      constructor
      · intro h
        obtain ⟨rfl, rfl⟩ := Prod.mk.inj (Option.some.inj h)
        exact hfirst
      · intro h
        obtain ⟨rfl, rfl⟩ := hfirst.unique h
        rfl
    | none =>
      rw [hhere] at hat
      have hsnoc : u ++ b :: s = (u ++ [b]) ++ s := by simp
      have hlength : u.length + 1 = (u ++ [b]).length := by simp
      -- the byte joins those that have been passed
      rw [hsnoc] at hnone hat ⊢
      simp only [hlength]
      apply ih
      intro q hq
      rcases Nat.lt_or_ge q u.length with hlt | hge
      · exact hnone q hlt
      · rw [show q = u.length by omega]
        exact hat

/-- The line of a marker is the first place where it stands. -/
theorem markerLine?_eq_some_iff :
    markerLine? marker source = some (p, newline) ↔
      marker ≠ [] ∧ FirstAt (markerAt? marker source) p newline := by
  have hsearch : markerFrom? marker 0 source = some (p, newline) ↔
      FirstAt (markerAt? marker source) p newline :=
    markerFrom?_append_eq_some_iff (u := []) fun _ hq => absurd hq (Nat.not_lt_zero _)
  unfold markerLine?
  by_cases hne : marker = []
  · simp [hne]
  · rw [if_neg (by rwa [List.isEmpty_iff])]
    exact hsearch.trans (and_iff_right hne).symm

/-- A marker line that begins before a line feed ends there at the latest. -/
theorem markerAt?_append_left (hmarker : 0x0A ∉ marker) (hu : u.getLast? = some 0x0A)
    (hq : q < u.length) : markerAt? marker (u ++ v) q = markerAt? marker u q := by
  unfold markerAt?
  rw [List.drop_append_of_le_length (Nat.le_of_lt hq)]
  have hlast : (u.drop q).getLast? = some 0x0A := by
    rw [List.getLast?_drop, if_neg (Nat.not_le.2 hq), hu]
  obtain ⟨d, hd⟩ := List.getLast?_eq_some_iff.1 hlast
  rw [hd]
  apply Option.ext
  intro newline
  rw [markerHere?_eq_some_iff, markerHere?_eq_some_iff]
  obtain ⟨lead, hlead, hno⟩ := newline.exists_bytes_eq
  constructor
  · rintro ⟨rest, heq⟩
    rcases List.append_eq_append_iff.1 heq with ⟨w, hw, -⟩ | ⟨w, hw, -⟩
    · -- the line feed of the left part is the last byte of the line end
      rcases List.eq_nil_or_concat w with rfl | ⟨w', b, rfl⟩
      · exact ⟨[], by rw [List.append_nil] at hw ⊢; exact hw.symm⟩
      · rw [hlead, ← List.append_assoc, List.concat_eq_append, ← List.append_assoc] at hw
        have hmem : 0x0A ∈ marker ++ lead := by
          rw [List.append_inj_left' hw rfl]
          simp
        rw [List.mem_append] at hmem
        exact (hmem.elim hmarker hno).elim
    · exact ⟨w, hw⟩
  · rintro ⟨rest, heq⟩
    exact ⟨rest ++ v, by rw [heq, List.append_assoc]⟩

/-! ## 3. Regions -/

/-- A region is found just when both markers are and the begin marker comes first. -/
theorem findRegion_eq_ok_iff {beginMarker endMarker : String} {region : Region} :
    findRegion beginMarker endMarker source = .ok region ↔
      ∃ first endNewline,
        (utf8 beginMarker ≠ [] ∧
          FirstAt (markerAt? (utf8 beginMarker) source) first region.newline) ∧
        (utf8 endMarker ≠ [] ∧
          FirstAt (markerAt? (utf8 endMarker) source) region.stop endNewline) ∧
        region.start = first + (utf8 beginMarker).length + region.newline.bytes.length ∧
        region.start ≤ region.stop := by
  unfold findRegion
  constructor
  · intro h
    split at h
    · cases h
    rename_i first newline hfirst
    split at h
    · cases h
    rename_i stop endNewline hstop
    simp only at h
    split at h
    · cases h
    rename_i hle
    obtain rfl := Except.ok.inj h
    exact ⟨first, endNewline, markerLine?_eq_some_iff.1 hfirst, markerLine?_eq_some_iff.1 hstop,
      rfl, Nat.le_of_not_lt hle⟩
  · rintro ⟨first, endNewline, hfirst, hstop, hstart, hle⟩
    -- the region is determined by its two marker lines
    rw [hstart] at hle
    simp only [markerLine?_eq_some_iff.2 hfirst, markerLine?_eq_some_iff.2 hstop]
    rw [if_neg (Nat.not_lt.2 hle), ← hstart]

section Region

variable {beginMarker endMarker : String} {region : Region}
  (hregion : findRegion beginMarker endMarker source = .ok region)

include hregion

theorem Region.start_le_stop : region.start ≤ region.stop := by
  obtain ⟨_, _, -, -, -, hle⟩ := findRegion_eq_ok_iff.1 hregion
  exact hle

/-- What stands before a region ends in the line of the begin marker. -/
theorem Region.exists_take_start_eq : ∃ head,
    source.take region.start = head ++ utf8 beginMarker ++ region.newline.bytes ∧
      (head ++ utf8 beginMarker ++ region.newline.bytes).length = region.start := by
  obtain ⟨first, _, ⟨hne, hfirst⟩, -, hstart, -⟩ := findRegion_eq_ok_iff.1 hregion
  obtain ⟨rest, hrest⟩ := markerHere?_eq_some_iff.1 hfirst.found
  have hlen := congrArg List.length hrest
  have hpos := List.length_pos_iff.2 hne
  simp only [List.length_drop, List.length_append] at hlen
  have htake : (source.take first).length = first := by
    rw [List.length_take]
    omega
  have hlength : (source.take first ++ utf8 beginMarker ++ region.newline.bytes).length =
      region.start := by
    rw [List.length_append, List.length_append, htake, hstart]
  refine ⟨source.take first, ?_, hlength⟩
  have hsource : source =
      (source.take first ++ utf8 beginMarker ++ region.newline.bytes) ++ rest := by
    rw [List.append_assoc (source.take first), List.append_assoc, ← hrest, List.take_append_drop]
  conv => lhs; rw [hsource]
  exact List.take_left' hlength

/-- What stands after a region begins with the end marker and its line end. -/
theorem Region.exists_drop_stop_eq :
    ∃ newline tail, source.drop region.stop = utf8 endMarker ++ Newline.bytes newline ++ tail := by
  obtain ⟨_, endNewline, -, ⟨-, hstop⟩, -, -⟩ := findRegion_eq_ok_iff.1 hregion
  obtain ⟨tail, htail⟩ := markerHere?_eq_some_iff.1 hstop.found
  exact ⟨endNewline, tail, htail⟩

theorem Region.stop_le_length : region.stop ≤ source.length := by
  obtain ⟨newline, tail, heq⟩ := Region.exists_drop_stop_eq hregion
  obtain ⟨lead, hlead, -⟩ := newline.exists_bytes_eq
  have hlen := congrArg List.length heq
  rw [hlead] at hlen
  simp only [List.length_drop, List.length_append, List.length_singleton] at hlen
  omega

theorem Region.length_take_start : (source.take region.start).length = region.start := by
  have := Region.start_le_stop hregion
  have := Region.stop_le_length hregion
  rw [List.length_take]
  omega

/-- A region begins behind a line feed. -/
theorem Region.getLast?_take_start : (source.take region.start).getLast? = some 0x0A := by
  obtain ⟨head, hhead, -⟩ := Region.exists_take_start_eq hregion
  rw [hhead, Newline.getLast?_append_bytes]

/-- A source is what stands before its region, the region, and what stands after it. -/
theorem Region.append_eq : source.take region.start ++ (region.bytes source ++
    source.drop region.stop) = source := by
  have hle := Region.start_le_stop hregion
  have hdrop : (source.drop region.start).drop (region.stop - region.start) =
      source.drop region.stop := by
    rw [List.drop_drop, Nat.add_sub_cancel' hle]
  unfold Region.bytes
  rw [← hdrop, List.take_append_drop, List.take_append_drop]

/-- The new bytes stand where the region began. -/
theorem Region.bytes_splice (generated : Bytes) :
    Region.bytes { region with stop := region.start + generated.length }
      (splice source region generated) = generated := by
  have hlen := Region.length_take_start hregion
  rw [Region.bytes, splice, List.append_assoc, List.drop_left' hlen, Nat.add_sub_cancel_left,
    List.take_left]

/-- A second splice replaces the first. -/
theorem splice_splice (generated other : Bytes) :
    splice (splice source region generated)
      { region with stop := region.start + generated.length } other =
        splice source region other := by
  have hlen := Region.length_take_start hregion
  have hbehind : (source.take region.start ++ generated).length =
      region.start + generated.length := by
    rw [List.length_append, hlen]
  unfold splice
  simp only
  rw [List.drop_left' hbehind, List.append_assoc (source.take region.start),
    List.take_left' hlen]

/-- A region filled with whole lines is found again, where no end marker stands in them. -/
theorem findRegion_splice (hbegin : 0x0A ∉ utf8 beginMarker) (hend : 0x0A ∉ utf8 endMarker)
    {generated : Bytes} (hlines : generated = [] ∨ generated.getLast? = some 0x0A)
    (hno : ¬utf8 endMarker <:+: generated) :
    findRegion beginMarker endMarker (splice source region generated) =
      .ok { region with stop := region.start + generated.length } := by
  obtain ⟨first, endNewline, ⟨hbne, hfirst⟩, ⟨hene, hstop⟩, hstart, hle⟩ :=
    findRegion_eq_ok_iff.1 hregion
  have hlen := Region.length_take_start hregion
  have hlast := Region.getLast?_take_start hregion
  have hsource := Region.append_eq hregion
  have hpos := List.length_pos_iff.2 hbne
  -- before the region both sources give the same answers, behind it the new text goes on
  have hhead {marker : Bytes} (hmarker : 0x0A ∉ marker) (q : Nat) (hq : q < region.start) :
      markerAt? marker source q = markerAt? marker (splice source region generated) q := by
    have hleft (v : Bytes) := markerAt?_append_left (v := v) hmarker hlast (by rwa [hlen])
    rw [splice, List.append_assoc, hleft, ← hleft, hsource]
  have hright (q : Nat) : markerAt? (utf8 endMarker) (splice source region generated)
      (region.start + q) = markerAt? (utf8 endMarker) (generated ++ source.drop region.stop) q := by
    have := markerAt?_append_right (utf8 endMarker) (source.take region.start)
      (generated ++ source.drop region.stop) q
    rwa [hlen, ← List.append_assoc] at this
  have hgenerated (q : Nat) (hq : q < generated.length) :
      markerAt? (utf8 endMarker) (generated ++ source.drop region.stop) q = none := by
    rcases hlines with rfl | hlf
    · exact absurd hq (Nat.not_lt_zero _)
    rw [markerAt?_append_left hend hlf hq]
    cases hat : markerAt? (utf8 endMarker) generated q with
    | none => rfl
    | some newline =>
      obtain ⟨rest, hrest⟩ := markerHere?_eq_some_iff.1 hat
      refine absurd ⟨generated.take q, newline.bytes ++ rest, ?_⟩ hno
      rw [List.append_assoc, ← List.append_assoc (utf8 endMarker), ← hrest,
        List.take_append_drop]
  refine findRegion_eq_ok_iff.2 ⟨first, endNewline, ⟨hbne, ?_⟩, ⟨hene, ?_, ?_⟩, hstart,
    Nat.le_add_right _ _⟩
  · exact hfirst.congr fun q hq => hhead hbegin q (by omega)
  · show markerAt? _ _ (region.start + generated.length) = _
    rw [hright, ← Nat.add_zero generated.length, markerAt?_append_right, markerAt?,
      List.drop_zero]
    exact hstop.found
  · intro q hq
    rcases Nat.lt_or_ge q region.start with hlt | hge
    · rw [← hhead hend q hlt]
      exact hstop.before q (by omega)
    · obtain ⟨k, rfl⟩ := Nat.exists_eq_add_of_le hge
      rw [hright]
      exact hgenerated k (Nat.lt_of_add_lt_add_left hq)

end Region

end MemoryKit.Source
