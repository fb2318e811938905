import MemoryKit.Proofs.Marker

/-!
# Which region is found

The outcome of the search for a region is described by the first places where each marker ends a
line: they give the region, or the one error that tells what is missing. Since the end marker is
taken at its first place, it ends no line within the region.
-/

namespace MemoryKit.Source

open Bytes

variable {marker source : Bytes} {m : Nat} {newline : Newline}

/-! ## 1. Marker lines -/

/-- A marker stands at `m`, and the line ends right behind it. -/
structure IsMarkerLine (marker source : Bytes) (m : Nat) (newline : Newline) : Prop where
  ne_nil : marker ≠ []
  here : marker ++ newline.bytes <+: source.drop m

theorem markerAt?_eq_some_iff :
    markerAt? marker source m = some newline ↔ marker ++ newline.bytes <+: source.drop m := by
  unfold markerAt?
  rw [markerHere?_eq_some_iff]
  exact exists_congr fun _ => eq_comm

structure IsFirstMarkerLine (marker source : Bytes) (m : Nat) (newline : Newline) : Prop
    extends IsMarkerLine marker source m newline where
  le : ∀ k newline', IsMarkerLine marker source k newline' → m ≤ k

/-- The line that is found is the first of the marker. -/
theorem markerLine?_eq_some_iff_isFirst :
    markerLine? marker source = some (m, newline) ↔
      IsFirstMarkerLine marker source m newline := by
  rw [markerLine?_eq_some_iff, firstAt_iff_le]
  constructor
  · rintro ⟨hne, hat, hle⟩
    exact ⟨⟨hne, markerAt?_eq_some_iff.1 hat⟩,
      fun k newline' hk => hle k newline' (markerAt?_eq_some_iff.2 hk.here)⟩
  · intro h
    exact ⟨h.ne_nil, markerAt?_eq_some_iff.2 h.here,
      fun k newline' hat => h.le k newline' ⟨h.ne_nil, markerAt?_eq_some_iff.1 hat⟩⟩

/-- No line is found just when there is none. -/
theorem markerLine?_eq_none_iff :
    markerLine? marker source = none ↔ ∀ m newline, ¬IsMarkerLine marker source m newline := by
  constructor
  · intro hnone m newline h
    obtain ⟨k, newline', hfirst⟩ := exists_firstAt (markerAt?_eq_some_iff.2 h.here)
    rw [markerLine?_eq_some_iff.2 ⟨h.ne_nil, hfirst⟩] at hnone
    cases hnone
  · intro h
    rw [Option.eq_none_iff_forall_ne_some]
    intro first hsome
    exact h first.1 first.2 (markerLine?_eq_some_iff_isFirst.1 hsome).toIsMarkerLine

/-- A marker line in the bytes of a region is one of the source. -/
theorem IsMarkerLine.of_bytes {region : Region}
    (h : IsMarkerLine marker (region.bytes source) m newline) :
    IsMarkerLine marker source (region.start + m) newline ∧ region.start + m < region.stop := by
  have hhere := h.here
  have hpos := List.length_pos_iff.2 h.ne_nil
  have hlen := hhere.length_le
  rw [Region.bytes, List.drop_take, List.drop_drop] at hhere hlen
  rw [List.length_append, List.length_take] at hlen
  exact ⟨⟨h.ne_nil, hhere.trans (List.take_prefix _ _)⟩, by omega⟩

/-! ## 2. Regions -/

/-- What the search for a region comes to, by the first places of the marker lines. -/
inductive Locates (beginMarker endMarker : String) (source : Bytes) :
    Except RegionError Region → Prop
  /-- No line ends in the begin marker, whatever there is of the end marker. -/
  | noBegin : (∀ m newline, ¬IsMarkerLine (utf8 beginMarker) source m newline) →
      Locates beginMarker endMarker source (.error (.markerNotFound beginMarker))
  /-- Some line ends in the begin marker and none in the end marker. -/
  | noEnd {b : Nat} {newline : Newline} : IsMarkerLine (utf8 beginMarker) source b newline →
      (∀ m newline', ¬IsMarkerLine (utf8 endMarker) source m newline') →
      Locates beginMarker endMarker source (.error (.markerNotFound endMarker))
  /-- The end marker begins before the line of the begin marker has ended. -/
  | outOfOrder {b e : Nat} {newline endNewline : Newline} :
      IsFirstMarkerLine (utf8 beginMarker) source b newline →
      IsFirstMarkerLine (utf8 endMarker) source e endNewline →
      e < b + (utf8 beginMarker).length + newline.bytes.length →
      Locates beginMarker endMarker source (.error .markersOutOfOrder)
  | region {b e : Nat} {newline endNewline : Newline} :
      IsFirstMarkerLine (utf8 beginMarker) source b newline →
      IsFirstMarkerLine (utf8 endMarker) source e endNewline →
      b + (utf8 beginMarker).length + newline.bytes.length ≤ e →
      Locates beginMarker endMarker source
        (.ok ⟨b + (utf8 beginMarker).length + newline.bytes.length, e, newline⟩)

section Outcome

variable {beginMarker endMarker : String}

/-- A result that is right is the one found, so there is one right result. -/
theorem Locates.findRegion_eq {result : Except RegionError Region}
    (h : Locates beginMarker endMarker source result) :
    findRegion beginMarker endMarker source = result := by
  unfold findRegion
  cases h with
  | noBegin hnone => rw [markerLine?_eq_none_iff.2 hnone]
  | @noEnd b newline hbegin hnone =>
    cases hfound : markerLine? (utf8 beginMarker) source with
    | none => exact absurd hbegin (markerLine?_eq_none_iff.1 hfound b newline)
    | some found => rw [markerLine?_eq_none_iff.2 hnone]
  | outOfOrder hbegin hend hlt =>
    rw [markerLine?_eq_some_iff_isFirst.2 hbegin, markerLine?_eq_some_iff_isFirst.2 hend]
    exact if_pos hlt
  | region hbegin hend hle =>
    rw [markerLine?_eq_some_iff_isFirst.2 hbegin, markerLine?_eq_some_iff_isFirst.2 hend]
    exact if_neg (Nat.not_lt.2 hle)

theorem locates_findRegion (beginMarker endMarker : String) (source : Bytes) :
    Locates beginMarker endMarker source (findRegion beginMarker endMarker source) := by
  unfold findRegion
  cases hbegin : markerLine? (utf8 beginMarker) source with
  | none => exact .noBegin (markerLine?_eq_none_iff.1 hbegin)
  | some first =>
    obtain ⟨b, newline⟩ := first
    have hb := markerLine?_eq_some_iff_isFirst.1 hbegin
    cases hend : markerLine? (utf8 endMarker) source with
    | none => exact .noEnd hb.toIsMarkerLine (markerLine?_eq_none_iff.1 hend)
    | some last =>
      obtain ⟨e, endNewline⟩ := last
      have he := markerLine?_eq_some_iff_isFirst.1 hend
      show Locates _ _ _ (if _ < _ then _ else _)
      by_cases hlt : e < b + (utf8 beginMarker).length + newline.bytes.length
      · rw [if_pos hlt]
        exact .outOfOrder hb he hlt
      · rw [if_neg hlt]
        exact .region hb he (Nat.le_of_not_lt hlt)

/-- The first line that ends in the end marker stands behind the region. -/
theorem not_isMarkerLine_bytes {region : Region}
    (hregion : findRegion beginMarker endMarker source = .ok region) (m : Nat)
    (newline : Newline) : ¬IsMarkerLine (utf8 endMarker) (region.bytes source) m newline := by
  intro h
  obtain ⟨hline, hlt⟩ := h.of_bytes
  obtain ⟨-, endNewline, -, ⟨hne, hfirst⟩, -, -⟩ := findRegion_eq_ok_iff.1 hregion
  have hend := markerLine?_eq_some_iff_isFirst.1 (markerLine?_eq_some_iff.2 ⟨hne, hfirst⟩)
  have := hend.le _ newline hline
  omega

/-- The region, or what is missing of it, is told by the first marker lines. A region lies within
the source, and no line of it ends in the end marker. -/
theorem findRegion_eq_iff_locates (beginMarker endMarker : String) (source : Bytes) :
    (∀ result, findRegion beginMarker endMarker source = result ↔
      Locates beginMarker endMarker source result) ∧
    ∀ region, findRegion beginMarker endMarker source = .ok region →
      region.start ≤ region.stop ∧ region.stop ≤ source.length ∧
        ∀ m newline, ¬IsMarkerLine (utf8 endMarker) (region.bytes source) m newline := by
  constructor
  · intro result
    constructor
    · intro h
      rw [← h]
      exact locates_findRegion beginMarker endMarker source
    · exact Locates.findRegion_eq
  · intro region hregion
    exact ⟨Region.start_le_stop hregion, Region.stop_le_length hregion,
      not_isMarkerLine_bytes hregion⟩

end Outcome

-- The begin marker overlaps itself, and the end marker is a part of it.
example : findRegion "aa" "a" (utf8 "aaa\na\n") = .error .markersOutOfOrder :=
  rfl

end MemoryKit.Source
