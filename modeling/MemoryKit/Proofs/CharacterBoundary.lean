import Mathlib.Control.Monad.Basic
import MemoryKit.Proofs.Marker
import MemoryKit.Regeneration.Basic

/-!
# Character boundaries

Markers are searched for byte by byte. In an encoded text that is no loss: a byte that can begin a
character does begin one, so a marker is only found between two characters. Both ends of a region
are therefore such places, and what is put between them leaves an encoded text.
-/

namespace MemoryKit

open Bytes Source

variable {s u v source : Bytes} {p : Nat}

/-! ## 1. Encoded texts -/

def IsUtf8 (s : Bytes) : Prop :=
  s.toByteArray.IsValidUTF8

theorem isUtf8_utf8 (text : String) : IsUtf8 (utf8 text) := by
  show (utf8 text).toByteArray.IsValidUTF8
  rw [toByteArray_utf8]
  exact text.isValidUTF8

theorem toByteArray_eq {text : String} (h : s = utf8 text) : text.toByteArray = s.toByteArray := by
  rw [h, toByteArray_utf8]
  rfl

theorem utf8ByteSize_eq_length (text : String) : text.utf8ByteSize = (utf8 text).length := by
  rw [← List.size_toByteArray, ← toByteArray_eq rfl]
  rfl

theorem IsUtf8.exists_eq (h : IsUtf8 s) : ∃ text, s = utf8 text := by
  refine ⟨String.ofByteArray s.toByteArray h, ?_⟩
  apply List.toByteArray_inj.1
  rw [← toByteArray_eq rfl]

/-- Two texts after each other are a text. -/
theorem IsUtf8.append (hu : IsUtf8 u) (hv : IsUtf8 v) : IsUtf8 (u ++ v) := by
  show (u ++ v).toByteArray.IsValidUTF8
  rw [List.toByteArray_append]
  exact ByteArray.IsValidUTF8.append hu hv

/-- The first byte of a text begins a character. -/
theorem isUTF8FirstByte_of_utf8_eq_cons {text : String} {b : UInt8} {bs : Bytes}
    (h : utf8 text = b :: bs) : b.IsUTF8FirstByte := by
  have hvalid : (b :: bs).toByteArray.IsValidUTF8 := by
    rw [← h]
    exact isUtf8_utf8 text
  have hfirst := hvalid.isUTF8FirstByte_getElem_zero (by simp)
  simpa using hfirst

/-! ## 2. Places between characters -/

/-- The place is between two characters: an encoded text ends there and another begins. -/
structure IsBoundary (s : Bytes) (p : Nat) : Prop where
  le_length : p ≤ s.length
  before : IsUtf8 (s.take p)
  behind : IsUtf8 (s.drop p)

/-- A valid position of a text is a boundary between characters of its bytes. -/
theorem isBoundary_of_isValid {text : String} (h : String.Pos.Raw.IsValid text ⟨p⟩) :
    IsBoundary (utf8 text) p := by
  obtain ⟨before, behind, rfl, hpos⟩ := String.Pos.Raw.isValid_iff_exists_append.1 h
  have hlen : (utf8 before).length = p := by
    rw [← utf8ByteSize_eq_length]
    exact (congrArg String.Pos.Raw.byteIdx hpos).symm
  rw [utf8_append]
  constructor
  · rw [List.length_append]
    omega
  · rw [List.take_left' hlen]
    exact isUtf8_utf8 before
  · rw [List.drop_left' hlen]
    exact isUtf8_utf8 behind

/-- Where a text ends inside a text, another one begins. -/
theorem isBoundary_of_isUtf8_take (hs : IsUtf8 s) (hp : p ≤ s.length) (htake : IsUtf8 (s.take p)) :
    IsBoundary s p := by
  obtain ⟨text, rfl⟩ := hs.exists_eq
  apply isBoundary_of_isValid
  rw [String.Pos.Raw.isValid_iff_isValidUTF8_extract_zero]
  constructor
  · show p ≤ text.utf8ByteSize
    rw [utf8ByteSize_eq_length]
    exact hp
  · have hsplit : text.toByteArray =
        ((utf8 text).take p).toByteArray ++ ((utf8 text).drop p).toByteArray := by
      rw [← List.toByteArray_append, List.take_append_drop, toByteArray_eq rfl]
    rw [hsplit, ByteArray.extract_append_eq_left]
    · exact htake
    · rw [List.size_toByteArray, List.length_take]
      show p = _
      omega

/-- No byte inside a character looks like the first one of a character. -/
theorem isBoundary_of_isUTF8FirstByte (hs : IsUtf8 s) {b : UInt8} (hb : s[p]? = some b)
    (hfirst : b.IsUTF8FirstByte) : IsBoundary s p := by
  obtain ⟨text, rfl⟩ := hs.exists_eq
  obtain ⟨hlt, hget⟩ := List.getElem?_eq_some_iff.1 hb
  apply isBoundary_of_isValid
  rw [String.Pos.Raw.isValid_iff_isUTF8FirstByte]
  right
  refine ⟨?_, ?_⟩
  · show p < text.utf8ByteSize
    rw [utf8ByteSize_eq_length]
    exact hlt
  · unfold String.getUTF8Byte
    simp only [toByteArray_eq rfl, List.getElem_toByteArray, hget]
    exact hfirst

/-- A marker is found between two characters. -/
theorem isBoundary_of_append {marker : String} (hne : utf8 marker ≠ [])
    (hs : IsUtf8 (u ++ (utf8 marker ++ v))) : IsBoundary (u ++ (utf8 marker ++ v)) u.length := by
  cases hmarker : utf8 marker with
  | nil => exact absurd hmarker hne
  | cons b bs =>
    rw [hmarker] at hs
    apply isBoundary_of_isUTF8FirstByte hs _ (isUTF8FirstByte_of_utf8_eq_cons hmarker)
    rw [List.getElem?_append_right (Nat.le_refl _), Nat.sub_self]
    rfl

/-! ## 3. Regions of encoded texts -/

theorem isUtf8_newline_bytes (newline : Newline) : IsUtf8 newline.bytes := by
  have htext : newline.bytes = utf8 newline.text := by cases newline <;> decide
  rw [htext]
  exact isUtf8_utf8 _

section Region

variable {beginMarker endMarker : String} {region : Region} (hsource : IsUtf8 source)
  (hregion : findRegion beginMarker endMarker source = .ok region)

include hsource hregion

theorem isBoundary_stop : IsBoundary source region.stop := by
  obtain ⟨_, _, -, ⟨hne, -⟩, -, -⟩ := findRegion_eq_ok_iff.1 hregion
  obtain ⟨newline, tail, htail⟩ := Region.exists_drop_stop_eq hregion
  have hlen : (source.take region.stop).length = region.stop :=
    List.length_take_of_le (Region.stop_le_length hregion)
  have hsplit : source.take region.stop ++ (utf8 endMarker ++ (newline.bytes ++ tail)) = source := by
    rw [← List.append_assoc (utf8 endMarker), ← htail, List.take_append_drop]
  have hat := isBoundary_of_append hne (by rwa [hsplit])
  rwa [hsplit, hlen] at hat

/-- A region begins behind a line feed, between two characters. -/
theorem isBoundary_start : IsBoundary source region.start := by
  obtain ⟨_, _, ⟨hne, -⟩, -, -, -⟩ := findRegion_eq_ok_iff.1 hregion
  obtain ⟨head, hhead, hlen⟩ := Region.exists_take_start_eq hregion
  have hsplit : head ++ (utf8 beginMarker ++ (region.newline.bytes ++ source.drop region.start)) =
      source := by
    rw [← List.append_assoc (utf8 beginMarker), ← List.append_assoc, ← List.append_assoc, ← hhead,
      List.take_append_drop]
  have hat := isBoundary_of_append hne (by rwa [hsplit])
  rw [hsplit] at hat
  -- the text before the marker goes on with the marker and the line end
  have hbefore : IsUtf8 head := by
    have htake : source.take head.length = head := by
      rw [← hsplit, List.take_left]
    rw [← htake]
    exact hat.before
  apply isBoundary_of_isUtf8_take hsource
  · have := Region.start_le_stop hregion
    have := Region.stop_le_length hregion
    omega
  · rw [hhead]
    exact (hbefore.append (isUtf8_utf8 beginMarker)).append (isUtf8_newline_bytes _)

end Region

/-- A region begins and ends between two characters, and regeneration keeps an encoded text one. -/
theorem isUtf8_output (settings : Settings) (hsource : IsUtf8 source) :
    (∀ region, findRegion settings.beginMarker settings.endMarker source = .ok region →
      IsBoundary source region.start ∧ IsBoundary source region.stop) ∧
    ∀ r, regenerate settings source = .ok r → IsUtf8 r.output := by
  constructor
  · intro region hregion
    exact ⟨isBoundary_start hsource hregion, isBoundary_stop hsource hregion⟩
  · intro r hr
    obtain ⟨_, region, -, hregion, -, -, houtput⟩ := regenerate_eq_ok_iff.1 hr
    rw [houtput]
    show IsUtf8 (_ ++ _ ++ _)
    exact ((isBoundary_start hsource hregion).before.append (isUtf8_utf8 _)).append
      (isBoundary_stop hsource hregion).behind

/-- Settings whose markers and names are not ASCII. -/
def arrowSettings : Settings where
  table := "ops"
  blob := "naïve"
  symbolPrefix := "∷"
  symbolSuffix := ""
  beginMarker := "→é"
  endMarker := "é←"

/-- Before the marker stands a text that differs from it in the last byte only. -/
def arrowSource : Bytes :=
  utf8 "→è→é\nèé é←\nops[]=\x7b\"ld\"\x7dß"

def arrowRegenerated : Regenerated where
  output := utf8 "→è→é\nconst char naïve[] =\n  \"ld\\0\"\n  ;\n\n#define ∷LD 0\né←\nops[]=\x7b\"ld\"\x7dß"
  table := ⟨[("ld", 0)], 3⟩

theorem isUtf8_output_arrow : IsUtf8 arrowSource ∧
    (IsBoundary arrowSource 11 ∧ IsBoundary arrowSource 16) ∧ IsUtf8 arrowRegenerated.output := by
  have hsource : IsUtf8 arrowSource := isUtf8_utf8 _
  have hregion : findRegion arrowSettings.beginMarker arrowSettings.endMarker arrowSource =
      .ok ⟨11, 16, .lf⟩ := by decide +kernel
  have hr : regenerate arrowSettings arrowSource = .ok arrowRegenerated := by decide +kernel
  obtain ⟨hboundaries, houtput⟩ := isUtf8_output arrowSettings hsource
  exact ⟨hsource, hboundaries _ hregion, houtput _ hr⟩

end MemoryKit
