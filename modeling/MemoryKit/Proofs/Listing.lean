import MemoryKit.Proofs.GeneratedText

/-!
# Reading the generated text

The generated lines list string literals and definitions. Together the literals are one packed
string, and a definition gives the offset at which its name stands in that string, up to the next
NUL.
-/

namespace MemoryKit

open Bytes Source NameTable

/-! ## 1. Lines of a text -/

namespace Source.Newline

variable {newline : Newline} {s : Bytes}

theorem length_lt_of_after? {rest : Bytes} (h : after? newline.bytes s = some rest) :
    rest.length < s.length := by
  obtain ⟨lead, hlead, -⟩ := newline.exists_bytes_eq
  rw [after?_eq_some_iff.1 h, hlead, List.length_append, List.length_append, List.length_singleton]
  omega

def pieces (newline : Newline) : Bytes → List Bytes
  | [] => [[]]
  | b :: rest =>
    match h : after? newline.bytes (b :: rest) with
    | some behind =>
      have := length_lt_of_after? h
      [] :: pieces newline behind
    | none => (pieces newline rest).modifyHead (b :: ·)
termination_by s => s.length
decreasing_by
  · exact this
  · exact Nat.lt_succ_self rest.length

theorem pieces_bytes_append (newline : Newline) (s : Bytes) :
    newline.pieces (newline.bytes ++ s) = [] :: newline.pieces s := by
  have hafter : after? newline.bytes (newline.bytes ++ s) = some s := after?_eq_some_iff.2 rfl
  have hne : newline.bytes ++ s ≠ [] := by cases newline <;> exact List.cons_ne_nil _ _
  revert hafter hne
  generalize newline.bytes ++ s = text
  intro hafter hne
  cases text with
  | nil => exact absurd rfl hne
  | cons b rest =>
    rw [pieces]
    split
    · rename_i behind hbehind
      rw [hafter] at hbehind
      rw [Option.some.inj hbehind]
    · rename_i hnone
      rw [hafter] at hnone
      cases hnone

/-- No line end begins inside a line. -/
theorem after?_bytes_line (newline : Newline) {b : UInt8} {line : Bytes}
    (hline : 0x0A ∉ b :: line) (s : Bytes) :
    after? newline.bytes (b :: line ++ (newline.bytes ++ s)) = none := by
  rw [Option.eq_none_iff_forall_ne_some]
  intro rest h
  have heq := after?_eq_some_iff.1 h
  cases newline with
  | lf =>
    apply hline
    rw [(List.cons.inj heq).1]
    exact List.mem_cons_self
  | crlf =>
    have htail := (List.cons.inj heq).2
    cases line with
    | nil => exact absurd (List.cons.inj htail).1 (by decide)
    | cons c line =>
      apply hline
      rw [(List.cons.inj htail).1]
      exact List.mem_cons_of_mem b List.mem_cons_self

theorem pieces_line_append {line : Bytes} (hline : 0x0A ∉ line) (s : Bytes) :
    newline.pieces (line ++ (newline.bytes ++ s)) = line :: newline.pieces s := by
  induction line with
  | nil => exact pieces_bytes_append newline s
  | cons b line ih =>
    have hnone := after?_bytes_line newline hline s
    rw [List.cons_append] at hnone ⊢
    rw [pieces]
    split
    · rename_i behind hbehind
      rw [hnone] at hbehind
      cases hbehind
    · rw [ih fun h => hline (List.mem_cons_of_mem b h)]
      rfl

/-- Lines that each end in the line end are its pieces, and nothing follows the last one. -/
theorem pieces_flatMap {lines : List Bytes} (h : ∀ line ∈ lines, 0x0A ∉ line) :
    newline.pieces (lines.flatMap (· ++ newline.bytes)) = lines ++ [[]] := by
  induction lines with
  | nil => rw [List.flatMap_nil, pieces]; rfl
  | cons line lines ih =>
    rw [List.flatMap_cons, List.append_assoc, pieces_line_append (h line List.mem_cons_self),
      ih fun other hother => h other (List.mem_cons_of_mem line hother), List.cons_append]

end Source.Newline

/-! ## 2. Listings -/

/-- The literals and the definitions of a generated text. -/
structure Listing where
  /-- What stands between the quotes of each literal. -/
  literals : List String
  /-- The symbols, each with the digits it is defined as. -/
  definitions : List (String × String)

def unescape : List Char → List Char
  | '\\' :: '0' :: rest => '\x00' :: unescape rest
  | c :: rest => c :: unescape rest
  | [] => []

def literalBytes (content : String) : Bytes :=
  utf8 (String.ofList (unescape content.toList))

namespace Listing

def lines (listing : Listing) (blob : String) : List String :=
  ["const char " ++ blob ++ "[] ="] ++
    listing.literals.map (fun content => "  \"" ++ content ++ "\"") ++ ["  ;", ""] ++
    listing.definitions.map fun (symbol, digits) => "#define " ++ symbol ++ " " ++ digits

/-- The bytes of the string constant: adjacent literals are one string. -/
def packed (listing : Listing) : Bytes :=
  listing.literals.flatMap literalBytes

/-- Every name has its literal and its definition, and the packed string holds it, up to the first
NUL, at the offset that its symbol is defined as. -/
structure Addresses (listing : Listing) (settings : Settings) (names : List String) : Prop where
  literals : listing.literals.map literalBytes = names.map fun name => utf8 name ++ [0]
  definitions : listing.definitions.length = names.length
  offsets : ∀ (k : Nat) (name : String), names[k]? = some name → ∃ (digits : String) (offset : Nat),
    listing.definitions[k]? = some (settings.symbolFor name, digits) ∧
      Number.readNat? 10 digits.toList = some offset ∧ offset < listing.packed.length ∧
        nameAt listing.packed offset = utf8 name ∧
          listing.packed[offset + (utf8 name).length]? = some 0

end Listing

/-! ## 3. The listing of a table -/

/-- Characters that are not escaped stand for themselves. -/
theorem unescape_append {chars rest : List Char} (h : '\\' ∉ chars) :
    unescape (chars ++ rest) = chars ++ unescape rest := by
  induction chars with
  | nil => rfl
  | cons c cs ih =>
    rw [List.mem_cons, not_or] at h
    rw [List.cons_append, unescape, ih h.2, List.cons_append]
    intro _ hc
    exact absurd hc.symm h.1

/-- The literal of a name stands for its bytes and a zero. -/
theorem literalBytes_append_nul {name : String} (hname : ∀ c ∈ name.toList, isNameChar c) :
    literalBytes (name ++ "\\0") = utf8 name ++ [0] := by
  have hbackslash : '\\' ∉ name.toList := fun hc => absurd (hname _ hc) (by decide)
  have hnul : utf8 (String.ofList (unescape "\\0".toList)) = [0] := by decide
  rw [literalBytes, String.toList_append, unescape_append hbackslash, String.ofList_append,
    utf8_append, hnul, String.ofList_toList]

namespace NameTable

def listing (table : NameTable) (settings : Settings) : Listing where
  literals := table.names.map (· ++ "\\0")
  definitions := table.entries.map fun entry =>
    (settings.symbolFor entry.1, Number.decimalText entry.2)

variable {settings : Settings}

theorem lines_listing (table : NameTable) (settings : Settings) :
    (table.listing settings).lines settings.blob = table.lines settings := by
  have hliteral (name : String) : "  \"" ++ (name ++ "\\0") ++ "\"" = literalLine name := by
    rw [literalLine, String.append_assoc, String.append_assoc, String.append_assoc]
    rfl
  unfold Listing.lines listing lines
  simp only [List.map_map]
  congr 3
  exact List.map_congr_left fun name _ => hliteral name

variable {names : List String} (hnames : ∀ name ∈ names, IsNameText name)

include hnames in
/-- The literals stand for the names, each with a zero behind it. -/
theorem map_literalBytes_listing :
    ((ofDistinct names).listing settings).literals.map literalBytes =
      names.map fun name => utf8 name ++ [0] := by
  unfold listing
  rw [names_ofDistinct, List.map_map]
  exact List.map_congr_left fun name hname => literalBytes_append_nul (hnames name hname).2

include hnames in
/-- Put together, the literals are the packed names. -/
theorem packed_listing :
    ((ofDistinct names).listing settings).packed = packedBytes names := by
  rw [Listing.packed, List.flatMap_def, map_literalBytes_listing hnames, ← List.flatMap_def]
  rfl

include hnames in
/-- Each symbol is defined as the offset of its name. -/
theorem addresses_listing : ((ofDistinct names).listing settings).Addresses settings names where
  literals := map_literalBytes_listing hnames
  definitions := by
    unfold listing
    rw [List.length_map, ← List.length_map (·.1)]
    exact congrArg List.length (map_fst_layout 0 names)
  offsets := by
    intro k name hk
    have hname := hnames name (List.mem_of_getElem? hk)
    -- a name has no zero in it, so it ends at the one behind it
    have hnul : 0 ∉ utf8 name := by
      intro h
      have hmem : '\x00' ∈ name.toList := (ascii_mem_utf8_iff (by decide)).1 h
      exact absurd (hname.2 _ hmem) (by decide)
    have hlt := (List.getElem?_eq_some_iff.1 (getElem?_packedBytes hk)).1
    refine ⟨Number.decimalText (packedBytes (names.take k)).length,
      (packedBytes (names.take k)).length, ?_, ?_, ?_, ?_, ?_⟩
    · unfold listing ofDistinct
      rw [List.getElem?_map, getElem?_layout, hk, Nat.zero_add]
      rfl
    · rw [Number.decimalText, String.toList_ofList]
      exact Number.readNat?_decimal _
    · rw [packed_listing hnames]
      omega
    · rw [packed_listing hnames]
      exact nameAt_packedBytes hk hnul
    · rw [packed_listing hnames]
      exact getElem?_packedBytes hk

end NameTable

/-! ## 4. The listing of a regenerated source -/

variable {settings : Settings} {source : Bytes} {r : Regenerated}

/-- The generated text is cut into the lines it was made of. -/
theorem pieces_utf8_render (hs : settings.HasPlainNames) {table : NameTable}
    (hnames : ∀ name ∈ table.names, IsNameText name) (newline : Newline) :
    newline.pieces (utf8 (table.render settings newline.text)) =
      (table.lines settings).map utf8 ++ [[]] := by
  rw [utf8_render, ← List.flatMap_map utf8 (· ++ newline.bytes), Newline.pieces_flatMap]
  intro bytes hbytes hlf
  obtain ⟨line, hline, rfl⟩ := List.mem_map.1 hbytes
  have hmem : '\n' ∈ line.toList := (ascii_mem_utf8_iff (by decide)).1 hlf
  exact absurd (isListingText_of_mem_lines hs hnames hline _ hmem) (by decide)

/-- The new region of a source is a listing that addresses the names of its table. -/
def IsListed (settings : Settings) (source : Bytes) (r : Regenerated) : Prop :=
  ∃ found region generated listing,
    table? (utf8 settings.table) source = some found ∧
    findRegion settings.beginMarker settings.endMarker source = .ok region ∧
    r.output = splice source region generated ∧
    region.newline.pieces (Region.bytes
      { region with stop := region.start + generated.length } r.output) =
        (Listing.lines listing settings.blob).map utf8 ++ [[]] ∧
    listing.Addresses settings (names found.body).eraseDups ∧
    listing.packed.length = r.table.packedLength

/-- With plain names the region of the output is a listing of the names of the table. -/
theorem isListed_of_regenerate (hs : settings.HasPlainNames)
    (hr : regenerate settings source = .ok r) : IsListed settings source r := by
  obtain ⟨found, region, hfound, hregion, htable, -, houtput⟩ := regenerate_eq_ok_iff.1 hr
  have hnames : ∀ name ∈ (names found.body).eraseDups, IsNameText name :=
    fun name hname => isNameText_of_mem_names (List.mem_eraseDups.1 hname)
  have hdistinct := htable.trans (ofList_eq_ofDistinct _)
  refine ⟨found, region, _, r.table.listing settings, hfound, hregion, houtput, ?_, ?_, ?_⟩
  · rw [houtput, Region.bytes_splice hregion, lines_listing]
    exact pieces_utf8_render hs (fun name hname => isNameText_of_regenerate hr hname) _
  · rw [hdistinct]
    exact addresses_listing hnames
  · rw [hdistinct, packed_listing hnames]
    rfl

def shortSettings : Settings where
  table := "ops"
  blob := "text"
  symbolPrefix := "AT_"
  symbolSuffix := ""
  beginMarker := "//b"
  endMarker := "//e"

def shortSource : Bytes :=
  utf8 "//b\r\nold\r\n//e\r\n" ++ utf8 "ops[]=\x7b\"ld\",\"st x\",\"ld\"\x7d"

def shortRegenerated : Regenerated where
  output := utf8 "//b\r\n" ++ utf8 "const char text[] =\r\n" ++ utf8 "  \"ld\\0\"\r\n" ++
    utf8 "  \"st x\\0\"\r\n" ++ utf8 "  ;\r\n\r\n" ++ utf8 "#define AT_LD 0\r\n" ++
    utf8 "#define AT_ST_X 3\r\n" ++ utf8 "//e\r\n" ++
    utf8 "ops[]=\x7b\"ld\",\"st x\",\"ld\"\x7d"
  table := ⟨[("ld", 0), ("st x", 3)], 8⟩

theorem isListed_shortRegenerated : shortSettings.HasPlainNames ∧
    regenerate shortSettings shortSource = .ok shortRegenerated ∧
      IsListed shortSettings shortSource shortRegenerated := by
  have hs : shortSettings.HasPlainNames := ⟨by decide, by decide, by decide⟩
  have hr : regenerate shortSettings shortSource = .ok shortRegenerated := by decide +kernel
  exact ⟨hs, hr, isListed_of_regenerate hs hr⟩

end MemoryKit
