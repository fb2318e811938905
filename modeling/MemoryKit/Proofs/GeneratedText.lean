import MemoryKit.NameTable.Render
import MemoryKit.Proofs.Numeral
import MemoryKit.Proofs.Marker
import MemoryKit.Proofs.Symbol

/-!
# The bytes of the generated text

Where the settings name the parts of the generated text by letters, digits and underscores, its
lines are made of few characters: there are no slashes, braces or line feeds in them. The generated
text is these lines, each with its line end.
-/

namespace MemoryKit

open Bytes Source

/-- The generated text is named by letters, digits and underscores. -/
structure Settings.HasPlainNames (settings : Settings) : Prop where
  blob : IsIdentifierText settings.blob
  symbolPrefix : IsIdentifierText settings.symbolPrefix
  symbolSuffix : IsIdentifierText settings.symbolSuffix

/-! ## 1. The characters of a line -/

def isListingChar (c : Char) : Bool :=
  isNameChar c || "[]=\"\\;#".toList.contains c

theorem toNat_lt_of_isListingChar {c : Char} (h : isListingChar c) : c.toNat < 128 := by
  rw [isListingChar, Bool.or_eq_true, List.contains_iff_mem] at h
  rcases h with h | h
  · exact toNat_lt_of_isNameChar h
  · have hall : "[]=\"\\;#".toList.all fun d => d.toNat < 128 := by decide
    exact of_decide_eq_true (List.all_eq_true.1 hall c h)

/-- A text of characters that generated lines are made of. -/
def IsListingText (text : String) : Prop :=
  ∀ c ∈ text.toList, isListingChar c

instance (text : String) : Decidable (IsListingText text) :=
  decidable_of_iff (text.toList.all isListingChar) List.all_eq_true

theorem isListingChar_of_isNameChar {c : Char} (h : isNameChar c) : isListingChar c := by
  rw [isListingChar, h, Bool.true_or]

theorem isNameChar_of_isDigit {c : Char} (h : c.isDigit) : isNameChar c := by
  rw [isNameChar, isIdentifierChar, Char.isAlphanum, h, Bool.or_true, Bool.true_or, Bool.true_or]

/-- A symbol has characters of the listing and of the prefix and suffix. -/
theorem mem_symbolFor {settings : Settings} {name : String}
    (hname : ∀ c ∈ name.toList, isNameChar c) {c : Char}
    (hc : c ∈ (settings.symbolFor name).toList) :
    isListingChar c ∨ c ∈ settings.symbolPrefix.toList ∨ c ∈ settings.symbolSuffix.toList := by
  rw [toList_symbolFor settings hname, List.mem_append, List.mem_append, List.mem_map] at hc
  rcases hc with (hc | ⟨d, hd, rfl⟩) | hc
  · exact Or.inr (Or.inl hc)
  · have hsymbol := isIdentifierChar_symbolChar (hname d hd)
    exact Or.inl (isListingChar_of_isNameChar (isNameChar_of_isIdentifierChar hsymbol))
  · exact Or.inr (Or.inr hc)

namespace NameTable

variable {table : NameTable} {settings : Settings} {newline : Newline}

theorem isListingText_literalLine {name : String} (hname : ∀ c ∈ name.toList, isNameChar c) :
    IsListingText (literalLine name) := by
  have hopen : IsListingText "  \"" := by decide
  have hclose : IsListingText "\\0\"" := by decide
  intro c hc
  simp only [literalLine, String.toList_append, List.mem_append] at hc
  rcases hc with (hc | hc) | hc
  · exact hopen c hc
  · exact isListingChar_of_isNameChar (hname c hc)
  · exact hclose c hc

theorem mem_symbolLine {entry : String × Nat} (hname : ∀ c ∈ entry.1.toList, isNameChar c)
    {c : Char} (hc : c ∈ (symbolLine settings entry).toList) :
    isListingChar c ∨ c ∈ settings.symbolPrefix.toList ∨ c ∈ settings.symbolSuffix.toList := by
  have hdefine : IsListingText "#define " := by decide
  have hspace : IsListingText " " := by decide
  simp only [symbolLine, String.toList_append, List.mem_append] at hc
  rcases hc with ((hc | hc) | hc) | hc
  · exact Or.inl (hdefine c hc)
  · exact mem_symbolFor hname hc
  · exact Or.inl (hspace c hc)
  · rw [Number.decimalText, String.toList_ofList] at hc
    have hdigit := isNameChar_of_isDigit (Number.isDigit_of_mem_decimal hc)
    exact Or.inl (isListingChar_of_isNameChar hdigit)

/-- What is not a listing character comes from the settings. -/
theorem mem_of_mem_lines (hnames : ∀ name ∈ table.names, IsNameText name) {line : String}
    (hline : line ∈ table.lines settings) {c : Char} (hc : c ∈ line.toList) :
    isListingChar c ∨ c ∈ settings.blob.toList ∨ c ∈ settings.symbolPrefix.toList ∨
      c ∈ settings.symbolSuffix.toList := by
  simp only [lines, List.mem_append, List.mem_map, List.mem_cons, List.not_mem_nil, or_false]
    at hline
  rcases hline with ((rfl | ⟨name, hname, rfl⟩) | rfl | rfl) | ⟨entry, hentry, rfl⟩
  · have hchar : IsListingText "const char " := by decide
    have hassign : IsListingText "[] =" := by decide
    simp only [String.toList_append, List.mem_append] at hc
    rcases hc with (hc | hc) | hc
    · exact Or.inl (hchar c hc)
    · exact Or.inr (Or.inl hc)
    · exact Or.inl (hassign c hc)
  · exact Or.inl (isListingText_literalLine (hnames name hname).2 c hc)
  · have hend : IsListingText "  ;" := by decide
    exact Or.inl (hend c hc)
  · exact absurd hc List.not_mem_nil
  · exact (mem_symbolLine (hnames entry.1 (List.mem_map_of_mem hentry)).2 hc).imp_right Or.inr

/-- With plain settings every line of the generated text is plain. -/
theorem isListingText_of_mem_lines (hs : settings.HasPlainNames)
    (hnames : ∀ name ∈ table.names, IsNameText name) {line : String}
    (hline : line ∈ table.lines settings) : IsListingText line := by
  have hplain {c : Char} (h : isIdentifierChar c) : isListingChar c :=
    isListingChar_of_isNameChar (isNameChar_of_isIdentifierChar h)
  intro c hc
  rcases mem_of_mem_lines hnames hline hc with h | h | h | h
  · exact h
  · exact hplain (hs.blob c h)
  · exact hplain (hs.symbolPrefix c h)
  · exact hplain (hs.symbolSuffix c h)

/-! ## 2. The generated bytes -/

theorem utf8_newline_text (newline : Newline) : utf8 newline.text = newline.bytes := by
  cases newline <;> decide

/-- The bytes of the generated text are its lines, each with the line ending behind it. -/
theorem utf8_render (table : NameTable) (settings : Settings) (newline : Newline) :
    utf8 (table.render settings newline.text) =
      (table.lines settings).flatMap fun line => utf8 line ++ newline.bytes := by
  rw [render, utf8_join, List.flatMap_map]
  simp only [utf8_append, utf8_newline_text]

/-- The generated text begins with the keyword `const`. -/
theorem head?_utf8_render :
    (utf8 (table.render settings newline.text)).head? = some (ascii 'c') := by
  rw [utf8_render, lines, List.cons_append, List.cons_append, List.cons_append, List.flatMap_cons,
    utf8_append, utf8_append]
  rfl

theorem getLast?_utf8_render :
    (utf8 (table.render settings newline.text)).getLast? = some 0x0A := by
  have hne : table.lines settings ≠ [] := List.cons_ne_nil _ _
  rw [utf8_render, ← List.dropLast_concat_getLast hne, List.flatMap_append, List.flatMap_singleton,
    ← List.append_assoc, Newline.getLast?_append_bytes]

/-- The bytes of the generated text are those of its lines and of its line ends. -/
theorem mem_utf8_render (hs : settings.HasPlainNames)
    (hnames : ∀ name ∈ table.names, IsNameText name) {b : UInt8}
    (hb : b ∈ utf8 (table.render settings newline.text)) :
    b ∈ newline.bytes ∨ ∃ c, isListingChar c ∧ ascii c = b := by
  rw [utf8_render, List.mem_flatMap] at hb
  obtain ⟨line, hline, hb⟩ := hb
  have htext := isListingText_of_mem_lines hs hnames hline
  rcases List.mem_append.1 hb with hb | hb
  · obtain ⟨c, hc, hcb⟩ :=
      exists_of_mem_utf8 (fun c hc => toNat_lt_of_isListingChar (htext c hc)) hb
    exact Or.inr ⟨c, htext c hc, hcb⟩
  · exact Or.inl hb

/-- Slashes and braces are never generated. -/
theorem ascii_not_mem_utf8_render (hs : settings.HasPlainNames)
    (hnames : ∀ name ∈ table.names, IsNameText name) {c : Char} (hc : c.toNat < 128)
    (hno : isListingChar c = false) (hbytes : ascii c ∉ newline.bytes) :
    ascii c ∉ utf8 (table.render settings newline.text) := by
  intro hb
  rcases mem_utf8_render hs hnames hb with hb | ⟨d, hd, hdc⟩
  · exact hbytes hb
  · rw [ascii_inj (toNat_lt_of_isListingChar hd) hc hdc, hno] at hd
    cases hd

end NameTable

end MemoryKit
