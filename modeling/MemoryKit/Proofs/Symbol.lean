import Mathlib.Data.List.Forall2
import Mathlib.Data.List.Nodup
import MemoryKit.Proofs.Ascii
import MemoryKit.Proofs.PackedNames
import MemoryKit.Regeneration.Basic

/-!
# Offset symbols

On the names that a table can hold, upper case is that of ASCII, so the symbol of a name is read off
character by character. Two names share a symbol exactly when they differ at most in the case of
letters and in spaces against underscores. The symbols of a regenerated source are therefore
different exactly when no two of its names are alike in this sense.
-/

namespace MemoryKit

/-! ## 1. Upper case in ASCII -/

namespace Text

theorem longUppercase_lookup_of_lt {n : Nat} (hn : n < 128) : longUppercase.lookup n = none := by
  have hall : ∀ entry ∈ longUppercase, 128 ≤ entry.1 := by decide +kernel
  rw [List.lookup_eq_none_iff]
  intro entry hentry
  have := hall entry hentry
  rw [bne_iff_ne]
  omega

/-- Below 0x80 only the run of the letters counts. -/
theorem findSome?_caseRuns_of_lt {n : Nat} (hn : n < 128) :
    caseRuns.findSome? (·.image? n) = CaseRun.image? ⟨0x61, 0x7A, 1, 0x41⟩ n := by
  have hall : ∀ run ∈ caseRuns.tail, 128 ≤ run.first := by decide +kernel
  have hnone : caseRuns.tail.findSome? (·.image? n) = none := by
    rw [List.findSome?_eq_none_iff]
    intro run hrun
    have := hall run hrun
    unfold CaseRun.image?
    rw [if_neg (by omega)]
  have hcons : caseRuns = ⟨0x61, 0x7A, 1, 0x41⟩ :: caseRuns.tail := rfl
  rw [hcons, List.findSome?_cons, hnone]
  cases CaseRun.image? ⟨0x61, 0x7A, 1, 0x41⟩ n <;> rfl

theorem upperChar_of_lt {c : Char} (hc : c.toNat < 128) : upperChar c = [c.toUpper] := by
  have himage : (CaseRun.image? ⟨0x61, 0x7A, 1, 0x41⟩ c.toNat).elim [c] ([Char.ofNat ·]) =
      [c.toUpper] :=
    forall_ascii (p := fun c => (CaseRun.image? ⟨0x61, 0x7A, 1, 0x41⟩ c.toNat).elim [c]
      ([Char.ofNat ·]) = [c.toUpper]) (by decide) hc
  unfold upperChar
  rw [longUppercase_lookup_of_lt hc, findSome?_caseRuns_of_lt hc, ← himage]
  cases CaseRun.image? ⟨0x61, 0x7A, 1, 0x41⟩ c.toNat <;> rfl

/-- Below 128 upper case is made character by character. -/
theorem uppercase_eq_map {text : List Char} (h : ∀ c ∈ text, c.toNat < 128) :
    uppercase text = text.map Char.toUpper := by
  unfold uppercase
  induction text with
  | nil => rfl
  | cons c cs ih =>
    rw [List.flatMap_cons, upperChar_of_lt (h c List.mem_cons_self), List.map_cons,
      ih fun d hd => h d (List.mem_cons_of_mem c hd), List.singleton_append]

end Text

/-! ## 2. Symbols of names -/

/-- What stands in a symbol for a character of the name. -/
def symbolChar (c : Char) : Char :=
  if c.toUpper = ' ' then '_' else c.toUpper

theorem isIdentifierChar_symbolChar {c : Char} (h : isNameChar c) :
    isIdentifierChar (symbolChar c) := by
  have hlt := toNat_lt_of_isNameChar h
  revert h
  exact forall_ascii (p := fun c => isNameChar c → isIdentifierChar (symbolChar c)) (by decide) hlt

theorem symbolChar_eq {c : Char} (hc : isNameChar c) :
    symbolChar c = if c = ' ' then '_' else c.toUpper := by
  exact forall_ascii (p := fun c => symbolChar c = if c = ' ' then '_' else c.toUpper) (by decide)
    (toNat_lt_of_isNameChar hc)

theorem toUpper_eq_space_iff {c : Char} (hc : isNameChar c) : c.toUpper = ' ' ↔ c = ' ' :=
  forall_ascii (p := fun c => c.toUpper = ' ' ↔ c = ' ') (by decide) (toNat_lt_of_isNameChar hc)

theorem toUpper_eq_underscore_iff {c : Char} (hc : isNameChar c) :
    c.toUpper = '_' ↔ c = '_' :=
  forall_ascii (p := fun c => c.toUpper = '_' ↔ c = '_') (by decide) (toNat_lt_of_isNameChar hc)

/-- A symbol is the prefix, the name with its characters replaced, and the suffix. -/
theorem toList_symbolFor (settings : Settings) {name : String}
    (h : ∀ c ∈ name.toList, isNameChar c) :
    (settings.symbolFor name).toList =
      settings.symbolPrefix.toList ++ name.toList.map symbolChar ++
        settings.symbolSuffix.toList := by
  unfold Settings.symbolFor
  rw [Text.uppercase_eq_map fun c hc => toNat_lt_of_isNameChar (h c hc), List.map_map]
  simp only [String.toList_append, String.toList_ofList]
  rfl

/-! ## 3. Names that share a symbol -/

/-- Equal, the two cases of one letter, or a space and an underscore. -/
def Alike (c d : Char) : Prop :=
  c.toUpper = d.toUpper ∨ (c = ' ' ∧ d = '_') ∨ (c = '_' ∧ d = ' ')

/-- Texts that differ at most in the case of letters and in spaces against underscores. -/
def SpelledAlike (a b : String) : Prop :=
  List.Forall₂ Alike a.toList b.toList

/-- Two characters give one only when they are alike. -/
theorem symbolChar_eq_iff {c d : Char} (hc : isNameChar c) (hd : isNameChar d) :
    symbolChar c = symbolChar d ↔ Alike c d := by
  have hspace {e : Char} (he : isNameChar e) (hes : e ≠ ' ') : e.toUpper ≠ ' ' :=
    fun h => hes ((toUpper_eq_space_iff he).1 h)
  rw [symbolChar_eq hc, symbolChar_eq hd]
  unfold Alike
  by_cases hcs : c = ' '
  · subst hcs
    by_cases hds : d = ' '
    · simp [hds]
    · rw [if_pos rfl, if_neg hds, eq_comm, toUpper_eq_underscore_iff hd]
      simp [(hspace hd hds).symm, hds]
  · by_cases hds : d = ' '
    · subst hds
      rw [if_neg hcs, if_pos rfl, toUpper_eq_underscore_iff hc]
      simp [hspace hc hcs, hcs]
    · rw [if_neg hcs, if_neg hds]
      simp [hcs, hds]

theorem symbolFor_eq_iff (settings : Settings) {a b : String}
    (ha : ∀ c ∈ a.toList, isNameChar c) (hb : ∀ c ∈ b.toList, isNameChar c) :
    settings.symbolFor a = settings.symbolFor b ↔ SpelledAlike a b := by
  rw [← String.toList_inj, toList_symbolFor settings ha, toList_symbolFor settings hb,
    List.append_left_inj, List.append_right_inj]
  unfold SpelledAlike
  generalize a.toList = as at ha
  generalize b.toList = bs at hb
  induction as generalizing bs with
  | nil => cases bs <;> simp
  | cons c cs ih =>
    cases bs with
    | nil => simp
    | cons d ds =>
      rw [List.map_cons, List.map_cons, List.cons_eq_cons, List.forall₂_cons,
        symbolChar_eq_iff (ha c List.mem_cons_self) (hb d List.mem_cons_self),
        ih (fun e he => ha e (List.mem_cons_of_mem c he)) ds
          fun e he => hb e (List.mem_cons_of_mem d he)]

/-! ## 4. Names of a table body -/

theorem Source.isNameChar_of_isNameByte {b : UInt8} (h : isNameByte b) :
    isNameChar (Char.ofNat b.toNat) := by
  have hall : ∀ n : Fin 256, isNameByte (UInt8.ofNat n) → isNameChar (Char.ofNat n) := by
    decide +kernel
  have := hall ⟨b.toNat, b.toNat_lt⟩
  rw [UInt8.ofNat_toNat] at this
  exact this h

theorem Source.isNameText_of_mem_names {body : Bytes} {name : String} (h : name ∈ names body) :
    IsNameText name := by
  unfold names at h
  obtain ⟨lexeme, -, hname⟩ := List.mem_filterMap.1 h
  unfold Lexeme.name? at hname
  split at hname
  · rename_i content
    split at hname
    · rename_i hcontent
      obtain rfl := Option.some.inj hname
      rw [Bool.and_eq_true, Bool.not_eq_true', List.isEmpty_eq_false_iff, List.all_eq_true]
        at hcontent
      constructor
      · rw [asciiText, Ne, ← String.toList_eq_nil_iff, String.toList_ofList, List.map_eq_nil_iff]
        exact hcontent.1
      · intro c hc
        rw [asciiText, String.toList_ofList, List.mem_map] at hc
        obtain ⟨b, hb, rfl⟩ := hc
        exact isNameChar_of_isNameByte (hcontent.2 b hb)
    · cases hname
  · cases hname

/-! ## 5. Symbols of a regenerated source -/

variable {settings : Settings} {source : Bytes} {r : Regenerated}

/-- The names of a regenerated table have characters of names only. -/
theorem isNameText_of_regenerate (hr : regenerate settings source = .ok r) {name : String}
    (hname : name ∈ r.table.names) : IsNameText name := by
  obtain ⟨found, _, -, -, htable, -, -⟩ := regenerate_eq_ok_iff.1 hr
  rw [htable, NameTable.ofList_eq_ofDistinct, NameTable.names_ofDistinct, List.mem_eraseDups]
    at hname
  exact Source.isNameText_of_mem_names hname

/-- No offset symbol is defined twice exactly when no two names of the table are alike. -/
theorem nodup_symbols_iff (hr : regenerate settings source = .ok r) :
    (r.table.entries.map fun entry => settings.symbolFor entry.1).Nodup ↔
      ∀ a ∈ r.table.names, ∀ b ∈ r.table.names, SpelledAlike a b → a = b := by
  have hnodup : r.table.names.Nodup := by
    obtain ⟨_, _, -, -, htable, -, -⟩ := regenerate_eq_ok_iff.1 hr
    rw [htable]
    exact NameTable.nodup_names_ofList _
  have hsymbols : (r.table.entries.map fun entry => settings.symbolFor entry.1) =
      r.table.names.map settings.symbolFor := by
    rw [NameTable.names, List.map_map]
    rfl
  have hsame {a b : String} (ha : a ∈ r.table.names) (hb : b ∈ r.table.names) :
      settings.symbolFor a = settings.symbolFor b ↔ SpelledAlike a b :=
    symbolFor_eq_iff settings (isNameText_of_regenerate hr ha).2
      (isNameText_of_regenerate hr hb).2
  rw [hsymbols, List.nodup_map_iff_inj_on hnodup]
  constructor
  · intro hinj a ha b hb halike
    exact hinj a ha b hb ((hsame ha hb).2 halike)
  · intro hno a ha b hb hsymbol
    exact hno a ha b hb ((hsame ha hb).1 hsymbol)

/-- A source with two names that differ in case only. -/
def twoCasesSource : Bytes :=
  utf8 "instructionDescription[] = \x7b \"mov\", \"MOV\" \x7d;\n" ++
    utf8 "// $\x7bINSTRUCTION_DATA_BEGIN\x7d\n" ++ utf8 "// $\x7bINSTRUCTION_DATA_END\x7d\n"

/-- Both names are packed, and one symbol is defined twice. -/
def twoCases : Regenerated where
  output := utf8 "instructionDescription[] = \x7b \"mov\", \"MOV\" \x7d;\n" ++
    utf8 "// $\x7bINSTRUCTION_DATA_BEGIN\x7d\n" ++
    utf8 "const char instructionName[] =\n  \"mov\\0\"\n  \"MOV\\0\"\n  ;\n\n" ++
    utf8 "#define INST_MOV_INDEX 0\n#define INST_MOV_INDEX 4\n" ++
    utf8 "// $\x7bINSTRUCTION_DATA_END\x7d\n"
  table := ⟨[("mov", 0), ("MOV", 4)], 8⟩

theorem regenerate_twoCasesSource : regenerate {} twoCasesSource = .ok twoCases := by
  decide +kernel

theorem nodup_symbols_iff_twoCases : regenerate {} twoCasesSource = .ok twoCases ∧
    ((twoCases.table.entries.map fun entry => Settings.symbolFor {} entry.1).Nodup ↔
      ∀ a ∈ twoCases.table.names, ∀ b ∈ twoCases.table.names, SpelledAlike a b → a = b) :=
  ⟨regenerate_twoCasesSource, nodup_symbols_iff regenerate_twoCasesSource⟩

theorem not_forall_nodup_symbols : ¬∀ (source : Bytes) (r : Regenerated),
    regenerate {} source = .ok r →
      (r.table.entries.map fun entry => Settings.symbolFor {} entry.1).Nodup := by
  intro hall
  have hnodup := hall twoCasesSource twoCases regenerate_twoCasesSource
  have hsame : Settings.symbolFor {} "mov" = Settings.symbolFor {} "MOV" := by decide +kernel
  exact (List.nodup_cons.1 hnodup).1 (List.mem_singleton.2 hsame)

end MemoryKit
