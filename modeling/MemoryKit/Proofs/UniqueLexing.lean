import Mathlib.Logic.ExistsUnique
import MemoryKit.Proofs.Lexing

/-!
# The one lexing of a body

Every byte string is cut into lexemes and a tail in exactly one way. The tail is empty or begins
with a comment or a literal that is never completed. The names in a body are the contents of its
string lexemes that are not empty and hold name bytes only.
-/

namespace MemoryKit.Source

open Bytes

variable {s tail : Bytes} {l : Lexeme} {ls : List Lexeme}

/-! ## 1. Lexings -/

/-- A comment or a literal begins here and is never completed. -/
inductive IsIncomplete : Bytes → Prop
  | lineComment {rest : Bytes} : ascii '\n' ∉ rest →
      IsIncomplete (ascii '/' :: ascii '/' :: rest)
  | blockComment {rest : Bytes} : ¬blockCloser <:+: rest →
      IsIncomplete (ascii '/' :: ascii '*' :: rest)
  | literal {quote : UInt8} {rest : Bytes} : IsQuote quote →
      (∀ content after, IsContent quote content → rest ≠ content ++ quote :: after) →
      IsIncomplete (quote :: rest)

/-- A byte string is made of whole lexemes and a tail. A single byte is no quote and does not begin
a comment together with what follows it. -/
inductive Lexes : Bytes → List Lexeme → Bytes → Prop
  | tail {tail : Bytes} : tail = [] ∨ IsIncomplete tail → Lexes tail [] tail
  | cons {l : Lexeme} {ls : List Lexeme} {rest tail : Bytes} : l.IsWhole →
      (∀ b, l = .other b → ¬OpensComment (l.bytes ++ rest)) → Lexes rest ls tail →
      Lexes (l.bytes ++ rest) (l :: ls) tail

/-! ## 2. Where lexing stops -/

theorem cutLine?_eq_none_iff : cutLine? s = none ↔ ascii '\n' ∉ s := by
  constructor
  · intro h hmem
    obtain ⟨text, after, rfl, hno⟩ := List.eq_append_cons_of_mem hmem
    rw [cutLine?_eq_some_iff.2 ⟨hno, rfl⟩] at h
    cases h
  · intro h
    exact cutLine?_eq_none h List.prefix_rfl

/-- The first closer has no closer before it, not even one that shares its star. -/
theorem cutBlock?_eq_none_iff : cutBlock? s = none ↔ ¬blockCloser <:+: s := by
  constructor
  · intro h
    induction s with
    | nil => decide
    | cons b s ih =>
      rw [List.infix_cons_iff, not_or]
      rw [cutBlock?] at h
      split at h
      · cases h
      · rename_i hhere
        exact ⟨after?_eq_none_iff.1 hhere, ih (Option.map_eq_none_iff.1 h)⟩
  · intro h
    rw [Option.eq_none_iff_forall_ne_some]
    rintro ⟨text, after⟩ hcut
    obtain ⟨-, rfl⟩ := cutBlock?_eq_some_iff.1 hcut
    exact h ⟨text, after, rfl⟩

theorem cutLiteral?_eq_none_iff {quote : UInt8} (hquote : IsQuote quote) :
    cutLiteral? quote s = none ↔
      ∀ content after, IsContent quote content → s ≠ content ++ quote :: after := by
  rw [Option.eq_none_iff_forall_ne_some, Prod.forall]
  apply forall₂_congr
  intro content after
  rw [Ne, cutLiteral?_eq_some_iff hquote, not_and]

/-- There is no first lexeme exactly at the end and where a comment or a literal is never
completed. -/
theorem next?_eq_none_iff : Lexeme.next? s = none ↔ s = [] ∨ IsIncomplete s := by
  constructor
  · intro h
    cases s with
    | nil => exact .inl rfl
    | cons b s =>
      -- by what the first byte opens, which is never completed
      right
      by_cases hquote : IsQuote b
      · rcases hquote with rfl | rfl
        · rw [Lexeme.next?_doubleQuote, Option.map_eq_none_iff,
            cutLiteral?_eq_none_iff (.inl rfl)] at h
          exact .literal (.inl rfl) h
        · rw [Lexeme.next?_singleQuote, Option.map_eq_none_iff,
            cutLiteral?_eq_none_iff (.inr rfl)] at h
          exact .literal (.inr rfl) h
      · by_cases hopens : OpensComment (b :: s)
        · rcases hopens with ⟨rest, hrest⟩ | ⟨rest, hrest⟩
          · obtain ⟨rfl, rfl⟩ := List.cons.inj hrest
            change Lexeme.next? (ascii '/' :: ascii '/' :: rest) = none at h
            rw [Lexeme.next?_slashSlash, Option.map_eq_none_iff, cutLine?_eq_none_iff] at h
            exact .lineComment h
          · obtain ⟨rfl, rfl⟩ := List.cons.inj hrest
            change Lexeme.next? (ascii '/' :: ascii '*' :: rest) = none at h
            rw [Lexeme.next?_slashStar, Option.map_eq_none_iff, cutBlock?_eq_none_iff] at h
            exact .blockComment h
        · rw [Lexeme.next?_other hquote hopens] at h
          cases h
  · rintro (rfl | h)
    · rfl
    · cases h with
      | lineComment hno =>
        rw [Lexeme.next?_slashSlash, cutLine?_eq_none_iff.2 hno, Option.map_none]
      | blockComment hno =>
        rw [Lexeme.next?_slashStar, cutBlock?_eq_none_iff.2 hno, Option.map_none]
      | literal hquote hno =>
        have hcut := (cutLiteral?_eq_none_iff hquote).2 hno
        rcases hquote with rfl | rfl
        · rw [Lexeme.next?_doubleQuote, hcut, Option.map_none]
        · rw [Lexeme.next?_singleQuote, hcut, Option.map_none]

/-! ## 3. One lexing -/

/-- The lexemes that are found are a lexing. -/
theorem lexes_lexemes (s : Bytes) : Lexes s (lexemes s).1 (lexemes s).2 := by
  fun_induction lexemes s with
  | case1 s hnone => exact .tail (next?_eq_none_iff.1 hnone)
  | case2 s l after hnext _ ls tail hlexemes ih =>
    rw [hlexemes] at ih
    obtain ⟨hwhole, rfl, hother⟩ := Lexeme.next?_eq_some_iff.1 hnext
    exact .cons hwhole hother ih

/-- The first lexeme of a lexing is the one that the scan takes, so the rest is the same too. -/
theorem Lexes.lexemes_eq (h : Lexes s ls tail) : lexemes s = (ls, tail) := by
  induction h with
  | tail htail => exact lexemes_of_next?_eq_none (next?_eq_none_iff.2 htail)
  | cons hwhole hother _ ih =>
    rw [lexemes_of_next?_eq_some (Lexeme.next?_eq_some_iff.2 ⟨hwhole, rfl, hother⟩), ih]

/-! ## 4. Names -/

def Lexeme.literal? : Lexeme → Option Bytes
  | .string content => some content
  | _ => none

def isName (content : Bytes) : Bool :=
  !content.isEmpty && content.all isNameByte

theorem utf8EncodeChar_of_isNameByte {b : UInt8} (h : isNameByte b) :
    String.utf8EncodeChar (Char.ofNat b.toNat) = [b] := by
  have hall : ∀ n : Fin 256, isNameByte (UInt8.ofNat n) →
      String.utf8EncodeChar (Char.ofNat n) = [UInt8.ofNat n] := by
    decide +kernel
  have hb := hall ⟨b.toNat, b.toNat_lt⟩
  rw [UInt8.ofNat_toNat] at hb
  exact hb h

theorem utf8_asciiText {content : Bytes} (h : ∀ b ∈ content, isNameByte b) :
    utf8 (asciiText content) = content := by
  unfold utf8 asciiText
  rw [String.toList_ofList]
  induction content with
  | nil => rfl
  | cons b content ih =>
    have hb := utf8EncodeChar_of_isNameByte (h b List.mem_cons_self)
    rw [List.map_cons, List.flatMap_cons, hb, ih fun c hc => h c (List.mem_cons_of_mem b hc)]
    rfl

/-- A lexeme has a name when it is a literal whose content is one. -/
theorem map_utf8_name? (l : Lexeme) : l.name?.map utf8 = l.literal?.filter isName := by
  cases l with
  | string content =>
    change (if isName content then some (asciiText content) else none).map utf8 =
      (some content).filter isName
    rw [Option.filter_some]
    by_cases hname : isName content
    · have hbytes := List.all_eq_true.1 (Bool.and_eq_true_iff.1 hname).2
      rw [if_pos hname, if_pos hname, Option.map_some, utf8_asciiText hbytes]
    · rw [if_neg hname, if_neg hname, Option.map_none]
  | _ => rfl

/-- A body has exactly one lexing, and its names are the contents of the string literals of that
lexing that are names, in order and with repeats. -/
theorem existsUnique_lexes_names (body : Bytes) :
    (∃! lexing : List Lexeme × Bytes, Lexes body lexing.1 lexing.2) ∧
      ∀ ls tail, Lexes body ls tail →
        (names body).map utf8 = (ls.filterMap Lexeme.literal?).filter isName := by
  constructor
  · refine ⟨lexemes body, lexes_lexemes body, ?_⟩
    rintro ⟨ls, tail⟩ h
    exact h.lexemes_eq.symm
  · intro ls tail h
    unfold names
    rw [h.lexemes_eq, List.map_filterMap, List.filter_filterMap]
    exact congrArg (ls.filterMap ·) (funext map_utf8_name?)

-- Quotes in comments, comments in literals, and a slash and star that a slash follows.
example : names (utf8 "\"a//\\\"\" /*/\"b\"*/ 'x\"' // \"c\n \"d e\" \"f\" \"g\n \"h\"") =
    ["d e", "f"] := by
  decide +kernel

end MemoryKit.Source
