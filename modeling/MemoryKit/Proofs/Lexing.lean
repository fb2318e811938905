import MemoryKit.Source.Lexeme

/-!
# Whole lexemes

A comment or a literal reaches from its opener to the first place where its closer completes it.
Each cut is described by the texts that it takes, and the first lexeme of a byte string by the
lexemes that are whole. So the lexemes of a part of a body are those of the body, up to the one that
the part cuts.
-/

namespace MemoryKit.Source

open Bytes

variable {s text after part : Bytes} {quote : UInt8}

/-! ## 1. Texts that a cut takes -/

theorem cutLine?_eq_some_iff :
    cutLine? s = some (text, after) ↔ ascii '\n' ∉ text ∧ s = text ++ ascii '\n' :: after := by
  induction s generalizing text with
  | nil => simp [cutLine?]
  | cons b s ih =>
    rw [cutLine?]
    by_cases hb : b = ascii '\n'
    · rw [if_pos hb]
      cases text with
      | nil => simp [hb, eq_comm]
      | cons c text =>
        -- the line ends here, so its text is empty
        refine iff_of_false (by simp) ?_
        rintro ⟨hno, heq⟩
        rw [(List.cons.inj heq).1.symm, hb] at hno
        exact hno List.mem_cons_self
    · rw [if_neg hb, Option.map_eq_some_iff]
      constructor
      · rintro ⟨⟨t, a⟩, ht, hp⟩
        obtain ⟨rfl, rfl⟩ := Prod.mk.inj hp
        obtain ⟨hno, rfl⟩ := ih.1 ht
        exact ⟨by simp [hno, Ne.symm hb], rfl⟩
      · rintro ⟨hno, heq⟩
        cases text with
        | nil => exact absurd (List.cons.inj heq).1 hb
        | cons c text =>
          obtain ⟨rfl, rfl⟩ := List.cons.inj heq
          exact ⟨(text, after), ih.2 ⟨fun h => hno (List.mem_cons_of_mem _ h), rfl⟩, rfl⟩

theorem cutLine?_eq_none (htext : ascii '\n' ∉ text) (hpart : part <+: text) :
    cutLine? part = none := by
  rw [Option.eq_none_iff_forall_ne_some]
  rintro ⟨early, behind⟩ hcut
  obtain ⟨-, rfl⟩ := cutLine?_eq_some_iff.1 hcut
  exact htext (hpart.subset (by simp))

def blockCloser : Bytes := [ascii '*', ascii '/']

/-- A text that no star and slash ends early, not even with the star that ends it. -/
def IsBlockText (text : Bytes) : Prop :=
  ¬blockCloser <:+: text ++ [ascii '*']

theorem isBlockText_nil : IsBlockText [] := by
  unfold IsBlockText
  decide

theorem isBlockText_cons {b : UInt8} :
    IsBlockText (b :: text) ↔ ¬blockCloser <+: b :: (text ++ [ascii '*']) ∧ IsBlockText text := by
  unfold IsBlockText
  rw [List.cons_append, List.infix_cons_iff, not_or]

/-- The closer is two bytes long, so it shows in a text with one byte of what follows. -/
theorem append_star_isPrefix (text after : Bytes) :
    text ++ [ascii '*'] <+: text ++ blockCloser ++ after := by
  rw [List.append_assoc, List.prefix_append_right_inj]
  exact ⟨ascii '/' :: after, rfl⟩

/-- A block comment is cut at its first closer. -/
theorem cutBlock?_eq_some_iff :
    cutBlock? s = some (text, after) ↔ IsBlockText text ∧ s = text ++ blockCloser ++ after := by
  induction s generalizing text with
  | nil => simp [cutBlock?, blockCloser]
  | cons b s ih =>
    rw [cutBlock?]
    cases hhere : after? [ascii '*', ascii '/'] (b :: s) with
    | some rest =>
      have hs : b :: s = blockCloser ++ rest := after?_eq_some_iff.1 hhere
      constructor
      · intro h
        obtain ⟨rfl, rfl⟩ := Prod.mk.inj (Option.some.inj h)
        exact ⟨isBlockText_nil, hs⟩
      · rintro ⟨htext, heq⟩
        cases text with
        | nil =>
          rw [hs] at heq
          rw [List.append_cancel_left heq]
        | cons c text =>
          -- a longer text would have the closer at its beginning
          refine absurd ?_ (isBlockText_cons.1 htext).1
          have hcloser : blockCloser <+: b :: s := ⟨rest, hs.symm⟩
          have hstar : c :: text ++ [ascii '*'] <+: b :: s := by
            rw [heq]
            exact append_star_isPrefix (c :: text) after
          exact List.prefix_of_prefix_length_le hcloser hstar (by simp [blockCloser])
    | none =>
      -- no closer begins here, so the first byte belongs to the text
      have hno : ¬blockCloser <+: b :: s := by
        rintro ⟨rest, hrest⟩
        have hsome := after?_eq_some_iff.2 hrest.symm
        rw [blockCloser, hhere] at hsome
        cases hsome
      simp only [Option.map_eq_some_iff]
      constructor
      · rintro ⟨⟨t, a⟩, ht, hp⟩
        obtain ⟨rfl, rfl⟩ := Prod.mk.inj hp
        obtain ⟨htext, rfl⟩ := ih.1 ht
        refine ⟨isBlockText_cons.2 ⟨fun hcloser => hno ?_, htext⟩, rfl⟩
        exact hcloser.trans (append_star_isPrefix (b :: t) a)
      · rintro ⟨htext, heq⟩
        cases text with
        | nil => exact absurd ⟨after, heq.symm⟩ hno
        | cons c text =>
          obtain ⟨rfl, rfl⟩ := List.cons.inj heq
          exact ⟨(text, after), ih.2 ⟨(isBlockText_cons.1 htext).2, rfl⟩, rfl⟩

theorem cutBlock?_eq_none (htext : IsBlockText text) (hpart : part <+: text) :
    cutBlock? part = none := by
  rw [Option.eq_none_iff_forall_ne_some]
  rintro ⟨early, behind⟩ hcut
  obtain ⟨-, rfl⟩ := cutBlock?_eq_some_iff.1 hcut
  have hcloser : blockCloser <:+: early ++ blockCloser ++ behind := ⟨early, behind, rfl⟩
  exact htext (hcloser.trans (hpart.trans (List.prefix_append _ _)).isInfix)

/-- What can stand between two quotes: pairs that a backslash begins, and bytes that are neither a
backslash nor a line feed nor the quote. -/
inductive IsContent (quote : UInt8) : Bytes → Prop
  | nil : IsContent quote []
  | pair (b : UInt8) {rest : Bytes} : IsContent quote rest →
      IsContent quote (ascii '\\' :: b :: rest)
  | plain {b : UInt8} {rest : Bytes} : b ≠ ascii '\\' → b ≠ ascii '\n' → b ≠ quote →
      IsContent quote rest → IsContent quote (b :: rest)

def IsQuote (quote : UInt8) : Prop :=
  quote = ascii '"' ∨ quote = ascii '\''

/-- A literal is cut at the first quote that is not escaped. -/
theorem cutLiteral?_eq_some_iff (hquote : IsQuote quote) :
    cutLiteral? quote s = some (text, after) ↔
      IsContent quote text ∧ s = text ++ quote :: after := by
  have hbackslash : quote ≠ ascii '\\' := by rcases hquote with rfl | rfl <;> decide
  have hline : quote ≠ ascii '\n' := by rcases hquote with rfl | rfl <;> decide
  constructor
  · intro h
    fun_induction cutLiteral? quote s generalizing text after with
    | case1 => cases h
    | case2 =>
      obtain ⟨rfl, rfl⟩ := Prod.mk.inj (Option.some.inj h)
      exact ⟨.nil, rfl⟩
    | case3 => cases h
    | case4 c rest ih =>
      obtain ⟨⟨t, a⟩, ht, hp⟩ := Option.map_eq_some_iff.1 h
      obtain ⟨rfl, rfl⟩ := Prod.mk.inj hp
      obtain ⟨hcontent, rfl⟩ := ih ht
      exact ⟨.pair c hcontent, rfl⟩
    | case5 => cases h
    | case6 =>
      obtain ⟨rfl, rfl⟩ := Prod.mk.inj (Option.some.inj h)
      exact ⟨.nil, rfl⟩
    | case7 b c rest hb hn hq ih =>
      obtain ⟨⟨t, a⟩, ht, hp⟩ := Option.map_eq_some_iff.1 h
      obtain ⟨rfl, rfl⟩ := Prod.mk.inj hp
      obtain ⟨hcontent, heq⟩ := ih ht
      exact ⟨.plain hb hn hq hcontent, by rw [heq]; rfl⟩
  · rintro ⟨hcontent, rfl⟩
    induction hcontent with
    | nil => cases after <;> simp [cutLiteral?, hbackslash, hline]
    | pair b hcontent ih =>
      rw [List.cons_append, List.cons_append, cutLiteral?, if_pos rfl, ih]
      rfl
    | @plain b rest hb hn hq hcontent ih =>
      -- at least the quote stands behind a plain byte
      obtain ⟨c, more, hmore⟩ : ∃ c more, rest ++ quote :: after = c :: more :=
        List.exists_cons_of_ne_nil (by simp)
      rw [hmore] at ih
      rw [List.cons_append, hmore, cutLiteral?, if_neg hb, if_neg hn, if_neg hq, ih]
      rfl

/-- The content of a literal does not go on behind its quote. -/
theorem IsContent.not_append_quote (hquote : IsQuote quote) (h : IsContent quote text)
    (after : Bytes) : ¬IsContent quote (text ++ quote :: after) := by
  have hbackslash : quote ≠ ascii '\\' := by rcases hquote with rfl | rfl <;> decide
  intro h'
  induction h with
  | nil =>
    cases h' with
    | pair => exact hbackslash rfl
    | plain _ _ hq _ => exact hq rfl
  | pair b _ ih =>
    cases h' with
    | pair _ h' => exact ih h'
    | plain hb _ _ _ => exact hb rfl
  | @plain b rest hb _ _ _ ih =>
    rw [List.cons_append] at h'
    generalize rest ++ quote :: after = behind at h' ih
    cases h' with
    | pair => exact hb rfl
    | plain _ _ _ h' => exact ih h'

/-- A part of the content of a literal has no end. -/
theorem cutLiteral?_eq_none (hquote : IsQuote quote) (htext : IsContent quote text)
    (hpart : part <+: text) : cutLiteral? quote part = none := by
  rw [Option.eq_none_iff_forall_ne_some]
  rintro ⟨early, behind⟩ hcut
  obtain ⟨hearly, rfl⟩ := (cutLiteral?_eq_some_iff hquote).1 hcut
  obtain ⟨rest, rfl⟩ := hpart
  rw [List.append_assoc, List.cons_append] at htext
  exact hearly.not_append_quote hquote _ htext

/-! ## 2. Whole lexemes -/

namespace Lexeme

def opener : Lexeme → Bytes
  | .lineComment _ => [ascii '/', ascii '/']
  | .blockComment _ => [ascii '/', ascii '*']
  | .string _ => [ascii '"']
  | .character _ => [ascii '\'']
  | .other _ => []

def inner : Lexeme → Bytes
  | .lineComment text | .blockComment text => text
  | .string content | .character content => content
  | .other byte => [byte]

def closer : Lexeme → Bytes
  | .lineComment _ => [ascii '\n']
  | .blockComment _ => blockCloser
  | .string _ => [ascii '"']
  | .character _ => [ascii '\'']
  | .other _ => []

def bytes (l : Lexeme) : Bytes :=
  l.opener ++ l.inner ++ l.closer

/-- The lexeme ends where its closer first completes it; other bytes are no quotes. -/
def IsWhole : Lexeme → Prop
  | .lineComment text => ascii '\n' ∉ text
  | .blockComment text => IsBlockText text
  | .string content => IsContent (ascii '"') content
  | .character content => IsContent (ascii '\'') content
  | .other byte => ¬IsQuote byte

end Lexeme

def OpensComment (s : Bytes) : Prop :=
  [ascii '/', ascii '/'] <+: s ∨ [ascii '/', ascii '*'] <+: s

theorem after?_eq_none_iff {lead : Bytes} : after? lead s = none ↔ ¬lead <+: s := by
  rw [Option.eq_none_iff_forall_ne_some, List.IsPrefix, not_exists]
  exact forall_congr' fun rest => not_congr (after?_eq_some_iff.trans eq_comm)

namespace Lexeme

variable {l : Lexeme}

-- What the first lexeme is, by the bytes that open it.

theorem next?_doubleQuote (s : Bytes) : next? (ascii '"' :: s) =
    (cutLiteral? (ascii '"') s).map fun (content, after) => (.string content, after) := by
  simp only [next?, if_true]

theorem next?_singleQuote (s : Bytes) : next? (ascii '\'' :: s) =
    (cutLiteral? (ascii '\'') s).map fun (content, after) => (.character content, after) := by
  simp only [next?, if_true]
  rw [if_neg (by decide)]

theorem next?_slashSlash (s : Bytes) : next? (ascii '/' :: ascii '/' :: s) =
    (cutLine? s).map fun (text, after) => (.lineComment text, after) := by
  simp only [next?, after?, if_true]
  rw [if_neg (by decide), if_neg (by decide)]

theorem next?_slashStar (s : Bytes) : next? (ascii '/' :: ascii '*' :: s) =
    (cutBlock? s).map fun (text, after) => (.blockComment text, after) := by
  have hno : ascii '/' ≠ ascii '*' := by decide
  simp only [next?, after?, if_true, if_neg hno]
  rw [if_neg (by decide), if_neg (by decide)]

theorem next?_other {b : UInt8} (hb : ¬IsQuote b) (hno : ¬OpensComment (b :: s)) :
    next? (b :: s) = some (.other b, s) := by
  rw [OpensComment, not_or, ← after?_eq_none_iff, ← after?_eq_none_iff] at hno
  simp only [next?, hno.1, hno.2]
  rw [if_neg fun h => hb (Or.inl h), if_neg fun h => hb (Or.inr h)]

/-- A cut that a lexeme is made of. -/
theorem map_cut_eq_some_iff {cut : Option (Bytes × Bytes)} {make : Bytes → Lexeme} :
    (cut.map fun (text, after) => (make text, after)) = some (l, after) ↔
      ∃ text, cut = some (text, after) ∧ l = make text := by
  rw [Option.map_eq_some_iff]
  constructor
  · rintro ⟨⟨text, a⟩, hcut, hp⟩
    obtain ⟨rfl, rfl⟩ := Prod.mk.inj hp
    exact ⟨text, hcut, rfl⟩
  · rintro ⟨text, hcut, rfl⟩
    exact ⟨(text, after), hcut, rfl⟩

/-- The first lexeme is whole, and what follows it matters only to a slash. -/
theorem next?_eq_some_iff : next? s = some (l, after) ↔
    l.IsWhole ∧ s = l.bytes ++ after ∧ ∀ b, l = .other b → ¬OpensComment s := by
  constructor
  · intro h
    cases s with
    | nil => cases h
    | cons b s =>
      by_cases hquote : IsQuote b
      · -- a literal, between quotes of either kind
        rcases hquote with rfl | rfl
        · rw [next?_doubleQuote, map_cut_eq_some_iff] at h
          obtain ⟨content, hcut, rfl⟩ := h
          obtain ⟨hcontent, rfl⟩ := (cutLiteral?_eq_some_iff (Or.inl rfl)).1 hcut
          exact ⟨hcontent, by simp [bytes, opener, inner, closer], fun _ hl => by cases hl⟩
        · rw [next?_singleQuote, map_cut_eq_some_iff] at h
          obtain ⟨content, hcut, rfl⟩ := h
          obtain ⟨hcontent, rfl⟩ := (cutLiteral?_eq_some_iff (Or.inr rfl)).1 hcut
          exact ⟨hcontent, by simp [bytes, opener, inner, closer], fun _ hl => by cases hl⟩
      · by_cases hopens : OpensComment (b :: s)
        · -- a comment, of a line or of a block
          rcases hopens with ⟨rest, hrest⟩ | ⟨rest, hrest⟩
          · rw [← hrest] at h ⊢
            change next? (ascii '/' :: ascii '/' :: rest) = _ at h
            rw [next?_slashSlash, map_cut_eq_some_iff] at h
            obtain ⟨text, hcut, rfl⟩ := h
            obtain ⟨hline, rfl⟩ := cutLine?_eq_some_iff.1 hcut
            exact ⟨hline, by simp [bytes, opener, inner, closer], fun _ hl => by cases hl⟩
          · rw [← hrest] at h ⊢
            change next? (ascii '/' :: ascii '*' :: rest) = _ at h
            rw [next?_slashStar, map_cut_eq_some_iff] at h
            obtain ⟨text, hcut, rfl⟩ := h
            obtain ⟨hblock, rfl⟩ := cutBlock?_eq_some_iff.1 hcut
            exact ⟨hblock, by simp [bytes, opener, inner, closer], fun _ hl => by cases hl⟩
        · -- any other byte
          rw [next?_other hquote hopens] at h
          obtain ⟨rfl, rfl⟩ := Prod.mk.inj (Option.some.inj h)
          exact ⟨hquote, rfl, fun _ _ => hopens⟩
  · rintro ⟨hwhole, rfl, hother⟩
    cases l with
    | lineComment text =>
      have hcut : cutLine? (text ++ ascii '\n' :: after) = some (text, after) :=
        cutLine?_eq_some_iff.2 ⟨hwhole, rfl⟩
      simp only [bytes, opener, inner, closer, List.cons_append, List.append_assoc, List.nil_append,
        next?_slashSlash, hcut, Option.map_some]
    | blockComment text =>
      have hcut : cutBlock? (text ++ blockCloser ++ after) = some (text, after) :=
        cutBlock?_eq_some_iff.2 ⟨hwhole, rfl⟩
      simp only [bytes, opener, inner, closer, List.cons_append, List.nil_append, next?_slashStar,
        hcut, Option.map_some]
    | string content =>
      have hcut : cutLiteral? (ascii '"') (content ++ ascii '"' :: after) = some (content, after) :=
        (cutLiteral?_eq_some_iff (Or.inl rfl)).2 ⟨hwhole, rfl⟩
      simp only [bytes, opener, inner, closer, List.cons_append, List.append_assoc, List.nil_append,
        next?_doubleQuote,
        hcut, Option.map_some]
    | character content =>
      have hcut : cutLiteral? (ascii '\'') (content ++ ascii '\'' :: after) =
          some (content, after) :=
        (cutLiteral?_eq_some_iff (Or.inr rfl)).2 ⟨hwhole, rfl⟩
      simp only [bytes, opener, inner, closer, List.cons_append, List.append_assoc, List.nil_append,
        next?_singleQuote,
        hcut, Option.map_some]
    | other b => exact next?_other hwhole (hother b rfl)

/-! ## 3. Parts of lexemes -/

/-- A lexeme is the first one also where less follows it. -/
theorem next?_bytes_append (h : next? s = some (l, after)) (hpart : part <+: after) :
    next? (l.bytes ++ part) = some (l, part) := by
  obtain ⟨hwhole, rfl, hother⟩ := next?_eq_some_iff.1 h
  refine next?_eq_some_iff.2 ⟨hwhole, rfl, fun b hl hopens => hother b hl ?_⟩
  have hprefix : l.bytes ++ part <+: l.bytes ++ after := (List.prefix_append_right_inj _).2 hpart
  exact hopens.imp (fun h => h.trans hprefix) (fun h => h.trans hprefix)

/-- A comment or a literal that is cut before its closer is no lexeme. -/
theorem next?_opener_append (hwhole : l.IsWhole) (hl : ∀ b, l ≠ .other b)
    (hpart : part <+: l.inner) : next? (l.opener ++ part) = none := by
  cases l with
  | lineComment text =>
    change next? (ascii '/' :: ascii '/' :: part) = none
    rw [next?_slashSlash, cutLine?_eq_none hwhole hpart, Option.map_none]
  | blockComment text =>
    change next? (ascii '/' :: ascii '*' :: part) = none
    rw [next?_slashStar, cutBlock?_eq_none hwhole hpart, Option.map_none]
  | string content =>
    change next? (ascii '"' :: part) = none
    rw [next?_doubleQuote, cutLiteral?_eq_none (Or.inl rfl) hwhole hpart, Option.map_none]
  | character content =>
    change next? (ascii '\'' :: part) = none
    rw [next?_singleQuote, cutLiteral?_eq_none (Or.inr rfl) hwhole hpart, Option.map_none]
  | other b => exact absurd rfl (hl b)

end Lexeme

/-! ## 4. The lexemes of a body -/

theorem lexemes_of_next?_eq_none (h : Lexeme.next? s = none) : lexemes s = ([], s) := by
  rw [lexemes]
  split
  · rfl
  · rename_i hsome
    rw [h] at hsome
    cases hsome

theorem lexemes_of_next?_eq_some {l : Lexeme} (h : Lexeme.next? s = some (l, after)) :
    lexemes s = (l :: (lexemes after).1, (lexemes after).2) := by
  rw [lexemes]
  split
  · rename_i hnone
    rw [h] at hnone
    cases hnone
  · rename_i hsome
    rw [h] at hsome
    obtain ⟨rfl, rfl⟩ := Prod.mk.inj (Option.some.inj hsome)
    rfl

end MemoryKit.Source
