import MemoryKit.Bytes

/-!
# Lexemes of a table body

A body is comments, string and character literals, and single bytes between them. The lexemes end
where a comment or a literal begins that is never completed: what follows cannot be trusted. The
names of a table are the contents of its string literals made of letters, digits, underscores and
spaces.
-/

namespace MemoryKit.Source

open Bytes

inductive Lexeme where
  /-- From two slashes through the end of the line. -/
  | lineComment (text : Bytes)
  /-- From a slash and a star through the next star and slash. -/
  | blockComment (text : Bytes)
  /-- What stands between two double quotes, escapes included. -/
  | string (content : Bytes)
  /-- What stands between two single quotes, escapes included. -/
  | character (content : Bytes)
  /-- Any other byte. -/
  | other (byte : UInt8)
  deriving DecidableEq, Repr

/-! ## 1. Where a comment or a literal ends -/

/-- The text through the end of the line, without the line feed, and what follows it. -/
def cutLine? : Bytes → Option (Bytes × Bytes)
  | [] => none
  | b :: rest =>
    if b = ascii '\n' then some ([], rest)
    else (cutLine? rest).map fun (text, after) => (b :: text, after)

/-- The text before the next star and slash, and what follows them. -/
def cutBlock? : Bytes → Option (Bytes × Bytes)
  | [] => none
  | b :: rest =>
    match after? [ascii '*', ascii '/'] (b :: rest) with
    | some after => some ([], after)
    | none => (cutBlock? rest).map fun (text, after) => (b :: text, after)

/-- The content of a literal before its closing quote, and what follows the quote. A backslash
takes the next byte with it, whatever that is; otherwise the line must not end first. -/
def cutLiteral? (quote : UInt8) : Bytes → Option (Bytes × Bytes)
  | [] => none
  | [b] => if b = quote then some ([], []) else none
  | b :: c :: rest =>
    if b = ascii '\\' then
      (cutLiteral? quote rest).map fun (content, after) => (b :: c :: content, after)
    else if b = ascii '\n' then none
    else if b = quote then some ([], c :: rest)
    else (cutLiteral? quote (c :: rest)).map fun (content, after) => (b :: content, after)

theorem length_of_cutLine? {s text after : Bytes} (h : cutLine? s = some (text, after)) :
    after.length < s.length := by
  induction s generalizing text after with
  | nil => simp [cutLine?] at h
  | cons b rest ih =>
    simp only [cutLine?] at h
    split at h
    · simp_all
    · obtain ⟨⟨t, a⟩, ha, hp⟩ := Option.map_eq_some_iff.1 h
      have := ih ha
      simp_all only [Prod.mk.injEq, List.length_cons]
      omega

theorem length_of_cutBlock? {s text after : Bytes} (h : cutBlock? s = some (text, after)) :
    after.length < s.length := by
  induction s generalizing text after with
  | nil => simp [cutBlock?] at h
  | cons b rest ih =>
    simp only [cutBlock?] at h
    split at h
    · rename_i r hr
      obtain ⟨-, rfl⟩ := Prod.mk.inj (Option.some.inj h)
      rw [after?_eq_some_iff.1 hr]
      simp only [List.length_append, List.length_cons]
      omega
    · obtain ⟨⟨t, a⟩, ha, hp⟩ := Option.map_eq_some_iff.1 h
      have := ih ha
      simp_all only [Prod.mk.injEq, List.length_cons]
      omega

theorem length_of_cutLiteral? {quote : UInt8} {s content after : Bytes}
    (h : cutLiteral? quote s = some (content, after)) : after.length < s.length := by
  fun_induction cutLiteral? quote s generalizing content after with
  | case1 => simp at h
  | case2 => simp_all
  | case3 => simp at h
  | case4 _ _ ih =>
    obtain ⟨⟨t, a⟩, ha, hp⟩ := Option.map_eq_some_iff.1 h
    have := ih ha
    simp_all only [Prod.mk.injEq, List.length_cons]
    omega
  | case5 => simp at h
  | case6 =>
    obtain ⟨-, rfl⟩ := Prod.mk.inj (Option.some.inj h)
    simp
  | case7 _ _ _ _ _ _ ih =>
    obtain ⟨⟨t, a⟩, ha, hp⟩ := Option.map_eq_some_iff.1 h
    have := ih ha
    simp_all only [Prod.mk.injEq, List.length_cons]
    omega

/-! ## 2. The lexemes of a body -/

/-- The lexeme that a byte string begins with, and what follows it. There is none at the end, nor
where a comment or a literal is never completed. -/
def Lexeme.next? : Bytes → Option (Lexeme × Bytes)
  | [] => none
  | b :: rest =>
    if b = ascii '"' then (cutLiteral? b rest).map fun (s, after) => (.string s, after)
    else if b = ascii '\'' then (cutLiteral? b rest).map fun (s, after) => (.character s, after)
    else
      match after? [ascii '/', ascii '/'] (b :: rest) with
      | some text => (cutLine? text).map fun (s, after) => (.lineComment s, after)
      | none =>
        match after? [ascii '/', ascii '*'] (b :: rest) with
        | some text => (cutBlock? text).map fun (s, after) => (.blockComment s, after)
        | none => some (.other b, rest)

theorem Lexeme.length_of_next? {s after : Bytes} {l : Lexeme} (h : next? s = some (l, after)) :
    after.length < s.length := by
  cases s with
  | nil => simp [next?] at h
  | cons b rest =>
    simp only [next?] at h
    split at h
    · obtain ⟨⟨t, a⟩, ha, hp⟩ := Option.map_eq_some_iff.1 h
      have := length_of_cutLiteral? ha
      simp_all only [Prod.mk.injEq, List.length_cons]
      omega
    split at h
    · obtain ⟨⟨t, a⟩, ha, hp⟩ := Option.map_eq_some_iff.1 h
      have := length_of_cutLiteral? ha
      simp_all only [Prod.mk.injEq, List.length_cons]
      omega
    split at h
    · rename_i text ht
      obtain ⟨⟨t, a⟩, ha, hp⟩ := Option.map_eq_some_iff.1 h
      have := length_of_cutLine? ha
      have := congrArg List.length (after?_eq_some_iff.1 ht)
      simp_all only [Prod.mk.injEq, List.length_append, List.length_cons]
      omega
    split at h
    · rename_i text ht
      obtain ⟨⟨t, a⟩, ha, hp⟩ := Option.map_eq_some_iff.1 h
      have := length_of_cutBlock? ha
      have := congrArg List.length (after?_eq_some_iff.1 ht)
      simp_all only [Prod.mk.injEq, List.length_append, List.length_cons]
      omega
    · simp_all

def lexemes (body : Bytes) : List Lexeme × Bytes :=
  match h : Lexeme.next? body with
  | none => ([], body)
  | some (l, after) =>
    have := Lexeme.length_of_next? h
    let (ls, tail) := lexemes after
    (l :: ls, tail)
termination_by body.length

/-! ## 3. Names -/

def isNameByte (b : UInt8) : Bool :=
  isIdentifierByte b || b == ascii ' '

def asciiText (bytes : Bytes) : String :=
  String.ofList (bytes.map fun b => Char.ofNat b.toNat)

/-- The name that a lexeme holds: the content of a string literal, where it is not empty and made
of name bytes. -/
def Lexeme.name? : Lexeme → Option String
  | .string content =>
    if !content.isEmpty && content.all isNameByte then some (asciiText content) else none
  | _ => none

def names (body : Bytes) : List String :=
  (lexemes body).1.filterMap Lexeme.name?

end MemoryKit.Source
