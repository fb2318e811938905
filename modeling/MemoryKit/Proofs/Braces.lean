import MemoryKit.Proofs.Header
import MemoryKit.Proofs.Lexing

/-!
# Braces in comments and literals

The body of a table ends at the first closing brace, wherever that stands, and its names are read
lexeme by lexeme. A comment or a literal that holds a closing brace is cut there, and nothing can be
read after it. So the names that are found are those before the first lexeme with a closing brace.
-/

namespace MemoryKit.Source

open Bytes

variable {s after rest initializer identifier source : Bytes} {l : Lexeme} {ls : List Lexeme}

/-! ## 1. Lexemes before a brace -/

def Lexeme.holdsBrace (l : Lexeme) : Bool :=
  l.bytes.contains (ascii '\x7d')

/-- The first brace stands behind the opener and before the closer. -/
theorem exists_takeWhile_bytes_append (hl : ∀ b, l ≠ .other b) (hbrace : l.holdsBrace)
    (after : Bytes) : ∃ part, part <+: l.inner ∧
      (l.bytes ++ after).takeWhile (· != ascii '\x7d') = l.opener ++ part := by
  have hopener : ascii '\x7d' ∉ l.opener := by cases l <;> simp only [Lexeme.opener] <;> decide
  have hcloser : ascii '\x7d' ∉ l.closer := by cases l <;> simp only [Lexeme.closer] <;> decide
  have hinner : ascii '\x7d' ∈ l.inner := by
    have hmem : ascii '\x7d' ∈ l.bytes := List.contains_iff_mem.1 hbrace
    rw [Lexeme.bytes, List.mem_append, List.mem_append] at hmem
    exact (hmem.resolve_right hcloser).resolve_left hopener
  obtain ⟨part, behind, heq, hpart⟩ := List.eq_append_cons_of_mem hinner
  refine ⟨part, ⟨_, heq.symm⟩, ?_⟩
  have hbytes : l.bytes ++ after =
      l.opener ++ part ++ ascii '\x7d' :: (behind ++ l.closer ++ after) := by
    rw [Lexeme.bytes, heq]
    simp
  rw [hbytes, List.takeWhile_append_of_pos, List.takeWhile_cons_of_neg (by simp), List.append_nil]
  intro b hb
  rw [bne_iff_ne]
  rintro rfl
  exact (List.mem_append.1 hb).elim hopener hpart

/-- The brace ends the first lexeme that holds it, and with it the lexing. -/
theorem lexemes_takeWhile (hls : lexemes s = (ls, []))
    (hother : Lexeme.other (ascii '\x7d') ∉ ls) :
    (lexemes (s.takeWhile (· != ascii '\x7d'))).1 = ls.takeWhile (!·.holdsBrace) := by
  induction ls generalizing s with
  | nil =>
    cases hnext : Lexeme.next? s with
    | none =>
      rw [lexemes_of_next?_eq_none hnext] at hls
      rw [(Prod.mk.inj hls).2]
      rw [lexemes_of_next?_eq_none rfl]
      rfl
    | some next =>
      rw [lexemes_of_next?_eq_some hnext] at hls
      cases hls
  | cons l ls ih =>
    cases hnext : Lexeme.next? s with
    | none =>
      rw [lexemes_of_next?_eq_none hnext] at hls
      cases hls
    | some next =>
      obtain ⟨l', after⟩ := next
      rw [lexemes_of_next?_eq_some hnext] at hls
      obtain ⟨hcons, htail⟩ := Prod.mk.inj hls
      obtain ⟨rfl, hafter⟩ := List.cons.inj hcons
      obtain ⟨hwhole, rfl, -⟩ := Lexeme.next?_eq_some_iff.1 hnext
      cases hbrace : l'.holdsBrace with
      | true =>
        -- the brace is inside a literal or a comment, which the cut leaves without its end
        have hl : ∀ b, l' ≠ .other b := by
          rintro b rfl
          obtain rfl : ascii '\x7d' = b := by
            simpa [Lexeme.holdsBrace, Lexeme.bytes, Lexeme.opener, Lexeme.inner, Lexeme.closer]
              using hbrace
          exact hother List.mem_cons_self
        obtain ⟨part, hpart, heq⟩ := exists_takeWhile_bytes_append hl hbrace after
        rw [heq, lexemes_of_next?_eq_none (Lexeme.next?_opener_append hwhole hl hpart),
          List.takeWhile_cons_of_neg (by simp [hbrace])]
      | false =>
        -- the lexeme lies before the cut
        have hbytes : ∀ b ∈ l'.bytes, (b != ascii '\x7d') = true := by
          intro b hb
          rw [bne_iff_ne]
          rintro rfl
          rw [Lexeme.holdsBrace, List.contains_iff_mem.2 hb] at hbrace
          cases hbrace
        have hcut := Lexeme.next?_bytes_append hnext
          (List.takeWhile_prefix (· != ascii '\x7d'))
        rw [List.takeWhile_append_of_pos hbytes, lexemes_of_next?_eq_some hcut,
          List.takeWhile_cons_of_pos (by simp [hbrace])]
        exact congrArg (l' :: ·)
          (ih (Prod.ext hafter htail) fun h => hother (List.mem_cons_of_mem _ h))

/-! ## 2. The names of a table -/

def tableNames? (identifier source : Bytes) : Option (List String) :=
  (table? identifier source).map fun found => names found.body

/-- A header is followed by the body of the table, where a brace comes at all. -/
theorem tableNames?_of_firstAt {start : Nat} (hne : identifier ≠ [])
    (hfirst : FirstAt (headerAt? identifier source) start (initializer ++ ascii '\x7d' :: rest)) :
    tableNames? identifier source =
      some (names (initializer.takeWhile (· != ascii '\x7d'))) := by
  have hbody : beforeBrace? (initializer ++ ascii '\x7d' :: rest) =
      some (initializer.takeWhile (· != ascii '\x7d')) := by
    unfold beforeBrace?
    rw [if_pos (by simp), List.takeWhile_append]
    split
    · rename_i hlen
      rw [List.takeWhile_cons_of_neg (by simp), List.append_nil,
        (List.takeWhile_prefix _).eq_of_length hlen]
    · rfl
  unfold tableNames? table?
  rw [if_neg (by rwa [List.isEmpty_iff]), firstHeader?_eq_some_iff.2 hfirst]
  simp only [Option.bind_some, hbody, Option.map_some]

/-- All names of an initializer are found exactly where no name stands in or behind the first
comment or literal with a closing brace. -/
theorem tableNames?_eq_some_names_iff {start : Nat}
    (hfirst : FirstAt (headerAt? identifier source) start (initializer ++ ascii '\x7d' :: rest))
    (hlexemes : lexemes initializer = (ls, []))
    (hother : Lexeme.other (ascii '\x7d') ∉ ls) :
    tableNames? identifier source = some (names initializer) ↔
      identifier ≠ [] ∧ ∀ l ∈ ls.dropWhile (!·.holdsBrace), l.name? = none := by
  by_cases hne : identifier = []
  · simp [tableNames?, table?, hne]
  · rw [tableNames?_of_firstAt hne hfirst, Option.some_inj, and_iff_right hne]
    unfold names
    rw [lexemes_takeWhile hlexemes hother, hlexemes]
    have hsplit := List.takeWhile_append_dropWhile (p := (!·.holdsBrace)) (l := ls)
    conv => lhs; rhs; rw [← hsplit]
    rw [List.filterMap_append, List.self_eq_append_right, List.filterMap_eq_nil_iff]

def bracedSource : Bytes :=
  utf8 "instructionDescription[] = \x7b \"ADD\", \"\x7d\", \"MOV\" \x7d;\n"

def bracedInitializer : Bytes :=
  utf8 " \"ADD\", \"\x7d\", \"MOV\" "

def bracedLexemes : List Lexeme :=
  [.other (ascii ' '), .string (utf8 "ADD"), .other (ascii ','), .other (ascii ' '),
   .string [ascii '\x7d'], .other (ascii ','), .other (ascii ' '), .string (utf8 "MOV"),
   .other (ascii ' ')]

theorem firstAt_bracedSource :
    FirstAt (headerAt? (utf8 "instructionDescription") bracedSource) 0
      (bracedInitializer ++ ascii '\x7d' :: utf8 ";\n") :=
  firstHeader?_eq_some_iff.1 (by decide +kernel)

theorem lexemes_bracedInitializer : lexemes bracedInitializer = (bracedLexemes, []) := by
  decide +kernel

theorem tableNames?_eq_some_names_iff_braced :
    FirstAt (headerAt? (utf8 "instructionDescription") bracedSource) 0
      (bracedInitializer ++ ascii '\x7d' :: utf8 ";\n") ∧
    lexemes bracedInitializer = (bracedLexemes, []) ∧
    Lexeme.other (ascii '\x7d') ∉ bracedLexemes ∧
    (tableNames? (utf8 "instructionDescription") bracedSource = some (names bracedInitializer) ↔
      utf8 "instructionDescription" ≠ [] ∧
        ∀ l ∈ bracedLexemes.dropWhile (!·.holdsBrace), l.name? = none) := by
  have hother : Lexeme.other (ascii '\x7d') ∉ bracedLexemes := by decide
  exact ⟨firstAt_bracedSource, lexemes_bracedInitializer, hother,
    tableNames?_eq_some_names_iff firstAt_bracedSource lexemes_bracedInitializer hother⟩

theorem not_forall_tableNames?_eq : ¬∀ (identifier source initializer rest : Bytes) (start : Nat)
    (ls : List Lexeme), identifier ≠ [] →
      FirstAt (headerAt? identifier source) start (initializer ++ ascii '\x7d' :: rest) →
      lexemes initializer = (ls, []) → Lexeme.other (ascii '\x7b') ∉ ls →
      Lexeme.other (ascii '\x7d') ∉ ls →
      tableNames? identifier source = some (names initializer) := by
  intro hall
  have hsame := hall _ _ _ _ _ _ (by decide) firstAt_bracedSource lexemes_bracedInitializer
    (by decide) (by decide)
  have hfound : tableNames? (utf8 "instructionDescription") bracedSource = some ["ADD"] := by
    decide +kernel
  have hnames : names bracedInitializer = ["ADD", "MOV"] := by decide +kernel
  rw [hfound, hnames] at hsame
  revert hsame
  decide

end MemoryKit.Source
