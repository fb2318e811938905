import MemoryKit.Proofs.Header

/-!
# Which table is found

The headers of a source are described here by the offsets of their first byte and of their brace.
Headers may overlap, but never in their brackets, so of two headers the one that begins first also
opens first. A closing brace behind any header is therefore one behind the first header, and nothing
is missed by giving up where no brace closes that one.
-/

namespace MemoryKit.Source

open Bytes

variable {identifier source rest : Bytes} {p p' q q' r : Nat}

/-! ## 1. The bracket of a header -/

namespace IsHeader

variable {h : Bytes} {k : Nat}

theorem ne_nil (hh : IsHeader identifier h) : h ≠ [] := by
  obtain ⟨left, right, -, -, rfl⟩ := hh
  simp

theorem getElem?_length (hh : IsHeader identifier h) :
    h[identifier.length]? = some (ascii '[') := by
  obtain ⟨left, right, -, -, rfl⟩ := hh
  rw [List.append_assoc, List.getElem?_append_right (Nat.le_refl _), Nat.sub_self]
  rfl

/-- Behind its opening bracket a header holds no other one. -/
theorem le_length_of_getElem? (hh : IsHeader identifier h) (hk : h[k]? = some (ascii '[')) :
    k ≤ identifier.length := by
  obtain ⟨left, right, hleft, hright, rfl⟩ := hh
  by_cases hle : k ≤ identifier.length
  · exact hle
  -- no other part of a header has a bracket in it
  have hno : ascii '[' ∉ [ascii ']'] ++ (left ++ [ascii '='] ++ right ++ [ascii '\x7b']) := by
    simp only [List.mem_append, List.mem_singleton]
    rintro (hb | ((hb | hb) | hb) | hb)
    · revert hb
      decide
    · exact absurd (hleft _ hb) (by decide)
    · revert hb
      decide
    · exact absurd (hright _ hb) (by decide)
    · revert hb
      decide
  have hsplit : identifier ++ [ascii '[', ascii ']'] ++
      (left ++ [ascii '='] ++ right ++ [ascii '\x7b']) = (identifier ++ [ascii '[']) ++
        ([ascii ']'] ++ (left ++ [ascii '='] ++ right ++ [ascii '\x7b'])) := by
    simp only [List.append_assoc, List.cons_append, List.nil_append]
  have hlen : (identifier ++ [ascii '[']).length ≤ k := by
    rw [List.length_append, List.length_singleton]
    omega
  rw [hsplit, List.getElem?_append_right hlen] at hk
  exact absurd (List.mem_of_getElem? hk) hno

end IsHeader

/-! ## 2. Headers by their ends -/

/-- A header begins at `p`, and its opening brace stands at `q`. -/
structure IsHeaderAt (identifier source : Bytes) (p q : Nat) : Prop where
  lt_length : q < source.length
  text : IsHeader identifier (source.extract p (q + 1))
  /-- The identifier is not the end of a longer one. -/
  before : p = 0 ∨ ∃ b, source[p - 1]? = some b ∧ isIdentifierByte b = false

theorem extract_append_drop (s : Bytes) (h : p ≤ q) : s.extract p q ++ s.drop q = s.drop p := by
  have hdrop : s.drop q = (s.drop p).drop (q - p) := by
    rw [List.drop_drop, Nat.add_sub_cancel' h]
  rw [List.extract_eq_take_drop, hdrop, List.take_append_drop]

/-- A position is not inside an identifier when it is the first or follows a byte that is not of
one. -/
theorem any_getLast?_take_iff (hp : p ≤ source.length) :
    ¬(source.take p).getLast?.any isIdentifierByte ↔
      p = 0 ∨ ∃ b, source[p - 1]? = some b ∧ isIdentifierByte b = false := by
  by_cases hzero : p = 0
  · simp [hzero]
  · have hlt : p - 1 < source.length := by omega
    rw [getLast?_take_eq_getElem? (by omega) hp, List.getElem?_eq_getElem hlt]
    simp [hzero]

namespace IsHeaderAt

theorem start_le_brace (h : IsHeaderAt identifier source p q) : p ≤ q := by
  by_cases hle : p ≤ q
  · exact hle
  · have hnil : source.extract p (q + 1) = [] := by
      rw [List.extract_eq_take_drop, show q + 1 - p = 0 by omega, List.take_zero]
    exact absurd hnil h.text.ne_nil

theorem length_extract (h : IsHeaderAt identifier source p q) :
    (source.extract p (q + 1)).length = q + 1 - p := by
  have hlt := h.lt_length
  rw [List.extract_eq_take_drop, List.length_take, List.length_drop]
  omega

theorem getElem?_extract {k : Nat} (h : IsHeaderAt identifier source p q) (hk : p + k ≤ q) :
    (source.extract p (q + 1))[k]? = source[p + k]? := by
  have hlt := h.lt_length
  rw [List.extract_eq_take_drop, List.getElem?_take_of_lt (by omega), List.getElem?_drop]

/-- The bracket stands right behind the identifier. -/
theorem getElem?_bracket (h : IsHeaderAt identifier source p q) :
    source[p + identifier.length]? = some (ascii '[') ∧ p + identifier.length ≤ q := by
  have hbracket := h.text.getElem?_length
  have hlt : identifier.length < (source.extract p (q + 1)).length :=
    (List.getElem?_eq_some_iff.1 hbracket).1
  rw [h.length_extract] at hlt
  have hle : p + identifier.length ≤ q := by omega
  exact ⟨by rw [← h.getElem?_extract hle, hbracket], hle⟩

/-- Of two headers the one that begins first opens before the bracket of the other. -/
theorem lt_of_lt (h : IsHeaderAt identifier source p q) (h' : IsHeaderAt identifier source p' q')
    (hlt : p < p') : q < q' := by
  obtain ⟨hbracket, hle⟩ := h'.getElem?_bracket
  by_cases hin : p' + identifier.length ≤ q
  · -- the bracket of the second header would stand in the first one
    have hk : p + (p' + identifier.length - p) ≤ q := by omega
    have hget := h.getElem?_extract hk
    rw [show p + (p' + identifier.length - p) = p' + identifier.length by omega, hbracket] at hget
    have := h.text.le_length_of_getElem? hget
    omega
  · omega

end IsHeaderAt

theorem headerAt?_eq_some_iff : headerAt? identifier source p = some rest ↔
    ∃ q, IsHeaderAt identifier source p q ∧ rest = source.drop (q + 1) := by
  constructor
  · intro hat
    have hp : p ≤ source.length := Nat.le_of_add_right_le (length_le_of_headerAt? hat)
    unfold headerAt? at hat
    split at hat
    · cases hat
    rename_i hbefore
    obtain ⟨header, hheader, heq⟩ := afterHeader?_eq_some_iff.1 hat
    have hpos := List.length_pos_iff.2 hheader.ne_nil
    have hlen := congrArg List.length heq
    rw [List.length_drop, List.length_append] at hlen
    -- the brace is the last byte of the header
    have hend : p + header.length - 1 + 1 = p + header.length := by omega
    refine ⟨p + header.length - 1, ⟨by omega, ?_, (any_getLast?_take_iff hp).1 hbefore⟩, ?_⟩
    · rw [hend, List.extract_eq_take_drop, Nat.add_sub_cancel_left, heq, List.take_left]
      exact hheader
    · rw [hend, ← List.drop_drop, heq, List.drop_left]
  · rintro ⟨q, h, rfl⟩
    have hlt := h.lt_length
    have hle := h.start_le_brace
    unfold headerAt?
    rw [if_neg ((any_getLast?_take_iff (by omega)).2 h.before)]
    exact afterHeader?_eq_some_iff.2
      ⟨_, h.text, (extract_append_drop source (Nat.le_succ_of_le hle)).symm⟩

/-! ## 3. The first header -/

structure IsFirstHeader (identifier source : Bytes) (p q : Nat) : Prop
    extends IsHeaderAt identifier source p q where
  le : ∀ p' q', IsHeaderAt identifier source p' q' → p ≤ p'

/-- The first answer of the search is the first header. -/
theorem firstAt_headerAt?_iff : FirstAt (headerAt? identifier source) p rest ↔
    ∃ q, IsFirstHeader identifier source p q ∧ rest = source.drop (q + 1) := by
  rw [firstAt_iff_le]
  constructor
  · rintro ⟨hat, hle⟩
    obtain ⟨q, h, hrest⟩ := headerAt?_eq_some_iff.1 hat
    exact ⟨q, ⟨h, fun p' q' h' => hle p' _ (headerAt?_eq_some_iff.2 ⟨q', h', rfl⟩)⟩, hrest⟩
  · rintro ⟨q, h, hrest⟩
    refine ⟨headerAt?_eq_some_iff.2 ⟨q, h.toIsHeaderAt, hrest⟩, fun p' rest' hat => ?_⟩
    obtain ⟨q', h', -⟩ := headerAt?_eq_some_iff.1 hat
    exact h.le p' q' h'

theorem IsHeaderAt.unique (h : IsHeaderAt identifier source p q)
    (h' : IsHeaderAt identifier source p q') : q = q' := by
  have hat := headerAt?_eq_some_iff.2 ⟨q, h, rfl⟩
  rw [headerAt?_eq_some_iff.2 ⟨q', h', rfl⟩] at hat
  have hlen := congrArg List.length (Option.some.inj hat)
  have hlt := h.lt_length
  have hlt' := h'.lt_length
  rw [List.length_drop, List.length_drop] at hlen
  omega

/-- Where there is a header there is a first one. -/
theorem exists_isFirstHeader (h : IsHeaderAt identifier source p q) :
    ∃ p' q', IsFirstHeader identifier source p' q' := by
  obtain ⟨p', rest, hfirst⟩ := exists_firstAt (headerAt?_eq_some_iff.2 ⟨q, h, rfl⟩)
  obtain ⟨q', h', -⟩ := firstAt_headerAt?_iff.1 hfirst
  exact ⟨p', q', h'⟩

/-- The first header opens first. -/
theorem IsFirstHeader.brace_le (h : IsFirstHeader identifier source p q)
    (h' : IsHeaderAt identifier source p' q') : q ≤ q' := by
  have hle := h.le p' q' h'
  by_cases heq : p = p'
  · subst heq
    exact Nat.le_of_eq (h.toIsHeaderAt.unique h')
  · exact Nat.le_of_lt (h.toIsHeaderAt.lt_of_lt h' (by omega))

/-! ## 4. The first closing brace -/

/-- The first closing brace behind `q` stands at `r`. -/
structure IsFirstBrace (source : Bytes) (q r : Nat) : Prop where
  lt : q < r
  found : source[r]? = some (ascii '\x7d')
  before : ∀ k, q < k → k < r → source[k]? ≠ some (ascii '\x7d')

/-- The body up to the first closing brace is what lies between the two braces. -/
theorem isFirstBrace_iff (hq : q < source.length) {body : Bytes} :
    IsFirstBrace source q r ∧ body = source.extract (q + 1) r ↔
      ascii '\x7d' ∉ body ∧ ∃ rest, source.drop (q + 1) = body ++ ascii '\x7d' :: rest ∧
        r + (rest.length + 1) = source.length := by
  constructor
  · rintro ⟨hbrace, rfl⟩
    have hlt := hbrace.lt
    obtain ⟨hr, hget⟩ := List.getElem?_eq_some_iff.1 hbrace.found
    refine ⟨fun hmem => ?_, source.drop (r + 1), ?_, ?_⟩
    · obtain ⟨k, hk⟩ := List.getElem?_of_mem hmem
      have hin : k < r - (q + 1) := by
        have := (List.getElem?_eq_some_iff.1 hk).1
        rw [List.extract_eq_take_drop, List.length_take] at this
        omega
      rw [List.extract_eq_take_drop, List.getElem?_take_of_lt hin, List.getElem?_drop] at hk
      exact hbrace.before (q + 1 + k) (by omega) (by omega) hk
    · rw [← hget, ← List.drop_eq_getElem_cons hr, extract_append_drop source hlt]
    · rw [List.length_drop]
      omega
  · rintro ⟨hno, rest, hdrop, hlen⟩
    have hlength := congrArg List.length hdrop
    rw [List.length_drop, List.length_append, List.length_cons] at hlength
    have hr : r = q + 1 + body.length := by omega
    subst hr
    -- offsets in the source are offsets behind the opening brace
    have hget (k : Nat) : source[q + 1 + k]? = (body ++ ascii '\x7d' :: rest)[k]? := by
      rw [← hdrop, List.getElem?_drop]
    refine ⟨⟨by omega, ?_, fun k hk hkr hbrace => ?_⟩, ?_⟩
    · rw [hget, List.getElem?_append_right (Nat.le_refl _), Nat.sub_self]
      rfl
    · rw [show k = q + 1 + (k - (q + 1)) by omega, hget,
        List.getElem?_append_left (by omega)] at hbrace
      exact hno (List.mem_of_getElem? hbrace)
    · rw [List.extract_eq_take_drop, hdrop, Nat.add_sub_cancel_left, List.take_left]

/-- Where a closing brace follows, a first one does. -/
theorem exists_isFirstBrace (hlt : q < r) (hr : source[r]? = some (ascii '\x7d')) :
    ∃ r', IsFirstBrace source q r' := by
  obtain ⟨hlength, -⟩ := List.getElem?_eq_some_iff.1 hr
  have hmem : ascii '\x7d' ∈ source.drop (q + 1) := by
    apply List.mem_of_getElem?
    rw [List.getElem?_drop, show q + 1 + (r - (q + 1)) = r by omega, hr]
  obtain ⟨body, rest, hdrop, hno⟩ := List.eq_append_cons_of_mem hmem
  have hlen := congrArg List.length hdrop
  rw [List.length_drop, List.length_append, List.length_cons] at hlen
  have hbrace := (isFirstBrace_iff (r := source.length - (rest.length + 1)) (by omega)).2
    ⟨hno, rest, hdrop, by omega⟩
  exact ⟨_, hbrace.1⟩

/-! ## 5. The table -/

/-- The table that is found is that of the first header, up to the first closing brace. -/
theorem table?_eq_some_iff_isFirstHeader (hne : identifier ≠ []) {found : Table} :
    table? identifier source = some found ↔ ∃ q, IsFirstHeader identifier source found.start q ∧
      IsFirstBrace source q found.stop ∧ found.body = source.extract (q + 1) found.stop := by
  rw [table?_eq_some_iff, and_iff_right hne]
  constructor
  · rintro ⟨hno, rest, hfirst, hlen⟩
    obtain ⟨q, hheader, hdrop⟩ := firstAt_headerAt?_iff.1 hfirst
    exact ⟨q, hheader, (isFirstBrace_iff hheader.lt_length).2 ⟨hno, rest, hdrop.symm, hlen⟩⟩
  · rintro ⟨q, hheader, hbrace⟩
    obtain ⟨hno, rest, hdrop, hlen⟩ := (isFirstBrace_iff hheader.lt_length).1 hbrace
    exact ⟨hno, rest, firstAt_headerAt?_iff.2 ⟨q, hheader, hdrop.symm⟩, hlen⟩

def HasClosedHeader (identifier source : Bytes) : Prop :=
  ∃ p q r, IsHeaderAt identifier source p q ∧ q < r ∧ source[r]? = some (ascii '\x7d')

/-- A brace behind any header is one behind the first header. -/
theorem IsFirstHeader.hasClosedHeader_iff (h : IsFirstHeader identifier source p q) :
    HasClosedHeader identifier source ↔ ∃ r, IsFirstBrace source q r := by
  constructor
  · rintro ⟨p', q', r, h', hlt, hr⟩
    have hle := h.brace_le h'
    exact exists_isFirstBrace (Nat.lt_of_le_of_lt hle hlt) hr
  · rintro ⟨r, hbrace⟩
    exact ⟨p, q, r, h.toIsHeaderAt, hbrace.lt, hbrace.found⟩

/-- A table is found just when the first header has a closing brace behind it. -/
theorem exists_table?_eq_some_iff (hne : identifier ≠ []) :
    (∃ found, table? identifier source = some found) ↔ HasClosedHeader identifier source := by
  constructor
  · rintro ⟨found, hfound⟩
    obtain ⟨q, hheader, hbrace, -⟩ := (table?_eq_some_iff_isFirstHeader hne).1 hfound
    exact hheader.hasClosedHeader_iff.2 ⟨found.stop, hbrace⟩
  · intro hclosed
    have ⟨_, _, _, h, _, _⟩ := hclosed
    obtain ⟨p', q', hfirst⟩ := exists_isFirstHeader h
    obtain ⟨r', hbrace⟩ := hfirst.hasClosedHeader_iff.1 hclosed
    exact ⟨⟨p', r', source.extract (q' + 1) r'⟩,
      (table?_eq_some_iff_isFirstHeader hne).2 ⟨q', hfirst, hbrace, rfl⟩⟩

/-- The table is the first header with the first closing brace behind it. It is found exactly where
some header is followed by a closing brace, and then the first header is. -/
theorem table?_iff_isFirstHeader (hne : identifier ≠ []) (source : Bytes) :
    (∀ found, table? identifier source = some found ↔
      ∃ q, IsFirstHeader identifier source found.start q ∧ IsFirstBrace source q found.stop ∧
        found.body = source.extract (q + 1) found.stop) ∧
    ((∃ found, table? identifier source = some found) ↔ HasClosedHeader identifier source) ∧
    (table? identifier source = none ↔ ¬HasClosedHeader identifier source) ∧
    ∀ p q, IsFirstHeader identifier source p q →
      (HasClosedHeader identifier source ↔ ∃ r, IsFirstBrace source q r) := by
  have hsome : (∃ found, table? identifier source = some found) ↔
      HasClosedHeader identifier source := exists_table?_eq_some_iff hne
  refine ⟨fun found => table?_eq_some_iff_isFirstHeader hne, hsome, ?_,
    fun p q hfirst => hfirst.hasClosedHeader_iff⟩
  rw [← hsome, Option.eq_none_iff_forall_ne_some, not_exists]

/-- The identifier stands here four times: before a semicolon, where it overlaps the next place, and
in two headers. -/
def dashedSource : Bytes :=
  utf8 "--[] ;---[]\n= \x7bx\x7d--[]=\x7by\x7d"

theorem table?_iff_isFirstHeader_dashed : utf8 "--" ≠ [] ∧
    (∃ q, IsFirstHeader (utf8 "--") dashedSource 7 q ∧ IsFirstBrace dashedSource q 16 ∧
      utf8 "x" = dashedSource.extract (q + 1) 16) ∧
    HasClosedHeader (utf8 "--") dashedSource := by
  have hne : utf8 "--" ≠ [] := by decide
  have hfound : table? (utf8 "--") dashedSource = some ⟨7, 16, utf8 "x"⟩ := by decide +kernel
  obtain ⟨hsome, hclosed, -⟩ := table?_iff_isFirstHeader hne dashedSource
  exact ⟨hne, (hsome _).1 hfound, hclosed.1 ⟨_, hfound⟩⟩

end MemoryKit.Source
