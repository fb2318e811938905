import MemoryKit.Proofs.Search
import MemoryKit.Source.Table

/-!
# Where tables stand

The search for a table is described by the headers at its offsets. A header is read without regard
to what follows its brace, and it cannot run across a line end into a byte that is no blank, equals
sign or brace. So a source can be cut at such a place and searched part by part.
-/

namespace MemoryKit.Source

open Bytes

variable {identifier s t u v rest : Bytes} {p q : Nat}

/-! ## 1. The text of a header -/

theorem isIdentifierByte_of_isBlankByte {b : UInt8} (hb : isBlankByte b) :
    isIdentifierByte b = false := by
  simp only [isBlankByte, Bool.or_eq_true, beq_iff_eq] at hb
  rcases hb with (((rfl | rfl) | rfl) | rfl) | rfl <;> decide

/-- A header from the first byte of the identifier through the opening brace. -/
def IsHeader (identifier h : Bytes) : Prop :=
  ∃ left right, (∀ b ∈ left, isBlankByte b) ∧ (∀ b ∈ right, isBlankByte b) ∧
    h = identifier ++ [ascii '[', ascii ']'] ++ (left ++ [ascii '='] ++ right ++ [ascii '\x7b'])

theorem skipBlank_append {blanks : Bytes} (hb : ∀ b ∈ blanks, isBlankByte b) {c : UInt8}
    (hc : isBlankByte c = false) : skipBlank (blanks ++ c :: rest) = c :: rest := by
  unfold skipBlank
  rw [List.dropWhile_append_of_pos hb, List.dropWhile_cons_of_neg (by rw [hc]; decide)]

/-- What is skipped is blank. -/
theorem exists_blanks_append_skipBlank (s : Bytes) :
    ∃ blanks, (∀ b ∈ blanks, isBlankByte b) ∧ s = blanks ++ skipBlank s :=
  ⟨s.takeWhile isBlankByte, List.all_eq_true.1 List.all_takeWhile,
    List.takeWhile_append_dropWhile.symm⟩

/-- What follows a header is found just when the text begins with one. -/
theorem afterHeader?_eq_some_iff :
    afterHeader? identifier s = some rest ↔ ∃ h, IsHeader identifier h ∧ s = h ++ rest := by
  constructor
  · intro h
    unfold afterHeader? at h
    simp only [Option.bind_eq_some_iff, after?_eq_some_iff] at h
    obtain ⟨_, rfl, s₂, rfl, s₃, hleft, hright⟩ := h
    obtain ⟨left, hl, hs₂⟩ := exists_blanks_append_skipBlank s₂
    obtain ⟨right, hr, hs₃⟩ := exists_blanks_append_skipBlank s₃
    rw [hright] at hs₃
    rw [hs₃] at hleft
    rw [hleft] at hs₂
    refine ⟨_, ⟨left, right, hl, hr, rfl⟩, ?_⟩
    rw [hs₂]
    simp only [List.append_assoc]
  · rintro ⟨_, ⟨left, right, hl, hr, rfl⟩, rfl⟩
    unfold afterHeader?
    simp only [Option.bind_eq_some_iff, after?_eq_some_iff, List.append_assoc]
    refine ⟨_, rfl, _, rfl, right ++ ([ascii '\x7b'] ++ rest), ?_, ?_⟩
    · exact skipBlank_append hl (by decide)
    · exact skipBlank_append hr (by decide)

/-- A header does not depend on what follows it. -/
theorem afterHeader?_append (h : afterHeader? identifier s = some rest) (v : Bytes) :
    afterHeader? identifier (s ++ v) = some (rest ++ v) := by
  obtain ⟨header, hheader, rfl⟩ := afterHeader?_eq_some_iff.1 h
  exact afterHeader?_eq_some_iff.2 ⟨header, hheader, List.append_assoc _ _ _⟩

theorem afterHeader?_nil : afterHeader? identifier [] = none := by
  cases h : afterHeader? identifier [] with
  | none => rfl
  | some rest =>
    obtain ⟨_, ⟨left, right, _, _, rfl⟩, hnil⟩ := afterHeader?_eq_some_iff.1 h
    simp at hnil

namespace IsHeader

variable {h : Bytes} (hid : ∀ b ∈ identifier, isIdentifierByte b)

include hid in
/-- The bytes a header is made of. -/
theorem mem (hh : IsHeader identifier h) {b : UInt8} (hb : b ∈ h) :
    isIdentifierByte b ∨ isBlankByte b ∨
      b ∈ [ascii '[', ascii ']', ascii '=', ascii '\x7b'] := by
  obtain ⟨left, right, hl, hr, rfl⟩ := hh
  simp only [List.mem_append, List.mem_cons, List.not_mem_nil, or_false] at hb ⊢
  rcases hb with (hb | hb | hb) | ((hb | hb) | hb) | hb
  · exact Or.inl (hid b hb)
  · exact Or.inr (Or.inr (Or.inl hb))
  · exact Or.inr (Or.inr (Or.inr (Or.inl hb)))
  · exact Or.inr (Or.inl (hl b hb))
  · exact Or.inr (Or.inr (Or.inr (Or.inr (Or.inl hb))))
  · exact Or.inr (Or.inl (hr b hb))
  · exact Or.inr (Or.inr (Or.inr (Or.inr (Or.inr hb))))

include hid in
theorem brace_not_mem (hh : IsHeader identifier h) : ascii '\x7d' ∉ h := by
  intro hb
  have := hh.mem hid hb
  revert this
  decide

include hid in
/-- A header begins with a byte of its identifier, where that is not empty. -/
theorem head?_eq (hne : identifier ≠ []) (hh : IsHeader identifier h) :
    ∃ b, h.head? = some b ∧ isIdentifierByte b := by
  obtain ⟨left, right, -, -, rfl⟩ := hh
  cases identifier with
  | nil => exact absurd rfl hne
  | cons b bs => exact ⟨b, rfl, hid b List.mem_cons_self⟩

include hid in
/-- After a blank a header goes on with a blank, the equals sign or the brace. -/
theorem next_of_blank {x c : UInt8} (hx : isBlankByte x)
    (hh : IsHeader identifier (u ++ [x] ++ c :: v)) :
    isBlankByte c ∨ c = ascii '=' ∨ c = ascii '\x7b' := by
  obtain ⟨left, right, hl, hr, heq⟩ := hh
  -- the blank stands after the brackets, so what follows it does too
  rcases List.append_eq_append_iff.1 heq with ⟨w, hw, -⟩ | ⟨w, -, hw⟩
  · have hmem : x ∈ identifier ++ [ascii '[', ascii ']'] := by rw [hw]; simp
    rw [List.mem_append] at hmem
    rcases hmem with hmem | hmem
    · have := hid x hmem
      rw [isIdentifierByte_of_isBlankByte hx] at this
      exact absurd this (by decide)
    · simp only [List.mem_cons, List.not_mem_nil, or_false] at hmem
      rcases hmem with rfl | rfl <;> exact absurd hx (by decide)
  · have hmem : c ∈ left ++ [ascii '='] ++ right ++ [ascii '\x7b'] := by rw [hw]; simp
    simp only [List.mem_append, List.mem_cons, List.not_mem_nil, or_false] at hmem
    rcases hmem with ((hmem | rfl) | hmem) | rfl
    · exact Or.inl (hl c hmem)
    · exact Or.inr (Or.inl rfl)
    · exact Or.inl (hr c hmem)
    · exact Or.inr (Or.inr rfl)

end IsHeader

/-! ## 2. Headers by offset -/

/-- What follows the header at an offset. A header does not begin after a byte that could be part
of its identifier. -/
def headerAt? (identifier source : Bytes) (p : Nat) : Option Bytes :=
  if (source.take p).getLast?.any isIdentifierByte then none
  else afterHeader? identifier (source.drop p)

theorem headerAt?_length (identifier u v : Bytes) :
    headerAt? identifier (u ++ v) u.length =
      if u.getLast?.any isIdentifierByte then none else afterHeader? identifier v := by
  unfold headerAt?
  rw [List.take_left, List.drop_left]

theorem headerAt?_eq_none_of_le (h : u.length ≤ p) : headerAt? identifier u p = none := by
  unfold headerAt?
  rw [List.drop_eq_nil_of_le h, afterHeader?_nil, ite_self]

/-- The search from an offset on, where no header stands before it. -/
theorem firstHeader?_append_eq_some_iff
    (hnone : ∀ q < u.length, headerAt? identifier (u ++ s) q = none) :
    firstHeader? identifier u.length u.getLast? s = some (p, rest) ↔
      FirstAt (headerAt? identifier (u ++ s)) p rest := by
  induction s generalizing u with
  | nil =>
    refine iff_of_false (by simp [firstHeader?]) fun h => ?_
    have hall : headerAt? identifier (u ++ []) p = none := by
      rcases Nat.lt_or_ge p u.length with hlt | hge
      · exact hnone p hlt
      · exact headerAt?_eq_none_of_le (by rwa [List.append_nil])
    rw [h.found] at hall
    cases hall
  | cons b s ih =>
    have hsnoc : u ++ b :: s = (u ++ [b]) ++ s := by simp
    have hat := headerAt?_length identifier u (b :: s)
    -- where no header begins at `b`, the search goes on with one more byte behind it
    have hstep (hat : headerAt? identifier (u ++ b :: s) u.length = none) :
        firstHeader? identifier (u.length + 1) (some b) s = some (p, rest) ↔
          FirstAt (headerAt? identifier (u ++ b :: s)) p rest := by
      have hlast : (u ++ [b]).getLast? = some b := by simp
      rw [hsnoc] at hnone hat ⊢
      rw [← ih, hlast, List.length_append, List.length_singleton]
      intro q hq
      rw [List.length_append, List.length_singleton] at hq
      rcases Nat.lt_or_ge q u.length with hlt | hge
      · exact hnone q hlt
      · rw [show q = u.length by omega]
        exact hat
    rw [firstHeader?]
    by_cases hbefore : u.getLast?.any isIdentifierByte
    · -- the byte before could be part of the identifier
      rw [if_pos hbefore] at hat ⊢
      exact hstep hat
    · rw [if_neg hbefore] at hat ⊢
      cases hhere : afterHeader? identifier (b :: s) with
      | none =>
        rw [hhere] at hat
        exact hstep hat
      | some after =>
        rw [hhere] at hat
        have hfirst : FirstAt (headerAt? identifier (u ++ b :: s)) u.length after := ⟨hat, hnone⟩
        constructor
        · intro h
          obtain ⟨rfl, rfl⟩ := Prod.mk.inj (Option.some.inj h)
          exact hfirst
        · intro h
          obtain ⟨rfl, rfl⟩ := hfirst.unique h
          rfl

/-- The search stops at the first place that holds a header. -/
theorem firstHeader?_eq_some_iff {source : Bytes} :
    firstHeader? identifier 0 none source = some (p, rest) ↔
      FirstAt (headerAt? identifier source) p rest :=
  firstHeader?_append_eq_some_iff (u := []) fun _ hq => absurd hq (Nat.not_lt_zero _)

/-! ## 3. Headers in a part of a source -/

theorem headerAt?_append (h : headerAt? identifier u p = some rest) (v : Bytes) :
    headerAt? identifier (u ++ v) p = some (rest ++ v) := by
  have hlt : p < u.length := by
    rcases Nat.lt_or_ge p u.length with hlt | hge
    · exact hlt
    · rw [headerAt?_eq_none_of_le hge] at h
      cases h
  unfold headerAt? at h ⊢
  rw [List.take_append_of_le_length (Nat.le_of_lt hlt),
    List.drop_append_of_le_length (Nat.le_of_lt hlt)]
  split at h
  · cases h
  · rw [if_neg ‹_›]
    exact afterHeader?_append h v

/-- Behind the first byte of the right part only the right part counts. -/
theorem headerAt?_length_add (hstart : headerAt? identifier (u ++ v) u.length =
    headerAt? identifier v 0) (q : Nat) :
    headerAt? identifier (u ++ v) (u.length + q) = headerAt? identifier v q := by
  cases q with
  | zero => exact hstart
  | succ q =>
    cases v with
    | nil =>
      rw [headerAt?_eq_none_of_le (by rw [List.append_nil]; omega),
        headerAt?_eq_none_of_le (Nat.zero_le _)]
    | cons b v =>
      unfold headerAt?
      rw [List.take_length_add_append, List.drop_length_add_append, List.getLast?_append,
        List.take_succ_cons, Option.or_of_isSome (by simp)]

/-- A place that no header runs across. -/
structure Seam (u v : Bytes) : Prop where
  blank : ∃ b, u.getLast? = some b ∧ isBlankByte b
  noBlank : ∃ b, v.head? = some b ∧ ¬(isBlankByte b ∨ b = ascii '=' ∨ b = ascii '\x7b')

namespace Seam

theorem headerAt?_length_eq (h : Seam u v) :
    headerAt? identifier (u ++ v) u.length = headerAt? identifier v 0 := by
  obtain ⟨b, hb, hblank⟩ := h.blank
  rw [headerAt?_length, hb, Option.any_some, isIdentifierByte_of_isBlankByte hblank]
  rfl

theorem drop (h : Seam u v) (hp : p < u.length) : Seam (u.drop p) v where
  blank := by
    obtain ⟨b, hb, hblank⟩ := h.blank
    exact ⟨b, by rw [List.getLast?_drop, if_neg (Nat.not_le.2 hp), hb], hblank⟩
  noBlank := h.noBlank

theorem append (h : Seam u v) (w : Bytes) : Seam u (v ++ w) where
  blank := h.blank
  noBlank := by
    obtain ⟨b, hb, hno⟩ := h.noBlank
    exact ⟨b, by rw [List.head?_append, hb, Option.some_or], hno⟩

variable (hid : ∀ b ∈ identifier, isIdentifierByte b)

include hid in
/-- A header does not reach across a seam. -/
theorem afterHeader?_append (h : Seam u v) :
    afterHeader? identifier (u ++ v) = (afterHeader? identifier u).map (· ++ v) := by
  cases hu : afterHeader? identifier u with
  | some rest => exact Source.afterHeader?_append hu v
  | none =>
    cases huv : afterHeader? identifier (u ++ v) with
    | none => rfl
    | some rest =>
      exfalso
      obtain ⟨header, hheader, heq⟩ := afterHeader?_eq_some_iff.1 huv
      rcases List.append_eq_append_iff.1 heq with ⟨w, hw, hv⟩ | ⟨w, hw, hv⟩
      · -- the header ends behind the seam
        cases w with
        | nil =>
          rw [List.append_nil] at hw
          have : afterHeader? identifier u = some [] :=
            afterHeader?_eq_some_iff.2 ⟨header, hheader, by rw [hw, List.append_nil]⟩
          rw [hu] at this
          cases this
        | cons c w =>
          obtain ⟨b, hb, hblank⟩ := h.blank
          obtain ⟨u', rfl⟩ := List.getLast?_eq_some_iff.1 hb
          obtain ⟨c', hc', hno⟩ := h.noBlank
          rw [hv] at hc'
          obtain rfl := Option.some.inj hc'
          rw [hw] at hheader
          exact hno (hheader.next_of_blank hid hblank)
      · have : afterHeader? identifier u = some w :=
          afterHeader?_eq_some_iff.2 ⟨header, hheader, hw⟩
        rw [hu] at this
        cases this

include hid in
/-- Across a seam a header is found on the left side alone. -/
theorem headerAt?_append (h : Seam u v) (hp : p < u.length) :
    headerAt? identifier (u ++ v) p = (headerAt? identifier u p).map (· ++ v) := by
  unfold headerAt?
  rw [List.take_append_of_le_length (Nat.le_of_lt hp),
    List.drop_append_of_le_length (Nat.le_of_lt hp),
    (h.drop hp).afterHeader?_append hid]
  split <;> rfl

end Seam

/-! ## 4. Tables -/

/-- A header that is found stands at its place. -/
theorem exists_header_of_headerAt? (h : headerAt? identifier s p = some rest) :
    ∃ header, IsHeader identifier header ∧ s.drop p = header ++ rest := by
  unfold headerAt? at h
  split at h
  · cases h
  · exact afterHeader?_eq_some_iff.1 h

theorem length_le_of_headerAt? (h : headerAt? identifier s p = some rest) :
    p + rest.length ≤ s.length := by
  have hp : p ≤ s.length := by
    rcases Nat.lt_or_ge s.length p with hlt | hge
    · rw [headerAt?_eq_none_of_le (Nat.le_of_lt hlt)] at h
      cases h
    · exact hge
  obtain ⟨header, -, heq⟩ := exists_header_of_headerAt? h
  have hlen := congrArg List.length heq
  rw [List.length_append, List.length_drop] at hlen
  omega

/-- A header of a source is one of its left part, where the right part stands behind it. -/
theorem headerAt?_of_append (h : headerAt? identifier (u ++ v) p = some rest)
    (hlen : v.length ≤ rest.length) :
    ∃ rest', rest = rest' ++ v ∧ headerAt? identifier u p = some rest' := by
  have hle := length_le_of_headerAt? h
  rw [List.length_append] at hle
  unfold headerAt? at h ⊢
  rw [List.take_append_of_le_length (by omega), List.drop_append_of_le_length (by omega)] at h
  split at h
  · cases h
  · rename_i hbefore
    obtain ⟨header, hheader, heq⟩ := afterHeader?_eq_some_iff.1 h
    obtain ⟨rest', rfl⟩ : v <:+ rest :=
      List.suffix_of_suffix_length_le ⟨u.drop p, heq⟩ ⟨header, rfl⟩ hlen
    rw [← List.append_assoc] at heq
    refine ⟨rest', rfl, ?_⟩
    rw [if_neg hbefore]
    exact afterHeader?_eq_some_iff.2 ⟨header, hheader, List.append_cancel_right heq⟩

theorem beforeBrace?_eq_some_iff {body : Bytes} :
    beforeBrace? s = some body ↔
      ascii '\x7d' ∉ body ∧ ∃ rest, s = body ++ ascii '\x7d' :: rest := by
  unfold beforeBrace?
  constructor
  · intro h
    split at h
    · rename_i hmem
      obtain rfl := Option.some.inj h
      refine ⟨fun hb => absurd (List.all_eq_true.1 List.all_takeWhile _ hb) (by decide), ?_⟩
      have hsplit := List.takeWhile_append_dropWhile (p := (· != ascii '\x7d')) (l := s)
      cases hdrop : s.dropWhile (· != ascii '\x7d') with
      | nil =>
        rw [hdrop, List.append_nil] at hsplit
        rw [← hsplit, List.contains_iff_mem] at hmem
        -- nothing was cut off, but there is a brace
        exact absurd (List.all_eq_true.1 List.all_takeWhile _ hmem) (by decide)
      | cons b rest =>
        have hb := List.head?_dropWhile_not (· != ascii '\x7d') s
        rw [hdrop, List.head?_cons] at hb
        obtain rfl : b = ascii '\x7d' := by simpa using hb
        exact ⟨rest, by rw [← hdrop, hsplit]⟩
    · cases h
  · rintro ⟨hbody, rest, rfl⟩
    rw [if_pos (by simp), List.takeWhile_append_of_pos, List.takeWhile_cons_of_neg (by simp),
      List.append_nil]
    intro b hb
    rw [bne_iff_ne]
    rintro rfl
    exact hbody hb

/-- A table is the first header together with the first closing brace after it. -/
theorem table?_eq_some_iff {source : Bytes} {found : Table} :
    table? identifier source = some found ↔ identifier ≠ [] ∧ ascii '\x7d' ∉ found.body ∧
      ∃ rest, FirstAt (headerAt? identifier source) found.start
          (found.body ++ ascii '\x7d' :: rest) ∧
        found.stop + (rest.length + 1) = source.length := by
  unfold table?
  by_cases hne : identifier = []
  · simp [hne]
  rw [if_neg (by rwa [List.isEmpty_iff])]
  constructor
  · intro h
    obtain ⟨⟨start, after⟩, hfirst, h⟩ := Option.bind_eq_some_iff.1 h
    obtain ⟨body, hbody, rfl⟩ := Option.map_eq_some_iff.1 h
    obtain ⟨hbrace, rest, rfl⟩ := beforeBrace?_eq_some_iff.1 hbody
    have hfirst := firstHeader?_eq_some_iff.1 hfirst
    -- the offset of the brace is counted from the end, so the lengths have to fit
    have hlen := length_le_of_headerAt? hfirst.found
    rw [List.length_append, List.length_cons] at hlen
    refine ⟨hne, hbrace, rest, hfirst, ?_⟩
    simp only [List.length_append, List.length_cons]
    omega
  · rintro ⟨-, hbrace, rest, hfirst, hstop⟩
    have hlen := length_le_of_headerAt? hfirst.found
    rw [List.length_append, List.length_cons] at hlen
    have hbody := beforeBrace?_eq_some_iff.2 ⟨hbrace, rest, rfl⟩
    simp only [firstHeader?_eq_some_iff.2 hfirst, Option.bind_some, hbody, Option.map_some,
      List.length_append, List.length_cons]
    cases found
    congr
    simp only at hstop hlen ⊢
    omega

/-- A table begins with a byte of its identifier. -/
theorem exists_getElem?_start (hid : ∀ b ∈ identifier, isIdentifierByte b) {source : Bytes}
    {found : Table} (h : table? identifier source = some found) :
    ∃ b, source[found.start]? = some b ∧ isIdentifierByte b := by
  obtain ⟨hne, -, rest, hfirst, -⟩ := table?_eq_some_iff.1 h
  obtain ⟨header, hheader, heq⟩ := exists_header_of_headerAt? hfirst.found
  obtain ⟨b, hb, hidentifier⟩ := hheader.head?_eq hid hne
  refine ⟨b, ?_, hidentifier⟩
  rw [← List.head?_drop, heq, List.head?_append, hb, Option.some_or]

/-- No closing brace stands between the start of a table and the one that ends it. -/
theorem Table.stop_le_of_getElem? (hid : ∀ b ∈ identifier, isIdentifierByte b) {source : Bytes}
    {found : Table} (h : table? identifier source = some found) {k : Nat}
    (hstart : found.start ≤ k) (hk : source[k]? = some (ascii '\x7d')) : found.stop ≤ k := by
  obtain ⟨-, hbrace, rest, hfirst, hstop⟩ := table?_eq_some_iff.1 h
  obtain ⟨header, hheader, heq⟩ := exists_header_of_headerAt? hfirst.found
  obtain ⟨i, rfl⟩ := Nat.exists_eq_add_of_le hstart
  rw [← List.getElem?_drop, heq, ← List.append_assoc] at hk
  have hlen := congrArg List.length heq
  rw [List.length_drop, List.length_append, List.length_append, List.length_cons] at hlen
  rcases Nat.lt_or_ge i (header ++ found.body).length with hlt | hge
  · rw [List.getElem?_append_left hlt] at hk
    rcases List.mem_append.1 (List.mem_of_getElem? hk) with hmem | hmem
    · exact absurd hmem (hheader.brace_not_mem hid)
    · exact absurd hmem hbrace
  · rw [List.length_append] at hge
    omega

/-- A table that ends in the left part of a source is the table of that part. -/
theorem table?_of_append {found : Table} (h : table? identifier (u ++ v) = some found)
    (hstop : found.stop < u.length) : table? identifier u = some found := by
  obtain ⟨hne, hbrace, rest, hfirst, hlen⟩ := table?_eq_some_iff.1 h
  rw [List.length_append] at hlen
  have hfound := hfirst.found
  obtain ⟨after, hafter, hheader⟩ := headerAt?_of_append hfound (by
    rw [List.length_append, List.length_cons]
    omega)
  -- the right part ends the bytes after the closing brace
  have hsuffix : v <:+ rest :=
    List.suffix_of_suffix_length_le ⟨after, hafter.symm⟩
      ⟨found.body ++ [ascii '\x7d'], by simp⟩ (by omega)
  obtain ⟨rest', rfl⟩ := hsuffix
  have hafter' : after = found.body ++ ascii '\x7d' :: rest' := by
    apply (List.append_left_inj v).1
    rw [← hafter, List.append_assoc, List.cons_append]
  subst hafter'
  rw [List.length_append] at hlen
  refine table?_eq_some_iff.2 ⟨hne, hbrace, rest', ⟨hheader, fun q hq => ?_⟩, by omega⟩
  cases hq' : headerAt? identifier u q with
  | none => rfl
  | some w =>
    have := hfirst.before q hq
    rw [headerAt?_append hq' v] at this
    cases this

/-- A table of the left part of a source is found whatever stands behind a seam. -/
theorem Seam.table?_append (hid : ∀ b ∈ identifier, isIdentifierByte b) (hseam : Seam u v)
    {found : Table} (h : table? identifier u = some found) :
    table? identifier (u ++ v) = some found := by
  obtain ⟨hne, hbrace, rest, hfirst, hlen⟩ := table?_eq_some_iff.1 h
  have hlt := length_le_of_headerAt? hfirst.found
  rw [List.length_append, List.length_cons] at hlt
  refine table?_eq_some_iff.2 ⟨hne, hbrace, rest ++ v, ⟨?_, fun q hq => ?_⟩, ?_⟩
  · rw [Source.headerAt?_append hfirst.found, List.append_assoc, List.cons_append]
  · rw [hseam.headerAt?_append hid (by omega), hfirst.before q hq, Option.map_none]
  · rw [List.length_append, List.length_append]
    omega

/-- The table found `n` bytes further on. -/
def Table.shift (n : Nat) (found : Table) : Table :=
  { found with start := n + found.start, stop := n + found.stop }

theorem Table.shift_comp_shift (m n : Nat) :
    Table.shift m ∘ Table.shift n = Table.shift (m + n) := by
  funext found
  simp only [Function.comp_apply, Table.shift, Nat.add_assoc]

/-- Where no header begins in the left part of a source, the table is that of the right part. -/
theorem table?_append_right (hnone : ∀ q < u.length, headerAt? identifier (u ++ v) q = none)
    (hstart : headerAt? identifier (u ++ v) u.length = headerAt? identifier v 0) :
    table? identifier (u ++ v) = (table? identifier v).map (Table.shift u.length) := by
  have hshift (p : Nat) (rest : Bytes) :=
    firstAt_add_iff (p := p) (a := rest) hnone (headerAt?_length_add hstart)
  apply Option.ext
  intro found
  rw [Option.map_eq_some_iff]
  constructor
  · intro h
    obtain ⟨hne, hbrace, rest, hfirst, hlen⟩ := table?_eq_some_iff.1 h
    rw [List.length_append] at hlen
    -- no header begins in `u`
    have hge : u.length ≤ found.start := by
      rcases Nat.lt_or_ge found.start u.length with hlt | hge
      · have := hfirst.found
        rw [hnone _ hlt] at this
        cases this
      · exact hge
    obtain ⟨start, hstart⟩ := Nat.exists_eq_add_of_le hge
    rw [hstart] at hfirst
    have hfirst := (hshift _ _).1 hfirst
    have hle := length_le_of_headerAt? hfirst.found
    rw [List.length_append, List.length_cons] at hle
    refine ⟨⟨start, found.stop - u.length, found.body⟩, ?_, ?_⟩
    · exact table?_eq_some_iff.2 ⟨hne, hbrace, rest, hfirst, by show _ - _ + _ = _; omega⟩
    · cases found
      simp only [Table.shift, Table.mk.injEq, and_true] at hstart hlen ⊢
      omega
  · rintro ⟨found, h, rfl⟩
    obtain ⟨hne, hbrace, rest, hfirst, hlen⟩ := table?_eq_some_iff.1 h
    refine table?_eq_some_iff.2 ⟨hne, hbrace, rest, (hshift _ _).2 hfirst, ?_⟩
    rw [List.length_append]
    show u.length + found.stop + (rest.length + 1) = u.length + v.length
    omega

end MemoryKit.Source
