import MemoryKit.Proofs.Checked
import MemoryKit.Proofs.Lexing

/-!
# Names by offsets

The names of a table body can also be read by one scan over its offsets, which looks for the end of
each comment and each literal and goes on behind it. Every part that is cut out of the body lies
inside it, also where a backslash is its last byte, and the names are those of the lexemes.
-/

namespace MemoryKit.Checked

open Bytes Source

variable {s body : Bytes} {quote : UInt8} {limit i j : Nat}

/-! ## 1. Literals -/

/-- One byte of a literal. A backslash takes the next byte with it, even where there is none. -/
def literalRound (body : Bytes) (quote : UInt8) (j : Nat) :
    Checked (Round Nat (Option Nat)) := do
  if body.length ≤ j then return .done none
  let b ← orFault .index body[j]?
  return if b = ascii '\\' then .again (j + 2)
    else if b = ascii '\n' then .done none
    else if b = quote then .done (some j)
    else .again (j + 1)

def literalEnd (limit : Nat) (body : Bytes) (quote : UInt8) (start : Nat) : Checked (Option Nat) :=
  loop (literalRound body quote) limit start

/-- The offset of the quote behind the content that is cut off. -/
def cutEnd (body : Bytes) (quote : UInt8) (j : Nat) : Option Nat :=
  (cutLiteral? quote (body.drop j)).map fun cut => j + cut.1.length

theorem cutLiteral?_cons (hquote : IsQuote quote) (b : UInt8) (s : Bytes) :
    cutLiteral? quote (b :: s) =
      if b = ascii '\\' then
        (cutLiteral? quote (s.drop 1)).map fun cut => (b :: (s.take 1 ++ cut.1), cut.2)
      else if b = ascii '\n' then none
      else if b = quote then some ([], s)
      else (cutLiteral? quote s).map fun cut => (b :: cut.1, cut.2) := by
  have hbackslash : quote ≠ ascii '\\' := by rcases hquote with rfl | rfl <;> decide
  have hline : quote ≠ ascii '\n' := by rcases hquote with rfl | rfl <;> decide
  cases s with
  | nil =>
    by_cases hb : b = quote
    · rw [hb, if_neg hbackslash, if_neg hline, if_pos rfl, cutLiteral?, if_pos rfl]
    · simp [cutLiteral?, hb]
  | cons c s => rfl

/-- The end of a literal is looked for byte by byte, and an escape passes two. -/
theorem cutEnd_of_lt (hquote : IsQuote quote) (hj : j < body.length) :
    cutEnd body quote j =
      if body[j] = ascii '\\' then cutEnd body quote (j + 2)
      else if body[j] = ascii '\n' then none
      else if body[j] = quote then some j
      else cutEnd body quote (j + 1) := by
  unfold cutEnd
  rw [List.drop_eq_getElem_cons hj, cutLiteral?_cons hquote, List.drop_drop]
  by_cases hbackslash : body[j] = ascii '\\'
  · rw [if_pos hbackslash, if_pos hbackslash, Option.map_map]
    cases hcut : cutLiteral? quote (body.drop (j + 1 + 1)) with
    | none => rfl
    | some cut =>
      -- something was cut off, so the backslash has a byte to take
      have hlt := length_of_cutLiteral? hcut
      rw [List.length_drop] at hlt
      have htake : ((body.drop (j + 1)).take 1).length = 1 := by
        rw [List.length_take, List.length_drop]
        omega
      simp only [Option.map_some, Function.comp_apply, List.length_cons, List.length_append, htake]
      congr 1
      omega
  · rw [if_neg hbackslash, if_neg hbackslash]
    by_cases hline : body[j] = ascii '\n'
    · rw [if_pos hline, if_pos hline, Option.map_none]
    · rw [if_neg hline, if_neg hline]
      by_cases hend : body[j] = quote
      · rw [if_pos hend, if_pos hend]
        rfl
      · rw [if_neg hend, if_neg hend, Option.map_map]
        congr 1
        funext cut
        simp only [Function.comp_apply, List.length_cons]
        omega

theorem cutEnd_of_le (quote : UInt8) (hj : body.length ≤ j) : cutEnd body quote j = none := by
  unfold cutEnd
  rw [List.drop_eq_nil_of_le hj]
  rfl

/-- Each round of the scan of a literal comes nearer to its end. -/
theorem literalRound_keeps (hquote : IsQuote quote) (body : Bytes) (j : Nat) :
    Keeps (fun _ => True) (body.length - ·) (cutEnd body quote) j (literalRound body quote j) := by
  unfold literalRound
  by_cases hj : j < body.length
  · have hanswer := cutEnd_of_lt hquote hj
    rw [if_neg (Nat.not_le.2 hj), List.getElem?_eq_getElem hj, orFault, pure_bind]
    by_cases hbackslash : body[j] = ascii '\\'
    · rw [if_pos hbackslash] at hanswer ⊢
      exact .again (j + 2) rfl trivial (by omega) hanswer.symm
    rw [if_neg hbackslash] at hanswer ⊢
    by_cases hline : body[j] = ascii '\n'
    · rw [if_pos hline] at hanswer ⊢
      exact .done (by rw [hanswer])
    rw [if_neg hline] at hanswer ⊢
    by_cases hend : body[j] = quote
    · rw [if_pos hend] at hanswer ⊢
      exact .done (by rw [hanswer])
    · rw [if_neg hend] at hanswer ⊢
      exact .again (j + 1) rfl trivial (by omega) hanswer.symm
  · have hle : body.length ≤ j := Nat.le_of_not_lt hj
    exact .done (by rw [if_pos hle, cutEnd_of_le quote hle])

theorem literalEnd_eq (hquote : IsQuote quote) (hlimit : body.length < limit) (start : Nat) :
    literalEnd limit body quote start = pure (cutEnd body quote start) :=
  loop_eq (fun j _ => literalRound_keeps hquote body j) (by omega) trivial

/-! ## 2. Names -/

def quotedName? (quote : UInt8) (content : Bytes) : Option String :=
  if quote == ascii '"' && !content.isEmpty && content.all isNameByte then
    some (asciiText content)
  else none

def literalAt (limit : Nat) (body : Bytes) (quote : UInt8) (i : Nat) :
    Checked (Option (Option String × Nat)) := do
  match ← literalEnd limit body quote (i + 1) with
  | none => return none
  | some stop => return some (quotedName? quote (← slice body (i + 1) stop), stop + 1)

def lineStop (body : Bytes) (i : Nat) : Checked Nat := do
  let place := (← tail body i).findIdx? (· == ascii '\n')
  return place.elim body.length (i + · + 1)

def blockStop (body : Bytes) (i : Nat) : Checked Nat := do
  let place ← find (← tail body (i + 2)) blockCloser
  return place.elim body.length (i + 2 + · + 2)

structure Scan where
  index : Nat
  found : List String

/-- A comment, a literal or a single byte. -/
def namesRound (limit : Nat) (body : Bytes) (scan : Scan) :
    Checked (Round Scan (List String)) := do
  let i := scan.index
  if body.length ≤ i then return .done scan.found
  let b ← orFault .index body[i]?
  if b = ascii '/' ∧ body[i + 1]? = some (ascii '/') then
    return .again { scan with index := ← lineStop body i }
  if b = ascii '/' ∧ body[i + 1]? = some (ascii '*') then
    return .again { scan with index := ← blockStop body i }
  if b = ascii '"' ∨ b = ascii '\'' then
    match ← literalAt limit body b i with
    | none => return .done scan.found
    | some (name, stop) => return .again ⟨stop, scan.found ++ name.toList⟩
  return .again { scan with index := i + 1 }

def scanNames (limit : Nat) (body : Bytes) : Checked (List String) :=
  loop (namesRound limit body) limit ⟨0, []⟩

theorem names_of_next?_eq_none (h : Lexeme.next? s = none) : names s = [] := by
  unfold names
  rw [lexemes_of_next?_eq_none h]
  rfl

theorem names_of_next?_eq_some {l : Lexeme} {after : Bytes}
    (h : Lexeme.next? s = some (l, after)) : names s = l.name?.toList ++ names after := by
  unfold names
  rw [lexemes_of_next?_eq_some h]
  cases hname : l.name? with
  | none => rw [List.filterMap_cons_none hname]; rfl
  | some name => rw [List.filterMap_cons_some hname]; rfl

/-- The names from a place on, by what is cut off there. -/
theorem names_of_next?_eq_map {cut : Option (Bytes × Bytes)} {make : Bytes → Lexeme}
    (h : Lexeme.next? s = cut.map fun (text, after) => (make text, after)) :
    names s = cut.elim [] fun cut => (make cut.1).name?.toList ++ names cut.2 := by
  cases cut with
  | none => exact names_of_next?_eq_none h
  | some cut => exact names_of_next?_eq_some h

/-- A line comment is passed over, and ends the names if it does not end itself. -/
theorem names_slashSlash (s : Bytes) : names (ascii '/' :: ascii '/' :: s) =
    (cutLine? s).elim [] fun cut => names cut.2 :=
  names_of_next?_eq_map (Lexeme.next?_slashSlash s)

/-- A block comment is passed over, and ends the names if it does not end itself. -/
theorem names_slashStar (s : Bytes) : names (ascii '/' :: ascii '*' :: s) =
    (cutBlock? s).elim [] fun cut => names cut.2 :=
  names_of_next?_eq_map (Lexeme.next?_slashStar s)

/-- A literal gives its name, if it has one, and the names behind it. -/
theorem names_quote (hquote : IsQuote quote) (s : Bytes) : names (quote :: s) =
    (cutLiteral? quote s).elim [] fun cut => (quotedName? quote cut.1).toList ++ names cut.2 := by
  rcases hquote with rfl | rfl
  · exact names_of_next?_eq_map (Lexeme.next?_doubleQuote s)
  · exact names_of_next?_eq_map (Lexeme.next?_singleQuote s)

theorem names_other {b : UInt8} (hb : ¬IsQuote b) (hno : ¬OpensComment (b :: s)) :
    names (b :: s) = names s :=
  names_of_next?_eq_some (Lexeme.next?_other hb hno)

theorem cutLine?_eq_map_findIdx? (s : Bytes) : cutLine? s =
    (s.findIdx? (· == ascii '\n')).map fun p => (s.take p, s.drop (p + 1)) := by
  induction s with
  | nil => rfl
  | cons b s ih =>
    rw [cutLine?, List.findIdx?_cons]
    by_cases hb : b = ascii '\n'
    · rw [if_pos hb, if_pos (beq_iff_eq.2 hb)]
      rfl
    · rw [if_neg hb, if_neg (by simpa using hb), ih, Option.map_map, Option.map_map]
      rfl

theorem Finds.cutBlock?_eq {place : Option Nat} (h : Finds blockCloser s place) :
    cutBlock? s = place.map fun p => (s.take p, s.drop (p + 2)) := by
  cases h with
  | nowhere hno =>
    rw [Option.map_none, Option.eq_none_iff_forall_ne_some]
    rintro ⟨text, after⟩ hcut
    obtain ⟨-, rfl⟩ := cutBlock?_eq_some_iff.1 hcut
    refine hno text.length ⟨after, ?_⟩
    rw [List.append_assoc, List.drop_left]
  | @first p hfound hbefore =>
    obtain ⟨after, hafter⟩ := hfound
    have hsplit : s = s.take p ++ blockCloser ++ after := by
      rw [List.append_assoc, hafter, List.take_append_drop]
    have hdrop : s.drop (p + 2) = after := by
      rw [← List.drop_drop, ← hafter]
      rfl
    rw [Option.map_some, hdrop]
    refine cutBlock?_eq_some_iff.2 ⟨?_, hsplit⟩
    rintro ⟨left, right, hinfix⟩
    -- a closer that ends the text early would have been found before
    have hlen := congrArg List.length hinfix
    simp only [List.length_append, List.length_take, blockCloser, List.length_cons,
      List.length_nil] at hlen
    have hleft : left ++ blockCloser <+: s := by
      have hstar : s.take p ++ [ascii '*'] <+: s := by
        conv => rhs; rw [hsplit]
        exact append_star_isPrefix (s.take p) after
      rw [← hinfix] at hstar
      exact (List.prefix_append _ right).trans hstar
    obtain ⟨rest, hrest⟩ := hleft
    refine hbefore left.length (by omega) ⟨rest, ?_⟩
    rw [← hrest, List.append_assoc, List.drop_left]

theorem drop_eq_cons_cons {b c : UInt8} (hb : body[i]? = some b) (hc : body[i + 1]? = some c) :
    body.drop i = b :: c :: body.drop (i + 2) := by
  obtain ⟨hi, rfl⟩ := List.getElem?_eq_some_iff.1 hb
  obtain ⟨hnext, rfl⟩ := List.getElem?_eq_some_iff.1 hc
  rw [List.drop_eq_getElem_cons hi, List.drop_eq_getElem_cons hnext]

theorem getElem?_of_pair_isPrefix {b c : UInt8} (h : [b, c] <+: body.drop i) :
    body[i]? = some b ∧ body[i + 1]? = some c := by
  obtain ⟨rest, hrest⟩ := h
  have hget (k : Nat) : body[i + k]? = ([b, c] ++ rest)[k]? := by rw [hrest, List.getElem?_drop]
  exact ⟨hget 0, hget 1⟩

/-- The position behind a line comment is found without a failure, and no name is lost there. -/
theorem exists_lineStop_eq (hi : i < body.length)
    (hdrop : body.drop i = ascii '/' :: ascii '/' :: body.drop (i + 2)) :
    ∃ stop, lineStop body i = pure stop ∧ i < stop ∧
      names (body.drop stop) = names (body.drop i) := by
  have hplace : (body.drop i).findIdx? (· == ascii '\n') =
      ((body.drop (i + 2)).findIdx? (· == ascii '\n')).map (· + 2) := by
    rw [hdrop, List.findIdx?_cons, if_neg (by decide), List.findIdx?_cons, if_neg (by decide),
      Option.map_map]
    rfl
  unfold lineStop
  rw [tail_eq (Nat.le_of_lt hi), pure_bind, hplace, hdrop, names_slashSlash,
    cutLine?_eq_map_findIdx?]
  cases (body.drop (i + 2)).findIdx? (· == ascii '\n') with
  | none =>
    refine ⟨body.length, rfl, hi, ?_⟩
    rw [List.drop_length]
    exact names_of_next?_eq_none rfl
  | some p =>
    refine ⟨i + (p + 2) + 1, rfl, by omega, ?_⟩
    show names (body.drop (i + (p + 2) + 1)) = names ((body.drop (i + 2)).drop (p + 1))
    rw [List.drop_drop, show i + (p + 2) + 1 = i + 2 + (p + 1) by omega]

/-- The position behind a block comment is found without a failure, and no name is lost there. -/
theorem exists_blockStop_eq (hi : i + 1 < body.length)
    (hdrop : body.drop i = ascii '/' :: ascii '*' :: body.drop (i + 2)) :
    ∃ stop, blockStop body i = pure stop ∧ i < stop ∧
      names (body.drop stop) = names (body.drop i) := by
  have hcloser : blockCloser ≠ [] := List.cons_ne_nil _ _
  obtain ⟨place, hfind, hplace⟩ := exists_find_eq (body.drop (i + 2)) hcloser
  unfold blockStop
  rw [tail_eq (by omega), pure_bind, hfind, pure_bind, hdrop, names_slashStar, hplace.cutBlock?_eq]
  cases place with
  | none =>
    refine ⟨body.length, rfl, by omega, ?_⟩
    rw [List.drop_length]
    exact names_of_next?_eq_none rfl
  | some p =>
    refine ⟨i + 2 + p + 2, rfl, by omega, ?_⟩
    show names (body.drop (i + 2 + p + 2)) = names ((body.drop (i + 2)).drop (p + 2))
    rw [List.drop_drop, Nat.add_assoc (i + 2)]

/-- A literal either has no end, and no name follows, or gives its name and the position behind
it. -/
theorem literalAt_eq (hquote : IsQuote quote) (hlimit : body.length < limit)
    (hdrop : body.drop i = quote :: body.drop (i + 1)) :
    (literalAt limit body quote i = pure none ∧ names (body.drop i) = []) ∨
    ∃ name stop, literalAt limit body quote i = pure (some (name, stop)) ∧ i < stop ∧
      names (body.drop i) = name.toList ++ names (body.drop stop) := by
  unfold literalAt
  rw [literalEnd_eq hquote hlimit, cutEnd, pure_bind, hdrop, names_quote hquote]
  cases hcut : cutLiteral? quote (body.drop (i + 1)) with
  | none => exact Or.inl ⟨rfl, rfl⟩
  | some cut =>
    obtain ⟨-, hsplit⟩ := (cutLiteral?_eq_some_iff hquote).1 hcut
    have hlen := congrArg List.length hsplit
    rw [List.length_drop, List.length_append, List.length_cons] at hlen
    have hcontent : body.extract (i + 1) (i + 1 + cut.1.length) = cut.1 := by
      rw [List.extract_eq_take_drop, hsplit, Nat.add_sub_cancel_left, List.take_left]
    have hbehind : body.drop (i + 1 + cut.1.length + 1) = cut.2 := by
      rw [Nat.add_assoc, ← List.drop_drop, hsplit, ← List.drop_drop, List.drop_left]
      rfl
    refine Or.inr ⟨quotedName? quote cut.1, i + 1 + cut.1.length + 1, ?_, by omega, ?_⟩
    · simp only [Option.map_some]
      rw [slice_eq (by omega) (by omega), pure_bind, hcontent]
    · rw [hbehind]
      rfl

/-- The names found and those still to come, which every round of a scan keeps. -/
def Scan.names (body : Bytes) (scan : Scan) : List String :=
  scan.found ++ Source.names (body.drop scan.index)

/-- Each round of the scan goes forward and keeps the names found and those to come. -/
theorem namesRound_keeps (hlimit : body.length < limit) (scan : Scan) :
    Keeps (fun _ => True) (body.length - ·.index) (Scan.names body) scan
      (namesRound limit body scan) := by
  obtain ⟨i, found⟩ := scan
  unfold namesRound
  simp only
  by_cases hi : i < body.length
  · have hdrop : body.drop i = body[i] :: body.drop (i + 1) := List.drop_eq_getElem_cons hi
    have hat {b : UInt8} (hb : body[i] = b) : body[i]? = some b :=
      List.getElem?_eq_some_iff.2 ⟨hi, hb⟩
    rw [if_neg (Nat.not_le.2 hi), hat rfl, orFault, pure_bind]
    -- the cases of the round, in its order; the last one needs that no comment begins here
    by_cases hline : body[i] = ascii '/' ∧ body[i + 1]? = some (ascii '/')
    · obtain ⟨stop, hstop, hlt, hnames⟩ :=
        exists_lineStop_eq hi (drop_eq_cons_cons (hat hline.1) hline.2)
      rw [if_pos hline, hstop, pure_bind]
      exact .again ⟨stop, found⟩ rfl trivial (Nat.sub_lt_sub_left hi hlt)
        (congrArg (found ++ ·) hnames)
    rw [if_neg hline]
    by_cases hblock : body[i] = ascii '/' ∧ body[i + 1]? = some (ascii '*')
    · have hnext : i + 1 < body.length := (List.getElem?_eq_some_iff.1 hblock.2).1
      obtain ⟨stop, hstop, hlt, hnames⟩ :=
        exists_blockStop_eq hnext (drop_eq_cons_cons (hat hblock.1) hblock.2)
      rw [if_pos hblock, hstop, pure_bind]
      exact .again ⟨stop, found⟩ rfl trivial (Nat.sub_lt_sub_left hi hlt)
        (congrArg (found ++ ·) hnames)
    rw [if_neg hblock]
    by_cases hquote : body[i] = ascii '"' ∨ body[i] = ascii '\''
    · rw [if_pos hquote]
      rcases literalAt_eq hquote hlimit hdrop with
        ⟨hnone, hnames⟩ | ⟨name, stop, hsome, hlt, hnames⟩
      · refine .done ?_
        rw [hnone, pure_bind, Scan.names, hnames, List.append_nil]
      · rw [hsome, pure_bind]
        refine .again ⟨stop, found ++ name.toList⟩ rfl trivial (Nat.sub_lt_sub_left hi hlt) ?_
        rw [Scan.names, Scan.names, hnames, List.append_assoc]
    · rw [if_neg hquote]
      have hother : ¬OpensComment (body.drop i) := by
        rintro (hopens | hopens)
        · obtain ⟨hb, hc⟩ := getElem?_of_pair_isPrefix hopens
          exact hline ⟨Option.some.inj ((hat rfl).symm.trans hb), hc⟩
        · obtain ⟨hb, hc⟩ := getElem?_of_pair_isPrefix hopens
          exact hblock ⟨Option.some.inj ((hat rfl).symm.trans hb), hc⟩
      refine .again ⟨i + 1, found⟩ rfl trivial (Nat.sub_lt_sub_left hi (Nat.lt_succ_self i)) ?_
      rw [hdrop] at hother
      rw [Scan.names, Scan.names, hdrop, names_other hquote hother]
  · have hle : body.length ≤ i := Nat.le_of_not_lt hi
    refine .done ?_
    rw [if_pos hle, Scan.names, List.drop_eq_nil_of_le hle, names_of_next?_eq_none rfl,
      List.append_nil]

/-- The scan for names does not fail. -/
theorem scanNames_eq (hlimit : body.length < limit) :
    scanNames limit body = pure (names body) :=
  loop_eq (fun scan _ => namesRound_keeps hlimit scan) hlimit trivial

end MemoryKit.Checked
