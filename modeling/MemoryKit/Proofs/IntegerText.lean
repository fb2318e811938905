import Mathlib.Data.List.Forall2
import Mathlib.Data.List.Induction
import Mathlib.Data.Nat.Digits.Defs
import MemoryKit.Proofs.Ascii
import MemoryKit.Proofs.Numeral

/-!
# The texts of integers

The texts that denote an integer, and the integer each one denotes, are given here by a grammar: a
sign, the mark of a base, and the digits of a number in that base. The reader accepts exactly these
texts with blanks around them. It can do so in numbers of one hundred and twenty-eight bits, where
no step is lost to an overflow that the magnitude of the text does not account for.
-/

namespace MemoryKit.Number

variable {base n : Nat} {digits : List Char} {text : String}

/-! ## 1. The grammar -/

/-- The character stands for a digit of a base up to sixteen; letters may be in either case. -/
def IsDigit (base : Nat) (c : Char) (d : Nat) : Prop :=
  d < base ∧ (c = d.digitChar ∨ c = d.digitChar.toUpper)

/-- The digits denote a number, the last one its units. -/
def Denotes (base : Nat) (digits : List Char) (n : Nat) : Prop :=
  ∃ values, List.Forall₂ (IsDigit base) digits.reverse values ∧ n = Nat.ofDigits base values

/-- At most one sign, and whether it is a minus. -/
inductive IsSign : List Char → Bool → Prop
  | absent : IsSign [] false
  | plus : IsSign ['+'] false
  | minus : IsSign ['-'] true

inductive IsMark : List Char → Nat → Prop
  | decimal : IsMark [] 10
  | lower : IsMark ['0', 'x'] 16
  | upper : IsMark ['0', 'X'] 16

/-- The text denotes an integer, with nothing around it. -/
def IsInteger (text : List Char) (i : Int) : Prop :=
  ∃ sign mark digits negative base magnitude, text = sign ++ (mark ++ digits) ∧
    IsSign sign negative ∧ IsMark mark base ∧ digits ≠ [] ∧ Denotes base digits magnitude ∧
      magnitude ≤ largestMagnitude ∧ i = signed negative magnitude

/-! ## 2. Digits -/

theorem toNat_lt_of_digitValue? {c : Char} {d : Nat} (h : digitValue? c = some d) :
    c.toNat < 128 := by
  have hle (high : Char) (hc : c ≤ high) : c.toNat ≤ high.toNat := hc
  unfold digitValue? at h
  split at h
  · rename_i hc
    exact Nat.lt_of_le_of_lt (hle _ hc.2) (by decide)
  split at h
  · rename_i hc
    exact Nat.lt_of_le_of_lt (hle _ hc.2) (by decide)
  split at h
  · rename_i hc
    exact Nat.lt_of_le_of_lt (hle _ hc.2) (by decide)
  · cases h

/-- A digit is read just when the grammar has it. -/
theorem digit?_eq_some_iff (hbase : base ≤ 16) {c : Char} {d : Nat} :
    digit? base c = some d ↔ IsDigit base c d := by
  constructor
  · intro h
    obtain ⟨hvalue, hlt⟩ := Option.filter_eq_some_iff.1 h
    refine ⟨of_decide_eq_true hlt, ?_⟩
    have hall := forall_ascii (p := fun c => ∀ d ∈ digitValue? c,
      c = d.digitChar ∨ c = d.digitChar.toUpper) (by decide) (toNat_lt_of_digitValue? hvalue)
    exact hall d hvalue
  · rintro ⟨hlt, rfl | rfl⟩
    · exact (digit?_digitChar hbase hlt).1
    · exact (digit?_digitChar hbase hlt).2

theorem denotes_nil_iff : Denotes base [] n ↔ n = 0 := by
  unfold Denotes
  constructor
  · rintro ⟨values, hvalues, rfl⟩
    cases hvalues
    rfl
  · rintro rfl
    exact ⟨[], List.Forall₂.nil, rfl⟩

theorem denotes_concat_iff {c : Char} : Denotes base (digits ++ [c]) n ↔
    ∃ m d, Denotes base digits m ∧ IsDigit base c d ∧ n = m * base + d := by
  unfold Denotes
  rw [List.reverse_concat]
  constructor
  · rintro ⟨values, hvalues, rfl⟩
    cases hvalues with
    | cons hd hrest =>
      refine ⟨_, _, ⟨_, hrest, rfl⟩, hd, ?_⟩
      rw [Nat.ofDigits_cons, Nat.add_comm, Nat.mul_comm]
  · rintro ⟨_, d, ⟨values, hvalues, rfl⟩, hd, rfl⟩
    refine ⟨d :: values, List.Forall₂.cons hd hvalues, ?_⟩
    rw [Nat.ofDigits_cons, Nat.add_comm, Nat.mul_comm]

/-- The number is read from the left, and its units stand at the right. -/
theorem continueNat?_eq_some_iff (hbase : base ≤ 16) :
    continueNat? base 0 digits = some n ↔ Denotes base digits n := by
  induction digits using List.reverseRecOn generalizing n with
  | nil =>
    rw [denotes_nil_iff]
    exact Option.some_inj.trans eq_comm
  | append_singleton digits c ih =>
    simp only [denotes_concat_iff, continueNat?_append, continueNat?_singleton,
      Option.bind_eq_some_iff, Option.map_eq_some_iff, ih, digit?_eq_some_iff hbase]
    constructor
    · rintro ⟨m, hm, d, hd, rfl⟩
      exact ⟨m, d, hm, hd, rfl⟩
    · rintro ⟨m, d, hm, hd, rfl⟩
      exact ⟨m, hm, d, hd, rfl⟩

/-- Digits are read just when there are any and they denote the number. -/
theorem readNat?_eq_some_iff (hbase : base ≤ 16) :
    readNat? base digits = some n ↔ digits ≠ [] ∧ Denotes base digits n := by
  by_cases hnil : digits = []
  · subst hnil
    simp [readNat?]
  · rw [readNat?_of_ne_nil hnil, continueNat?_eq_some_iff hbase, and_iff_right hnil]

/-! ## 3. Signs and marks -/

section Digits

variable {c : Char} {d : Nat}

theorem IsDigit.of_forall {p : Char → Prop} (h : IsDigit base c d)
    (hall : ∀ d : Fin base, p (Nat.digitChar d) ∧ p (Nat.digitChar d).toUpper) : p c := by
  obtain ⟨hlower, hupper⟩ := hall ⟨d, h.1⟩
  rcases h.2 with rfl | rfl
  · exact hlower
  · exact hupper

/-- A digit of a base is one of every larger base. -/
theorem IsDigit.mono {base' : Nat} (hbase : base ≤ base') (h : IsDigit base c d) :
    IsDigit base' c d :=
  ⟨Nat.lt_of_lt_of_le h.1 hbase, h.2⟩

/-- No digit is a sign or a blank. -/
theorem IsDigit.not_sign (h : IsDigit 16 c d) : (c ≠ '+' ∧ c ≠ '-') ∧ Text.isBlank c = false :=
  h.of_forall (p := fun c => (c ≠ '+' ∧ c ≠ '-') ∧ Text.isBlank c = false) (by decide)

theorem IsDigit.not_mark (h : IsDigit 10 c d) : c ≠ 'x' ∧ c ≠ 'X' :=
  h.of_forall (p := fun c => c ≠ 'x' ∧ c ≠ 'X') (by decide)

theorem Denotes.exists_isDigit (h : Denotes base digits n) (hc : c ∈ digits) :
    ∃ d, IsDigit base c d := by
  induction digits using List.reverseRecOn generalizing n with
  | nil => cases hc
  | append_singleton digits last ih =>
    obtain ⟨m, d, hm, hd, -⟩ := denotes_concat_iff.1 h
    rcases List.mem_append.1 hc with hc | hc
    · exact ih hm hc
    · obtain rfl := List.mem_singleton.1 hc
      exact ⟨d, hd⟩

end Digits

theorem exists_isSign {text rest : List Char} {negative : Bool}
    (h : splitSign text = (negative, rest)) :
    ∃ sign, IsSign sign negative ∧ text = sign ++ rest := by
  unfold splitSign at h
  split at h <;> cases h
  · exact ⟨['-'], .minus, rfl⟩
  · exact ⟨['+'], .plus, rfl⟩
  · exact ⟨[], .absent, rfl⟩

theorem exists_isMark {text : List Char} (h : splitBase text = (base, digits)) :
    ∃ mark, IsMark mark base ∧ text = mark ++ digits := by
  unfold splitBase at h
  split at h <;> cases h
  · exact ⟨['0', 'x'], .lower, rfl⟩
  · exact ⟨['0', 'X'], .upper, rfl⟩
  · exact ⟨[], .decimal, rfl⟩

theorem splitSign_of_head?_ne {text : List Char} (hplus : text.head? ≠ some '+')
    (hminus : text.head? ≠ some '-') : splitSign text = (false, text) := by
  unfold splitSign
  split
  · exact absurd rfl hminus
  · exact absurd rfl hplus
  · rfl

theorem splitSign_append {sign rest : List Char} {negative : Bool} (h : IsSign sign negative)
    (hrest : ∀ c ∈ rest, c ≠ '+' ∧ c ≠ '-') : splitSign (sign ++ rest) = (negative, rest) := by
  cases h with
  | plus | minus => rfl
  | absent =>
    apply splitSign_of_head?_ne
    · exact fun h => (hrest _ (List.mem_of_head? h)).1 rfl
    · exact fun h => (hrest _ (List.mem_of_head? h)).2 rfl

/-- Digits in base ten hold no mark of base sixteen. -/
theorem splitBase_append {mark : List Char} (h : IsMark mark base)
    (hdigits : Denotes base digits n) : splitBase (mark ++ digits) = (base, digits) := by
  cases h with
  | lower | upper => rfl
  | decimal =>
    have hmark (c : Char) (hc : c ∈ digits) : c ≠ 'x' ∧ c ≠ 'X' := by
      obtain ⟨d, hd⟩ := hdigits.exists_isDigit hc
      exact hd.not_mark
    rw [List.nil_append]
    unfold splitBase
    split
    · exact absurd rfl (hmark 'x' (by simp)).1
    · exact absurd rfl (hmark 'X' (by simp)).2
    · rfl

theorem IsMark.base_le {mark : List Char} (h : IsMark mark base) : base ≤ 16 := by
  cases h <;> decide

/-- Behind the sign stand the mark and the digits, and neither holds a sign or a blank. -/
theorem not_sign_of_mem {mark : List Char} (h : IsMark mark base)
    (hdigits : Denotes base digits n) {c : Char} (hc : c ∈ mark ++ digits) :
    (c ≠ '+' ∧ c ≠ '-') ∧ Text.isBlank c = false := by
  rcases List.mem_append.1 hc with hc | hc
  · cases h with
    | decimal => cases hc
    | lower | upper =>
      rw [List.mem_cons, List.mem_singleton] at hc
      rcases hc with rfl | rfl <;> decide
  · obtain ⟨d, hd⟩ := hdigits.exists_isDigit hc
    exact (hd.mono h.base_le).not_sign

/-! ## 4. The reader and the grammar -/

/-- A number is read just when the trimmed text is one by the grammar. -/
theorem readInteger?_eq_some_iff {i : Int} :
    readInteger? text = some i ↔ IsInteger (Text.trim text.toList) i := by
  unfold readInteger?
  generalize Text.trim text.toList = trimmed
  constructor
  · intro h
    rcases hsplit : splitSign trimmed with ⟨negative, unsigned⟩
    rcases hbase : splitBase unsigned with ⟨base, digits⟩
    simp only [hsplit, hbase, Option.bind_eq_some_iff] at h
    obtain ⟨sign, hsign, rfl⟩ := exists_isSign hsplit
    obtain ⟨mark, hmark, rfl⟩ := exists_isMark hbase
    obtain ⟨magnitude, hread, hsome⟩ := h
    obtain ⟨hne, hdenotes⟩ := (readNat?_eq_some_iff hmark.base_le).1 hread
    split at hsome
    · rename_i hle
      exact ⟨sign, mark, digits, negative, base, magnitude, rfl, hsign, hmark, hne, hdenotes, hle,
        (Option.some.inj hsome).symm⟩
    · cases hsome
  · rintro ⟨sign, mark, digits, negative, base, magnitude, rfl, hsign, hmark, hne, hdenotes, hle,
      rfl⟩
    have hread := (readNat?_eq_some_iff hmark.base_le).2 ⟨hne, hdenotes⟩
    rw [splitSign_append hsign fun c hc => (not_sign_of_mem hmark hdenotes hc).1]
    simp only [splitBase_append hmark hdenotes, hread, Option.bind_some, if_pos hle]

theorem IsInteger.not_blank {core : List Char} {i : Int} (h : IsInteger core i) :
    ∀ c ∈ core, Text.isBlank c = false := by
  obtain ⟨sign, mark, digits, negative, base, magnitude, rfl, hsign, hmark, -, hdenotes, -, -⟩ := h
  intro c hc
  rcases List.mem_append.1 hc with hc | hc
  · cases hsign with
    | absent => cases hc
    | plus | minus =>
      obtain rfl := List.mem_singleton.1 hc
      decide
  · exact (not_sign_of_mem hmark hdenotes hc).2

/-- A sign stands in front of everything else. -/
theorem IsInteger.not_sign_of_mem_tail {core : List Char} {i : Int} (h : IsInteger core i) :
    ∀ c ∈ core.tail, c ≠ '+' ∧ c ≠ '-' := by
  obtain ⟨sign, mark, digits, negative, base, magnitude, rfl, hsign, hmark, -, hdenotes, -, -⟩ := h
  intro c hc
  apply (not_sign_of_mem hmark hdenotes ?_).1
  cases hsign with
  | absent => exact List.mem_of_mem_tail hc
  | plus | minus => exact hc

/-! ## 5. Arithmetic in one hundred and twenty-eight bits -/

/-- The exact result of an operation, where a signed number of that many bits can hold it. -/
def checked? (i : Int) : Option Int :=
  if -(largestMagnitude : Int) - 1 ≤ i ∧ i ≤ largestMagnitude then some i else none

/-- Goes on with digits behind a number. Every product is checked, and every sum or difference. -/
def accumulate? (base : Nat) (negative : Bool) (i : Int) : List Char → Option Int
  | [] => some i
  | c :: cs => do
    let product ← checked? (i * base)
    let d ← digit? base c
    let next ← checked? (if negative then product - d else product + d)
    accumulate? base negative next cs

/-- Digits behind a sign of their own, where there is one. -/
def accumulateSigned? (base : Nat) (text : List Char) : Option Int :=
  let (negative, digits) := splitSign text
  if digits.isEmpty then none else accumulate? base negative 0 digits

/-- The magnitude behind the sign and the mark, where digits accept no sign of their own. -/
def checkedMagnitude? (base : Nat) (digits : List Char) : Option Int :=
  if digits.head? = some '+' ∨ digits.head? = some '-' then none
  else accumulateSigned? base digits

/-- The integer of a text, with every step of the arithmetic checked. -/
def readChecked? (text : String) : Option Int := do
  let (negative, unsigned) := splitSign (Text.trim text.toList)
  let (base, digits) := splitBase unsigned
  let magnitude ← checkedMagnitude? base digits
  if negative then checked? (-magnitude) else some magnitude

/-- A number is kept when it is not above the limit. -/
theorem checked?_natCast (n : Nat) :
    checked? n = if n ≤ largestMagnitude then some (n : Int) else none := by
  unfold checked?
  by_cases hle : n ≤ largestMagnitude
  · rw [if_pos hle, if_pos (by omega)]
  · rw [if_neg hle, if_neg (by omega)]

theorem continueNat?_cons (base n : Nat) (c : Char) (cs : List Char) :
    continueNat? base n (c :: cs) =
      (digit? base c).bind fun d => continueNat? base (n * base + d) cs := by
  unfold continueNat?
  rw [List.foldlM_cons]
  cases digit? base c <;> rfl

/-- The number only grows with each digit. -/
theorem le_of_continueNat? (hbase : 0 < base) {m : Nat} (h : continueNat? base n digits = some m) :
    n ≤ m := by
  induction digits generalizing n with
  | nil => exact Nat.le_of_eq (Option.some.inj h)
  | cons c cs ih =>
    rw [continueNat?_cons] at h
    obtain ⟨d, -, hrest⟩ := Option.bind_eq_some_iff.1 h
    have hnext := ih hrest
    have hmul : n * 1 ≤ n * base := Nat.mul_le_mul_left n hbase
    omega

/-- A number only grows, so once a step does not fit the whole number does not fit either. -/
theorem accumulate?_eq (hbase : 0 < base) (hn : n ≤ largestMagnitude) :
    accumulate? base false n digits =
      (continueNat? base n digits).bind fun m => checked? (m : Int) := by
  induction digits generalizing n with
  | nil => exact (checked?_natCast n).trans (if_pos hn) |>.symm
  | cons c cs ih =>
    rw [accumulate?, continueNat?_cons]
    cases digit? base c with
    | none => cases checked? (n * base) <;> rfl
    | some d =>
      have hmul : (n : Int) * base = (n * base : Nat) := (Nat.cast_mul n base).symm
      have hadd : ((n * base : Nat) : Int) + (d : Nat) = (n * base + d : Nat) :=
        (Nat.cast_add (n * base) d).symm
      by_cases hfits : n * base + d ≤ largestMagnitude
      · have hproduct : n * base ≤ largestMagnitude := by omega
        simp only [hmul, hadd, checked?_natCast, if_pos hproduct, if_pos hfits,
          Option.bind_eq_bind, Option.bind_some, Bool.false_eq_true, if_false, ih hfits]
      · -- too large at this digit, and it only grows with more of them
        have hleft : ((checked? (n * base : Nat)).bind fun product =>
            (checked? (product + d)).bind fun next => accumulate? base false next cs) = none := by
          by_cases hproduct : n * base ≤ largestMagnitude
          · rw [checked?_natCast, if_pos hproduct, Option.bind_some, hadd, checked?_natCast,
              if_neg hfits, Option.bind_none]
          · rw [checked?_natCast, if_neg hproduct, Option.bind_none]
        have hright : (continueNat? base (n * base + d) cs).bind (fun m => checked? (m : Int)) =
            none := by
          rw [Option.bind_eq_none_iff]
          intro m hm
          have hle := le_of_continueNat? hbase hm
          rw [checked?_natCast, if_neg (by omega)]
        rw [hmul]
        exact hleft.trans hright.symm

theorem readNat?_cons_of_sign {c : Char} {cs : List Char} (hc : c = '+' ∨ c = '-') :
    readNat? base (c :: cs) = none := by
  have hdigit : digit? base c = none := by
    rcases hc with rfl | rfl <;> rfl
  rw [readNat?_of_ne_nil (List.cons_ne_nil c cs), continueNat?_cons, hdigit, Option.bind_none]

/-- Checking every step is the same as checking the whole number. -/
theorem checkedMagnitude?_eq (hbase : 0 < base) (digits : List Char) :
    checkedMagnitude? base digits =
      (readNat? base digits).bind fun m => checked? (m : Int) := by
  unfold checkedMagnitude?
  by_cases hsign : digits.head? = some '+' ∨ digits.head? = some '-'
  · rw [if_pos hsign]
    cases digits with
    | nil => rfl
    | cons c cs => rw [readNat?_cons_of_sign (by simpa using hsign), Option.bind_none]
  · rw [if_neg hsign]
    obtain ⟨hplus, hminus⟩ := not_or.1 hsign
    unfold accumulateSigned?
    rw [splitSign_of_head?_ne hplus hminus]
    cases digits with
    | nil => rfl
    | cons c cs => exact accumulate?_eq hbase (Nat.zero_le _)

theorem checked?_neg {m : Nat} (hm : m ≤ largestMagnitude) :
    checked? (-(m : Int)) = some (-(m : Int)) := by
  unfold checked?
  rw [if_pos (by omega)]

/-- A magnitude that fits can be negated: the range reaches further down than up. -/
theorem checked?_neg_of_checkedMagnitude? (hbase : 0 < base) {i : Int}
    (h : checkedMagnitude? base digits = some i) : checked? (-i) = some (-i) := by
  rw [checkedMagnitude?_eq hbase, Option.bind_eq_some_iff] at h
  obtain ⟨m, -, hm⟩ := h
  rw [checked?_natCast] at hm
  split at hm
  · rename_i hle
    obtain rfl := Option.some.inj hm
    exact checked?_neg hle
  · cases hm

theorem IsMark.base_pos {mark : List Char} (h : IsMark mark base) : 0 < base := by
  cases h <;> decide

/-- Arithmetic that is checked at each step refuses just what is too large in the end. -/
theorem readChecked?_eq (text : String) : readChecked? text = readInteger? text := by
  unfold readChecked? readInteger?
  rcases splitSign (Text.trim text.toList) with ⟨negative, unsigned⟩
  rcases hsplit : splitBase unsigned with ⟨base, digits⟩
  obtain ⟨mark, hmark, -⟩ := exists_isMark hsplit
  simp only [hsplit]
  show ((checkedMagnitude? base digits).bind fun i =>
      if negative then checked? (-i) else some i) =
    (readNat? base digits).bind fun m =>
      if m ≤ largestMagnitude then some (signed negative m) else none
  rw [checkedMagnitude?_eq hmark.base_pos, Option.bind_assoc]
  congr 1
  funext m
  rw [checked?_natCast]
  by_cases hle : m ≤ largestMagnitude
  · rw [if_pos hle, if_pos hle, Option.bind_some, checked?_neg hle]
    cases negative <;> rfl
  · rw [if_neg hle, if_neg hle, Option.bind_none]

/-! ## 6. Blanks around a text -/

/-- The blanks that are cut off at the two ends. -/
theorem exists_eq_append_trim (text : List Char) :
    ∃ left right, text = left ++ (Text.trim text ++ right) ∧
      (∀ c ∈ left, Text.isBlank c) ∧ ∀ c ∈ right, Text.isBlank c := by
  have hfront : text.takeWhile Text.isBlank ++ text.dropWhile Text.isBlank = text :=
    List.takeWhile_append_dropWhile
  have hback : ((text.dropWhile Text.isBlank).reverse.takeWhile Text.isBlank ++
      (text.dropWhile Text.isBlank).reverse.dropWhile Text.isBlank).reverse =
        text.dropWhile Text.isBlank := by
    rw [List.takeWhile_append_dropWhile, List.reverse_reverse]
  rw [List.reverse_append] at hback
  refine ⟨text.takeWhile Text.isBlank, _, (congrArg _ hback).trans hfront |>.symm, ?_, ?_⟩
  · exact List.all_eq_true.1 List.all_takeWhile
  · intro c hc
    exact List.all_eq_true.1 List.all_takeWhile c (List.mem_reverse.1 hc)

def Numeral.writeSigned (form : Numeral) (i : Int) : List Char :=
  if i < 0 then '-' :: form.write i.natAbs else form.write i.natAbs

theorem Numeral.isBlank_of_mem_writeSigned {form : Numeral} {i : Int} {c : Char}
    (hc : c ∈ form.writeSigned i) : Text.isBlank c = false := by
  unfold writeSigned at hc
  split at hc
  · rcases List.mem_cons.1 hc with rfl | hc
    · decide
    · exact form.isBlank_of_mem_write hc
  · exact form.isBlank_of_mem_write hc

/-- A number within the limit, written in any form and with blanks around it, is read back. -/
theorem readInteger?_writeSigned (form : Numeral) {i : Int} (hle : i.natAbs ≤ largestMagnitude)
    {left right : List Char} (hleft : ∀ c ∈ left, Text.isBlank c)
    (hright : ∀ c ∈ right, Text.isBlank c) :
    readInteger? (String.ofList (left ++ (form.writeSigned i ++ right))) = some i := by
  have htrim : Text.trim (String.ofList (left ++ (form.writeSigned i ++ right))).toList =
      form.writeSigned i := by
    rw [String.toList_ofList]
    exact Text.trim_append hleft hright fun c hc => Numeral.isBlank_of_mem_writeSigned hc
  unfold Numeral.writeSigned at htrim ⊢
  by_cases hneg : i < 0
  · rw [if_pos hneg] at htrim ⊢
    rw [readInteger?_of_trim_eq ['-'] form htrim rfl hle]
    show some (-(i.natAbs : Int)) = some i
    rw [Option.some_inj]
    omega
  · rw [if_neg hneg] at htrim ⊢
    rw [readInteger?_of_trim_eq [] form htrim (form.splitSign_write _) hle]
    show some (i.natAbs : Int) = some i
    rw [Option.some_inj]
    omega

/-! ## 7. What is read -/

/-- A text is read exactly where it is an integer of the grammar with blanks around it, and then as
that integer; the grammar has one sign at most, and no blanks. Checked arithmetic reads the same,
and its last step, the negation, never fails. Every integer up to the largest magnitude is read
from its decimal and its hexadecimal text. -/
theorem readInteger?_iff_isInteger :
    (∀ text i, readInteger? text = some i ↔ ∃ left core right,
      text.toList = left ++ (core ++ right) ∧ (∀ c ∈ left, Text.isBlank c) ∧
        (∀ c ∈ right, Text.isBlank c) ∧ IsInteger core i) ∧
    (∀ core i, IsInteger core i →
      (∀ c ∈ core, Text.isBlank c = false) ∧ ∀ c ∈ core.tail, c ≠ '+' ∧ c ≠ '-') ∧
    (∀ text, readChecked? text = readInteger? text) ∧
    (∀ base digits i, 0 < base → checkedMagnitude? base digits = some i →
      checked? (-i) = some (-i)) ∧
    ∀ (form : Numeral) (i : Int) (left right : List Char), i.natAbs ≤ largestMagnitude →
      (∀ c ∈ left, Text.isBlank c) → (∀ c ∈ right, Text.isBlank c) →
        readInteger? (String.ofList (left ++ (form.writeSigned i ++ right))) = some i := by
  refine ⟨fun text i => ?_, fun core i h => ⟨h.not_blank, h.not_sign_of_mem_tail⟩,
    readChecked?_eq, fun _ _ _ hbase h => checked?_neg_of_checkedMagnitude? hbase h,
    fun form i _ _ hle hleft hright => readInteger?_writeSigned form hle hleft hright⟩
  rw [readInteger?_eq_some_iff]
  constructor
  · intro h
    obtain ⟨left, right, htext, hleft, hright⟩ := exists_eq_append_trim text.toList
    exact ⟨left, _, right, htext, hleft, hright, h⟩
  · rintro ⟨left, core, right, htext, hleft, hright, h⟩
    rwa [htext, Text.trim_append hleft hright h.not_blank]

/-- The least integer, with zeros in front of its hexadecimal digits and blanks around it. -/
theorem readInteger?_iff_isInteger_least :
    (-170141183460469231731687303715884105727 : Int).natAbs ≤ largestMagnitude ∧
      (∀ c ∈ ['\u3000'], Text.isBlank c) ∧ (∀ c ∈ ['\r', '\n'], Text.isBlank c) ∧
        readInteger? "\u3000-0x007fffffffffffffffffffffffffffffff\r\n" =
          some (-170141183460469231731687303715884105727) := by
  have hle : (-170141183460469231731687303715884105727 : Int).natAbs ≤ largestMagnitude := by decide
  have hleft : ∀ c ∈ ['\u3000'], Text.isBlank c := List.all_eq_true.1 (by decide)
  have hright : ∀ c ∈ ['\r', '\n'], Text.isBlank c := List.all_eq_true.1 (by decide)
  have htext : "\u3000-0x007fffffffffffffffffffffffffffffff\r\n" =
      String.ofList (['\u3000'] ++ (Numeral.writeSigned (.hex false 34)
        (-170141183460469231731687303715884105727) ++ ['\r', '\n'])) := by decide +kernel
  obtain ⟨-, -, -, -, hwritten⟩ := readInteger?_iff_isInteger
  rw [htext]
  exact ⟨hle, hleft, hright, hwritten _ _ _ _ hle hleft hright⟩

end MemoryKit.Number
