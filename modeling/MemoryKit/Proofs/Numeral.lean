import MemoryKit.Number.Integer

/-!
# Written numbers read back

The digits of a number in base ten or sixteen, in either case and with any zeros in front, are read
as that number. An integer is read from its decimal form, and a natural number also from its
hexadecimal form; the blanks around a text do not count.
-/

namespace MemoryKit

-- powers are those of the core library, whatever else is imported
attribute [local instance (high)] instPowNat

/-! ## 1. Blanks around a text -/

namespace Text

variable {left text right : List Char}

theorem dropWhile_isBlank_eq_self (h : ∀ c ∈ text, isBlank c = false) :
    text.dropWhile isBlank = text := by
  cases text with
  | nil => rfl
  | cons c cs =>
    apply List.dropWhile_cons_of_neg
    rw [h c List.mem_cons_self]
    decide

/-- Trimming takes the blanks from both sides. -/
theorem trim_append (hleft : ∀ c ∈ left, isBlank c) (hright : ∀ c ∈ right, isBlank c)
    (htext : ∀ c ∈ text, isBlank c = false) : trim (left ++ (text ++ right)) = text := by
  unfold trim
  rw [List.dropWhile_append_of_pos hleft]
  by_cases hempty : text = []
  · subst hempty
    rw [List.nil_append, ← List.append_nil right, List.dropWhile_append_of_pos hright]
    rfl
  · have hfront : (text ++ right).dropWhile isBlank = text ++ right := by
      rw [List.dropWhile_append, dropWhile_isBlank_eq_self htext,
        if_neg (by rwa [List.isEmpty_iff])]
    rw [hfront, List.reverse_append, List.dropWhile_append_of_pos, dropWhile_isBlank_eq_self,
      List.reverse_reverse]
    · intro c hc
      exact htext c (List.mem_reverse.1 hc)
    · intro c hc
      exact hright c (List.mem_reverse.1 hc)

theorem trim_eq_self (h : ∀ c ∈ text, isBlank c = false) : trim text = text := by
  have htrim : trim ([] ++ (text ++ [])) = text := trim_append (by simp) (by simp) h
  rwa [List.nil_append, List.append_nil] at htrim

end Text

namespace Number

variable {base n : Nat}

/-! ## 2. Digits -/

/-- Digits are read from left to right. -/
theorem continueNat?_append (base n : Nat) (digits more : List Char) :
    continueNat? base n (digits ++ more) =
      (continueNat? base n digits).bind fun m => continueNat? base m more :=
  List.foldlM_append

theorem continueNat?_singleton (base n : Nat) (c : Char) :
    continueNat? base n [c] = (digit? base c).map (n * base + ·) := by
  unfold continueNat?
  rw [List.foldlM_cons]
  cases digit? base c <;> rfl

theorem readNat?_of_ne_nil {digits : List Char} (h : digits ≠ []) :
    readNat? base digits = continueNat? base 0 digits := by
  cases digits with
  | nil => exact absurd rfl h
  | cons c cs => rfl

/-- The digits of a base are those of sixteen that are small enough, in both cases. -/
theorem digit?_digitChar (hbase : base ≤ 16) {d : Nat} (hd : d < base) :
    digit? base d.digitChar = some d ∧ digit? base d.digitChar.toUpper = some d := by
  have hall : ∀ d : Fin 16, digitValue? (Nat.digitChar d) = some d.val ∧
      digitValue? (Nat.digitChar d).toUpper = some d.val := by decide
  obtain ⟨hlower, hupper⟩ := hall ⟨d, by omega⟩
  unfold digit?
  rw [hlower, hupper, Option.filter_some, if_pos (by simpa using hd)]
  exact ⟨rfl, rfl⟩

theorem exists_of_mem_toDigits (hbase : 1 < base) {c : Char} (hc : c ∈ Nat.toDigits base n) :
    ∃ d < base, c = d.digitChar := by
  induction n using Nat.base_induction base hbase with
  | single m hm =>
    rw [Nat.toDigits_of_lt_base hm, List.mem_singleton] at hc
    exact ⟨m, hm, hc⟩
  | digit m k hk hm ih =>
    rw [← Nat.toDigits_append_toDigits hbase hm hk, Nat.toDigits_of_lt_base hk, List.mem_append,
      List.mem_singleton] at hc
    exact hc.elim ih fun hc => ⟨k, hk, hc⟩

/-- The number grows digit by digit at its right end, as reading goes on there. -/
theorem continueNat?_map_toDigits (hbase : 1 < base) {spell : Char → Char}
    (hspell : ∀ d < base, digit? base (spell d.digitChar) = some d) (n : Nat) :
    continueNat? base 0 ((Nat.toDigits base n).map spell) = some n := by
  induction n using Nat.base_induction base hbase with
  | single m hm =>
    rw [Nat.toDigits_of_lt_base hm, List.map_singleton, continueNat?_singleton, hspell m hm,
      Option.map_some, Nat.zero_mul, Nat.zero_add]
  | digit m k hk hm ih =>
    rw [← Nat.toDigits_append_toDigits hbase hm hk, Nat.toDigits_of_lt_base hk, List.map_append,
      continueNat?_append, ih, Option.bind_some, List.map_singleton, continueNat?_singleton,
      hspell k hk, Option.map_some, Nat.mul_comm]

/-- A zero more multiplies by the base. -/
theorem continueNat?_replicate_zero (hbase : 0 < base) (n count : Nat) :
    continueNat? base n (List.replicate count '0') = some (n * base ^ count) := by
  have hzero : digit? base '0' = some 0 := by
    unfold digit?
    rw [show digitValue? '0' = some 0 from rfl, Option.filter_some, if_pos (by simpa using hbase)]
  induction count with
  | zero => exact congrArg some (Nat.mul_one n).symm
  | succ count ih =>
    rw [List.replicate_succ', continueNat?_append, ih, Option.bind_some, continueNat?_singleton,
      hzero, Option.map_some, Nat.add_zero, Nat.mul_assoc, Nat.pow_succ]

theorem isDigit_of_mem_decimal {c : Char} (hc : c ∈ decimal n) : c.isDigit :=
  Nat.isDigit_of_mem_toDigits (by decide) (by decide) hc

theorem decimal_ne_nil (n : Nat) : decimal n ≠ [] :=
  Nat.toDigits_ne_nil

theorem readNat?_decimal (n : Nat) : readNat? 10 (decimal n) = some n := by
  have hdigits : continueNat? 10 0 ((Nat.toDigits 10 n).map id) = some n :=
    continueNat?_map_toDigits (by decide) (fun d hd => (digit?_digitChar (by decide) hd).1) n
  rw [List.map_id] at hdigits
  rw [readNat?_of_ne_nil (decimal_ne_nil n)]
  exact hdigits

/-! ## 3. Numerals -/

/-- A way to write a natural number: in decimal digits, or in hexadecimal digits of one case behind
their mark, with zeros in front up to a least count. -/
inductive Numeral where
  | decimal
  | hex (upper : Bool) (count : Nat)
  deriving DecidableEq, Repr

namespace Numeral

def hexDigits (upper : Bool) (count n : Nat) : List Char :=
  ((Nat.toDigits 16 n).map (if upper then Char.toUpper else id)).leftpad count '0'

def write : Numeral → Nat → List Char
  | .decimal, n => Number.decimal n
  | .hex upper count, n => '0' :: 'x' :: hexDigits upper count n

theorem hexDigits_ne_nil (upper : Bool) (count n : Nat) : hexDigits upper count n ≠ [] := by
  intro h
  have hlen := congrArg List.length h
  have hpos := Nat.length_toDigits_pos (b := 16) (n := n)
  rw [hexDigits, List.length_leftpad, List.length_map, List.length_nil] at hlen
  omega

/-- A number in hexadecimal digits is read back, in either case and with zeros in front. -/
theorem readNat?_hexDigits (upper : Bool) (count n : Nat) :
    readNat? 16 (hexDigits upper count n) = some n := by
  have hspell : ∀ d < 16, digit? 16 ((if upper then Char.toUpper else id) d.digitChar) = some d := by
    intro d hd
    obtain ⟨hlower, hupper⟩ : digit? 16 d.digitChar = some d ∧
        digit? 16 d.digitChar.toUpper = some d := digit?_digitChar (by decide) hd
    cases upper with
    | true => exact hupper
    | false => exact hlower
  rw [readNat?_of_ne_nil (hexDigits_ne_nil upper count n), hexDigits, List.leftpad,
    continueNat?_append, continueNat?_replicate_zero (by decide), Option.bind_some, Nat.zero_mul]
  exact continueNat?_map_toDigits (by decide) hspell n

theorem isBlank_of_mem_write (form : Numeral) {c : Char} (hc : c ∈ form.write n) :
    Text.isBlank c = false := by
  have hall : ∀ d : Fin 16, Text.isBlank (Nat.digitChar d) = false ∧
      Text.isBlank (Nat.digitChar d).toUpper = false := by decide
  cases form with
  | decimal =>
    obtain ⟨d, hd, rfl⟩ := exists_of_mem_toDigits (by decide) hc
    exact (hall ⟨d, by omega⟩).1
  | hex upper count =>
    rw [write, hexDigits, List.leftpad, List.mem_cons, List.mem_cons, List.mem_append,
      List.mem_replicate, List.mem_map] at hc
    rcases hc with rfl | rfl | ⟨-, rfl⟩ | ⟨c, hc, rfl⟩
    · decide
    · decide
    · decide
    · obtain ⟨d, hd, rfl⟩ := exists_of_mem_toDigits (by decide) hc
      cases upper with
      | true => exact (hall ⟨d, hd⟩).2
      | false => exact (hall ⟨d, hd⟩).1

theorem splitSign_write (form : Numeral) (n : Nat) :
    splitSign (form.write n) = (false, form.write n) := by
  cases form with
  | hex upper count => rfl
  | decimal =>
    have hdigit (c : Char) (hc : c ∈ decimal.write n) : c.isDigit := isDigit_of_mem_decimal hc
    unfold splitSign
    split
    · rename_i heq
      exact absurd (hdigit '-' (by rw [heq]; exact List.mem_cons_self)) (by decide)
    · rename_i heq
      exact absurd (hdigit '+' (by rw [heq]; exact List.mem_cons_self)) (by decide)
    · rfl

/-- In decimal digits there is no mark of another base. -/
theorem splitBase_decimal (n : Nat) : splitBase (Number.decimal n) = (10, Number.decimal n) := by
  have hdigit (c : Char) (hc : c ∈ Number.decimal n) : c.isDigit := isDigit_of_mem_decimal hc
  unfold splitBase
  split
  · rename_i heq
    exact absurd (hdigit 'x' (by rw [heq]; simp)) (by decide)
  · rename_i heq
    exact absurd (hdigit 'X' (by rw [heq]; simp)) (by decide)
  · rfl

/-- A numeral of any form is read back by its base. -/
theorem readNat?_splitBase_write (form : Numeral) (n : Nat) :
    readNat? (splitBase (form.write n)).1 (splitBase (form.write n)).2 = some n := by
  cases form with
  | decimal =>
    rw [show decimal.write n = Number.decimal n from rfl, splitBase_decimal]
    exact readNat?_decimal n
  | hex upper count => exact readNat?_hexDigits upper count n

end Numeral

/-! ## 4. Integers -/

/-- A sign and a numeral are read as a signed number when it is within the limit. -/
theorem readInteger?_of_trim_eq {text : String} {negative : Bool} (sign : List Char)
    (form : Numeral) (htrim : Text.trim text.toList = sign ++ form.write n)
    (hsign : splitSign (sign ++ form.write n) = (negative, form.write n))
    (hle : n ≤ largestMagnitude) : readInteger? text = some (signed negative n) := by
  unfold readInteger?
  rw [htrim, hsign]
  show (readNat? (splitBase (form.write n)).1 (splitBase (form.write n)).2).bind _ = _
  rw [Numeral.readNat?_splitBase_write, Option.bind_some, if_pos hle]

theorem readInteger?_write (form : Numeral) (hle : n ≤ largestMagnitude) :
    readInteger? (String.ofList (form.write n)) = some (n : Int) := by
  have htrim : Text.trim (String.ofList (form.write n)).toList = [] ++ form.write n := by
    rw [String.toList_ofList]
    exact Text.trim_eq_self fun c hc => form.isBlank_of_mem_write hc
  exact readInteger?_of_trim_eq [] form htrim (form.splitSign_write n) hle

theorem isBlank_of_mem_signedDecimal {i : Int} {c : Char} (hc : c ∈ signedDecimal i) :
    Text.isBlank c = false := by
  have hdigits (hc : c ∈ Numeral.decimal.write i.natAbs) := Numeral.isBlank_of_mem_write _ hc
  unfold signedDecimal at hc
  split at hc
  · rcases List.mem_cons.1 hc with rfl | hc
    · decide
    · exact hdigits hc
  · exact hdigits hc

theorem readInteger?_signedDecimal {i : Int} (hle : i.natAbs ≤ largestMagnitude) :
    readInteger? (String.ofList (signedDecimal i)) = some i := by
  have htrim : Text.trim (String.ofList (signedDecimal i)).toList = signedDecimal i := by
    rw [String.toList_ofList]
    exact Text.trim_eq_self fun c hc => isBlank_of_mem_signedDecimal hc
  unfold signedDecimal at htrim ⊢
  by_cases hneg : i < 0
  · rw [if_pos hneg] at htrim ⊢
    rw [readInteger?_of_trim_eq ['-'] .decimal htrim rfl hle]
    show some (-(i.natAbs : Int)) = some i
    rw [Option.some_inj]
    omega
  · rw [if_neg hneg] at htrim ⊢
    rw [readInteger?_of_trim_eq [] .decimal htrim
      (Numeral.splitSign_write .decimal _) hle]
    show some (i.natAbs : Int) = some i
    rw [Option.some_inj]
    omega

end Number

end MemoryKit
