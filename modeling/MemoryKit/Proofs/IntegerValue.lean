import Mathlib.Data.List.DropRight
import MemoryKit.Proofs.DisplayedValue
import MemoryKit.Proofs.ValueBytes

/-!
# The text of an integer as its bytes

A text read as a type of integers gives the bytes of the integer it denotes, in two's complement,
where the type has that integer. Any other text is refused: the error says whether the text denotes
no integer at all or one that the type does not have.
-/

namespace MemoryKit

-- powers are those of the core library, whatever else is imported
attribute [local instance (high)] instPowNat

/-! ## 1. Blanks cut off twice -/

theorem Text.trim_trim (text : List Char) : trim (trim text) = trim text := by
  have hfront : (trim text).dropWhile isBlank = trim text := by
    rw [List.dropWhile_eq_self_iff]
    intro hpos
    -- what is left of the text begins as the text does behind its blanks
    obtain ⟨cut, hcut⟩ : trim text <+: text.dropWhile isBlank := List.rdropWhile_prefix isBlank _
    have hlen : 0 < (text.dropWhile isBlank).length := by
      rw [← hcut, List.length_append]
      omega
    have hhead := List.dropWhile_get_zero_not isBlank text hlen
    simpa only [List.get_eq_getElem, ← hcut, List.getElem_append_left hpos] using hhead
  show ((trim text).dropWhile isBlank).rdropWhile isBlank =
    (text.dropWhile isBlank).rdropWhile isBlank
  rw [hfront]
  exact List.rdropWhile_idempotent isBlank _

theorem Number.readInteger?_trim (text : String) :
    readInteger? (String.ofList (Text.trim text.toList)) = readInteger? text := by
  unfold readInteger?
  rw [String.toList_ofList, Text.trim_trim]

/-! ## 2. Bytes in two's complement -/

namespace Bytes

/-- The bytes of an integer in two's complement, least significant first. -/
def twosComplement (count : Nat) (n : Int) : Bytes :=
  (List.range count).map fun k => UInt8.ofNat (n / 256 ^ k % 256).toNat

theorem twosComplement_succ (count : Nat) (n : Int) :
    twosComplement (count + 1) n =
      UInt8.ofNat (n % 256).toNat :: twosComplement count (n / 256) := by
  unfold twosComplement
  rw [List.range_succ_eq_map, List.map_cons, List.map_map, Int.pow_zero, Int.ediv_one]
  congr 1
  apply List.map_congr_left
  intro k _
  show UInt8.ofNat (n / 256 ^ (k + 1) % 256).toNat = UInt8.ofNat (n / 256 / 256 ^ k % 256).toNat
  rw [Int.pow_succ, Int.mul_comm, Int.ediv_ediv_of_nonneg (by decide)]

/-- The bytes of a number count it up to a multiple of what they can hold. -/
theorem ofNat_eq_twosComplement {count m : Nat} {n : Int} (h : ∃ k, n = m + 256 ^ count * k) :
    ofNat count m = twosComplement count n := by
  induction count generalizing m n with
  | zero => rfl
  | succ count ih =>
    obtain ⟨k, rfl⟩ := h
    have hsplit : (256 : Int) ^ (count + 1) * k = 256 * (256 ^ count * k) := by
      rw [Int.pow_succ, Int.mul_comm (256 ^ count) 256, Int.mul_assoc]
    have hlow : ((m : Int) + 256 ^ (count + 1) * k) % 256 = (m % 256 : Nat) := by
      rw [hsplit]
      omega
    have hhigh : ((m : Int) + 256 ^ (count + 1) * k) / 256 = (m / 256 : Nat) + 256 ^ count * k := by
      rw [hsplit]
      omega
    rw [ofNat, twosComplement_succ, hlow, Int.toNat_natCast, ih ⟨k, hhigh⟩]
    congr 1
    apply UInt8.toNat_inj.1
    rw [UInt8.toNat_ofNat', UInt8.toNat_ofNat', Nat.mod_mod]

end Bytes

/-! ## 3. The integers of a type -/

namespace IntegerType

/-- A type of so many bytes has the integer. -/
def Has (t : IntegerType) (n : Int) : Prop :=
  let width := 8 * (DataType.integer t).size
  if t.isSigned then -2 ^ (width - 1) ≤ n ∧ n < 2 ^ (width - 1) else 0 ≤ n ∧ n < 2 ^ width

variable {t : IntegerType} {n : Int}

/-- A type has the numbers from its least to its greatest. -/
theorem has_iff : t.Has n ↔ t.least ≤ n ∧ n ≤ t.greatest := by
  have hwidth : 8 * (DataType.integer t).size = t.width := by cases t <;> rfl
  unfold Has least greatest
  rw [hwidth]
  by_cases hs : t.isSigned
  · simp only [if_pos hs]
    omega
  · simp only [if_neg hs]
    omega

instance : Decidable (t.Has n) :=
  decidable_of_iff _ has_iff.symm

/-- The bytes of a number are its two's complement, as many as the type has. -/
theorem encode_ofInt (t : IntegerType) (n : Int) :
    (Value.integer t (BitVec.ofInt t.width n)).encode =
      Bytes.twosComplement (DataType.integer t).size n := by
  apply Bytes.ofNat_eq_twosComplement
  refine ⟨n / 2 ^ t.width, ?_⟩
  have hpow : (256 : Int) ^ (DataType.integer t).size = 2 ^ t.width := by cases t <;> decide
  have hmod : ((BitVec.ofInt t.width n).toNat : Int) = n % 2 ^ t.width := by
    rw [BitVec.toNat_ofInt]
    have hpos : (0 : Int) ≤ n % (2 ^ t.width : Nat) := by
      apply Int.emod_nonneg
      cases t <;> decide
    rw [Int.toNat_of_nonneg hpos, Int.natCast_pow]
    rfl
  rw [hpow, hmod, Int.emod_add_mul_ediv]

/-! ## 4. Reading -/

/-- What a text gives that is read as a type of integers. -/
inductive Gives (t : IntegerType) (text : String) : Except ValueError Value → Prop
  | value {n : Int} {v : Value} (hread : Number.readInteger? text = some n) (hhas : t.Has n)
      (htype : v.type = .integer t)
      (hbytes : v.encode = Bytes.twosComplement (DataType.integer t).size n) :
      Gives t text (.ok v)
  | outOfRange {n : Int} {reason : Rejection} (hread : Number.readInteger? text = some n)
      (hhas : ¬t.Has n) (hreason : reason.message = "out of range") :
      Gives t text (.error (.invalid (.integer t) text reason))
  | notANumber {reason : Rejection} (hread : Number.readInteger? text = none)
      (hreason : reason.message = "not a number") :
      Gives t text (.error (.invalid (.integer t) text reason))

end IntegerType

theorem Rejection.message_inj {r s : Rejection} (h : r.message = s.message) : r = s := by
  revert h
  cases r <;> cases s <;> decide

namespace IntegerType

variable {t : IntegerType} {text : String} {outcome other : Except ValueError Value}

/-- A text gives one outcome. -/
theorem Gives.unique (h : t.Gives text outcome) (h' : t.Gives text other) : outcome = other := by
  cases h with
  | value hread hhas htype hbytes =>
    cases h' with
    | value hread' _ htype' hbytes' =>
      obtain rfl := Option.some.inj (hread.symm.trans hread')
      exact congrArg _ (Value.eq_of_encode_eq (htype.trans htype'.symm) (hbytes.trans hbytes'.symm))
    | outOfRange hread' hhas' =>
      obtain rfl := Option.some.inj (hread.symm.trans hread')
      exact absurd hhas hhas'
    | notANumber hread' => cases hread.symm.trans hread'
  | outOfRange hread hhas hreason =>
    cases h' with
    | value hread' hhas' =>
      obtain rfl := Option.some.inj (hread.symm.trans hread')
      exact absurd hhas' hhas
    | outOfRange _ _ hreason' => rw [Rejection.message_inj (hreason.trans hreason'.symm)]
    | notANumber hread' => cases hread.symm.trans hread'
  | notANumber hread hreason =>
    cases h' with
    | value hread' => cases hread.symm.trans hread'
    | outOfRange hread' => cases hread.symm.trans hread'
    | notANumber _ hreason' => rw [Rejection.message_inj (hreason.trans hreason'.symm)]

/-- A single character is a text of its own for the two types of characters. -/
theorem read_eq_readNumber {chars : List Char} (h : t.isCharacter → chars.length ≠ 1) :
    t.read chars = t.readNumber (String.ofList chars) := by
  unfold read
  split
  · exact absurd rfl (h rfl)
  · exact absurd rfl (h rfl)
  · rfl

/-- What is read is what the text gives. -/
theorem gives_read (h : t.isCharacter → (Text.trim text.toList).length ≠ 1) :
    t.Gives text ((DataType.integer t).read text) := by
  have hread : (DataType.integer t).read text =
      ((t.readNumber (String.ofList (Text.trim text.toList))).map (Value.integer t)).mapError
        (.invalid (.integer t) text) := by
    rw [← read_eq_readNumber h]
    rfl
  rw [hread]
  unfold readNumber
  rw [Number.readInteger?_trim]
  cases hinteger : Number.readInteger? text with
  | none => exact .notANumber hinteger rfl
  | some n =>
    by_cases hhas : t.Has n
    · have hsome : t.ofInt? n = some (BitVec.ofInt t.width n) := if_pos (has_iff.1 hhas)
      simp only [hsome]
      exact .value hinteger hhas rfl (encode_ofInt t n)
    · have hnone : t.ofInt? n = none := if_neg (mt has_iff.2 hhas)
      simp only [hnone]
      exact .outOfRange hinteger hhas rfl

/-- A text read as a type of integers gives the value with the bytes of the integer it denotes, or
the error that says why there is none; a single character of a type of characters is not read so. -/
theorem read_eq_iff_gives (h : t.isCharacter → (Text.trim text.toList).length ≠ 1) :
    (DataType.integer t).read text = outcome ↔ t.Gives text outcome := by
  constructor
  · rintro rfl
    exact gives_read h
  · exact (gives_read h).unique

/-- The least integer of a byte in hexadecimal, and a number one past the last code unit. -/
theorem read_eq_iff_gives_edges :
    (DataType.integer .byte).read " -0X80\t" = .ok (.integer .byte 0x80#8) ∧
      ((IntegerType.wchar.isCharacter → (Text.trim "+65536 ".toList).length ≠ 1) ∧
        (DataType.integer .wchar).read "+65536 " =
          .error (.invalid (.integer .wchar) "+65536 " .outOfRange)) := by
  have hleast : Number.readInteger? " -0X80\t" = some (-128) := by decide +kernel
  have hpast : Number.readInteger? "+65536 " = some 65536 := by decide +kernel
  have hlength : (Text.trim "+65536 ".toList).length ≠ 1 := by decide +kernel
  refine ⟨(read_eq_iff_gives (by decide)).2 ?_, fun _ => hlength,
    (read_eq_iff_gives fun _ => hlength).2 ?_⟩
  · exact .value hleast (by decide) rfl (by decide)
  · exact .outOfRange hpast (by decide) rfl

end IntegerType

end MemoryKit
