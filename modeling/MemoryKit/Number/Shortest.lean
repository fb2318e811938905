import MemoryKit.Number.Binary

/-!
# The shortest decimal of a floating-point value

Among the decimals that round to a magnitude, the one with the fewest digits identifies it. The
candidates on a decimal grid are the two neighbours of the exact value; the coarsest grid with a
candidate that reads back wins, of two the nearer, and halfway between them the upper.
-/

namespace MemoryKit.Number.BinaryFormat

-- powers are those of the core library, whatever else is imported
attribute [local instance (high)] instPowNat

/-- The exact value of a finite magnitude over a power of ten, as a ratio of naturals. -/
def scaledRatio (f : BinaryFormat) (magnitude : Nat) (grid : Int) : Nat × Nat :=
  let m := f.significand magnitude
  let q := f.exponent magnitude
  (m * 2 ^ q.toNat * 10 ^ (-grid).toNat, 2 ^ (-q).toNat * 10 ^ grid.toNat)

/-- The least `k` such that a positive value lies below `10 ^ k`. -/
def decimalScale (f : BinaryFormat) (magnitude : Nat) : Int :=
  let (n, d) := f.scaledRatio magnitude 0
  -- below one, `10 ^ j` times the value stays below one exactly if `10 ^ j ≤ (d - 1) / n`
  if n < d then 1 - ((decimal ((d - 1) / n)).length : Int) else (decimal (n / d)).length

/-- The neighbour of the value on a grid that reads back, if one does. -/
def candidate? (f : BinaryFormat) (magnitude : Nat) (grid : Int) : Option Decimal :=
  let (n, d) := f.scaledRatio magnitude grid
  let lower : Decimal := ⟨n / d, grid⟩
  let upper : Decimal := ⟨n / d + 1, grid⟩
  let nearer := if 2 * (n % d) < d then [lower, upper] else [upper, lower]
  nearer.find? fun c => f.round c = magnitude

/-- More decimal digits than any value of the format needs. -/
def digitLimit (f : BinaryFormat) : Nat :=
  f.fractionBits / 3 + 2

/-- The decimal with the fewest digits that reads back as a positive finite magnitude. -/
def shortest (f : BinaryFormat) (magnitude : Nat) : Decimal :=
  let scale := f.decimalScale magnitude
  -- no digits first: a power of ten just above the value may read back
  match (List.range (f.digitLimit + 1)).findSome? fun (count : Nat) =>
      f.candidate? magnitude (scale - count) with
  | some d => d
  | none => f.exactDecimal magnitude

/-- The text of a value: the shortest decimal in positional form behind its sign, and words for
what no decimal denotes. A NaN shows no sign. -/
def display (f : BinaryFormat) (bits : BitVec f.width) : List Char :=
  let m := f.magnitude bits
  if f.infinity < m then "NaN".toList
  else
    let unsigned :=
      if m = f.infinity then "inf".toList
      else if m = 0 then ['0']
      else (f.shortest m).positional
    if f.isNegative bits then '-' :: unsigned else unsigned

def readMagnitude? (f : BinaryFormat) (text : List Char) : Option Nat :=
  let word := String.ofList (text.map Char.toLower)
  if word = "inf" ∨ word = "infinity" then some f.infinity
  else if word = "nan" then some f.nan
  else (Decimal.read? text).map f.round

def read? (f : BinaryFormat) (text : List Char) : Option (BitVec f.width) :=
  let (negative, unsigned) := splitSign text
  (f.readMagnitude? unsigned).map (f.ofSignMagnitude negative)

end MemoryKit.Number.BinaryFormat
