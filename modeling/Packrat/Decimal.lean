/-!
# Shortest decimals

The decimal of a floating point number with the fewest digits that still reads back as that number;
of those, the one nearest to it. The number is taken apart into a whole number times a power of two,
and everything else is exact arithmetic on natural numbers.
-/

namespace Packrat

/-- The number `digits * 10 ^ exponent`, with a sign. -/
structure Decimal where
  /-- Whether a minus sign stands in front. -/
  negative : Bool
  /-- The digits as a whole number. -/
  digits : Nat
  /-- The power of ten. -/
  exponent : Int
  deriving DecidableEq, Repr

namespace Decimal

/-- The first of the 53 binary digits, which is not stored. -/
def leadingBit : Nat := 0x10000000000000

/-- A positive number `mantissa * 2 ^ exponent` of 53 binary digits. -/
structure Binary where
  /-- The binary digits as a whole number. -/
  mantissa : Nat
  /-- The power of two. -/
  exponent : Int
  deriving DecidableEq, Repr

/-- The number in quarters of its last binary digit, as a fraction. -/
def Binary.quarters (b : Binary) (n : Nat) : Nat × Nat :=
  (n <<< b.exponent.toNat, 4 <<< (-b.exponent).toNat)

/-- The lower end of the numbers that round to `b`, in quarters of its last digit. -/
def Binary.lower (b : Binary) : Nat :=
  if b.mantissa = leadingBit ∧ -1074 < b.exponent then 4 * b.mantissa - 1 else 4 * b.mantissa - 2

/-- The upper end of the numbers that round to `b`, in quarters of its last digit. -/
def Binary.upper (b : Binary) : Nat := 4 * b.mantissa + 2

/-- Brings `c * 10 ^ exponent` and the fraction `x` to a common denominator. -/
def onGrid (c : Nat) (exponent : Int) (x : Nat × Nat) : Nat × Nat :=
  (c * Nat.pow 10 exponent.toNat * x.2, x.1 * Nat.pow 10 (-exponent).toNat)

/-- Whether `c * 10 ^ exponent` rounds to `b`. -/
def roundsTo (b : Binary) (c : Nat) (exponent : Int) : Bool :=
  let (point, low) := onGrid c exponent (b.quarters b.lower)
  let (point', high) := onGrid c exponent (b.quarters b.upper)
  if b.mantissa % 2 = 0 then low ≤ point && point' ≤ high else low < point && point' < high

/-- The largest `c` with `c * 10 ^ exponent` not above `b`. -/
def floorOnGrid (b : Binary) (exponent : Int) : Nat :=
  let (unit, value) := onGrid 1 exponent (b.quarters (4 * b.mantissa))
  value / unit

/-- The distance between `c * 10 ^ exponent` and `b`, in a unit given by the exponent. -/
def distance (b : Binary) (c : Nat) (exponent : Int) : Nat :=
  let (point, value) := onGrid c exponent (b.quarters (4 * b.mantissa))
  (point - value) + (value - point)

/-- The point of the grid that rounds to `b`, if there is one; of two, the nearer. -/
def onGrid? (b : Binary) (exponent : Int) : Option Nat :=
  let low := floorOnGrid b exponent
  let high := low + 1
  match roundsTo b low exponent && low != 0, roundsTo b high exponent with
  | true, true => some (if distance b high exponent < distance b low exponent then high else low)
  | true, false => some low
  | false, true => some high
  | false, false => none

/-- Tries finer and finer grids, at most `bound` of them. -/
def search (b : Binary) : (bound : Nat) → (exponent : Int) → Nat × Int
  | 0, exponent => (floorOnGrid b exponent, exponent)
  | bound + 1, exponent =>
    match onGrid? b exponent with
    | some c => (c, exponent)
    | none => search b bound (exponent - 1)

/-- The shortest decimal of a finite number. -/
def ofFloat (x : Float) : Decimal :=
  let bits : Nat := x.toBits.toNat
  let negative := bits >>> 63 == 1
  let biased : Nat := bits / leadingBit % 2048
  let fraction : Nat := bits % leadingBit
  let b : Binary :=
    if biased = 0 then ⟨fraction, -1074⟩ else ⟨fraction + leadingBit, (biased : Int) - 1075⟩
  if b.mantissa = 0 then ⟨negative, 0, 0⟩
  else
    let (digits, exponent) := search b 24 ((b.exponent + 53) * 30103 / 100000 + 1)
    ⟨negative, digits, exponent⟩

/-- The digits of a decimal. -/
def digitText (d : Decimal) : String := toString d.digits

/-- The decimal in words of digits: without a power of ten from a hundred-thousandth up to sixteen
digits, always with a point then, and in scientific form otherwise. -/
def render (d : Decimal) : String :=
  let digits := d.digitText.toList
  let length : Int := digits.length
  let leading := length + d.exponent
  let sign := if d.negative then "-" else ""
  if d.digits = 0 then sign ++ "0.0"
  else if 0 ≤ d.exponent && leading ≤ 16 then
    sign ++ String.ofList (digits ++ List.replicate d.exponent.toNat '0') ++ ".0"
  else if 0 < leading && leading ≤ 16 then
    sign ++ String.ofList (digits.take leading.toNat) ++ "."
      ++ String.ofList (digits.drop leading.toNat)
  else if -5 < leading && leading ≤ 0 then
    sign ++ "0." ++ String.ofList (List.replicate (-leading).toNat '0' ++ digits)
  else
    let fraction := String.ofList (digits.drop 1)
    let point := if fraction.isEmpty then "" else "."
    sign ++ String.ofList (digits.take 1) ++ point ++ fraction ++ "e" ++ toString (leading - 1)

end Decimal

end Packrat
