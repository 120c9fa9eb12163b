import WordScript.Number.Double.Reading

/-!
# The shortest text of a double precision number

A finite number is written with the fewest digits that read back as the same number; of the texts
with that many digits the nearest one is taken, and the larger one of two equally near. The digits
are always written out in positional notation, however far they are from the point.
-/

namespace WordScript.Number.Double

/--
The numbers that read back as a given one, in quarters of a unit. The ends belong to the range when
the significand of the number is even, since ties are read as the even neighbour.
-/
structure Neighbourhood where
  low : Nat
  middle : Nat
  high : Nat
  closed : Bool

/--
The range of a positive count of units: half the gap to the next number on either side. Below a
power of two the gap is half as wide as above it.
-/
def neighbourhood (units : Nat) : Neighbourhood :=
  let spare := spareBits units
  let gap := Nat.pow 2 spare
  let below := if units = Nat.pow 2 (52 + spare) then gap else 2 * gap
  ⟨4 * units - below, 4 * units, 4 * units + 2 * gap, units / gap % 2 = 0⟩

/-- A positive decimal number `coefficient * 10 ^ exponent`. -/
structure Digits where
  coefficient : Nat
  exponent : Int

/-- The least `p` for which a positive count of units is below `10 ^ p`. -/
def decimalPoint (units : Nat) : Int :=
  if one ≤ units then decimalLength (units / one)
  else decimalLength (units * Nat.pow 10 400 / one) - 400

/--
The nearest decimal number with the given exponent, when it or its other neighbour of that exponent
lies in the range.
-/
def nearest? (range : Neighbourhood) (exponent : Int) : Option Digits :=
  let up := Nat.pow 10 (-exponent).toNat
  let step := 4 * one * Nat.pow 10 exponent.toNat
  let c := range.middle * up / step
  let rest := range.middle * up % step
  let isIn (k : Nat) : Bool :=
    if range.closed then range.low * up ≤ k * step && k * step ≤ range.high * up
    else range.low * up < k * step && k * step < range.high * up
  match isIn c, isIn (c + 1) with
  | true, true => some ⟨if 2 * rest < step then c else c + 1, exponent⟩
  | true, false => some ⟨c, exponent⟩
  | false, true => some ⟨c + 1, exponent⟩
  | false, false => none

/-- The first hit among the exponents from `exponent` downwards, `count` of them. -/
def firstNearest (range : Neighbourhood) : Nat → Int → Digits
  | 0, exponent => ⟨range.middle / (4 * one), exponent⟩
  | count + 1, exponent =>
    match nearest? range exponent with
    | some digits => digits
    | none => firstNearest range count (exponent - 1)

/-- The shortest decimal number that reads back as a positive count of units. -/
def shortest (units : Nat) : Digits :=
  firstNearest (neighbourhood units) 17 (decimalPoint units - 1)

/-- The digits of a decimal number in positional notation, without needless zeros. -/
def Digits.text (d : Digits) : List Char :=
  let digits := Nat.toDigits 10 d.coefficient
  if 0 ≤ d.exponent then
    digits ++ List.replicate d.exponent.toNat '0'
  else
    let places := d.exponent.natAbs
    let padded := List.replicate (places + 1 - digits.length) '0' ++ digits
    let whole := padded.take (padded.length - places)
    let fraction := (padded.drop (padded.length - places)).reverse.dropWhile (· = '0')
    if fraction = [] then whole else whole ++ '.' :: fraction.reverse

/-- A number as it is printed. -/
def text : Double → String
  | nan => "NaN"
  | infinity s => if s then "-inf" else "inf"
  | finite s units =>
    let digits := if units = 0 then ['0'] else (shortest units).text
    String.ofList (if s then '-' :: digits else digits)

end WordScript.Number.Double
