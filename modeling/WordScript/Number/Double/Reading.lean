import WordScript.Number.Double

/-!
# Reading a double precision number

A decimal number is read exactly and rounded once. A number that is too long for the exact
computation to matter is settled by the place of its first digit alone.
-/

namespace WordScript.Number.Double

/-- The number of decimal digits of a natural number. -/
def decimalLength (n : Nat) : Nat :=
  (Nat.toDigits 10 n).length

/--
The number nearest to a numeral. A numeral of `10 ^ 400` or more is beyond the finite numbers, and
one below `10 ^ -400` is nearest to zero.
-/
def ofNumeral (n : Numeral) : Double :=
  let top : Int := decimalLength n.coefficient + n.exponent
  if n.coefficient = 0 then finite n.negative 0
  else if 400 < top then infinity n.negative
  else if top < -400 then finite n.negative 0
  else if n.exponent < 0 then
    ofRatio n.negative (n.coefficient * one) (Nat.pow 10 n.exponent.natAbs)
  else
    ofRatio n.negative (n.coefficient * Nat.pow 10 n.exponent.natAbs * one) 1

/-- The numbers that are written by a word, whatever its case. -/
def ofName? (name : String) : Option (Bool → Double) :=
  if name = "inf" ∨ name = "infinity" then some infinity
  else if name = "nan" then some fun _ => nan
  else none

/-- The number written by a numeral, or by an optional sign and the name of a special number. -/
def ofText? (cs : List Char) : Option Double :=
  match numeral? cs with
  | some n => some (ofNumeral n)
  | none =>
    let (negative, name) := splitSign cs
    (ofName? (String.ofList (name.map Char.toLower))).map (· negative)

end WordScript.Number.Double
