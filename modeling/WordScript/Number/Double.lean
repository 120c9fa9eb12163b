import WordScript.Number.Numeral

/-!
# Double precision numbers

The binary floating point numbers of 64 bits, in exact arithmetic. Every finite one is a whole
number of *units* of `2 ^ -1074`, the least positive one, and has at most 53 significant bits; so
sums, products, quotients and comparisons are those of natural numbers, followed by one rounding
to the nearest number with 53 significant bits, a tie going to the even one.
-/

namespace WordScript.Number

/--
A floating point number: not a number, an infinity, or a sign and a count of units of `2 ^ -1074`.
The sign of zero is kept.
-/
inductive Double where
  | nan
  | infinity (negative : Bool)
  | finite (negative : Bool) (units : Nat)
deriving DecidableEq, Repr, Inhabited

namespace Double

/-- The number of units in one. -/
def one : Nat := Nat.pow 2 1074

/-- The first count of units that is beyond the finite numbers. -/
def limit : Nat := Nat.pow 2 2098

/-- The quotient rounded to the nearest natural number, a tie going to the even one. -/
def roundQuotient (num den : Nat) : Nat :=
  let q := num / den
  let r := num % den
  if 2 * r < den then q
  else if den < 2 * r then q + 1
  else if q % 2 = 0 then q else q + 1

/-- The number of bits by which a count of units is longer than the 53 that are kept. -/
def spareBits (units : Nat) : Nat :=
  units.log2 + 1 - 53

/-- The quotient rounded to the nearest count of units with 53 significant bits. -/
def roundUnits (num den : Nat) : Nat :=
  let gap := Nat.pow 2 (spareBits (num / den))
  roundQuotient num (den * gap) * gap

/-- The number nearest to plus or minus `num / den` units. -/
def ofRatio (negative : Bool) (num den : Nat) : Double :=
  let units := roundUnits num den
  if units < limit then finite negative units else infinity negative

/-- The number nearest to an integer. -/
def ofInt (i : Int) : Double :=
  ofRatio (decide (i < 0)) (i.natAbs * one) 1

/-- Zero, without a minus sign. -/
def zero : Double := finite false 0

/-- Whether the number is neither infinite nor the one that is not a number. -/
def isFinite : Double → Bool
  | finite _ _ => true
  | _ => false

/-- Whether the number is zero, of either sign. -/
def isZero : Double → Bool
  | finite _ 0 => true
  | _ => false

/-- The integer that the number is, if it is one. -/
def integer? : Double → Option Int
  | finite s units => if units % one = 0 then some (signed s (units / one)) else none
  | _ => none

/-- The number with its sign turned. -/
def neg : Double → Double
  | nan => nan
  | infinity s => infinity !s
  | finite s u => finite (!s) u

/-- The sum, rounded. A sum of zero is positive, unless both terms are negative. -/
def add : Double → Double → Double
  | nan, _ => nan
  | _, nan => nan
  | infinity s, infinity t => if s = t then infinity s else nan
  | infinity s, finite _ _ => infinity s
  | finite _ _, infinity t => infinity t
  | finite s u, finite t v =>
    let total := signed s u + signed t v
    if total = 0 then finite (s && t) 0 else ofRatio (decide (total < 0)) total.natAbs 1

/-- The difference, rounded. -/
def sub (a b : Double) : Double :=
  add a b.neg

/-- The product, rounded. -/
def mul : Double → Double → Double
  | nan, _ => nan
  | _, nan => nan
  | infinity s, infinity t => infinity (s != t)
  | infinity s, finite t v => if v = 0 then nan else infinity (s != t)
  | finite s u, infinity t => if u = 0 then nan else infinity (s != t)
  | finite s u, finite t v => ofRatio (s != t) (u * v) one

/-- The quotient, rounded. Zero over zero is not a number, anything else over zero is infinite. -/
def div : Double → Double → Double
  | nan, _ => nan
  | _, nan => nan
  | infinity _, infinity _ => nan
  | infinity s, finite t _ => infinity (s != t)
  | finite s _, infinity t => finite (s != t) 0
  | finite s u, finite t v =>
    if v = 0 then (if u = 0 then nan else infinity (s != t)) else ofRatio (s != t) (u * one) v

/-- The place of a number on the line of units; the infinities lie beyond all finite numbers. -/
def units? : Double → Option Int
  | nan => none
  | infinity s => some (signed s limit)
  | finite s u => some (signed s u)

/-- How two numbers compare: not at all when one is not a number. -/
def compare? (a b : Double) : Option Ordering :=
  match a.units?, b.units? with
  | some i, some j => some (compare i j)
  | _, _ => none

/--
The integer part as an integer of 64 bits. A number beyond the range gives the end of the range
that it lies beyond, and what is not a number gives zero.
-/
def toInt64 : Double → Int64
  | nan => 0
  | infinity s => if s then Int64.minValue else Int64.maxValue
  | finite s u =>
    let i := signed s (u / one)
    if i < minInt64 then Int64.minValue
    else if supInt64 ≤ i then Int64.maxValue
    else Int64.ofInt i

end Double

end WordScript.Number
