/-!
# Numerals

How a number is written: an optional sign and digits for an integer, and for a decimal number also
a fraction and a power of ten. Reading keeps the exact number that was written; rounding it to a
machine number is the business of the type it is read for.
-/

namespace WordScript.Number

/-- Splits off a leading sign: whether it is a minus, and the text after it. -/
def splitSign : List Char → Bool × List Char
  | '-' :: cs => (true, cs)
  | '+' :: cs => (false, cs)
  | cs => (false, cs)

/-- The natural number written by one or more decimal digits. -/
def natural? (cs : List Char) : Option Nat :=
  if cs ≠ [] ∧ cs.all Char.isDigit = true then some (Nat.ofDigitChars 10 cs 0) else none

/-- A natural number with a sign. -/
def signed (negative : Bool) (n : Nat) : Int :=
  if negative then -(n : Int) else n

/-- The integer written by an optional sign and one or more decimal digits. -/
def integer? (cs : List Char) : Option Int :=
  let (negative, digits) := splitSign cs
  (natural? digits).map (signed negative)

/-- The least integer of 64 bits. -/
def minInt64 : Int := -0x8000000000000000

/-- The first integer above those of 64 bits. -/
def supInt64 : Int := 0x8000000000000000

/-- The integer written by the text, when it fits 64 bits. -/
def int64? (cs : List Char) : Option Int64 :=
  match integer? cs with
  | none => none
  | some i => if minInt64 ≤ i ∧ i < supInt64 then some (Int64.ofInt i) else none

/-- The decimal digits of an integer, with a minus sign in front of a negative one. -/
def integerText (i : Int) : String :=
  if i < 0 then "-" ++ toString i.natAbs else toString i.natAbs

/-- A decimal number as written: plus or minus `coefficient * 10 ^ exponent`. -/
structure Numeral where
  negative : Bool
  coefficient : Nat
  exponent : Int
deriving DecidableEq, Repr

/-- The exponent part that ends a numeral: nothing, or the letter `e` and an integer. -/
def exponent? : List Char → Option Int
  | [] => some 0
  | c :: cs => if c = 'e' ∨ c = 'E' then integer? cs else none

/--
The decimal number written by an optional sign, digits with an optional fraction, and an optional
exponent. At least one digit stands before or after the point.
-/
def numeral? (cs : List Char) : Option Numeral :=
  let (negative, unsigned) := splitSign cs
  let whole := unsigned.takeWhile Char.isDigit
  let (fraction, rest) : List Char × List Char :=
    match unsigned.dropWhile Char.isDigit with
    | '.' :: ds => (ds.takeWhile Char.isDigit, ds.dropWhile Char.isDigit)
    | ds => ([], ds)
  if whole ++ fraction = [] then
    none
  else
    (exponent? rest).map fun e =>
      ⟨negative, Nat.ofDigitChars 10 (whole ++ fraction) 0, e - fraction.length⟩

end WordScript.Number
