import WordScript.Identifier.Cast

/-!
# Operators

Arithmetic, comparison and logic on identifiers. Which numbers an operation works on follows from
the declared types of its operands: texts come before floating point numbers, and those before
integers. Each result is a constant without a name.
-/

namespace WordScript

/-- The operation on integers of 64 bits, which wraps around; only a division by zero fails. -/
def Arithmetic.onInt : Arithmetic → Int64 → Int64 → Except RuntimeError Int64
  | add, a, b => .ok (a + b)
  | sub, a, b => .ok (a - b)
  | mul, a, b => .ok (a * b)
  | div, a, b => if b = 0 then .error .divisionByZero else .ok (a / b)

/-- The operation on floating point numbers. -/
def Arithmetic.onDouble : Arithmetic → Number.Double → Number.Double → Number.Double
  | add => .add
  | sub => .sub
  | mul => .mul
  | div => .div

/-- Whether a comparison holds of two values in the given order; values without an order differ. -/
def Comparison.holds : Comparison → Option Ordering → Bool
  | ne, none => true
  | _, none => false
  | eq, some o => o = .eq
  | ne, some o => o ≠ .eq
  | lt, some o => o = .lt
  | gt, some o => o = .gt
  | le, some o => o ≠ .gt
  | ge, some o => o ≠ .lt

/-- The connective of two truth values. -/
def Connective.apply : Connective → Bool → Bool → Bool
  | and => (· && ·)
  | or => (· || ·)

namespace Identifier

/-- Whether one of the two has the named type. -/
def eitherIs (type : String) (l r : Identifier) : Bool :=
  l.type = type || r.type = type

/-- The result of an arithmetic operation; a sum with a text joins the texts of both sides. -/
def arithmetic (op : Arithmetic) (l r : Identifier) : Except RuntimeError Identifier :=
  if op = .add && eitherIs "string" l r then
    .ok (string (l.toText ++ r.toText))
  else if eitherIs "double" l r then do
    let a ← l.toDouble
    let b ← r.toDouble
    return double (op.onDouble a b)
  else do
    let a ← l.toInt64
    let b ← r.toInt64
    return int (← op.onInt a b)

/-- The order of two texts, character by character. -/
def textOrder (a b : String) : Ordering :=
  if a < b then .lt else if a = b then .eq else .gt

/-- The order of two identifiers, if they have one. -/
def order? (l r : Identifier) : Except RuntimeError (Option Ordering) :=
  if eitherIs "string" l r then
    .ok (some (textOrder l.toText r.toText))
  else if eitherIs "double" l r then do
    let a ← l.toDouble
    let b ← r.toDouble
    return a.compare? b
  else do
    let a ← l.toInt64
    let b ← r.toInt64
    return some (compare a.toInt b.toInt)

/-- The truth value of a comparison. -/
def compared (op : Comparison) (l r : Identifier) : Except RuntimeError Identifier := do
  return bool (op.holds (← order? l r))

/-- The truth value of a connective. -/
def connected (op : Connective) (l r : Identifier) : Identifier :=
  bool (op.apply l.isTruthy r.isTruthy)

end Identifier

end WordScript
