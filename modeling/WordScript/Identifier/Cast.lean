import WordScript.Number.Double.Shortest
import WordScript.RuntimeError
import WordScript.Text.Blank

/-!
# Casts

A cast is chosen by the declared type of an identifier and the type that is asked for. The payload
is read as the declared type, so a payload of another type counts as the nearest thing to it.
-/

namespace WordScript

namespace Value

/-- The payload read as an integer. -/
def asInt : Value → Int64
  | int n => n
  | double x => x.toInt64
  | bool b => if b then 1 else 0
  | _ => 0

/-- The payload read as a floating point number. -/
def asDouble : Value → Number.Double
  | double x => x
  | int n => .ofInt n.toInt
  | bool b => .ofInt (if b then 1 else 0)
  | _ => .zero

/-- The payload read as a truth value: whether it is true, or a number other than zero. -/
def asBool : Value → Bool
  | bool b => b
  | int n => n ≠ 0
  | double x => !x.isZero
  | _ => false

/-- The payload read as a text. -/
def asString : Value → String
  | string text => text
  | _ => ""

end Value

namespace Identifier

/-- The integer written by a text between blanks; one with a fraction is cut off, and one that is
too large is replaced by the nearest integer of 64 bits. -/
def textToInt (text : String) : Except RuntimeError Int64 :=
  let cs := Text.trim text.toList
  match Number.int64? cs with
  | some n => .ok n
  | none =>
    match Number.Double.ofText? cs with
    | some x => if x.isFinite then .ok x.toInt64 else .error (.numericCast text "int")
    | none => .error (.numericCast text "int")

/-- The floating point number written by a text between blanks. -/
def textToDouble (text : String) : Except RuntimeError Number.Double :=
  match Number.Double.ofText? (Text.trim text.toList) with
  | some x => .ok x
  | none => .error (.numericCast text "double")

/--
The payload after a cast from one type to another. The four types of numbers, truth values and
texts convert into each other; any other pair gives the value that the new type starts with.
-/
def convert (value : Value) : ValueType → ValueType → Except RuntimeError Value
  | .int, .double => .ok (.double (.ofInt value.asInt.toInt))
  | .int, .bool => .ok (.bool (value.asInt ≠ 0))
  | .int, .string => .ok (.string (Number.integerText value.asInt.toInt))
  | .double, .int => .ok (.int value.asDouble.toInt64)
  | .double, .bool => .ok (.bool (!value.asDouble.isZero))
  | .double, .string => .ok (.string value.asDouble.text)
  | .bool, .int => .ok (.int (if value.asBool then 1 else 0))
  | .bool, .double => .ok (.double (.ofInt (if value.asBool then 1 else 0)))
  | .bool, .string => .ok (.string (if value.asBool then "true" else "false"))
  | .string, .int =>
    match textToInt value.asString with
    | .ok n => .ok (.int n)
    | .error e => .error e
  | .string, .double =>
    match textToDouble value.asString with
    | .ok x => .ok (.double x)
    | .error e => .error e
  | .string, .bool => .ok (.bool (value.asString ≠ ""))
  | _, target => .ok target.zero

/-- The payload of the identifier after a cast to the named type. -/
def castValue (i : Identifier) (type : String) : Except RuntimeError Value :=
  if i.type = type then .ok i.value
  else
    match ValueType.ofName? i.type, ValueType.ofName? type with
    | some t, some t' => convert i.value t t'
    | _, _ => .ok (Value.zero type)

/-- The identifier as a constant of the named type. -/
def castTo (i : Identifier) (type : String) : Except RuntimeError Identifier :=
  match i.castValue type with
  | .ok value => .ok (constant type value)
  | .error e => .error e

/-- The text that is printed for the identifier. -/
def toText (i : Identifier) : String :=
  match i.castValue "string" with
  | .ok value => value.asString
  | .error _ => ""

/-- Whether the identifier counts as true. -/
def isTruthy (i : Identifier) : Bool :=
  match i.castValue "bool" with
  | .ok value => value.asBool
  | .error _ => false

/-- The identifier as an integer. -/
def toInt64 (i : Identifier) : Except RuntimeError Int64 :=
  match i.castValue "int" with
  | .ok value => .ok value.asInt
  | .error e => .error e

/-- The identifier as a floating point number. -/
def toDouble (i : Identifier) : Except RuntimeError Number.Double :=
  match i.castValue "double" with
  | .ok value => .ok value.asDouble
  | .error e => .error e

end Identifier

end WordScript
