import WordScript.Builtin
import WordScript.Handle
import WordScript.Number.Double

/-!
# Values

The payloads of identifiers, and the six types that have values of their own.
-/

namespace WordScript

/--
The label of a function that the host provides. What the function does is up to the host; the
language keeps only the label.
-/
structure Native where
  name : String
  parameter : String
deriving DecidableEq, Repr

/-- What a function does when it is called. -/
inductive Callable where
  | builtin (op : Builtin)
  | native (label : Native)
deriving DecidableEq, Repr

/-- The payload of an identifier. -/
inductive Value where
  | absent
  | int (n : Int64)
  | double (x : Number.Double)
  | bool (b : Bool)
  | string (text : String)
  | callable (c : Callable)
  | array (items : List Handle)
  | map (entries : List (String × Handle))
deriving DecidableEq, Repr, Inhabited

/-- The types that have values of their own. -/
inductive ValueType where
  | int
  | double
  | bool
  | string
  | array
  | map
deriving DecidableEq, Repr

namespace ValueType

/-- The word for a type. -/
def name : ValueType → String
  | int => "int"
  | double => "double"
  | bool => "bool"
  | string => "string"
  | array => "array"
  | map => "map"

/-- The type that a word stands for. -/
def ofName? (word : String) : Option ValueType :=
  if word = "int" then some int
  else if word = "double" then some double
  else if word = "bool" then some bool
  else if word = "string" then some string
  else if word = "array" then some array
  else if word = "map" then some map
  else none

@[simp] theorem ofName?_name (t : ValueType) : ofName? t.name = some t := by
  cases t <;> decide

/-- A word stands for a type exactly when it is the word for it. -/
theorem ofName?_eq_some_iff {word : String} {t : ValueType} :
    ofName? word = some t ↔ word = t.name := by
  constructor
  · intro h
    simp only [ofName?] at h
    split at h <;> simp_all [name]
    all_goals grind [name]
  · rintro rfl
    exact ofName?_name t

/-- The value that a variable of the type starts with. -/
def zero : ValueType → Value
  | int => .int 0
  | double => .double .zero
  | bool => .bool false
  | string => .string ""
  | array => .array []
  | map => .map []

end ValueType

/-- The value that a variable of the named type starts with; other types have none. -/
def Value.zero (type : String) : Value :=
  match ValueType.ofName? type with
  | some t => t.zero
  | none => .absent

end WordScript
