import WordScript.Number.Double.Reading
import WordScript.Value

/-!
# Identifiers

Everything that a program can refer to is an identifier: literals, variables, type names,
functions, control words, and names that nothing has been declared under yet.
-/

namespace WordScript

/-- The part that an identifier plays. -/
inductive Role where
  | control
  | function
  | var
  | constant
  | typeName
  | undefined
  /-- The contents of a slot that holds no identifier. -/
  | invalid
deriving DecidableEq, Repr

/-- The role as it is named in messages. -/
def Role.describe : Role → String
  | control => "control"
  | function => "function"
  | var => "variable"
  | constant => "constant"
  | typeName => "typeName"
  | undefined => "undefined"
  | invalid => "invalid"

/--
An identifier: the name it is written with, its role, the name of its type, the depth of the frame
it belongs to, whether it may stand between its operands, and its payload. Without more being said
it is an undefined name.
-/
structure Identifier where
  surface : String := ""
  role : Role := .undefined
  type : String := "undefined"
  scope : Nat := 0
  isInfix : Bool := false
  value : Value := .absent
deriving DecidableEq, Repr, Inhabited

namespace Identifier

/-- The contents of a slot that holds no identifier. -/
def invalid : Identifier := { role := .invalid }

/-- A name that nothing has been declared under, in a frame of the given depth. -/
def name (surface : String) (scope : Nat) : Identifier := { surface, scope }

/-- A constant without a name. -/
def constant (type : String) (value : Value) : Identifier :=
  { role := .constant, type, value }

/-- An integer constant. -/
def int (n : Int64) : Identifier := constant "int" (.int n)

/-- A floating point constant. -/
def double (x : Number.Double) : Identifier := constant "double" (.double x)

/-- A truth value. -/
def bool (b : Bool) : Identifier := constant "bool" (.bool b)

/-- A text constant. -/
def string (text : String) : Identifier := constant "string" (.string text)

/-- The name of a type. -/
def typeName (surface : String) : Identifier :=
  { surface, role := .typeName, type := "type" }

/-- A function that gives values of the named type. -/
def function (surface type : String) (isInfix : Bool) (callable : Callable) : Identifier :=
  { surface, role := .function, type, isInfix, value := .callable callable }

/-- A word that directs the flow of control. -/
def control (surface : String) (op : Builtin) : Identifier :=
  { surface, role := .control, type := "void", value := .callable (.builtin op) }

/-- The identifier made a variable of the named type, with the value that the type starts with. -/
def asVariable (i : Identifier) (type : String) (scope : Nat) : Identifier :=
  { i with role := .var, type, scope, value := Value.zero type }

/-- Whether nothing has been declared under the name. -/
def isUndefined (i : Identifier) : Bool := i.role = .undefined

/-- Whether the identifier is a function. -/
def isFunction (i : Identifier) : Bool := i.role = .function

/-- Whether the identifier is a variable. -/
def isVariable (i : Identifier) : Bool := i.role = .var

/-- What the identifier does when it is called, if it can be called. -/
def callable? (i : Identifier) : Option Callable :=
  match i.value with
  | .callable c => some c
  | _ => none

/-- The built-in operation behind a control word. -/
def controlOp? (i : Identifier) : Option Builtin :=
  match i.role, i.value with
  | .control, .callable (.builtin op) => some op
  | _, _ => none

/-- The identifier in words: by its name, or by its type when it has none. -/
def describe (i : Identifier) : String :=
  if i.surface = "" then i.role.describe ++ " of type " ++ i.type
  else i.role.describe ++ " '" ++ i.surface ++ "'"

/--
The finite number that a word writes. Such a word starts with a digit or a point after its sign,
so that the names of special numbers stay names.
-/
def number? (word : List Char) : Option Number.Double :=
  match (Number.splitSign word).2 with
  | [] => none
  | lead :: _ =>
    if lead.isDigit || lead = '.' then
      match Number.Double.ofText? word with
      | some x => if x.isFinite then some x else none
      | none => none
    else none

/-- The constant for a number: an integer of 64 bits where it is one. -/
def ofNumber (x : Number.Double) : Identifier :=
  match x.integer? with
  | some i => if Number.minInt64 ≤ i ∧ i < Number.supInt64 then int (Int64.ofInt i) else double x
  | none => double x

/-- The identifier that a bare word of a program stands for: a number, or else a name. -/
def ofWord (word : String) : Identifier :=
  match Number.int64? word.toList with
  | some n => int n
  | none =>
    match number? word.toList with
    | some x => ofNumber x
    | none => name word 0

end Identifier

end WordScript
