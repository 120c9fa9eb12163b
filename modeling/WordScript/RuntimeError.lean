import WordScript.Identifier
import WordScript.Text.Quoted

/-!
# Runtime errors

What can go wrong while a program runs, and how it is reported.
-/

namespace WordScript

/-- What went wrong. A `what` is the description of the identifier that was given. -/
inductive RuntimeError where
  /-- The handle refers to no identifier, or to one that has been destroyed. -/
  | invalidReference (handle : Handle)
  /-- The right side of a declaration is not exactly one type. -/
  | typeArity (count : Nat)
  | notAType (what : String)
  /-- The target of a declaration is neither a name nor a variable. -/
  | invalidTarget (what : String)
  /-- The name is already bound in the frame where it is to be declared. -/
  | redefinition (name : String)
  /-- The two sides of an operation have different numbers of values. -/
  | lengthMismatch (left right : Nat)
  | moduleOpen (path diagnostic : String)
  /-- A module has no entry point. -/
  | moduleSymbol (symbol diagnostic : String)
  /-- A text is cast to a number that it does not write. -/
  | numericCast (text type : String)
  | divisionByZero
  | assignTarget (name : String) (role : Role)
  /-- A qualified name refers to a namespace that nobody created. -/
  | unknownNamespace (name : String)
  /-- The condition of a block does not give exactly one value. -/
  | conditionCount (count : Nat)
  | elseWithoutIf
  | notCallable (name : String)
  /-- The output, or something else outside the program, fails. -/
  | stream (text : String)
deriving DecidableEq, Repr

namespace RuntimeError

/-- The error in words. -/
def message : RuntimeError → String
  | invalidReference handle =>
    "invalid identifier referenced (id " ++ toString handle.index ++ ")"
  | typeArity count => "declaration expects exactly one type, got " ++ toString count
  | notAType what => "'" ++ what ++ "' is not a type"
  | invalidTarget what => "cannot declare " ++ what ++ " as a variable"
  | redefinition name => "redefinition of '" ++ name ++ "' not supported"
  | lengthMismatch left right =>
    "lvalue count " ++ toString left ++ " not equal to rvalue count " ++ toString right
  | moduleOpen path diagnostic => "library file '" ++ path ++ "' couldn't open\n" ++ diagnostic
  | moduleSymbol symbol diagnostic =>
    "library function '" ++ symbol ++ "' couldn't load\n" ++ diagnostic
  | numericCast text type => "cannot cast " ++ Text.quoted text ++ " to " ++ type
  | divisionByZero => "division by zero"
  | assignTarget name role => "cannot assign to " ++ role.describe ++ " '" ++ name ++ "'"
  | unknownNamespace name => "unknown namespace '" ++ name ++ "'"
  | conditionCount count => "condition must yield exactly one value, got " ++ toString count
  | elseWithoutIf => "'else' without a preceding 'if'"
  | notCallable name => "'" ++ name ++ "' is not callable"
  | stream text => "IO error: " ++ text

/-- The report of an error. -/
def report (e : RuntimeError) : String :=
  "Runtime error: " ++ e.message

end RuntimeError

end WordScript
