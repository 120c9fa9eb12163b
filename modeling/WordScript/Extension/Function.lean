import WordScript.Identifier.Operators
import WordScript.Operation

/-!
# Functions of extensions

The functions that an extension can offer to programs besides the built-in ones. They are scripts,
so that all they do to a machine is to ask operations of it; their first argument is the leaf that
they were called by.
-/

namespace WordScript

namespace Script

/-- Evaluates expressions one after the other, and joins their values. -/
def evaluateEach : List Expression → Script (List Handle)
  | [] => return []
  | e :: es => do
    let handles ← request (.evaluate e)
    let rest ← evaluateEach es
    return handles ++ rest

/-- Makes a temporary identifier for each member of a list. -/
def pushEach {α : Type} (make : α → Script Identifier) : List α → Script (List Handle)
  | [] => return []
  | a :: as => do
    let i ← make a
    let h ← request (.push i)
    let rest ← pushEach make as
    return h :: rest

/-- Gives the value, or fails with the error. -/
def ofExcept {α : Type} (result : Except RuntimeError α) : Script α := finish result

/-- Goes on only when a text could be read; extensions report what is wrong with a text as an error
from outside of the program. -/
def requireRead (result : Except SyntaxError Unit) : Script Unit :=
  match result with
  | .ok () => return ()
  | .error e => fail (.stream e.report)

/-- The place of execution in words. -/
def placeText : Script String := do
  let here ← request .place
  return here.name ++ ":" ++ toString here.depth

end Script

namespace Extension

/-- The functions that an extension can offer. Some of them have a text as a parameter. -/
inductive Function where
  /-- Gives the values of its operands. -/
  | same
  /-- Gives the values of its operands from last to first. -/
  | reversed
  /-- Multiplies each value by two. -/
  | doubled
  /-- Names the type of each value. -/
  | typeNames
  /-- Counts its operands, without evaluating them. -/
  | operandCount
  /-- Tells what its operands are, without evaluating them. -/
  | operandForms
  /-- Tells the place of execution. -/
  | place
  /-- Runs its parameter in the current frame. -/
  | runTopLevel
  /-- Runs its parameter as a block. -/
  | run
  /-- Fails with its parameter. -/
  | fail
  /-- Declares an integer variable named by its parameter. -/
  | declare
  /-- Gives a handle that refers to nothing. -/
  | nothing
deriving DecidableEq, Repr

namespace Function

open Script

/-- All functions, each with the name that its label has. -/
def table : List (String × Function) :=
  [("id", same), ("rev", reversed), ("twice", doubled), ("types", typeNames),
   ("count", operandCount), ("raw", operandForms), ("where", place), ("top", runTopLevel),
   ("run", run), ("fail", fail), ("declare", declare), ("invalid", nothing)]

/-- The function that a label names. -/
def ofName? (name : String) : Option Function :=
  (table.find? fun entry => entry.1 = name).map Prod.snd

/-- What an operand is: the role of an identifier, or a group of some size. -/
def formOf : Expression → Script Identifier
  | .leaf h => do
    let i ← request (.identifier h)
    return .string i.role.describe
  | .group es => return .string ("group " ++ toString es.length)

/-- What a function does when it is called. -/
def script (parameter : String) (args : List Expression) : Function → Script (List Handle)
  | same => evaluateEach args.tail
  | reversed => do
    let handles ← evaluateEach args.tail
    return handles.reverse
  | doubled => do
    let handles ← evaluateEach args.tail
    pushEach
      (fun h => do
        let i ← request (.identifier h)
        Script.ofExcept (Identifier.arithmetic .mul i (.int 2)))
      handles
  | typeNames => do
    let handles ← evaluateEach args.tail
    pushEach
      (fun h => do
        let i ← request (.identifier h)
        return .string i.type)
      handles
  | operandCount => do
    let h ← request (.push (.int (Int64.ofInt args.tail.length)))
    return [h]
  | operandForms => pushEach formOf args.tail
  | place => do
    let here ← placeText
    let h ← request (.push (.string here))
    return [h]
  | runTopLevel => do
    requireRead (← request (.runTextTopLevel parameter))
    return []
  | run => do
    requireRead (← request (.runText parameter))
    return []
  | fail => Script.fail (.stream parameter)
  | declare => do
    let h ← request (.declare ((Identifier.name parameter 0).asVariable "int" 0))
    return [h]
  | nothing => return [.invalid]

end Function

/-- Calls the function that a label names; nothing else can be called. -/
def call (label : Native) (args : List Expression) : Script (List Handle) :=
  match Function.ofName? label.name with
  | some f => f.script label.parameter args
  | none => Script.fail (.notCallable label.name)

end Extension

end WordScript
