import WordScript.Evaluation.Group

/-!
# Declarations

A declaration makes variables of names. Between its operands, the last one gives the type and the
others the names; in front of them, the type is that of the last operand that is a variable of the
current frame already.
-/

namespace WordScript.Evaluation

open WordScript.Action WordScript.Machine

/-- Declares a variable of the named type under the name of an identifier. -/
def declareAs (type : String) (h : Handle) : Action Handle := do
  let i ← identifier h
  if i.isUndefined || i.isVariable then
    declare ((Identifier.name i.surface 0).asVariable type 0)
  else
    fail (.invalidTarget i.describe)

/-- A declaration that stands between its operands. -/
def declareBetween (self : Performer) (operands : List Expression) : Action (List Handle) :=
  match operands.getLast? with
  | none => return []
  | some last => do
    match ← self (.evaluate last) with
    | [right] =>
      let type ← identifier right
      if type.role = .typeName then
        let targets ← evaluateEach self operands.dropLast
        concatMap (fun h => do return [← declareAs type.surface h]) targets
      else
        fail (.notAType type.describe)
    | values => fail (.typeArity values.length)

/-- Whether an identifier is a variable of the frame of the given depth. -/
def isVariableAt (depth : Nat) (i : Identifier) : Bool :=
  i.isVariable && i.scope = depth

/-- The type of the first identifier that is a variable of the frame of the given depth. -/
def typeOfFirst? (depth : Nat) : List Handle → Action (Option String)
  | [] => return none
  | h :: hs => do
    let i ← identifier h
    if isVariableAt depth i then return some i.type else typeOfFirst? depth hs

/-- A declaration that stands in front of its operands. -/
def declareInFront (self : Performer) (operands : List Expression) : Action (List Handle) := do
  let handles ← evaluateEach self operands
  let here ← place
  let type? ← typeOfFirst? here.depth handles.reverse
  concatMap
    (fun h => do
      let i ← identifier h
      if isVariableAt here.depth i then
        return [h]
      else
        match type? with
        | some type => return [← declareAs type h]
        | none => fail (.notAType i.describe))
    handles

end WordScript.Evaluation
