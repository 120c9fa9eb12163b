import WordScript.Operation

/-!
# Evaluating groups

The members of a group are taken from right to left. Values wait until a function turns up; the
function takes all of them as its operands, and an infix function that finds exactly one value
waiting takes its left neighbour as well. What it gives waits in their place. There is no
precedence: `1 + 2 * 3` is `1 + (2 * 3)`, and `2 * 3 - 1` is `2 * (3 - 1)`.
-/

namespace WordScript.Evaluation

open WordScript.Action WordScript.Machine

/-- How operations are carried out inside of other operations. -/
abbrev Performer := (op : Operation) → Action op.Answer

/-- The identifier that a leaf stands for: names that are not declared are resolved anew. -/
def resolveLeaf (h : Handle) : Action Handle := do
  let i ← identifier h
  if i.isUndefined then resolve i.surface else return h

/-- Evaluates one expression. -/
def evaluate (self : Performer) : Expression → Action (List Handle)
  | .leaf h => do return [← resolveLeaf h]
  | .group es => self (.evaluateGroup es)

/--
Goes through the members of a group, listed from right to left. The operands waiting are listed
from left to right; groups among them are not evaluated yet.
-/
def scan (self : Performer) : List Expression → List Expression → Action (List Expression)
  | [], waiting => return waiting
  | .group es :: before, waiting => scan self before (.group es :: waiting)
  | .leaf h :: before, waiting => do
    let callee ← resolveLeaf h
    let i ← identifier callee
    if !i.isFunction then
      scan self before (.leaf callee :: waiting)
    else
      match i.isInfix, waiting, before with
      | true, [right], left :: before => do
        let results ← self (.call [.leaf callee, left, right] true)
        scan self before (results.map .leaf)
      | _, waiting, before => do
        let results ← self (.call (.leaf callee :: waiting) false)
        scan self before (results.map .leaf)
termination_by before => before.length

/-- The handles that are left over when all members have been gone through. -/
def collect (self : Performer) : Expression → Action (List Handle)
  | .leaf h => return [h]
  | .group es => self (.evaluate (.group es))

/-- Evaluates expressions side by side as one group. -/
def evaluateGroup (self : Performer) (es : List Expression) : Action (List Handle) := do
  note es
  let waiting ← scan self es.reverse []
  concatMap (collect self) waiting

/-- Evaluates expressions one after the other, each by itself. -/
def evaluateEach (self : Performer) (es : List Expression) : Action (List Handle) :=
  concatMap (fun e => self (.evaluate e)) es

end WordScript.Evaluation
