import WordScript.Evaluation.Block

/-!
# Evaluation

The machine carries out an operation by carrying out others. Each of them is given one step less,
so that the steps bound how deep operations are nested, and also how often a loop runs; an
operation that runs out of them is cut off. More steps never change an answer.
-/

namespace WordScript

open Evaluation Machine

/-- Carries out an operation, given how the operations inside of it are carried out. -/
def Evaluation.step (host : Host) (self : Performer) (steps : Nat) :
    (op : Operation) → Action op.Answer
  | .evaluate e => evaluate self e
  | .evaluateGroup es => evaluateGroup self es
  | .call args isInfix => call host self args isInfix
  | .runStep s ladder => runStep self steps s ladder
  | .runBlock body => inFrame host (runAll self body none)
  | .decide condition => inFrame host (holds self condition)
  | .run s => run self s
  | .runTopLevel s => runTopLevel self s
  | .readText text => readText text
  | .runText text => withText text fun s => self (.run s)
  | .runTextTopLevel text => withText text fun s => self (.runTopLevel s)
  | .loadModule path space args => loadModule host self path space args
  | .resolve name => resolve name
  | .declare i => declare i
  | .registerFunction name isInfix label =>
    declare (.function name "any" isInfix (.native label))
  | .registerConstant name i => declare { i with surface := name }
  | .push i => pushTemporary i
  | .identifier h => identifier h
  | .setValue h value => setValue h value
  | .place => place

/-- Carries out an operation with at most the given number of steps. -/
def perform (host : Host) : Nat → (op : Operation) → Action op.Answer
  | 0, _ => fun _ => .cutOff
  | steps + 1, op => Evaluation.step host (perform host steps) steps op

/-- Runs a script, each operation of it with at most the given number of steps. -/
def Script.runOn {α : Type} (script : Script α) (host : Host) (steps : Nat) : Action α :=
  script.run (perform host steps)

/--
An operation is carried out when it gives an answer or fails for some number of steps. It diverges
when it is cut off for every number of steps.
-/
def Diverges (host : Host) (op : Operation) (m : Machine) : Prop :=
  ∀ steps, perform host steps op m = .cutOff

end WordScript
