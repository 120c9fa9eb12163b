import WordScript.Machine

/-!
# Operations, scripts and hosts

What can be asked of a machine, and the programs that a host is made of. A *script* asks one
operation after the other, and each time goes on from the answer; the functions and modules that a
host provides are scripts.
-/

namespace WordScript

/-- What can be asked of a machine. -/
inductive Operation where
  | evaluate (e : Expression)
  /-- Evaluates expressions side by side as one group. -/
  | evaluateGroup (es : List Expression)
  /-- Calls the function at the first leaf with all of the expressions. -/
  | call (args : List Expression) (isInfix : Bool)
  /--
  Runs a statement. A ladder of conditional blocks is open when the statement before was one of
  its rungs, and then it is known whether some rung has been taken; the answer is the same for the
  statement after.
  -/
  | runStep (s : Statement) (ladder : Option Bool)
  /-- Runs statements in a frame of their own. -/
  | runBlock (body : List Statement)
  /-- Evaluates a condition in a frame of its own. -/
  | decide (condition : List Expression)
  | run (s : Statement)
  /-- Runs the body of a statement in the current frame. -/
  | runTopLevel (s : Statement)
  | readText (text : String)
  | runText (text : String)
  | runTextTopLevel (text : String)
  | loadModule (path space : String) (args : List Expression)
  | resolve (name : String)
  | declare (i : Identifier)
  | registerFunction (name : String) (isInfix : Bool) (label : Native)
  | registerConstant (name : String) (i : Identifier)
  | push (i : Identifier)
  | identifier (h : Handle)
  | setValue (h : Handle) (value : Value)
  | place

/-- What an operation gives when it does not fail. -/
abbrev Operation.Answer : Operation → Type
  | evaluate _ => List Handle
  | evaluateGroup _ => List Handle
  | call _ _ => List Handle
  | runStep _ _ => Option Bool
  | runBlock _ => Unit
  | decide _ => Bool
  | run _ => Unit
  | runTopLevel _ => Unit
  | readText _ => Except SyntaxError Statement
  | runText _ => Except SyntaxError Unit
  | runTextTopLevel _ => Except SyntaxError Unit
  | loadModule _ _ _ => Unit
  | resolve _ => Handle
  | declare _ => Handle
  | registerFunction _ _ _ => Handle
  | registerConstant _ _ => Handle
  | push _ => Handle
  | identifier _ => Identifier
  | setValue _ _ => Unit
  | place => Place

/-- A program that asks operations of a machine; it is told of failures and may go on from them. -/
inductive Script (α : Type) where
  | finish (result : Except RuntimeError α)
  | ask (op : Operation) (next : Except RuntimeError op.Answer → Script α)

namespace Script

variable {α β : Type}

/-- One script after the other, unless the first one fails. -/
protected def bind : Script α → (α → Script β) → Script β
  | finish (.ok a), f => f a
  | finish (.error e), _ => finish (.error e)
  | ask op next, f => ask op fun answer => (next answer).bind f

instance : Monad Script where
  pure a := finish (.ok a)
  bind := Script.bind

/-- Fails. -/
def fail (e : RuntimeError) : Script α := finish (.error e)

/-- Asks one operation, and fails when it fails. -/
def request (op : Operation) : Script op.Answer := ask op finish

/-- Runs a script on a machine that carries out each operation as `self` says. -/
def run (self : (op : Operation) → Action op.Answer) : Script α → Action α
  | finish result => Action.ofExcept result
  | ask op next => do
    let answer ← (self op).attempt
    (next answer).run self

end Script

/--
What a machine is embedded in: what the functions of the host do, how modules are opened, and the
order in which the identifiers of a block are destroyed when it is left for the `n`-th time that a
block is left at all.
-/
structure Host where
  native : Native → List Expression → Script (List Handle)
  openModule : String → Except RuntimeError (List Expression → Script Unit)
  arrange : Nat → List Handle → List Handle := fun _ hs => hs
  arrange_perm : ∀ n hs, (arrange n hs).Perm hs := by intros; exact .refl _

end WordScript
