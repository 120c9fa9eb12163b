/-!
# Built-in operations

What the functions and control words of the language do. Several words may stand for the same
operation; the words are chosen where a machine is set up.
-/

namespace WordScript

/-- The arithmetic operations on numbers; a sum also joins texts. -/
inductive Arithmetic where
  | add
  | sub
  | mul
  | div
deriving DecidableEq, Repr

/-- The comparisons of two values. -/
inductive Comparison where
  | eq
  | ne
  | lt
  | gt
  | le
  | ge
deriving DecidableEq, Repr

/-- The connectives of truth values. -/
inductive Connective where
  | and
  | or
deriving DecidableEq, Repr

/-- The operations that a machine is set up with. -/
inductive Builtin where
  | declare
  | assign
  | arithmetic (op : Arithmetic)
  /-- An arithmetic operation whose result is assigned to its left operand. -/
  | update (op : Arithmetic)
  | compare (op : Comparison)
  | connect (op : Connective)
  | negate
  | index
  | print
  | printLine
  | push
  | dump
  | loadModule
  | ifWord
  | elseWord
  | loopWord
deriving DecidableEq, Repr

end WordScript
