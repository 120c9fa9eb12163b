import WordScript.Handle

/-!
# Expressions and statements

The tree that a program text is read into. Its leaves refer to identifiers in an arena, so a tree
means something only together with the arena that it was read into.
-/

namespace WordScript

/-- A reference to an identifier, or a group of expressions. -/
inductive Expression where
  | leaf (handle : Handle)
  | group (children : List Expression)
deriving Repr

namespace Expression

instance : Inhabited Expression := ⟨group []⟩

/-- Whether the expression is a single reference. -/
def isLeaf : Expression → Bool
  | leaf _ => true
  | group _ => false

/-- The handle of a leaf. -/
def handle? : Expression → Option Handle
  | leaf h => some h
  | group _ => none

/-- The members of a group; a leaf has none. -/
def children : Expression → List Expression
  | leaf _ => []
  | group es => es

/-- The parts of an expression read as a list: the members of a group, or the leaf itself. -/
def parts : Expression → List Expression
  | leaf h => [leaf h]
  | group es => es

/-- Whether the expression is the group without members. -/
def isEmpty : Expression → Bool
  | group [] => true
  | _ => false

/-- Adds an expression at the end; a leaf becomes a group first. -/
def push (e child : Expression) : Expression :=
  group (e.parts ++ [child])

/-- Takes off the last member of a group. -/
def pop? : Expression → Option (Expression × Expression)
  | leaf _ => none
  | group es =>
    match es.getLast? with
    | some last => some (last, group es.dropLast)
    | none => none

mutual

/-- The handles at the leaves, from left to right. -/
def leaves : Expression → List Handle
  | leaf h => [h]
  | group es => leavesOf es

/-- The handles at the leaves of expressions side by side. -/
def leavesOf : List Expression → List Handle
  | [] => []
  | e :: es => e.leaves ++ leavesOf es

end

/-- Taking off what was added last gives a group of the same parts. -/
@[simp] theorem pop?_push (e child : Expression) :
    (e.push child).pop? = some (child, group e.parts) := by
  simp [push, pop?]

end Expression

/--
A line of a program, or a block: the head is what stands on the line or in front of the opening
brace, and the body holds the statements between the braces.
-/
inductive Statement where
  | mk (head : Expression) (body : List Statement)
deriving Repr

namespace Statement

/-- What stands on the line, or in front of the braces. -/
def head : Statement → Expression
  | mk head _ => head

/-- The statements between the braces. -/
def body : Statement → List Statement
  | mk _ body => body

@[simp] theorem head_mk (head : Expression) (body : List Statement) : (mk head body).head = head :=
  rfl

@[simp] theorem body_mk (head : Expression) (body : List Statement) : (mk head body).body = body :=
  rfl

instance : Inhabited Statement := ⟨mk (.group []) []⟩

/-- A line. -/
def line (head : Expression) : Statement := mk head []

/-- The statement without anything on its line or between its braces. -/
def empty : Statement := line (.group [])

/-- A statement counts as a block when it has a body, however it was written. -/
def isBlock (s : Statement) : Bool := !s.body.isEmpty

/-- Adds a statement at the end of the body. -/
def push (s child : Statement) : Statement := mk s.head (s.body ++ [child])

end Statement

end WordScript
