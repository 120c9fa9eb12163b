import WordScript.Arena
import WordScript.Expression
import WordScript.Text.Json
import WordScript.Identifier.Cast

/-!
# Trees

A statement as it is shown to a reader: its shape, with the kind, the type and the text of the
identifier at each leaf. A tree is written as indented lines, or as JSON.
-/

namespace WordScript

/-- How a leaf is shown: by its name, or as a constant of one of three kinds. -/
inductive LeafKind where
  | identifier
  | string
  | number
  | constant
deriving DecidableEq, Repr

namespace LeafKind

/-- The label of a leaf in indented lines. -/
def label : LeafKind → String
  | identifier => "Identifier"
  | string => "String"
  | number => "Number"
  | constant => "Constant"

/-- The kind of a leaf in JSON. -/
def key : LeafKind → String
  | identifier => "identifier"
  | string => "string"
  | number => "number"
  | constant => "constant"

end LeafKind

/-- An expression as it is shown. -/
inductive ExpressionTree where
  | leaf (kind : LeafKind) (type text : String)
  | group (children : List ExpressionTree)

/-- A statement as it is shown. -/
inductive Tree where
  | line (head : ExpressionTree)
  | block (head : ExpressionTree) (body : List Tree)

/-- An identifier as it is shown at a leaf: constants by their value, all others by their name. -/
def Identifier.toTree (i : Identifier) : ExpressionTree :=
  if i.role ≠ .constant then .leaf .identifier i.type i.surface
  else
    match ValueType.ofName? i.type with
    | some .string => .leaf .string i.type i.toText
    | some .int | some .double => .leaf .number i.type i.toText
    | _ => .leaf .constant i.type i.toText

mutual

/-- An expression as it is shown; every leaf has to refer to an identifier. -/
def Expression.toTree (arena : Arena) : Expression → Except RuntimeError ExpressionTree
  | .leaf h =>
    match arena.get? h with
    | some i => .ok i.toTree
    | none => .error (.invalidReference h)
  | .group es =>
    match Expression.toTrees arena es with
    | .ok children => .ok (.group children)
    | .error e => .error e

/-- Expressions side by side as they are shown. -/
def Expression.toTrees (arena : Arena) : List Expression → Except RuntimeError (List ExpressionTree)
  | [] => .ok []
  | e :: es =>
    match e.toTree arena with
    | .error error => .error error
    | .ok tree =>
      match Expression.toTrees arena es with
      | .error error => .error error
      | .ok trees => .ok (tree :: trees)

end

mutual

/-- A statement as it is shown. -/
def Statement.toTree (arena : Arena) : Statement → Except RuntimeError Tree
  | .mk head body =>
    match head.toTree arena with
    | .error error => .error error
    | .ok shown =>
      match Statement.toTrees arena body with
      | .error error => .error error
      | .ok [] => .ok (.line shown)
      | .ok (tree :: trees) => .ok (.block shown (tree :: trees))

/-- Statements one below the other as they are shown. -/
def Statement.toTrees (arena : Arena) : List Statement → Except RuntimeError (List Tree)
  | [] => .ok []
  | s :: ss =>
    match s.toTree arena with
    | .error error => .error error
    | .ok tree =>
      match Statement.toTrees arena ss with
      | .error error => .error error
      | .ok trees => .ok (tree :: trees)

end

/-- A line of a shown tree: a text at a depth. -/
def indented (depth : Nat) (text : String) : String :=
  String.ofList (List.replicate (2 * depth) ' ') ++ text ++ "\n"

mutual

/-- An expression in indented lines. -/
def ExpressionTree.renderAt (depth : Nat) : ExpressionTree → String
  | leaf kind _ text => indented depth (kind.label ++ ": " ++ text)
  | group children => indented depth "Expression:" ++ ExpressionTree.renderAll (depth + 1) children

/-- Expressions side by side in indented lines. -/
def ExpressionTree.renderAll (depth : Nat) : List ExpressionTree → String
  | [] => ""
  | e :: es => e.renderAt depth ++ ExpressionTree.renderAll depth es

end

mutual

/-- A statement in indented lines. -/
def Tree.renderAt (depth : Nat) : Tree → String
  | line head => indented depth "Statement:" ++ head.renderAt (depth + 1)
  | block head body =>
    indented depth "Block:" ++ head.renderAt (depth + 1) ++ Tree.renderAll (depth + 1) body

/-- Statements one below the other in indented lines. -/
def Tree.renderAll (depth : Nat) : List Tree → String
  | [] => ""
  | t :: ts => t.renderAt depth ++ Tree.renderAll depth ts

end

/-- A tree in indented lines. -/
def Tree.render (t : Tree) : String := t.renderAt 0

mutual

/-- An expression in JSON. -/
def ExpressionTree.toJson : ExpressionTree → Text.Json
  | leaf kind type text =>
    .record [("kind", .text kind.key), ("type", .text type), ("text", .text text)]
  | group children =>
    .record [("kind", .text "expression"), ("children", .list (ExpressionTree.toJsons children))]

/-- Expressions side by side in JSON. -/
def ExpressionTree.toJsons : List ExpressionTree → List Text.Json
  | [] => []
  | e :: es => e.toJson :: ExpressionTree.toJsons es

end

mutual

/-- A statement in JSON. -/
def Tree.toJson : Tree → Text.Json
  | line head => .record [("kind", .text "statement"), ("expr", head.toJson)]
  | block head body =>
    .record [("kind", .text "block"), ("head", head.toJson), ("body", .list (Tree.toJsons body))]

/-- Statements one below the other in JSON. -/
def Tree.toJsons : List Tree → List Text.Json
  | [] => []
  | t :: ts => t.toJson :: Tree.toJsons ts

end

end WordScript
