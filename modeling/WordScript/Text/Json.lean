/-!
# JSON texts

The part of JSON that trees are shown in, texts, lists and records, and its layout over several
lines: each member stands on a line of its own, indented by two blanks for each level.
-/

namespace WordScript.Text

/-- A text, a list, or a record whose fields are in a given order. -/
inductive Json where
  | text (s : String)
  | list (items : List Json)
  | record (fields : List (String × Json))

namespace Json

/-- A character inside a JSON string: quotes, backslashes and controls are escaped. -/
def escapedChar (c : Char) : List Char :=
  if c = '"' then ['\\', '"']
  else if c = '\\' then ['\\', '\\']
  else if c = '\x08' then ['\\', 'b']
  else if c = '\x0c' then ['\\', 'f']
  else if c = '\n' then ['\\', 'n']
  else if c = '\r' then ['\\', 'r']
  else if c = '\t' then ['\\', 't']
  else if c.toNat < 0x20 then
    let digits := Nat.toDigits 16 c.toNat
    '\\' :: 'u' :: List.replicate (4 - digits.length) '0' ++ digits
  else [c]

/-- A JSON string. -/
def quotedText (s : String) : String :=
  String.ofList ('"' :: s.toList.flatMap escapedChar ++ ['"'])

/-- The beginning of a line of the given depth. -/
def newLine (depth : Nat) : String :=
  String.ofList ('\n' :: List.replicate (2 * depth) ' ')

/-- The members of a list or record between its brackets, each on a line of its own. -/
def enclosed (opening closing : String) (depth : Nat) (members : List String) : String :=
  if members.isEmpty then opening ++ closing
  else
    opening ++ newLine (depth + 1) ++ ("," ++ newLine (depth + 1)).intercalate members
      ++ newLine depth ++ closing

mutual

/-- The text of a value at the given depth. -/
def pretty (depth : Nat) : Json → String
  | text s => quotedText s
  | list items => enclosed "[" "]" depth (prettyItems (depth + 1) items)
  | record fields => enclosed "\x7b" "\x7d" depth (prettyFields (depth + 1) fields)

/-- The texts of the members of a list. -/
def prettyItems (depth : Nat) : List Json → List String
  | [] => []
  | j :: js => pretty depth j :: prettyItems depth js

/-- The texts of the fields of a record. -/
def prettyFields (depth : Nat) : List (String × Json) → List String
  | [] => []
  | (key, j) :: fields => (quotedText key ++ ": " ++ pretty depth j) :: prettyFields depth fields

end

end Json

end WordScript.Text
