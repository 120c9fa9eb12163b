/-!
# Tokens

The pieces that a program text is made of: words, strings, brackets, and the blanks between them.
-/

namespace WordScript

/-- The two characters that may enclose a string. -/
inductive Quote where
  | single
  | double
deriving DecidableEq, Repr

/-- The character that opens and closes a string. -/
def Quote.char : Quote → Char
  | single => '\''
  | double => '"'

/-- A piece of a program text. -/
inductive Token where
  | space
  | newline
  | leftParen
  | rightParen
  | leftBrace
  | rightBrace
  | leftBracket
  | rightBracket
  /-- A backslash at the end of a line, which joins the next line to it. -/
  | continuation
  /-- A character outside strings that a backslash makes part of a word. -/
  | escaped (c : Char)
  /-- A string, with the text that it stands for. -/
  | quoted (quote : Quote) (text : String)
  | word (text : String)
deriving DecidableEq, Repr

namespace Token

/-- Whether the token is only layout: what may follow a string. -/
def isLayout : Token → Bool
  | space | newline | continuation => true
  | _ => false

/-- The token as it is named in messages. -/
def describe : Token → String
  | space => "whitespace"
  | newline => "newline"
  | leftParen => "("
  | rightParen => ")"
  | leftBrace => "\x7b"
  | rightBrace => "\x7d"
  | leftBracket => "["
  | rightBracket => "]"
  | continuation => "line continuation"
  | escaped c => String.ofList ['\\', c]
  | quoted quote text => quote.char.toString ++ text ++ quote.char.toString
  | word text => text

end Token

end WordScript
