import WordScript.Text.Span

/-!
# Syntax errors

What can be wrong with a program text, where it is, and how it is reported.
-/

namespace WordScript

/-- What is wrong with a program text. -/
inductive SyntaxFault where
  /-- A string runs into the end of its line. -/
  | unclosedQuote
  /-- A backslash is the last character of the text. -/
  | strayBackslash
  /-- Something other than layout follows a string. -/
  | noSpaceAfterString
  /-- A bracket closes nothing, or not what was opened last. -/
  | unmatched (bracket : Char)
  /-- A line, or the head of a block, ends inside brackets. -/
  | openAtLineEnd (bracket : Char)
  /-- An index has nothing in front of it. -/
  | indexOfNothing
  /-- The text ends inside a block. -/
  | openBlock
deriving DecidableEq, Repr

/-- The fault in words. -/
def SyntaxFault.message : SyntaxFault → String
  | unclosedQuote => "Quotation not closed before end of line"
  | strayBackslash => "unexpected character: \"\\\\\""
  | noSpaceAfterString => "No space after string sequence"
  | unmatched bracket => "unmatched '" ++ bracket.toString ++ "'"
  | openAtLineEnd bracket => "'" ++ bracket.toString ++ "' not closed before end of line"
  | indexOfNothing => "'[' without an indexed expression"
  | openBlock => "'\x7b' not closed before end of input"

/-- A fault with the part of the text that it concerns. -/
structure SyntaxError where
  fault : SyntaxFault
  span : Span
  position : Position
deriving DecidableEq, Repr

namespace SyntaxError

/-- The error at a span of a text: its position is where the span starts. -/
def inText (text : List Char) (fault : SyntaxFault) (span : Span) : SyntaxError :=
  ⟨fault, span, Position.ofOffset text span.start⟩

/-- The report of an error: where it is, and below that what it is. -/
def report (e : SyntaxError) : String :=
  "Syntax error: line " ++ toString e.position.line ++ ", col " ++ toString e.position.column
    ++ "\n" ++ e.fault.message

end SyntaxError

end WordScript
