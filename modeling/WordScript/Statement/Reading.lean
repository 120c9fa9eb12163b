import WordScript.Arena
import WordScript.Expression
import WordScript.Token.Lexeme

/-!
# Reading statements

A text is read lexeme by lexeme, in one pass. Words gather in a buffer until a blank or a bracket
ends them; leaves gather in the innermost open group of the line; a newline makes the line a
statement of the innermost open block. Each leaf is an identifier of its own, pushed onto the arena
at the moment when it is read, and stays there when the text turns out to be wrong further on.
-/

namespace WordScript

/-- What an open group was opened by. An index opens two groups: itself, and its arguments. -/
inductive Opener where
  | paren
  | index
  | arguments
deriving DecidableEq, Repr

/-- The bracket that opens such a group. -/
def Opener.opening : Opener → Char
  | paren => '('
  | index | arguments => '['

/-- The bracket that closes such a group. -/
def Opener.closing : Opener → Char
  | paren => ')'
  | index | arguments => ']'

/-- The word that an index stands for: `a[b]` is read as `(a !! (b))`. -/
def indexWord : String := "!!"

/-- A group that is not closed yet, with the bracket that opened it. -/
structure OpenGroup where
  contents : Expression
  opener : Opener
  span : Span

/-- A block that is not closed yet, with the brace that opened it. -/
structure OpenBlock where
  block : Statement
  span : Span

/-- What has been read of a text so far. Open groups and open blocks are listed innermost first. -/
structure Reader where
  arena : Arena
  word : Option String := none
  line : Expression := .group []
  groups : List OpenGroup := []
  root : Statement := .empty
  blocks : List OpenBlock := []
  afterQuote : Option Span := none

/-- Why reading stopped, and the arena with what had been read until then. -/
structure Refusal where
  fault : SyntaxFault
  span : Span
  arena : Arena

namespace Reader

/-- Stops reading. -/
def refuse (r : Reader) (fault : SyntaxFault) (span : Span) : Except Refusal Reader :=
  .error ⟨fault, span, r.arena⟩

/-- Adds characters to the word that is being read. -/
def addToWord (r : Reader) (text : String) : Reader :=
  { r with word := some (r.word.getD "" ++ text) }

/-- Adds an expression to the innermost open group, or else to the line. -/
def addExpression (r : Reader) (e : Expression) : Reader :=
  match r.groups with
  | [] => { r with line := r.line.push e }
  | g :: gs => { r with groups := { g with contents := g.contents.push e } :: gs }

/-- Takes the last expression off the innermost open group, or else off the line. -/
def takeExpression? (r : Reader) : Option (Expression × Reader) :=
  match r.groups with
  | [] =>
    match r.line.pop? with
    | some (e, line) => some (e, { r with line })
    | none => none
  | g :: gs =>
    match g.contents.pop? with
    | some (e, contents) => some (e, { r with groups := { g with contents } :: gs })
    | none => none

/-- Adds a statement to the innermost open block, or else to the whole. -/
def addStatement (r : Reader) (s : Statement) : Reader :=
  match r.blocks with
  | [] => { r with root := r.root.push s }
  | b :: bs => { r with blocks := { b with block := b.block.push s } :: bs }

/-- Puts an identifier into the arena. -/
def newLeaf (r : Reader) (i : Identifier) : Expression × Reader :=
  let (h, arena) := r.arena.push i
  (.leaf h, { r with arena })

/-- Adds an identifier as a leaf. -/
def addLeaf (r : Reader) (i : Identifier) : Reader :=
  let (e, r) := r.newLeaf i
  r.addExpression e

/-- Ends the word that is being read, if any. -/
def endWord (r : Reader) : Reader :=
  match r.word with
  | some word => { r with word := none }.addLeaf (.ofWord word)
  | none => r

/-- Opens a group. -/
def openGroup (r : Reader) (contents : Expression) (opener : Opener) (span : Span) : Reader :=
  { r with groups := ⟨contents, opener, span⟩ :: r.groups }

/-- Closes the innermost open group, which has to be of the given kind. -/
def closeGroup (r : Reader) (opener : Opener) (span : Span) : Except Refusal Reader :=
  match r.groups with
  | g :: gs =>
    if g.opener = opener then .ok ({ r with groups := gs }.addExpression g.contents)
    else r.refuse (.unmatched opener.closing) span
  | [] => r.refuse (.unmatched opener.closing) span

/-- Opens an index of the word that is being read, or else of the last expression. -/
def openIndex (r : Reader) (span : Span) : Except Refusal Reader :=
  let target? : Option (Expression × Reader) :=
    match r.word with
    | some word => some ({ r with word := none }.newLeaf (.ofWord word))
    | none => r.takeExpression?
  match target? with
  | none => r.refuse .indexOfNothing span
  | some (target, r) =>
    let (operator, r) := r.newLeaf (.ofWord indexWord)
    let r := r.openGroup (.group [target, operator]) .index span
    .ok (r.openGroup (.group []) .arguments span)

/-- Goes on only when no group is open. -/
def requireClosed (r : Reader) : Except Refusal Reader :=
  match r.groups with
  | g :: _ => r.refuse (.openAtLineEnd g.opener.opening) g.span
  | [] => .ok r

/-- Ends the line, which becomes a statement even when nothing stands on it. -/
def endLine (r : Reader) : Except Refusal Reader := do
  let r ← r.endWord.requireClosed
  return { r with line := .group [] }.addStatement (.line r.line)

/-- Opens a block, whose head is the line so far. -/
def openBlock (r : Reader) (span : Span) : Except Refusal Reader := do
  let r ← r.endWord.requireClosed
  return { r with line := .group [], blocks := ⟨.line r.line, span⟩ :: r.blocks }

/-- Closes the innermost open block. What stands on the line before the brace is its last line. -/
def closeBlock (r : Reader) (span : Span) : Except Refusal Reader := do
  let r ← r.endWord.requireClosed
  match r.blocks with
  | [] => r.refuse (.unmatched '}') span
  | b :: bs =>
    let block := if r.line.isEmpty then b.block else b.block.push (.line r.line)
    return { r with line := .group [], blocks := bs }.addStatement block

/-- Reads one token, when it may stand where it stands. -/
def readToken (r : Reader) (token : Token) (span : Span) : Except Refusal Reader :=
  match token with
  | .word text => .ok (r.addToWord text)
  | .escaped c => .ok (r.addToWord c.toString)
  | .space => .ok r.endWord
  | .continuation => .ok r.endWord
  | .newline => r.endLine
  | .quoted _ text => .ok { r.endWord.addLeaf (.string text) with afterQuote := some span }
  | .leftParen => .ok (r.endWord.openGroup (.group []) .paren span)
  | .rightParen => r.endWord.closeGroup .paren span
  | .leftBracket => r.openIndex span
  | .rightBracket => do
    let r ← r.endWord.closeGroup .arguments span
    r.closeGroup .index span
  | .leftBrace => r.openBlock span
  | .rightBrace => r.closeBlock span

/-- Reads one lexeme. Only layout may follow a string. -/
def read (r : Reader) (l : Lexeme) : Except Refusal Reader :=
  match r.afterQuote with
  | some quote =>
    if l.token.isLayout then { r with afterQuote := none }.readToken l.token l.span
    else r.refuse .noSpaceAfterString (quote.merge l.span)
  | none => r.readToken l.token l.span

/-- Ends the text: no block may be open, and what stands on the last line is a statement. -/
def finish (r : Reader) : Except Refusal Reader := do
  let r ← r.endWord.requireClosed
  match r.blocks with
  | b :: _ => r.refuse .openBlock b.span
  | [] =>
    if r.line.isEmpty then return r
    else return { r with line := .group [] }.addStatement (.line r.line)

/-- Reads the lexemes of a whole text. -/
def readAll (r : Reader) (lexemes : List Lexeme) : Except Refusal Reader := do
  let r ← lexemes.foldlM read r
  r.finish

end Reader

namespace Statement

/-- The text with a newline at its end. -/
def withFinalNewline (text : List Char) : List Char :=
  if text.getLast? = some '\n' then text else text ++ ['\n']

/--
The statement that a text is read into: a block without a head whose body holds the lines and
blocks of the text. Its leaves are pushed onto the arena; they stay there when the text is refused,
unless it cannot even be cut into lexemes.
-/
def ofText (text : String) (arena : Arena) : Except SyntaxError Statement × Arena :=
  let text := withFinalNewline text.toList
  match Lexeme.ofText text with
  | .error e => (.error e, arena)
  | .ok lexemes =>
    match { arena : Reader }.readAll lexemes with
    | .error refusal => (.error (.inText text refusal.fault refusal.span), refusal.arena)
    | .ok r => (.ok r.root, r.arena)

end Statement

end WordScript
