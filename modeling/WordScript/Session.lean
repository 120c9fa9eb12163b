import WordScript.Program
import WordScript.Vocabulary

/-!
# Sessions

A conversation line by line: every line is a command, or a text that is run in the global frame, so
that what it declares is there for the lines after it.
-/

namespace WordScript

/-- What a line of a session asks for. -/
inductive Request where
  | nothing
  | quit
  | help
  | clear
  | tree (code : String)
  | unknown (command : String)
  | code (text : String)
deriving DecidableEq, Repr

namespace Request

/-- The words that end a session. -/
def quitWords : List String := ["quit", ":quit", ":q", ":exit"]

/-- The words that ask for help. -/
def helpWords : List String := [":help", ":h", ":?"]

/-- The word that the code of a tree to be shown follows, with or without a blank. -/
def treeWord : String := ":tree"

/-- What a line asks for; blanks around it do not count. -/
def ofLine (line : String) : Request :=
  let cs := Text.trim line.toList
  let text := String.ofList cs
  if cs.isEmpty then nothing
  else if quitWords.contains text then quit
  else if helpWords.contains text then help
  else if text = ":clear" then clear
  else if treeWord.toList.isPrefixOf cs then
    tree (String.ofList (Text.trimStart (cs.drop treeWord.length)))
  else if cs.head? = some ':' then unknown text
  else code text

end Request

/-- A machine to talk to. -/
structure Session where
  machine : Machine
  isOver : Bool := false

/-- What a session answers: its output, and what it has to complain about. -/
structure Reply where
  output : String := ""
  complaint : Option Failure := none

namespace Session

/-- The session before the first line. -/
def start : Session := { machine := .initial {} }

/-- What is said before the first line. -/
def banner : String :=
  "SIL REPL v0.1.0\nType :help for help, :quit to exit.\n\n"

/-- What is said at the end. -/
def farewell : String := "Goodbye!\n"

/-- The help text. -/
def helpText : String :=
  String.join
    ["SIL REPL Commands:\n",
     "  :help, :h, :?   Show this help\n",
     "  :quit, :q       Exit the REPL (also: quit, :exit)\n",
     "  :clear          Clear the screen\n",
     "  :tree <code>    Print the parse tree of <code>\n",
     "\n",
     "Examples:\n",
     "  decas x :: int\n",
     "  x = 1 + 2 * 3\n",
     "  println \"x is \" x\n"]

/-- What clears the screen and goes to its upper left corner. -/
def clearScreen : String := "\x1b[2J\x1b[1;1H"

/-- Lets the machine do something, and gives what it has written. -/
def act (s : Session) (x : Action (Except SyntaxError Unit)) : Reply × Session :=
  let (complaint, machine) := s.machine.attempt x
  ({ output := machine.sink.textSince s.machine.sink.pieces.length, complaint },
    { s with machine })

/-- Does what a line asks for. -/
def respond (host : Host) (steps : Nat) (s : Session) : Request → Reply × Session
  | .nothing => ({}, s)
  | .quit => ({ output := farewell }, { s with isOver := true })
  | .help => ({ output := helpText }, s)
  | .clear => ({ output := clearScreen }, s)
  | .tree code => s.act (Program.drive host steps code .lines false)
  | .unknown command =>
    ({ output := "Unknown command: " ++ command ++ "\nType :help for help.\n" }, s)
  | .code text => s.act (perform host steps (.runTextTopLevel text))

/-- All that is written while the lines are answered; the end of the lines also ends a session. -/
def transcript (host : Host) (steps : Nat) (s : Session) : List String → String
  | [] => farewell
  | line :: lines =>
    let (reply, s) := s.respond host steps (.ofLine line)
    if s.isOver then reply.output
    else reply.output ++ s.transcript host steps lines

end Session

end WordScript
