import WordScript.Command
import WordScript.Session
import WordScript.Text.Split

/-!
# The command line

What the program does for its arguments: what it writes to its output and to its error stream, and
the code that it ends with.
-/

namespace WordScript

/-- What the program can see of the world: the texts of files, and the lines of its input. -/
structure Surroundings where
  file? : String → Option String
  lines : List String

/-- What is left when the program has ended. -/
structure Ending where
  output : String := ""
  complaint : String := ""
  code : Nat
deriving DecidableEq, Repr

namespace CommandLine

/-- The code of a program that did what it was asked to do. -/
def success : Nat := 0

/-- The code of a program that failed. -/
def failure : Nat := 1

/-- The code of a program that was not asked in the right way. -/
def misuse : Nat := 2

/-- The answer to a question for the version. -/
def versionText : String := "sil 0.1.0\n"

/-- How each subcommand is used, and what it does. -/
def usages : List (String × String) :=
  [("run", "run [--parse-tree [--json]] <FILE>    Run a SIL source file"),
   ("eval", "eval [--parse-tree] <CODE>            Run code given on the command line"),
   ("parse", "parse [--json] <FILE>                 Parse a source file and print its tree"),
   ("repl", "repl                                  Start the interactive REPL")]

/-- Help about a subcommand, or about all of them. -/
def helpText (subcommand : Option String) : String :=
  let shown : List (String × String) := match subcommand with
    | some name => usages.filter fun (word, _) => word = name
    | none => usages
  "SIL - a small scripting language\n\n"
    ++ String.join (shown.map fun (_, usage) => "  sil " ++ usage ++ "\n")

/-- Runs a text, and ends. -/
def runText (host : Host) (steps : Nat) (text : String) (display : Display) (runs : Bool) :
    Ending :=
  match (Machine.initial {}).attempt (Program.drive host steps text display runs) with
  | (none, m) => { output := m.sink.text, code := success }
  | (some f, m) => { output := m.sink.text, complaint := f.report ++ "\n", code := failure }

/-- Runs the text of a file, and ends. -/
def runFile (host : Host) (steps : Nat) (around : Surroundings) (file : String)
    (display : Display) (runs : Bool) : Ending :=
  match around.file? file with
  | some text => runText host steps text display runs
  | none => { complaint := "Error: cannot read " ++ file ++ "\n", code := failure }

/-- The end of a program whose arguments stand for no command. -/
def misused : Ending :=
  { complaint := "error: wrong arguments\n\n" ++ helpText none, code := misuse }

/-- Carries out a command. -/
def carryOut (host : Host) (steps : Nat) (around : Surroundings) : Command → Ending
  | .run file display => runFile host steps around file display true
  | .evaluate code display => runText host steps code display true
  | .parse file display => runFile host steps around file display false
  | .converse =>
    { output := Session.banner ++ Session.start.transcript host steps around.lines
      code := success }
  | .version => { output := versionText, code := success }
  | .help subcommand => { output := helpText subcommand, code := success }

/-- Does what the arguments ask for. -/
def run (host : Host) (steps : Nat) (around : Surroundings) (arguments : List String) : Ending :=
  match Command.ofArguments arguments with
  | some command => carryOut host steps around command
  | none => misused

/-- The lines of a text; what follows the last line end is a line only if it is not empty. -/
def linesOf (text : String) : List String :=
  let pieces := Text.splitText '\n' text
  if pieces.getLast? = some "" then pieces.dropLast else pieces

end CommandLine

end WordScript
