import WordScript.CommandLine
import WordScript.Extension.Function
import WordScript.Library

/-!
# The program

Reads files and lines, prints, and leaves the rest to the command line. No library file is opened
here: modules are looked for, and reported as not there.
-/

namespace WordScript.Main

open WordScript

/-- The steps that a program is given: more than any machine can carry out. -/
def steps : Nat := Nat.pow 2 60

/-- The variable that lists the directories of libraries. -/
def searchPathVariable : String := "SIL_MODULE_PATH"

/-- A host without library files. -/
def hostWith (searchPath : List String) : Host :=
  let library : Library := { searchPath, files := {} }
  { native := Extension.call, openModule := library.openModule }

/-- The text of a file, if it can be read. -/
def readFile? (path : String) : IO (Option String) := do
  try
    return some (← IO.FS.readFile path)
  catch _ =>
    return none

/-- What a command can see of the world. -/
def surroundings (command : Command) : IO Surroundings := do
  match command.file? with
  | none => return { file? := fun _ => none, lines := [] }
  | some file =>
    let text ← readFile? file
    return { file? := fun path => if path = file then text else none, lines := [] }

/-- Answers line after line until the session is over, or the input is. -/
partial def converse (host : Host) (input : IO.FS.Stream) (s : Session) : IO Unit := do
  let line ← input.getLine
  if line.isEmpty then
    IO.print Session.farewell
  else
    let (reply, s) := s.respond host steps (.ofLine line)
    IO.print reply.output
    if let some complaint := reply.complaint then
      IO.eprintln complaint.report
    if !s.isOver then converse host input s

/-- Runs the program with its arguments, and gives the code that it ends with. -/
def run (arguments : List String) : IO UInt32 := do
  let listing ← IO.getEnv searchPathVariable
  let host := hostWith ((listing.map Library.searchPathOf).getD [])
  match Command.ofArguments arguments with
  | some .converse =>
    IO.print Session.banner
    converse host (← IO.getStdin) .start
    return 0
  | some command =>
    let ending := CommandLine.carryOut host steps (← surroundings command) command
    IO.print ending.output
    IO.eprint ending.complaint
    return ending.code.toUInt32
  | none =>
    IO.eprint CommandLine.misused.complaint
    return CommandLine.misused.code.toUInt32

end WordScript.Main

/-- The entry point. -/
def main (arguments : List String) : IO UInt32 :=
  WordScript.Main.run arguments
