import WordScript.Evaluation
import WordScript.Tree

/-!
# Programs

A text that is run from beginning to end, and the ways in which its tree can be shown first.
-/

namespace WordScript

/-- How the tree of a program is shown, if at all. -/
inductive Display where
  | nothing
  | lines
  | json
deriving DecidableEq, Repr

/-- The text of a tree. -/
def Display.text (tree : Tree) : Display → String
  | nothing => ""
  | lines => tree.render
  | json => tree.toJson.pretty 0 ++ "\n"

namespace Program

open WordScript.Action WordScript.Machine

/-- Writes the tree of a statement to the output. -/
def showTree (display : Display) (s : Statement) : Action Unit := do
  let arena ← inspect (·.store.arena)
  let tree ← ofExcept (s.toTree arena)
  write (display.text tree)

/-- Reads a text, shows its tree, and then runs it as a block if it is to be run. -/
def drive (host : Host) (steps : Nat) (text : String) (display : Display) (runs : Bool) :
    Action (Except SyntaxError Unit) :=
  Evaluation.withText text fun s => do
    showTree display s
    if runs then perform host steps (.run s)

end Program

/-- Why a program did not come to its end. -/
inductive Failure where
  | unreadable (e : SyntaxError)
  | failed (e : RuntimeError)
  /-- The program was given too few steps. -/
  | cutOff
deriving DecidableEq, Repr

/-- The report of a failure. -/
def Failure.report : Failure → String
  | unreadable e => e.report
  | failed e => e.report
  | cutOff => "Stopped: too many steps"

/-- Carries out an action that reads a text. A machine that is cut off is left as it was. -/
def Machine.attempt (m : Machine) (x : Action (Except SyntaxError Unit)) :
    Option Failure × Machine :=
  match x m with
  | .value (.ok ()) m => (none, m)
  | .value (.error e) m => (some (.unreadable e), m)
  | .failure e m => (some (.failed e), m)
  | .cutOff => (some .cutOff, m)

end WordScript
