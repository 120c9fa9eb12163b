import WordScript.Bindings
import WordScript.Extension.Function

/-!
# Modules of directives

The entry point of a module as a list of directives, which are carried out in order up to the first
that fails. A registry keeps such modules under their paths.
-/

namespace WordScript.Extension

/-- One thing that the entry point of a module does. -/
inductive Directive where
  | constant (name : String) (i : Identifier)
  | declare (i : Identifier)
  | function (name : String) (isInfix : Bool) (label : Native)
  /-- Resolves a name. -/
  | mention (name : String)
  | loadModule (path space : String)
  | fail (text : String)
  /-- Registers the number of arguments that the entry point was given. -/
  | argumentCount (name : String)
  /-- Registers the place of execution in words. -/
  | place (name : String)
  | run (text : String)
  | runTopLevel (text : String)
deriving DecidableEq, Repr

namespace Directive

open Script

/-- What a directive does, given the arguments of the entry point. -/
def script (args : List Expression) : Directive → Script Unit
  | constant name i => do let _ ← request (.registerConstant name i)
  | declare i => do let _ ← request (.declare i)
  | function name isInfix label => do let _ ← request (.registerFunction name isInfix label)
  | mention name => do let _ ← request (.resolve name)
  | loadModule path space => request (.loadModule path space [])
  | fail text => Script.fail (.stream text)
  | argumentCount name => do
    let _ ← request (.registerConstant name (.int (Int64.ofInt args.length)))
  | place name => do
    let here ← placeText
    let _ ← request (.registerConstant name (.string here))
  | run text => do requireRead (← request (.runText text))
  | runTopLevel text => do requireRead (← request (.runTextTopLevel text))

end Directive

/-- The entry point that carries out directives in order. -/
def entryPoint : List Directive → List Expression → Script Unit
  | [], _ => return ()
  | d :: ds, args => do
    d.script args
    entryPoint ds args

/-- Modules under their paths. -/
abbrev Registry := Bindings (List Directive)

namespace Registry

/-- Opens a module of a registry. -/
def openModule (r : Registry) (path : String) :
    Except RuntimeError (List Expression → Script Unit) :=
  match r.find? path with
  | some directives => .ok (entryPoint directives)
  | none => .error (.moduleOpen path "no module registered under this path")

/-- A host with the modules of a registry. -/
def host (r : Registry) : Host where
  native := call
  openModule := r.openModule

end Registry

end WordScript.Extension
