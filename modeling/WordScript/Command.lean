import WordScript.Program

/-!
# Commands

What can be asked for on the command line, and how it is read from the arguments. Switches and
values may come in any order; after two dashes everything is a value.
-/

namespace WordScript

/-- What is asked for on the command line. -/
inductive Command where
  | run (file : String) (display : Display)
  | evaluate (code : String) (display : Display)
  | parse (file : String) (display : Display)
  | converse
  | version
  /-- Help about a subcommand, or about all of them. -/
  | help (subcommand : Option String)
deriving DecidableEq, Repr

namespace Command

/-- The file that a command reads. -/
def file? : Command → Option String
  | run file _ => some file
  | parse file _ => some file
  | _ => none

/-- What the arguments of a subcommand can be. -/
structure Form where
  /-- The switches, each written with two dashes in front. -/
  switches : List String
  /-- Whether there has to be a value. -/
  takesValue : Bool
  /-- Whether the value may be empty. -/
  allowsEmpty : Bool := true
deriving Repr

/-- The arguments that were given to a subcommand. -/
structure Given where
  switches : List String := []
  value : Option String := none
deriving DecidableEq, Repr

/-- Why arguments are not read to their end. -/
inductive Stop where
  | misuse
  | help
deriving DecidableEq, Repr

/-- Takes an argument that is a value. -/
def Given.takeValue (form : Form) (given : Given) (value : String) : Except Stop Given :=
  if !form.takesValue || given.value.isSome || (value = "" && !form.allowsEmpty) then .error .misuse
  else .ok { given with value := some value }

/-- Takes an argument that is a switch, without its dashes. No switch may be given twice. -/
def Given.takeSwitch (form : Form) (given : Given) (switch : String) : Except Stop Given :=
  if switch = "help" then .error .help
  else if form.switches.contains switch && !given.switches.contains switch then
    .ok { given with switches := switch :: given.switches }
  else .error .misuse

/-- Takes the arguments of a subcommand one after the other; behind two dashes all are values. -/
def Given.takeAll (form : Form) : Bool → Given → List String → Except Stop Given
  | _, given, [] => .ok given
  | onlyValues, given, argument :: arguments => do
    if onlyValues then
      (← given.takeValue form argument).takeAll form onlyValues arguments
    else
      match argument.toList with
      | ['-', '-'] => given.takeAll form true arguments
      | '-' :: '-' :: switch =>
        (← given.takeSwitch form (String.ofList switch)).takeAll form onlyValues arguments
      | '-' :: letter :: _ => .error (if letter = 'h' then .help else .misuse)
      | _ => (← given.takeValue form argument).takeAll form onlyValues arguments

/-- The arguments of a subcommand; a value that has to be there must be. -/
def Form.read (form : Form) (arguments : List String) : Except Stop Given := do
  let given ← Given.takeAll form false {} arguments
  if form.takesValue && given.value.isNone then .error .misuse else .ok given

/-- The switch that asks for the tree. -/
def treeSwitch : String := "parse-tree"

/-- The switch that asks for a tree in JSON. -/
def jsonSwitch : String := "json"

/-- How a program that is run is shown before; JSON is only for a tree that is asked for. -/
def Given.display (given : Given) : Except Stop Display :=
  match given.switches.contains treeSwitch, given.switches.contains jsonSwitch with
  | true, true => .ok .json
  | true, false => .ok .lines
  | false, true => .error .misuse
  | false, false => .ok .nothing

/-- The arguments of each subcommand. -/
def forms : List (String × Form) :=
  [("run", { switches := [treeSwitch, jsonSwitch], takesValue := true, allowsEmpty := false }),
   ("eval", { switches := [treeSwitch], takesValue := true }),
   ("parse", { switches := [jsonSwitch], takesValue := true, allowsEmpty := false }),
   ("repl", { switches := [], takesValue := false })]

/-- The command that a subcommand with its arguments stands for. -/
def build (subcommand : String) (given : Given) : Except Stop Command := do
  let value := given.value.getD ""
  if subcommand = "run" then return run value (← given.display)
  else if subcommand = "eval" then return evaluate value (← given.display)
  else if subcommand = "parse" then
    return parse value (if given.switches.contains jsonSwitch then .json else .lines)
  else return converse

/-- The command that follows the name of a subcommand. -/
def ofSubcommand (subcommand : String) (form : Form) (arguments : List String) :
    Option Command :=
  match form.read arguments >>= build subcommand with
  | .ok command => some command
  | .error .help => some (help (some subcommand))
  | .error .misuse => none

/--
The command that the arguments stand for; there is none when they are misused. Without arguments
a session is started.
-/
def ofArguments : List String → Option Command
  | [] => some converse
  | ["--"] => some converse
  | "--version" :: _ => some version
  | "--help" :: _ => some (help none)
  | "help" :: arguments =>
    match arguments with
    | [] => some (help none)
    | [subcommand] =>
      if subcommand = "help" || (forms.map Prod.fst).contains subcommand then
        some (help (some subcommand))
      else none
    | _ => none
  | argument :: arguments =>
    match argument.toList with
    | '-' :: 'V' :: _ => some version
    | '-' :: 'h' :: _ => some (help none)
    | _ =>
      match forms.find? fun form => form.1 = argument with
      | some (subcommand, form) => ofSubcommand subcommand form arguments
      | none => none

end Command

end WordScript
