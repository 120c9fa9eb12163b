import WordScript.Evaluation.Builtin

/-!
# Running statements

A line is evaluated. A block runs its body in a frame of its own, which is left again however the
body ends; a control word at the start of its head decides whether and how often it runs.
-/

namespace WordScript.Evaluation

open WordScript.Action WordScript.Machine

/-- Does something in a frame of its own. The error of the thing itself comes before one of leaving
the frame. -/
def inFrame {α : Type} (host : Host) (x : Action α) : Action α := fun m =>
  let leave (m : Machine) : Except RuntimeError Unit × Machine :=
    let (result, store) := m.store.leave (host.arrange m.blocksLeft)
    (result, { m with store, blocksLeft := m.blocksLeft + 1 })
  match x { m with store := m.store.enter } with
  | .value a m =>
    match leave m with
    | (.ok (), m) => .value a m
    | (.error e, m) => .failure e m
  | .failure e m => .failure e (leave m).2
  | .cutOff => .cutOff

/-- Does something at the global frame of a namespace, and goes back. -/
def inNamespace {α : Type} (name : String) (x : Action α) : Action α := fun m =>
  let back (m' : Machine) : Machine :=
    { m' with store := { m'.store with scopes := m'.store.scopes.restore m.store.scopes.place } }
  match x { m with store := { m.store with scopes := m.store.scopes.goTo name } } with
  | .value a m' => .value a (back m')
  | .failure e m' => .failure e (back m')
  | .cutOff => .cutOff

/-- What the head of a statement says about how its body runs. -/
inductive Head where
  | ifTrue (condition : List Expression)
  | elseIf (condition : List Expression)
  | otherwise
  | whileTrue (condition : List Expression)
  | plain
deriving Repr

/-- The control operation that an expression stands for, if it is a control word. -/
def controlWord? : Option Expression → Action (Option Builtin)
  | some (.leaf h) => do
    let i ← identifier (← resolveLeaf h)
    return i.controlOp?
  | _ => return none

/-- Reads the head of a statement. -/
def classify (head : Expression) : Action Head := do
  match ← controlWord? head.parts.head? with
  | some .ifWord => return .ifTrue head.parts.tail
  | some .loopWord => return .whileTrue head.parts.tail
  | some .elseWord =>
    match ← controlWord? head.parts[1]? with
    | some .ifWord => return .elseIf (head.parts.drop 2)
    | _ => return .otherwise
  | _ => return .plain

/-- Runs statements one after the other; `ladder` tells of the rungs right before them. -/
def runAll (self : Performer) : List Statement → Option Bool → Action Unit
  | [], _ => return ()
  | s :: ss, ladder => do
    let ladder ← self (.runStep s ladder)
    runAll self ss ladder

/-- Whether a condition holds: it has to give exactly one value. -/
def holds (self : Performer) (condition : List Expression) : Action Bool := do
  match ← self (.evaluateGroup condition) with
  | [h] => return (← identifier h).isTruthy
  | values => fail (.conditionCount values.length)

/-- Runs the body of a rung when its condition holds, and gives whether it does. -/
def runRung (self : Performer) (condition : List Expression) (body : List Statement) :
    Action Bool := do
  let taken ← self (.decide condition)
  if taken then self (.runBlock body)
  return taken

/--
Runs a statement, at most `steps` times when it is a loop. An empty line leaves a ladder as it is;
every other statement that is not a rung ends it.
-/
def runStep (self : Performer) (steps : Nat) (s : Statement) (ladder : Option Bool) :
    Action (Option Bool) := do
  if s.head.isEmpty && !s.isBlock then
    return ladder
  else
    match ← classify s.head with
    | .ifTrue condition => return some (← runRung self condition s.body)
    | .elseIf condition =>
      match ladder with
      | none => fail .elseWithoutIf
      | some true => return some true
      | some false => return some (← runRung self condition s.body)
    | .otherwise =>
      match ladder with
      | none => fail .elseWithoutIf
      | some true => return none
      | some false =>
        self (.runBlock s.body)
        return none
    | .whileTrue condition =>
      repeatWhile (self (.decide condition)) (self (.runBlock s.body)) steps
      return none
    | .plain =>
      if !s.head.isEmpty then
        let _ ← self (.evaluate s.head)
      if s.isBlock then
        self (.runBlock s.body)
      return none

/-- Runs a statement by itself. -/
def run (self : Performer) (s : Statement) : Action Unit := do
  let _ ← self (.runStep s none)
  return ()

/-- Evaluates the head of a statement, and runs its body in the current frame. -/
def runTopLevel (self : Performer) (s : Statement) : Action Unit := do
  if !s.head.isEmpty then
    let _ ← self (.evaluate s.head)
  runAll self s.body none

/-- Reads a text and goes on with the statement, if the text could be read. -/
def withText (text : String) (next : Statement → Action Unit) :
    Action (Except SyntaxError Unit) := do
  match ← readText text with
  | .error e => return .error e
  | .ok s =>
    next s
    return .ok ()

/-- Opens a module and runs its entry point at the global frame of a namespace. -/
def loadModule (host : Host) (self : Performer) (path space : String) (args : List Expression) :
    Action Unit :=
  match host.openModule path with
  | .error e => fail e
  | .ok entry => inNamespace space ((entry args).run self)

end WordScript.Evaluation
