import WordScript.Evaluation.Declaration

/-!
# Calling functions

What the built-in functions do with their operands. An operation with two sides works member by
member on the values of its left operand and of all the operands to the right.
-/

namespace WordScript.Evaluation

open WordScript.Action WordScript.Machine

/-- The values on the two sides of an operation, paired in order. -/
def pairs (self : Performer) (operands : List Expression) : Action (List (Handle × Handle)) := do
  let left ← evaluateEach self (operands.take 1)
  let right ← evaluateEach self (operands.drop 1)
  if left.length = right.length then return left.zip right
  else fail (.lengthMismatch left.length right.length)

/-- Makes a temporary identifier of the result for each pair of values. -/
def pairwise (self : Performer) (operands : List Expression)
    (result : Identifier → Identifier → Except RuntimeError Identifier) : Action (List Handle) := do
  concatMap
    (fun (l, r) => do
      let left ← identifier l
      let right ← identifier r
      let i ← ofExcept (result left right)
      return [← pushTemporary i])
    (← pairs self operands)

/-- Only variables can be assigned to. -/
def requireVariable (target : Identifier) : Action Unit :=
  if target.isVariable then return () else fail (.assignTarget target.surface target.role)

/-- Whether assignments to variables of the type are passed over: arrays and maps have none. -/
def isContainer (type : String) : Bool :=
  type = "array" || type = "map"

/-- Assigns the value on the right, cast to the type of the variable on the left, for each pair. -/
def assign (self : Performer) (operands : List Expression) : Action (List Handle) := do
  concatMap
    (fun (l, r) => do
      let target ← identifier l
      requireVariable target
      if isContainer target.type then
        return []
      else
        let right ← identifier r
        let value ← ofExcept (right.castValue target.type)
        setValue l value
        return [l])
    (← pairs self operands)

/-- Assigns the result of an operation to its left operand, for each pair. -/
def update (self : Performer) (op : Arithmetic) (operands : List Expression) :
    Action (List Handle) := do
  concatMap
    (fun (l, r) => do
      let target ← identifier l
      requireVariable target
      let right ← identifier r
      let result ← ofExcept (Identifier.arithmetic op target right)
      let value ← ofExcept (result.castValue target.type)
      setValue l value
      return [l])
    (← pairs self operands)

/-- Makes a temporary truth value of the opposite of each value. -/
def negate (self : Performer) (operands : List Expression) : Action (List Handle) := do
  concatMap
    (fun h => do
      let i ← identifier h
      return [← pushTemporary (.bool !i.isTruthy)])
    (← evaluateEach self operands)

/-- Prints the text of each value. -/
def print (self : Performer) (operands : List Expression) : Action Unit :=
  forEach
    (fun e => do
      let handles ← self (.evaluate e)
      forEach
        (fun h => do
          let i ← identifier h
          write i.toText)
        handles)
    operands

/-- An identifier with all that is to be known about it, as it is dumped. -/
def dumped (h : Handle) (i : Identifier) : String :=
  "(id: " ++ toString h.index ++ ", " ++ i.surface ++ " :: " ++ i.type ++ " = " ++ i.toText ++ ") "

/-- Prints all about each value, with a line for each operand. -/
def dump (self : Performer) (operands : List Expression) : Action Unit :=
  forEach
    (fun e => do
      let handles ← self (.evaluate e)
      forEach
        (fun h => do
          let i ← identifier h
          write (dumped h i))
        handles
      write "\n")
    operands

/-- The word that an identifier contributes to a request for modules: a bare name stands for
itself. -/
def requestWord (i : Identifier) : String :=
  if i.isUndefined then i.surface else i.toText

/--
The modules that are requested, each with the namespace that it is to be loaded into: the word after
`as`, or else its own path.
-/
def requests : List String → List (String × String)
  | [] => []
  | [path] => [(path, path)]
  | [path, word] => if word = "as" then [(path, path)] else [(path, path), (word, word)]
  | path :: word :: space :: rest =>
    if word = "as" then (path, space) :: requests rest
    else (path, path) :: requests (word :: space :: rest)
termination_by words => words.length

/-- Loads the modules that are requested. -/
def loadModules (self : Performer) (args : List Expression) : Action Unit := do
  let handles ← evaluateEach self args.tail
  let words ← concatMap (fun h => do return [requestWord (← identifier h)]) handles
  forEach (fun (path, space) => self (.loadModule path space args)) (requests words)

/--
Calls a built-in operation. The arguments start with the function itself; a control word does
nothing when it is called.
-/
def callBuiltin (self : Performer) (args : List Expression) (isInfix : Bool) :
    Builtin → Action (List Handle)
  | .declare => if isInfix then declareBetween self args.tail else declareInFront self args.tail
  | .assign => assign self args.tail
  | .arithmetic op => pairwise self args.tail (Identifier.arithmetic op)
  | .update op => update self op args.tail
  | .compare op => pairwise self args.tail (Identifier.compared op)
  | .connect op => pairwise self args.tail fun l r => .ok (Identifier.connected op l r)
  | .negate => negate self args.tail
  | .index => do
    let _ ← pairs self args.tail
    return []
  | .print => do
    print self args.tail
    flush
    return []
  | .printLine => do
    print self args.tail
    write "\n"
    flush
    return []
  | .dump => do
    dump self args.tail
    flush
    return []
  | .loadModule => do
    loadModules self args
    return []
  | .push | .ifWord | .elseWord | .loopWord => return []

/-- Calls the function at the first leaf with all of the expressions. -/
def call (host : Host) (self : Performer) (args : List Expression) (isInfix : Bool) :
    Action (List Handle) :=
  match args.head?.bind Expression.handle? with
  | none => fail (.notCallable "(group)")
  | some callee => do
    let i ← identifier callee
    match i.callable? with
    | some (.builtin op) => callBuiltin self args isInfix op
    | some (.native label) => (host.native label args).run self
    | none => fail (.notCallable i.surface)

end WordScript.Evaluation
