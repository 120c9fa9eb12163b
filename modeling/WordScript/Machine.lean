import WordScript.Expression
import WordScript.Identifier.Operators
import WordScript.Sink
import WordScript.Statement.Reading
import WordScript.Store

/-!
# The machine

The whole state that a program runs on, and actions on it. An action gives a value, or fails with
an error, or is cut off because it was given too few steps; the state that it left behind is kept
also when it fails.
-/

namespace WordScript

/--
The store, the output, the number of blocks left so far, and, when one is kept, the journal of the
groups evaluated so far, the latest first.
-/
structure Machine where
  store : Store
  sink : Sink
  blocksLeft : Nat := 0
  journal : Option (List (List Expression)) := none

/-- How an action ends. -/
inductive Outcome (α : Type) where
  | value (a : α) (m : Machine)
  | failure (e : RuntimeError) (m : Machine)
  | cutOff

/-- Something that a machine can do. -/
def Action (α : Type) : Type := Machine → Outcome α

namespace Action

variable {α β : Type}

/-- Runs an action. -/
@[inline] def run (x : Action α) (m : Machine) : Outcome α := x m

/-- Does one thing after the other, unless the first one fails. -/
@[always_inline, inline] protected def bind (x : Action α) (f : α → Action β) : Action β := fun m =>
  match x m with
  | .value a m => f a m
  | .failure e m => .failure e m
  | .cutOff => .cutOff

@[always_inline] instance : Monad Action where
  pure a := fun m => .value a m
  bind := Action.bind

@[simp] theorem pure_run (a : α) (m : Machine) : (pure a : Action α).run m = .value a m := rfl

theorem bind_run (x : Action α) (f : α → Action β) (m : Machine) :
    (x >>= f).run m = match x.run m with
      | .value a m => (f a).run m
      | .failure e m => .failure e m
      | .cutOff => .cutOff := rfl

/-- Giving the value unchanged is the same as not doing anything more. -/
theorem bind_pure_run (x : Action α) (m : Machine) : (x >>= pure).run m = x.run m := by
  rw [bind_run]
  cases x.run m <;> rfl

theorem bind_assoc_run {γ : Type} (x : Action α) (f : α → Action β) (g : β → Action γ)
    (m : Machine) : ((x >>= f) >>= g).run m = (x >>= fun a => f a >>= g).run m := by
  rw [bind_run, bind_run, bind_run]
  cases x.run m <;> rfl

instance : LawfulMonad Action :=
  LawfulMonad.mk' Action (fun x => funext (bind_pure_run x)) (fun _ _ => rfl)
    (fun x f g => funext (bind_assoc_run x f g))

/-- Fails. -/
@[inline] def fail (e : RuntimeError) : Action α := fun m => .failure e m

/-- Gives the value, or fails with the error. -/
@[inline] def ofExcept : Except RuntimeError α → Action α
  | .ok a => pure a
  | .error e => fail e

/-- Catches a failure. -/
@[inline] def attempt (x : Action α) : Action (Except RuntimeError α) := fun m =>
  match x m with
  | .value a m => .value (.ok a) m
  | .failure e m => .value (.error e) m
  | .cutOff => .cutOff

/-- Reads something off the machine. -/
@[inline] def inspect (f : Machine → α) : Action α := fun m => .value (f m) m

/-- Changes the machine. -/
@[inline] def change (f : Machine → Machine) : Action Unit := fun m => .value () (f m)

/-- Does something that changes only the store. -/
@[inline] def onStore (f : Store → α × Store) : Action α := fun m =>
  let (a, store) := f m.store
  .value a { m with store }

/-- Does something that changes only the store, or fails and changes nothing. -/
@[inline] def tryStore (f : Store → Except RuntimeError (α × Store)) : Action α := fun m =>
  match f m.store with
  | .ok (a, store) => .value a { m with store }
  | .error e => .failure e m

/-- Does one thing for each member of a list, and joins the results. -/
def concatMap (f : α → Action (List β)) : List α → Action (List β)
  | [] => pure []
  | a :: as => do
    let bs ← f a
    let rest ← concatMap f as
    return bs ++ rest

/-- Does one thing for each member of a list. -/
def forEach (f : α → Action Unit) : List α → Action Unit
  | [] => pure ()
  | a :: as => do
    f a
    forEach f as

/-- Does something again and again while a condition holds, at most so many times. -/
def repeatWhile (condition : Action Bool) (body : Action Unit) : Nat → Action Unit
  | 0 => fun _ => .cutOff
  | n + 1 => do
    if ← condition then
      body
      repeatWhile condition body n

end Action

namespace Machine

open WordScript.Action

/-- The identifier behind a handle. -/
def identifier (h : Handle) : Action Identifier := fun m =>
  match m.store.arena.get? h with
  | some i => .value i m
  | none => .failure (.invalidReference h) m

/-- Overwrites the payload of the identifier behind a handle. -/
def setValue (h : Handle) (value : Value) : Action Unit :=
  tryStore fun s =>
    match s.arena.setValue? h value with
    | some arena => .ok ((), { s with arena })
    | none => .error (.invalidReference h)

/-- The handle that a name stands for. -/
def resolve (name : String) : Action Handle :=
  tryStore (·.resolve name)

/-- Declares an identifier under its name in the current frame. -/
def declare (i : Identifier) : Action Handle :=
  tryStore fun s =>
    match s.declare i with
    | .ok (some result) => .ok result
    | .ok none => .error (.redefinition i.surface)
    | .error e => .error e

/-- Adds a temporary identifier. -/
def pushTemporary (i : Identifier) : Action Handle :=
  onStore (·.pushTemporary i)

/-- Writes a text to the output. -/
def write (text : String) : Action Unit := fun m =>
  match m.sink.write text with
  | .ok sink => .value () { m with sink }
  | .error e => .failure e m

/-- Flushes the output. -/
def flush : Action Unit := fun m =>
  match m.sink.flush with
  | .ok () => .value () m
  | .error e => .failure e m

/-- Reads a text into a statement. -/
def readText (text : String) : Action (Except SyntaxError Statement) :=
  onStore fun s =>
    let (result, arena) := Statement.ofText text s.arena
    (result, { s with arena })

/-- The place of execution. -/
def place : Action Place :=
  inspect (·.store.scopes.place)

/-- Enters a group into the journal, when one is kept. -/
def note (group : List Expression) : Action Unit :=
  change fun m => { m with journal := m.journal.map (group :: ·) }

end Machine

end WordScript
