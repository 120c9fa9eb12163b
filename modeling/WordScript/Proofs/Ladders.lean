import WordScript.Proofs.Standing
import WordScript.Proofs.Texts

/-!
# Ladders of conditional blocks

The evaluation hands on from statement to statement how far a ladder has been climbed. Here a run
keeps the whole history of the statements it has passed instead, and each rung looks back at it: it
belongs to the ladder whose last rung is the statement right before, empty lines left out, and the
conditions evaluated on that ladder decide what becomes of it. Both ways of running statements are
the same, and what a history can look like says which conditions and which bodies of a ladder are
run.
-/

namespace WordScript

open Evaluation

/-- The rung that a statement has been in a run, with what came of it: whether its condition holds,
if that has been evaluated, and whether the body of the last rung has been run. -/
inductive Rung where
  | first (holds : Bool)
  | later (holds? : Option Bool)
  | last (taken : Bool)
  | other
deriving DecidableEq, Repr

/-- A statement that a run has passed. -/
structure Passed where
  statement : Statement
  rung : Rung

/-- The statements that a run of a body has passed so far, the latest first. -/
abbrev History := List Passed

namespace History

/-- The nearest statement with anything on it. -/
def nearest? (past : History) : Option Passed := past.find? fun p => !p.statement.isBlank

/-- Whether the conditions hold that were evaluated on the ladder right before, the latest first, if
there is a ladder right before. -/
def verdicts? : History → Option (List Bool)
  | [] => none
  | p :: past =>
    if p.statement.isBlank then verdicts? past
    else match p.rung with
      | .first holds => some [holds]
      | .later holds? => (verdicts? past).map (holds?.toList ++ ·)
      | _ => none

/-- What the evaluation hands on to the next statement. -/
def ladder (past : History) : Option Bool := past.verdicts?.map (·.any id)

variable {past : History} {s : Statement} {rung : Rung}

section Nonblank

variable (hs : s.isBlank = false)
include hs

end Nonblank

end History

/-- A leaf stands for a control word. -/
def Store.Controls (s : Store) (h : Handle) (op : Builtin) : Prop :=
  ∃ k i, s.StandsFor h k ∧ s.arena.get? k = some i ∧ i.controlOp? = some op

/-- The control word that a leaf stands for, when it is a name that is bound. -/
def Store.controlWord? (s : Store) (h : Handle) : Option Builtin :=
  (s.arena.get? h).bind fun i =>
    if i.isUndefined then
      ((s.scopes.bound? i.surface).bind s.arena.get?).bind Identifier.controlOp?
    else none

/-- The head of a statement is written as that of a rung: `if` and a condition, `else if` and a
condition, or `else` alone. -/
inductive Statement.Reads (s : Statement) (m : Machine) : Head → Prop where
  | ifTrue {h : Handle} {condition : List Expression} (hparts : s.head.parts = .leaf h :: condition)
    (hif : m.store.Controls h .ifWord) : Reads s m (.ifTrue condition)
  | elseIf {h k : Handle} {condition : List Expression}
    (hparts : s.head.parts = .leaf h :: .leaf k :: condition)
    (helse : m.store.Controls h .elseWord) (hif : m.store.Controls k .ifWord) :
    Reads s m (.elseIf condition)
  | otherwise {h : Handle} (hparts : s.head.parts = [.leaf h])
    (helse : m.store.Controls h .elseWord) : Reads s m .otherwise

namespace Evaluation

open WordScript.Action WordScript.Machine

variable {self : Performer} {steps : Nat} {past : History} {s : Statement} {m m' : Machine}
  {head : Head}

/-! ## Running statements by looking back -/

/-- The rung needs one right before it. -/
def Head.GoesOn : Head → Prop
  | .elseIf _ => True
  | .otherwise => True
  | _ => False

/-- A condition, and what is run when it is the first that holds. -/
structure Branch where
  condition : List Expression
  body : List Statement

/-- The statements go on with a ladder, with empty lines between, when a run gets to them all on one
machine. -/
inductive Follows (m : Machine) : List Statement → Prop where
  | nil : Follows m []
  | blank {s : Statement} {ss : List Statement} (hs : s.isBlank = true) (hss : Follows m ss) :
    Follows m (s :: ss)
  | later {s : Statement} {ss : List Statement} {condition : List Expression}
    (hs : s.Reads m (.elseIf condition)) (hss : Follows m ss) : Follows m (s :: ss)
  | last {s : Statement} {ss : List Statement} (hs : s.Reads m .otherwise)
    (hss : ∀ s' ∈ ss, s'.isBlank = true) : Follows m (s :: ss)

/-- The statements go on with a ladder with these branches and this last rung, with empty lines
between, when a run gets to them while no condition has held. -/
inductive Spells (self : Performer) :
    Machine → List Statement → List Branch → Option (List Statement) → Prop where
  | nil {m : Machine} : Spells self m [] [] none
  | blank {m : Machine} {s : Statement} {ss : List Statement} {bs : List Branch}
    {last : Option (List Statement)} (hs : s.isBlank = true) (hss : Spells self m ss bs last) :
    Spells self m (s :: ss) bs last
  | later {m : Machine} {s : Statement} {ss : List Statement} {bs : List Branch}
    {last : Option (List Statement)} {condition : List Expression}
    (hs : s.Reads m (.elseIf condition))
    (hfalse : ∀ m₁, self (.decide condition) m = .value false m₁ → Spells self m₁ ss bs last)
    (htrue : ∀ m₁ m₂, self (.decide condition) m = .value true m₁ →
      self (.runBlock s.body) m₁ = .value () m₂ → Follows m₂ ss) :
    Spells self m (s :: ss) (⟨condition, s.body⟩ :: bs) last
  | last {m : Machine} {s : Statement} {ss : List Statement} (hs : s.Reads m .otherwise)
    (hss : ∀ s' ∈ ss, s'.isBlank = true) : Spells self m (s :: ss) [] (some s.body)

/-- The statements are a whole ladder with these branches and this last rung, with empty lines
between, on a machine on which a run gets to them. -/
inductive Begins (self : Performer) (m : Machine) :
    List Statement → List Branch → Option (List Statement) → Prop where
  | first {s : Statement} {ss : List Statement} {bs : List Branch}
    {last : Option (List Statement)} {condition : List Expression}
    (hs : s.Reads m (.ifTrue condition))
    (hfalse : ∀ m₁, self (.decide condition) m = .value false m₁ → Spells self m₁ ss bs last)
    (htrue : ∀ m₁ m₂, self (.decide condition) m = .value true m₁ →
      self (.runBlock s.body) m₁ = .value () m₂ → Follows m₂ ss) :
    Begins self m (s :: ss) (⟨condition, s.body⟩ :: bs) last

section Second

variable {first later last : Statement} {c c' : List Expression} {m₁ m₂ m₃ : Machine}

end Second

end Evaluation

end WordScript
