import WordScript.Proofs.Running
import WordScript.Vocabulary

/-!
# States that are reached

The states that a host sees: after each of its requests, and in the middle of them, whenever one
operation asks for another one. That an operation is asked in the middle of another one is read off
the evaluation itself: it makes a difference there which outcome it has. What a script asks is read
off the script.
-/

namespace WordScript

namespace Evaluation

open Classical in
/-- Carries out one operation on one machine with the given outcome, and all else as before. -/
noncomputable def alter (self : Performer) (op : Operation) (m : Machine)
    (o : Outcome op.Answer) : Performer := fun op' m' =>
  if h : op' = op ∧ m' = m then h.1 ▸ o else self op' m'

theorem alter_of_ne {self : Performer} {op op' : Operation} {m m' : Machine}
    {o : Outcome op.Answer} (h : ¬ (op' = op ∧ m' = m)) :
    alter self op m o op' m' = self op' m' := by
  simp [alter, h]

theorem alter_self (self : Performer) (op : Operation) (m : Machine) (o : Outcome op.Answer) :
    alter self op m o op m = o := by
  simp [alter]

/-- An action asks its performer for an operation on a machine: it makes a difference which
outcome that has. -/
def Asks {α : Type} (x : Performer → Action α) (self : Performer) (m : Machine) (op : Operation)
    (m' : Machine) : Prop :=
  ∃ o o' : Outcome op.Answer, x (alter self op m' o) m ≠ x (alter self op m' o') m

end Evaluation

open Evaluation

/-- A script asks for an operation on a machine, after what it has asked before and however that
went. -/
inductive Script.Reaches {α : Type} (self : Performer) :
    Script α → Machine → Operation → Machine → Prop where
  | here {op : Operation} {next : Except RuntimeError op.Answer → Script α} {m : Machine} :
      Reaches self (.ask op next) m op m
  | value {op op' : Operation} {next : Except RuntimeError op.Answer → Script α}
      {m m₁ m' : Machine} {a : op.Answer} (hop : self op m = .value a m₁)
      (h : Reaches self (next (.ok a)) m₁ op' m') : Reaches self (.ask op next) m op' m'
  | failure {op op' : Operation} {next : Except RuntimeError op.Answer → Script α}
      {m m₁ m' : Machine} {e : RuntimeError} (hop : self op m = .failure e m₁)
      (h : Reaches self (next (.error e)) m₁ op' m') : Reaches self (.ask op next) m op' m'

/-- One step of an operation asks for another operation, which is given so many steps. -/
inductive Inside (host : Host) (steps : Nat) :
    Operation → Machine → Operation → Machine → Prop where
  | evaluation {op op' : Operation} {m m' : Machine}
      (h : Asks (fun self => Evaluation.step host self steps op) (perform host steps) m op' m') :
      Inside host steps op m op' m'
  | native {args : List Expression} {isInfix : Bool} {callee : Handle} {i : Identifier}
      {label : Native} {m m' : Machine} {op' : Operation}
      (hcallee : args.head?.bind Expression.handle? = some callee)
      (hi : m.store.arena.get? callee = some i) (hlabel : i.callable? = some (.native label))
      (h : (host.native label args).Reaches (perform host steps) m op' m') :
      Inside host steps (.call args isInfix) m op' m'
  | entry {path space : String} {args : List Expression} {entry : List Expression → Script Unit}
      {m m' : Machine} {op' : Operation} (hopen : host.openModule path = .ok entry)
      (h : (entry args).Reaches (perform host steps)
        { m with store := { m.store with scopes := m.store.scopes.goTo space } } op' m') :
      Inside host steps (.loadModule path space args) m op' m'

/-- While an operation is carried out with some number of steps, an operation is carried out with
another number of steps: the operation itself, or one that it is made of, however far down. -/
inductive During (host : Host) : Nat → Operation → Machine → Nat → Operation → Machine → Prop where
  | here {steps : Nat} {op : Operation} {m : Machine} : During host steps op m steps op m
  | inside {steps steps' : Nat} {op op₁ op' : Operation} {m m₁ m' : Machine}
      (h : Inside host steps op m op₁ m₁) (h' : During host steps op₁ m₁ steps' op' m') :
      During host (steps + 1) op m steps' op' m'

/-- A machine in the hands of a host that asks for allowed operations, in any order and going on
from failures: before the first one, when some operation is asked, and when it has been carried
out. -/
inductive Reached (host : Host) (allowed : Operation → Prop) : Machine → Prop where
  | initial (sink : Sink) : Reached host allowed (.initial sink)
  | asked {m m' : Machine} {op op' : Operation} {steps steps' : Nat}
      (hm : Reached host allowed m) (hop : allowed op)
      (h : During host steps op m steps' op' m') : Reached host allowed m'
  | value {m m' m'' : Machine} {op op' : Operation} {steps steps' : Nat} {a : op'.Answer}
      (hm : Reached host allowed m) (hop : allowed op)
      (h : During host steps op m steps' op' m')
      (hend : perform host steps' op' m' = .value a m'') : Reached host allowed m''
  | failure {m m' m'' : Machine} {op op' : Operation} {steps steps' : Nat} {e : RuntimeError}
      (hm : Reached host allowed m) (hop : allowed op)
      (h : During host steps op m steps' op' m')
      (hend : perform host steps' op' m' = .failure e m'') : Reached host allowed m''

/-- What becomes of a machine when operations are asked that are allowed at the time, in any order
and going on from failures: before the first one, when some operation is asked, and when it has been
carried out. -/
inductive Later (host : Host) (allowed : Store → Operation → Prop) (m₀ : Machine) :
    Machine → Prop where
  | refl : Later host allowed m₀ m₀
  | asked {m m' : Machine} {op op' : Operation} {steps steps' : Nat}
      (hm : Later host allowed m₀ m) (hop : allowed m.store op)
      (h : During host steps op m steps' op' m') : Later host allowed m₀ m'
  | value {m m' m'' : Machine} {op op' : Operation} {steps steps' : Nat} {a : op'.Answer}
      (hm : Later host allowed m₀ m) (hop : allowed m.store op)
      (h : During host steps op m steps' op' m')
      (hend : perform host steps' op' m' = .value a m'') : Later host allowed m₀ m''
  | failure {m m' m'' : Machine} {op op' : Operation} {steps steps' : Nat} {e : RuntimeError}
      (hm : Later host allowed m₀ m) (hop : allowed m.store op)
      (h : During host steps op m steps' op' m')
      (hend : perform host steps' op' m' = .failure e m'') : Later host allowed m₀ m''

/-- What is reached comes from a new machine. -/
theorem Reached.later {host : Host} {allowed : Operation → Prop} {m : Machine}
    (h : Reached host allowed m) :
    ∃ sink, Later host (fun _ => allowed) (.initial sink) m := by
  induction h with
  | initial sink => exact ⟨sink, .refl⟩
  | asked _ hop h ih =>
    obtain ⟨sink, hm⟩ := ih
    exact ⟨sink, hm.asked hop h⟩
  | value _ hop h hend ih =>
    obtain ⟨sink, hm⟩ := ih
    exact ⟨sink, hm.value hop h hend⟩
  | failure _ hop h hend ih =>
    obtain ⟨sink, hm⟩ := ih
    exact ⟨sink, hm.failure hop h hend⟩

/-- The first statement of a block is run in the frame of the block. -/
theorem inside_runBlock (host : Host) (steps : Nat) (m : Machine) (s : Statement)
    (body : List Statement) :
    Inside host steps (.runBlock (s :: body)) m (.runStep s none)
      { m with store := m.store.enter } := by
  refine .evaluation ⟨.cutOff, .failure .elseWithoutIf m, ?_⟩
  simp [Evaluation.step, inFrame, runAll, Action.bind_apply, alter_self]

/-- A text that can be read is run as the statement that it is read as. -/
theorem inside_runTextTopLevel (host : Host) (steps : Nat) {text : String} {m m₁ : Machine}
    {s : Statement} (hread : Machine.readText text m = .value (.ok s) m₁) :
    Inside host steps (.runTextTopLevel text) m (.runTopLevel s) m₁ := by
  refine .evaluation ⟨.cutOff, .failure .elseWithoutIf m, ?_⟩
  simp only [Evaluation.step, withText, Action.bind_apply, hread, alter_self]
  nofun

/-- The first statement of a text is run where the text is. -/
theorem inside_runTopLevel (host : Host) (steps : Nat) (m : Machine) {s first : Statement}
    (hhead : s.head.isEmpty = true) (hfirst : s.body.head? = some first) :
    Inside host steps (.runTopLevel s) m (.runStep first none) m := by
  obtain ⟨rest, hbody⟩ := List.head?_eq_some_iff.mp hfirst
  refine .evaluation ⟨.cutOff, .failure .elseWithoutIf m, ?_⟩
  simp [Evaluation.step, runTopLevel, runAll, Action.bind_apply, alter_self, hhead, hbody]

/-- The head of a statement is evaluated, unless it starts with a control word. -/
theorem inside_runStep (host : Host) (steps : Nat) {s : Statement} {m m₁ : Machine}
    (hhead : s.head.isEmpty = false)
    (hplain : controlWord? s.head.parts.head? m = .value none m₁) (ladder : Option Bool) :
    Inside host steps (.runStep s ladder) m (.evaluate s.head) m₁ := by
  have hclassify : classify s.head m = .value .plain m₁ := by
    rw [classify, Action.bind_apply, hplain]
    rfl
  refine .evaluation ⟨.cutOff, .failure .elseWithoutIf m, ?_⟩
  simp [Evaluation.step, runStep, hhead, hclassify, Action.bind_apply, alter_self]

/-- The first operation of a module is asked at the global frame of the namespace that the module is
loaded into. -/
theorem inside_loadModule {host : Host} {path : String} {args : List Expression}
    {entry : List Expression → Script Unit} {op : Operation}
    {next : Except RuntimeError op.Answer → Script Unit} (hopen : host.openModule path = .ok entry)
    (steps : Nat) (m : Machine) (space : String) (hfirst : entry args = .ask op next) :
    Inside host steps (.loadModule path space args) m op
      { m with store := { m.store with scopes := m.store.scopes.goTo space } } :=
  .entry hopen (by rw [hfirst]; exact .here)

theorem Machine.store_initial (sink : Sink) : (Machine.initial sink).store = .initial := by
  rw [Machine.initial]

namespace Contract

variable {C : Contract} {host : Host}

/-- An action that does the same for all performers that agree on what a lawful contract admits asks
for nothing else. -/
theorem Lawful.asks_of_same (hC : C.Lawful host) {steps : Nat} {α : Type} {x : Performer → Action α}
    {op' : Operation} {m m' : Machine}
    (hx : ∀ self', C.Agree (WordScript.perform host steps) self' →
      x (WordScript.perform host steps) m = x self' m)
    (h : Evaluation.Asks x (WordScript.perform host steps) m op' m') :
    C.Inv m'.store ∧ C.Admits m'.store op' := by
  obtain ⟨o, o', hne⟩ := h
  by_cases hm' : C.Inv m'.store ∧ C.Admits m'.store op'
  · exact hm'
  · -- otherwise the altered performers agree with the old one on all that is admitted
    have same : ∀ o : Outcome op'.Answer, x (WordScript.perform host steps) m =
        x (alter (WordScript.perform host steps) op' m' o) m := by
      intro o
      refine hx _ fun op₁ m₁ hm₁ h₁ => ?_
      have hne : ¬ (op₁ = op' ∧ m₁ = m') := by
        rintro ⟨rfl, rfl⟩
        exact hm' ⟨hm₁, h₁⟩
      exact ⟨(alter_of_ne hne).symm, hC.perform_meets steps hm₁ h₁⟩
    exact absurd ((same o).symm.trans (same o')) hne

/-- What makes no difference to a lawful contract is not asked. -/
theorem Lawful.asks (hC : C.Lawful host) {steps : Nat} {op op' : Operation} {m m' : Machine}
    (hm : C.Inv m.store) (hadmits : C.Admits m.store op)
    (h : Evaluation.Asks (fun self => Evaluation.step host self steps op)
      (WordScript.perform host steps) m op' m') : C.Inv m'.store ∧ C.Admits m'.store op' :=
  hC.asks_of_same (fun _ hself => (hC.step hself steps op m hm hadmits).same) h

/-- What a script that obeys a contract asks is admitted. -/
theorem Lawful.reaches (hC : C.Lawful host) {steps : Nat} {α : Type}
    {post : Store → Except RuntimeError α → Prop} {script : Script α} {m m' : Machine}
    {op' : Operation} (hm : C.Inv m.store) (hscript : C.Obeys post script m.store)
    (h : script.Reaches (WordScript.perform host steps) m op' m') :
    C.Inv m'.store ∧ C.Admits m'.store op' := by
  induction h with
  | here => exact ⟨hm, hscript.1⟩
  | value hop _ ih =>
    have hmeets := hC.perform_meets steps hm hscript.1
    rw [hop] at hmeets
    exact ih hmeets.1 (hscript.2 (.ok _) _ hmeets.1 hmeets.2.1 hmeets.2.2)
  | failure hop _ ih =>
    have hmeets := hC.perform_meets steps hm hscript.1
    rw [hop] at hmeets
    exact ih hmeets.1 (hscript.2 (.error _) _ hmeets.1 hmeets.2.1 hmeets.2.2)

theorem Lawful.inside (hC : C.Lawful host) {steps : Nat} {op op' : Operation} {m m' : Machine}
    (hm : C.Inv m.store) (hadmits : C.Admits m.store op) (h : Inside host steps op m op' m') :
    C.Inv m'.store ∧ C.Admits m'.store op' := by
  cases h with
  | evaluation h => exact hC.asks hm hadmits h
  | native hcallee hi hlabel h =>
    have hcalls := hadmits.2.1 _ hcallee
    exact hC.reaches hm (hC.native hm hcalls hi hlabel hadmits.1) h
  | entry hopen h =>
    obtain ⟨hinv, hobeys⟩ := hC.entry hm (hC.permits _ hm) hadmits hopen
    exact hC.reaches hinv hobeys h

/-- Whatever is asked in the middle of an operation is admitted, and asked while the invariant
holds. -/
theorem Lawful.during (hC : C.Lawful host) {steps steps' : Nat} {op op' : Operation}
    {m m' : Machine} (hm : C.Inv m.store) (hadmits : C.Admits m.store op)
    (h : During host steps op m steps' op' m') : C.Inv m'.store ∧ C.Admits m'.store op' := by
  induction h with
  | here => exact ⟨hm, hadmits⟩
  | inside h _ ih =>
    obtain ⟨hm₁, hadmits₁⟩ := hC.inside hm hadmits h
    exact ih hm₁ hadmits₁

/-- The invariant of a lawful contract goes on to hold as long as operations are asked that the
contract admits. -/
theorem Lawful.later (hC : C.Lawful host) {allowed : Store → Operation → Prop}
    (hallowed : ∀ s op, C.Inv s → allowed s op → C.Admits s op) {m₀ m : Machine}
    (hm₀ : C.Inv m₀.store) (h : Later host allowed m₀ m) : C.Inv m.store := by
  induction h with
  | refl => exact hm₀
  | asked _ hop h ih => exact (hC.during ih (hallowed _ _ ih hop) h).1
  | @value _ _ _ _ _ _ steps' _ _ hop h hend ih =>
    obtain ⟨hm', hadmits'⟩ := hC.during ih (hallowed _ _ ih hop) h
    have hmeets := hC.perform_meets steps' hm' hadmits'
    rw [hend] at hmeets
    exact hmeets.1
  | @failure _ _ _ _ _ _ steps' _ _ hop h hend ih =>
    obtain ⟨hm', hadmits'⟩ := hC.during ih (hallowed _ _ ih hop) h
    have hmeets := hC.perform_meets steps' hm' hadmits'
    rw [hend] at hmeets
    exact hmeets.1

/-- The invariant of a lawful contract holds in every state that is reached with operations that it
admits everywhere. -/
theorem Lawful.reached (hC : C.Lawful host) {allowed : Operation → Prop}
    (hinitial : C.Inv Store.initial)
    (hallowed : ∀ s op, C.Inv s → allowed op → C.Admits s op) {m : Machine}
    (h : Reached host allowed m) : C.Inv m.store := by
  obtain ⟨sink, hm⟩ := h.later
  refine hC.later hallowed ?_ hm
  rw [Machine.store_initial]
  exact hinitial

end Contract

end WordScript
