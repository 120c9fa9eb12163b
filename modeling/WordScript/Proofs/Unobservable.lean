import WordScript.Proofs.SideBySide
import WordScript.Proofs.Twins

/-!
# Handles cannot be observed

Which handles an interpreter gives out depends on the order in which it destroys what blocks leave
behind, and on what it has read without running it. Programs that do not dump cannot tell: two
interpreters that are new and run the same texts write the same, fail in the same way, and come to
stores that differ in nothing but the handles.
-/

namespace WordScript

/-! ## Tasks -/

/-- How a text is run: as a block, in the global frame, or as a program whose tree may be shown
before it is run, or instead. -/
inductive Mode where
  | block
  | topLevel
  | program (display : Display) (runs : Bool)
deriving DecidableEq, Repr

/-- A text that is run, with at most so many steps. -/
structure Job where
  text : String
  mode : Mode
  steps : Nat
deriving DecidableEq, Repr

/-- What an interpreter is given to do: a text that it only reads, or one that it also runs. -/
inductive Task where
  | read (text : String)
  | run (job : Job)
deriving DecidableEq, Repr

/-- The texts that are run, in order. -/
def Task.jobs : List Task → List Job
  | [] => []
  | read _ :: tasks => jobs tasks
  | run job :: tasks => job :: jobs tasks

/-- Runs the text. -/
def Job.action (host : Host) (job : Job) : Action (Except SyntaxError Unit) :=
  match job.mode with
  | .block => perform host job.steps (.runText job.text)
  | .topLevel => perform host job.steps (.runTextTopLevel job.text)
  | .program display runs => Program.drive host job.steps job.text display runs

/-- Two lists of tasks in which the same texts are run, whatever is only read in between. -/
inductive Task.SameJobs : List Task → List Task → Prop where
  | nil : SameJobs [] []
  | readLeft {tasks tasks' : List Task} (text : String) (h : SameJobs tasks tasks') :
      SameJobs (.read text :: tasks) tasks'
  | readRight {tasks tasks' : List Task} (text : String) (h : SameJobs tasks tasks') :
      SameJobs tasks (.read text :: tasks')
  | run {tasks tasks' : List Task} (job : Job) (h : SameJobs tasks tasks') :
      SameJobs (.run job :: tasks) (.run job :: tasks')

theorem Task.sameJobs_of_jobs {tasks tasks' : List Task} (h : jobs tasks = jobs tasks') :
    SameJobs tasks tasks' := by
  induction tasks generalizing tasks' with
  | nil =>
    induction tasks' with
    | nil => exact .nil
    | cons task' tasks' ih =>
      cases task' with
      | read text => exact .readRight text (ih h)
      | run job => cases h
  | cons task tasks ih =>
    cases task with
    | read text => exact .readLeft text (ih h)
    | run job =>
      induction tasks' with
      | nil => cases h
      | cons task' tasks' ih' =>
        cases task' with
        | read text => exact .readRight text (ih' h)
        | run job' =>
          obtain ⟨rfl, hrest⟩ := List.cons.inj h
          exact .run job (ih hrest)

/-! ## Programs that do not dump -/

/-- What programs that do not dump may use. -/
def Repertoire.quiet : Repertoire where
  Word := fun name => ¬ NamesDump name
  Op := fun op => op ≠ .dump

namespace Twins

open Machine

variable {t : Twins} {host host' : Host}

theorem lawful_quiet : (coupling .quiet).Lawful :=
  lawful (closedUnderMembers_of_isCalled "dump") fun hdump => hdump rfl

theorem simulates_showTree (display : Display) (ht : t.Valid .quiet) {s s' : Statement}
    (hs : s.Alike (t.Lasts .quiet) s') :
    (coupling .quiet).Simulates t (Grows .quiet) (coupling .quiet).Same
      (Program.showTree display s) (Program.showTree display s') := by
  have halike : s.Alike (SameIdentifier t.left.arena t.right.arena) s' := hs.imp fun h k hl => by
    obtain ⟨i, hi, hi', -, -⟩ := ht.get? hl.fits
    exact ⟨i, hi, hi'⟩
  obtain ⟨tree, htree, htree'⟩ := halike.toTree
  have hshown : ∀ {s : Statement} {m : Machine}, s.toTree m.store.arena = .ok tree →
      Program.showTree display s m = Machine.write (display.text tree) m := by
    intro s m hm
    show (do Machine.write (display.text (← Action.ofExcept (s.toTree m.store.arena))) :
      Action Unit) m = _
    rw [hm]
    rfl
  have hwrite : (coupling .quiet).Simulates t (Grows .quiet) (coupling .quiet).Same
      (Machine.write (display.text tree)) (Machine.write (display.text tree)) :=
    (Coupling.simulates_write lawful_quiet.grows ht _).imp (fun _ => id) fun _ _ _ _ => rfl
  intro m m' hm hm' hsink
  rw [hshown (hm ▸ htree), hshown (hm' ▸ htree')]
  exact hwrite m m' hm hm' hsink

theorem simulates_drive (hhosts : NoModules host host') (steps : Nat) {text : String}
    (htext : Quiet text) (display : Display) (runs : Bool) (ht : t.Valid .quiet) :
    (coupling .quiet).Simulates t (Runs .quiet) (coupling .quiet).Same
      (Program.drive host steps text display runs)
      (Program.drive host' steps text display runs) := by
  have hC := lawful_quiet
  refine hC.simulates_withText htext ht fun ht₁ _ hs => ?_
  refine (hC.simulates_runs (simulates_showTree display ht₁ hs)).bind hC.runs
    fun t₂ _ _ ht₂ h₂ _ => ?_
  cases runs with
  | true => exact (hC.agree_perform (fun _ => hhosts) steps).run ht₂ (hs.imp fun _ _ => h₂.lasts)
  | false => exact Coupling.simulates_pure hC.runs ht₂ rfl

theorem simulates_action (hhosts : NoModules host host') {job : Job} (hjob : Quiet job.text)
    (ht : t.Valid .quiet) :
    (coupling .quiet).Simulates t (Runs .quiet) (coupling .quiet).Same (job.action host)
      (job.action host') := by
  unfold Job.action
  cases job.mode with
  | block => exact lawful_quiet.simulates_runText (fun _ => hhosts) job.steps hjob ht
  | topLevel => exact lawful_quiet.simulates_runTextTopLevel (fun _ => hhosts) job.steps hjob ht
  | program display runs => exact simulates_drive hhosts job.steps hjob display runs ht

end Twins

/-! ## Interpreters -/

/-- A machine, and which of its handles it has given out for texts that it has only read. -/
structure Interpreter where
  machine : Machine
  unrun : Handle → Prop := fun _ => False

namespace Interpreter

/-- An interpreter with the built-in functions only. -/
def fresh (sink : Sink) : Interpreter :=
  { machine := .initial sink }

/-- Reads a text, and does nothing with it. -/
def read (text : String) (i : Interpreter) : Interpreter :=
  let machine := (i.machine.attempt (Evaluation.withText text fun _ => pure ())).2
  { machine
    unrun := fun h => i.unrun h ∨
      (machine.store.arena.IsLive h ∧ ¬ i.machine.store.arena.IsLive h) }

/-- Runs a text, and tells why that failed, if it did. -/
def run (host : Host) (job : Job) (i : Interpreter) : Option Failure × Interpreter :=
  let (failure?, machine) := i.machine.attempt (job.action host)
  (failure?, { i with machine })

/-- Does one task after the other, and tells how each run has ended. -/
def carryOut (host : Host) : List Task → Interpreter → List (Option Failure) × Interpreter
  | [], i => ([], i)
  | .read text :: tasks, i => carryOut host tasks (i.read text)
  | .run job :: tasks, i =>
    let (failure?, i) := i.run host job
    let (failures, i) := carryOut host tasks i
    (failure? :: failures, i)

/-- Interpreters that have written the same, and whose stores are the same under other handles: what
is live is renamed one to one, but for what only one of them has read without running it. -/
structure Alike (i i' : Interpreter) : Prop where
  sink : i.machine.sink = i'.machine.sink
  store : ∃ ρ, i.machine.store.Alike i.unrun i'.unrun ρ i'.machine.store

variable {i i' : Interpreter} {host host' : Host}

theorem Alike.symm (h : i.Alike i') : i'.Alike i := by
  obtain ⟨ρ, hstore⟩ := h.store
  exact ⟨h.sink.symm, flip ρ, hstore.symm⟩

/-! ### Reading -/

theorem machine_read (text : String) (i : Interpreter) :
    (i.read text).machine = { i.machine with
      store := { i.machine.store with
        arena := (i.machine.store.arena.pushAll (Statement.written text)).2 } } := by
  have hread : Machine.readText text i.machine = .value
      (Statement.ofText text i.machine.store.arena).1
      { i.machine with
        store := { i.machine.store with
          arena := (Statement.ofText text i.machine.store.arena).2 } } := rfl
  rw [← Statement.arena_ofText]
  simp only [read, Machine.attempt, Evaluation.withText, Action.bind_apply, hread]
  cases (Statement.ofText text i.machine.store.arena).1 <;> rfl

theorem unrun_read (text : String) (i : Interpreter) :
    (i.read text).unrun = fun h => i.unrun h ∨
      ((i.read text).machine.store.arena.IsLive h ∧ ¬ i.machine.store.arena.IsLive h) := rfl

/-- What only one of two interpreters reads makes no difference. -/
theorem Alike.read (h : i.Alike i') (text : String) : (i.read text).Alike i' := by
  obtain ⟨ρ, hstore⟩ := h.store
  have hvalid : ∀ j ∈ Statement.written text, j.IsValid :=
    fun j hj => (Statement.isWritten_of_mem_written hj).isValid
  have hunrun : (i.read text).unrun = fun k =>
      i.unrun k ∨ k ∈ (i.machine.store.arena.pushAll (Statement.written text)).1 := by
    rw [unrun_read, machine_read]
    funext k
    rw [Store.mem_pushAll_iff hstore.left.sound hvalid]
  refine ⟨?_, ρ, ?_⟩
  · rw [machine_read]
    exact h.sink
  · rw [machine_read, hunrun]
    exact hstore.pushAll_left hvalid

/-! ### Running -/

/-- Interpreters that are alike, of which the left one knows no functions but built-in ones, with
only the function of that name dumping. -/
structure InStep (i i' : Interpreter) : Prop extends Alike i i' where
  ordinary : i.machine.store.arena.All (Identifier.IsOrdinary .quiet)

theorem inStep_fresh (sink : Sink) : InStep (fresh sink) (fresh sink) := by
  have hstore : (fresh sink).machine.store = .initial := Machine.store_initial sink
  refine ⟨⟨rfl, fun h k => h = k ∧ (fresh sink).machine.store.arena.IsLive h, ?_⟩, ?_⟩
  · rw [hstore]
    exact Store.alike_self Store.sound_initial fun h hh =>
      Store.full_initial h (Store.sound_initial.inUse h hh)
  · rw [hstore]
    refine Store.all_initial fun i hi hfunction => ?_
    obtain ⟨op, hop, hdump, -⟩ := Identifier.builtin_of_mem_vocabulary hi hfunction
    exact ⟨op, hop, fun hword heq => hword (.inl (hdump heq))⟩

theorem InStep.readLeft (h : InStep i i') (text : String) : InStep (i.read text) i' := by
  refine ⟨h.toAlike.read text, ?_⟩
  obtain ⟨ρ, hstore⟩ := h.store
  rw [machine_read]
  refine Store.all_pushAll hstore.left.sound.tidy h.ordinary fun j hj => ?_
  refine Identifier.isOrdinary_of_role ?_
  rcases (Statement.isWritten_of_mem_written hj).role with hrole | hrole <;> simp [hrole]

theorem InStep.readRight (h : InStep i i') (text : String) : InStep i (i'.read text) :=
  ⟨(h.toAlike.symm.read text).symm, h.ordinary⟩

/-- The stores of two interpreters, side by side. -/
def twins (i i' : Interpreter) (ρ : Pairs) : Twins where
  left := i.machine.store
  right := i'.machine.store
  pairs := ρ
  own := i.unrun
  own' := i'.unrun

/-- Interpreters whose stores have become twins again have given out the same by themselves. -/
theorem inStep_of_reaches {ρ : Pairs} {m m' : Machine} (hsink : m.sink = m'.sink)
    (h : (Twins.coupling .quiet).Reaches (twins i i' ρ) (Twins.Runs .quiet) (fun _ _ _ => True)
      m.store m'.store () ()) : InStep { i with machine := m } { i' with machine := m' } := by
  obtain ⟨t, hl, hr, ht, hruns, -⟩ := h
  have halike := ht.alike
  rw [hruns.keeps.own, hruns.keeps.own'] at halike
  refine ⟨⟨hsink, t.pairs, ?_⟩, ?_⟩
  · rw [← hl, ← hr]
    exact halike
  · rw [← hl]
    exact ht.ordinary

/-- A text that mentions no dump ends the same way, and leaves the interpreters alike. -/
theorem InStep.run (h : InStep i i') (hhosts : Twins.NoModules host host') {job : Job}
    (hjob : Quiet job.text) :
    (i.run host job).1 = (i'.run host' job).1 ∧ InStep (i.run host job).2 (i'.run host' job).2 := by
  obtain ⟨ρ, hstore⟩ := h.store
  have ht : (twins i i' ρ).Valid .quiet := ⟨hstore, h.ordinary⟩
  have hends := Twins.simulates_action hhosts hjob ht i.machine i'.machine rfl rfl h.sink
  unfold Interpreter.run Machine.attempt
  cases hx : job.action host i.machine <;> cases hy : job.action host' i'.machine <;>
    rw [hx, hy] at hends <;> first | exact hends.elim | skip
  · next result m₁ result' m₁' =>
    obtain ⟨hsink, hreaches⟩ := hends
    have hafter := inStep_of_reaches hsink (hreaches.imp (fun _ => id) fun _ _ => trivial)
    obtain ⟨t, -, -, -, -, hresult⟩ := hreaches
    obtain rfl : result = result' := hresult
    cases result <;> exact ⟨rfl, hafter⟩
  · obtain ⟨rfl, hsink, hreaches⟩ := hends
    exact ⟨rfl, inStep_of_reaches hsink hreaches⟩
  · -- a machine that is cut off is left as it was
    exact ⟨rfl, h⟩

/-- The same texts are run with the same results, whatever is only read in between. -/
theorem InStep.carryOut (h : InStep i i') (hhosts : Twins.NoModules host host')
    {tasks tasks' : List Task} (hsame : Task.SameJobs tasks tasks')
    (hquiet : ∀ job ∈ Task.jobs tasks, Quiet job.text) :
    (carryOut host tasks i).1 = (Interpreter.carryOut host' tasks' i').1 ∧
      InStep (Interpreter.carryOut host tasks i).2 (Interpreter.carryOut host' tasks' i').2 := by
  induction hsame generalizing i i' with
  | nil => exact ⟨rfl, h⟩
  | readLeft text _ ih => exact ih (h.readLeft text) hquiet
  | readRight text _ ih => exact ih (h.readRight text) hquiet
  | run job _ ih =>
    obtain ⟨hjob, hrest⟩ := List.forall_mem_cons.mp hquiet
    obtain ⟨hfailure, hafter⟩ := h.run hhosts hjob
    obtain ⟨hfailures, hend⟩ := ih hafter hrest
    exact ⟨congrArg₂ List.cons hfailure hfailures, hend⟩

end Interpreter

/-- Which handles are given out cannot be observed. Two new interpreters run the same texts, none of
which mentions a dump, where no modules can be opened: each destroys what blocks leave behind in
orders of its own, and reads what it likes in between without running it. They write the same, every
text ends the same way, and what they come to is the same but for the handles. -/
theorem handles_unobservable {host host' : Host} (hhosts : Twins.NoModules host host') (sink : Sink)
    {tasks tasks' : List Task} (hsame : Task.jobs tasks = Task.jobs tasks')
    (hquiet : ∀ job ∈ Task.jobs tasks, Quiet job.text) :
    ((Interpreter.fresh sink).carryOut host tasks).1 =
        ((Interpreter.fresh sink).carryOut host' tasks').1 ∧
      ((Interpreter.fresh sink).carryOut host tasks).2.Alike
        ((Interpreter.fresh sink).carryOut host' tasks').2 := by
  obtain ⟨hfailures, hend⟩ := (Interpreter.inStep_fresh sink).carryOut hhosts
    (Task.sameJobs_of_jobs hsame) hquiet
  exact ⟨hfailures, hend.toAlike⟩

/-- The host that destroys what blocks leave behind the other way round. -/
def Host.reversing (host : Host) : Host :=
  { host with
    arrange := fun _ hs => hs.reverse
    arrange_perm := fun _ hs => hs.reverse_perm }

/-- A block leaves four slots behind, one of which a name then takes; assigning to the name fails.
Where the slots were freed the other way round, and some were taken by a text that cannot be read,
the name has another handle, which does not show. -/
theorem handles_unobservable_reversing :
    ∃ tasks tasks' : List Task, Task.jobs tasks = Task.jobs tasks' ∧
      (∀ job ∈ Task.jobs tasks, Quiet job.text) ∧
      ((Interpreter.fresh {}).carryOut (Extension.Registry.host [])
            tasks).2.machine.store.scopes.lookup? "z" ≠
        ((Interpreter.fresh {}).carryOut (Extension.Registry.host []).reversing
            tasks').2.machine.store.scopes.lookup? "z" ∧
      ((Interpreter.fresh {}).carryOut (Extension.Registry.host []) tasks).1 =
        ((Interpreter.fresh {}).carryOut (Extension.Registry.host []).reversing tasks').1 ∧
      ((Interpreter.fresh {}).carryOut (Extension.Registry.host []) tasks).2.Alike
        ((Interpreter.fresh {}).carryOut (Extension.Registry.host []).reversing tasks').2 := by
  have hhosts : Twins.NoModules (Extension.Registry.host [])
      (Extension.Registry.host []).reversing := fun _ => ⟨_, rfl, rfl⟩
  refine ⟨[.run ⟨"\x7b\n(u v x y) :: int\n\x7d\n", .topLevel, 12⟩, .run ⟨"z\n", .topLevel, 12⟩,
      .run ⟨"print \"z\"\nz = 1\n", .topLevel, 12⟩],
    [.run ⟨"\x7b\n(u v x y) :: int\n\x7d\n", .topLevel, 12⟩, .read "dump (u",
      .run ⟨"z\n", .topLevel, 12⟩, .run ⟨"print \"z\"\nz = 1\n", .topLevel, 12⟩],
    rfl, by decide +kernel, by decide +kernel, ?_⟩
  exact handles_unobservable hhosts {} rfl (by decide +kernel)

end WordScript
