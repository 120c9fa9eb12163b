import WordScript.Proofs.Limits
import WordScript.Proofs.Termination

/-!
# A sink that is full

A sink that refuses to hold more than some number of bytes only truncates the output of a program,
on a machine that knows no functions of the host. The pieces that fit are written, and when all of
them do, nothing else is different. Otherwise the program fails at the first piece that does not
fit: nothing is done any more but to leave the blocks that are open, and no later piece is written,
even one that would fit. Functions of the host could go on from the failure.
-/

namespace WordScript

namespace Evaluation

open WordScript.Action WordScript.Machine

variable {host : Host} {limit : Nat} {self : Performer} {writes : Prop}

/-! ## Groups -/

theorem truncates_resolveLeaf (h : Handle) :
    Truncates host limit False self fun _ => resolveLeaf h := by
  apply (truncates_identifier h).bind
  intro i
  exact Truncates.ite (truncates_silent (mute_resolve i.surface)) (truncates_pure h)

theorem truncates_evaluate (e : Expression) :
    Truncates host limit False self fun self => evaluate self e := by
  cases e with
  | leaf h => exact (truncates_resolveLeaf h).bind fun k => truncates_pure [k]
  | group es => exact truncates_ask _

theorem truncates_scan (before waiting : List Expression) :
    Truncates host limit False self fun self => scan self before waiting := by
  induction hn : before.length using Nat.strongRecOn generalizing before waiting with
  | ind n ih =>
  have afterCall : ∀ (args rest : List Expression) (isInfix : Bool), rest.length < n →
      Truncates host limit False self fun self =>
        self (.call args isInfix) >>= fun results => scan self rest (results.map .leaf) := by
    intro args rest isInfix hlength
    exact (truncates_ask _).bind fun results => ih _ hlength rest _ rfl
  match before with
  | [] =>
    simp only [scan]
    exact truncates_pure waiting
  | .group es :: before =>
    simp only [scan]
    exact ih before.length (by simp [← hn]) before _ rfl
  | .leaf h :: before =>
    simp only [scan]
    apply (truncates_resolveLeaf h).bind
    intro callee
    apply (truncates_identifier callee).bind
    intro i
    apply Truncates.ite (ih before.length (by simp [← hn]) before _ rfl)
    split
    · exact afterCall _ _ _ (by grind)
    · exact afterCall _ _ _ (by simp [← hn])

theorem truncates_collect (e : Expression) :
    Truncates host limit False self fun self => collect self e := by
  cases e with
  | leaf h => exact truncates_pure [h]
  | group es => exact truncates_ask _

theorem truncates_evaluateGroup (es : List Expression) :
    Truncates host limit False self fun self => evaluateGroup self es := by
  apply (truncates_silent (mute_note es)).bind
  intro _
  apply (truncates_scan es.reverse []).bind
  intro waiting
  exact truncates_concatMap truncates_collect waiting

theorem truncates_evaluateEach (es : List Expression) :
    Truncates host limit writes self fun self => evaluateEach self es :=
  truncates_concatMap (fun _ => truncates_ask _) es

/-! ## Built-in functions -/

theorem truncates_declareAs (type : String) (h : Handle) :
    Truncates host limit False self fun _ => declareAs type h := by
  apply (truncates_identifier h).bind
  intro i
  exact Truncates.ite (truncates_silent (mute_declare _)) (truncates_fail _)

theorem truncates_typeOfFirst? (depth : Nat) (hs : List Handle) :
    Truncates host limit False self fun _ => typeOfFirst? depth hs := by
  induction hs with
  | nil => exact truncates_pure none
  | cons h hs ih =>
    apply (truncates_identifier h).bind
    intro i
    exact Truncates.ite (truncates_pure (some i.type)) ih

theorem truncates_declareBetween (operands : List Expression) :
    Truncates host limit False self fun self => declareBetween self operands := by
  unfold declareBetween
  cases operands.getLast? with
  | none => exact truncates_pure []
  | some last =>
    apply (truncates_ask _).bind
    intro values
    split
    · next right =>
      apply (truncates_identifier right).bind
      intro type
      refine Truncates.ite ?_ (truncates_fail _)
      apply (truncates_evaluateEach _).bind
      apply truncates_concatMap
      intro h
      exact (truncates_declareAs type.surface h).bind fun k => truncates_pure [k]
    · exact truncates_fail _

theorem truncates_declareInFront (operands : List Expression) :
    Truncates host limit False self fun self => declareInFront self operands := by
  apply (truncates_evaluateEach operands).bind
  intro handles
  apply (truncates_silent mute_place).bind
  intro here
  apply (truncates_typeOfFirst? here.depth handles.reverse).bind
  intro type?
  apply truncates_concatMap
  intro h
  apply (truncates_identifier h).bind
  intro i
  apply Truncates.ite (truncates_pure [h])
  cases type? with
  | some type => exact (truncates_declareAs type h).bind fun k => truncates_pure [k]
  | none => exact truncates_fail _

theorem truncates_pairs (operands : List Expression) :
    Truncates host limit False self fun self => pairs self operands := by
  apply (truncates_evaluateEach _).bind
  intro left
  apply (truncates_evaluateEach _).bind
  intro right
  exact Truncates.ite (truncates_pure (left.zip right)) (truncates_fail _)

theorem truncates_requireVariable (target : Identifier) :
    Truncates host limit False self fun _ => requireVariable target :=
  Truncates.ite (truncates_pure ()) (truncates_fail _)

theorem truncates_pairwise (operands : List Expression)
    (result : Identifier → Identifier → Except RuntimeError Identifier) :
    Truncates host limit False self fun self => pairwise self operands result := by
  apply (truncates_pairs operands).bind
  apply truncates_concatMap
  intro pair
  apply (truncates_identifier pair.1).bind
  intro left
  apply (truncates_identifier pair.2).bind
  intro right
  apply (truncates_ofExcept (result left right)).bind
  intro i
  exact (truncates_silent (mute_pushTemporary _)).bind fun k => truncates_pure [k]

theorem truncates_assign (operands : List Expression) :
    Truncates host limit False self fun self => assign self operands := by
  apply (truncates_pairs operands).bind
  apply truncates_concatMap
  intro pair
  apply (truncates_identifier pair.1).bind
  intro target
  apply (truncates_requireVariable target).bind
  intro _
  apply Truncates.ite (truncates_pure [])
  apply (truncates_identifier pair.2).bind
  intro right
  apply (truncates_ofExcept (right.castValue target.type)).bind
  intro value
  exact (truncates_silent (mute_setValue pair.1 value)).bind fun _ => truncates_pure [pair.1]

theorem truncates_update (op : Arithmetic) (operands : List Expression) :
    Truncates host limit False self fun self => update self op operands := by
  apply (truncates_pairs operands).bind
  apply truncates_concatMap
  intro pair
  apply (truncates_identifier pair.1).bind
  intro target
  apply (truncates_requireVariable target).bind
  intro _
  apply (truncates_identifier pair.2).bind
  intro right
  apply (truncates_ofExcept (Identifier.arithmetic op target right)).bind
  intro result
  apply (truncates_ofExcept (result.castValue target.type)).bind
  intro value
  exact (truncates_silent (mute_setValue pair.1 value)).bind fun _ => truncates_pure [pair.1]

theorem truncates_negate (operands : List Expression) :
    Truncates host limit False self fun self => negate self operands := by
  apply (truncates_evaluateEach operands).bind
  apply truncates_concatMap
  intro h
  apply (truncates_identifier h).bind
  intro i
  exact (truncates_silent (mute_pushTemporary _)).bind fun k => truncates_pure [k]

theorem truncates_print (operands : List Expression) :
    Truncates host limit True self fun self => print self operands := by
  apply truncates_forEach
  intro e
  apply (truncates_ask _).bind
  apply truncates_forEach
  intro h
  apply (truncates_identifier h).bind
  intro i
  exact truncates_write i.toText

theorem truncates_dump (operands : List Expression) :
    Truncates host limit True self fun self => dump self operands := by
  apply truncates_forEach
  intro e
  apply (truncates_ask _).bind
  intro handles
  refine Truncates.bind ?_ fun _ => truncates_write "\n"
  apply truncates_forEach
  intro h
  apply (truncates_identifier h).bind
  intro i
  exact truncates_write (dumped h i)

theorem truncates_loadModules (args : List Expression) :
    Truncates host limit False self fun self => loadModules self args := by
  apply (truncates_evaluateEach args.tail).bind
  intro handles
  refine Truncates.bind (truncates_concatMap (fun h => ?_) handles) fun words => ?_
  · exact (truncates_identifier h).bind fun i => truncates_pure [requestWord i]
  · exact truncates_forEach (fun _ => truncates_ask _) (requests words)


theorem truncates_callBuiltin (args : List Expression) (isInfix : Bool) (op : Builtin) :
    ∃ writes, Truncates host limit writes self fun self => callBuiltin self args isInfix op := by
  cases op with
  | print =>
    refine ⟨True, (truncates_print args.tail).bind fun _ => ?_⟩
    exact truncates_flush.bind fun _ => truncates_pure []
  | printLine =>
    refine ⟨True, (truncates_print args.tail).bind fun _ => ?_⟩
    exact (truncates_write "\n").bind fun _ => truncates_flush.bind fun _ => truncates_pure []
  | dump =>
    refine ⟨True, (truncates_dump args.tail).bind fun _ => ?_⟩
    exact truncates_flush.bind fun _ => truncates_pure []
  | declare =>
    exact ⟨False, Truncates.ite (truncates_declareBetween _) (truncates_declareInFront _)⟩
  | assign => exact ⟨False, truncates_assign args.tail⟩
  | arithmetic op => exact ⟨False, truncates_pairwise args.tail _⟩
  | update op => exact ⟨False, truncates_update op args.tail⟩
  | compare op => exact ⟨False, truncates_pairwise args.tail _⟩
  | connect op => exact ⟨False, truncates_pairwise args.tail _⟩
  | negate => exact ⟨False, truncates_negate args.tail⟩
  | index => exact ⟨False, (truncates_pairs args.tail).bind fun _ => truncates_pure []⟩
  | loadModule => exact ⟨False, (truncates_loadModules args).bind fun _ => truncates_pure []⟩
  | push | ifWord | elseWord | loopWord => exact ⟨False, truncates_pure []⟩

/-- Whatever is called that is not a function of the host is cut short as it should be. -/
theorem cuts_call {m : Machine} (args : List Expression) (isInfix : Bool)
    (hbuiltin : ∀ callee i label, args.head?.bind Expression.handle? = some callee →
      m.store.arena.get? callee = some i → i.callable? ≠ some (.native label)) :
    ∃ writes, Cuts host limit writes self (fun self => call host self args isInfix) m := by
  unfold call
  cases hcallee : args.head?.bind Expression.handle? with
  | none => exact ⟨False, (truncates_fail _).cuts m⟩
  | some callee =>
    cases hi : m.store.arena.get? callee with
    | none =>
      refine ⟨False, ((truncates_identifier callee).cuts m).bind (sequential_const _) ?_⟩
      intro i m₁ hvalue
      obtain ⟨hi', -⟩ := eq_of_identifier hvalue
      rw [hi] at hi'
      cases hi'
    | some i =>
      -- only the identifier that is called tells whether anything is written
      have hread : ∀ {writes : Prop} {g : Identifier → Performer → Action (List Handle)},
          Cuts host limit writes self (g i) m →
          Cuts host limit writes self (fun self => identifier callee >>= fun j => g j self) m := by
        intro writes g hg
        apply ((truncates_identifier callee).cuts m).bind (sequential_const _)
        intro j m₁ hvalue
        obtain ⟨hj, rfl⟩ := eq_of_identifier hvalue
        obtain rfl := Option.some.inj (hi.symm.trans hj)
        exact hg
      cases hc : i.callable? with
      | none =>
        refine ⟨False, hread ?_⟩
        simp only [hc]
        exact (truncates_fail _).cuts m
      | some c =>
        cases c with
        | builtin op =>
          obtain ⟨writes, hop⟩ := truncates_callBuiltin args isInfix op
          refine ⟨writes, hread ?_⟩
          simp only [hc]
          exact hop.cuts m
        | native label => exact absurd hc (hbuiltin callee i label hcallee hi)

/-! ## Statements -/

theorem truncates_controlWord? (e? : Option Expression) :
    Truncates host limit False self fun _ => controlWord? e? := by
  unfold controlWord?
  split
  · apply (truncates_resolveLeaf _).bind
    intro k
    apply (truncates_identifier k).bind
    intro i
    exact truncates_pure i.controlOp?
  · exact truncates_pure none

theorem truncates_classify (head : Expression) :
    Truncates host limit False self fun _ => classify head := by
  apply (truncates_controlWord? _).bind
  intro first
  split
  · exact truncates_pure _
  · exact truncates_pure _
  · apply (truncates_controlWord? _).bind
    intro second
    split
    · exact truncates_pure _
    · exact truncates_pure _
  · exact truncates_pure _

theorem truncates_runAll (body : List Statement) (ladder : Option Bool) :
    Truncates host limit False self fun self => runAll self body ladder := by
  induction body generalizing ladder with
  | nil => exact truncates_pure ()
  | cons s ss ih => exact (truncates_ask _).bind ih

theorem truncates_holds (condition : List Expression) :
    Truncates host limit False self fun self => holds self condition := by
  apply (truncates_ask _).bind
  intro values
  split
  · next h => exact (truncates_identifier h).bind fun i => truncates_pure i.isTruthy
  · exact truncates_fail _

theorem truncates_runRung (condition : List Expression) (body : List Statement) :
    Truncates host limit False self fun self => runRung self condition body := by
  apply (truncates_ask (.decide condition)).bind
  intro taken
  exact Truncates.ite ((truncates_ask _).bind fun _ => truncates_pure taken) (truncates_pure taken)

theorem truncates_runStep (steps : Nat) (s : Statement) (ladder : Option Bool) :
    Truncates host limit False self fun self => runStep self steps s ladder := by
  have hrung : ∀ condition : List Expression, Truncates host limit False self fun self =>
      (do return some (← runRung self condition s.body)) :=
    fun condition => (truncates_runRung condition s.body).bind fun taken => truncates_pure _
  have hblock : Truncates host limit False self fun self => (do
      self (.runBlock s.body)
      return (none : Option Bool)) :=
    (truncates_ask (.runBlock s.body)).bind fun _ => truncates_pure none
  apply Truncates.ite (truncates_pure ladder)
  apply (truncates_classify s.head).bind
  intro found
  cases found with
  | ifTrue condition => exact hrung condition
  | elseIf condition =>
    match ladder with
    | none => exact truncates_fail _
    | some true => exact truncates_pure _
    | some false => exact hrung condition
  | otherwise =>
    match ladder with
    | none => exact truncates_fail _
    | some true => exact truncates_pure _
    | some false => exact hblock
  | whileTrue condition =>
    refine Truncates.bind ?_ fun _ => truncates_pure none
    exact truncates_repeatWhile (truncates_ask _) (truncates_ask _) steps
  | plain =>
    have hbody : Truncates host limit False self fun self =>
        (if s.isBlock then (do self (.runBlock s.body); return none) else return none :
          Action (Option Bool)) := Truncates.ite hblock (truncates_pure none)
    exact Truncates.ite ((truncates_ask _).bind fun _ => hbody) hbody

theorem truncates_run (s : Statement) : Truncates host limit False self fun self => run self s :=
  (truncates_ask _).bind fun _ => truncates_pure ()

theorem truncates_runTopLevel (s : Statement) :
    Truncates host limit False self fun self => runTopLevel self s := by
  have hbody : Truncates host limit False self fun self => runAll self s.body none :=
    truncates_runAll s.body none
  exact Truncates.ite ((truncates_ask _).bind fun _ => hbody) hbody

theorem truncates_withText (text : String) {next : Performer → Statement → Action Unit}
    (hnext : ∀ s, Truncates host limit False self fun self => next self s) :
    Truncates host limit False self fun self => withText text (next self) := by
  apply (truncates_silent (mute_readText text)).bind
  intro result
  cases result with
  | error e => exact truncates_pure _
  | ok s => exact (hnext s).bind fun _ => truncates_pure _

/-- No module is loaded where none can be opened. -/
theorem truncates_loadModule (hhost : host.OpensNothing) (path space : String)
    (args : List Expression) :
    Truncates host limit False self fun self => loadModule host self path space args := by
  unfold loadModule
  cases hopen : host.openModule path with
  | error e => exact truncates_fail e
  | ok entry => exact absurd hopen (hhost path entry)

/-! ## Operations -/

/-- Every step of an operation is cut short as it should be, where no function of the host is
called and no module is opened. -/
theorem cuts_step (hhost : host.OpensNothing) (steps : Nat) {op : Operation} {m : Machine}
    (hbuiltin : ∀ args isInfix callee i label, op = .call args isInfix →
      args.head?.bind Expression.handle? = some callee →
      m.store.arena.get? callee = some i → i.callable? ≠ some (.native label)) :
    ∃ writes, Cuts host limit writes self (fun self => step host self steps op) m := by
  cases op with
  | call args isInfix =>
    exact cuts_call args isInfix fun callee i label => hbuiltin args isInfix callee i label rfl
  | evaluate e => exact ⟨False, (truncates_evaluate e).cuts m⟩
  | evaluateGroup es => exact ⟨False, (truncates_evaluateGroup es).cuts m⟩
  | runStep s ladder => exact ⟨False, (truncates_runStep steps s ladder).cuts m⟩
  | runBlock body => exact ⟨False, (truncates_runAll body none).inFrame.cuts m⟩
  | decide condition => exact ⟨False, (truncates_holds condition).inFrame.cuts m⟩
  | run s => exact ⟨False, (truncates_run s).cuts m⟩
  | runTopLevel s => exact ⟨False, (truncates_runTopLevel s).cuts m⟩
  | runText text =>
    exact ⟨False, (truncates_withText text fun s => truncates_ask (.run s)).cuts m⟩
  | runTextTopLevel text =>
    exact ⟨False, (truncates_withText text fun s => truncates_ask (.runTopLevel s)).cuts m⟩
  | loadModule path space args =>
    exact ⟨False, (truncates_loadModule hhost path space args).cuts m⟩
  | readText text => exact ⟨False, (truncates_silent (mute_readText text)).cuts m⟩
  | push i => exact ⟨False, (truncates_silent (mute_pushTemporary i)).cuts m⟩
  | identifier h => exact ⟨False, (truncates_identifier h).cuts m⟩
  | place => exact ⟨False, (truncates_silent mute_place).cuts m⟩
  | resolve name => exact ⟨False, (truncates_silent (mute_resolve name)).cuts m⟩
  | declare i => exact ⟨False, (truncates_silent (mute_declare i)).cuts m⟩
  | registerFunction name isInfix label =>
    exact ⟨False, (truncates_silent (mute_declare _)).cuts m⟩
  | registerConstant name i => exact ⟨False, (truncates_silent (mute_declare _)).cuts m⟩
  | setValue h value => exact ⟨False, (truncates_silent (mute_setValue h value)).cuts m⟩

end Evaluation

/-! ## Whole runs -/

/-- While the operation is carried out, the machine comes to be this one: another operation is asked
on it then, or has given its value. -/
def Passes (host : Host) (steps : Nat) (op : Operation) (m m₁ : Machine) : Prop :=
  ∃ steps' op' m', During host steps op m steps' op' m' ∧
    (m₁ = m' ∨ ∃ a, perform host steps' op' m' = .value a m₁)

/-- Nothing has been done since the operation came to some machine, but that output was written and
blocks were left. -/
def Halts (host : Host) (steps : Nat) (op : Operation) (m m' : Machine) : Prop :=
  ∃ m₁ k, Passes host steps op m m₁ ∧ ((Machine.leaveBlock host)^[k] m₁).OnlyOutput m'

theorem Passes.inside {host : Host} {steps : Nat} {op op' : Operation} {m m' m₁ : Machine}
    (h : Inside host steps op m op' m') (hpasses : Passes host steps op' m' m₁) :
    Passes host (steps + 1) op m m₁ := by
  obtain ⟨steps', op'', m'', hduring, hm₁⟩ := hpasses
  exact ⟨steps', op'', m'', .inside h hduring, hm₁⟩

namespace Evaluation

open WordScript.Machine

variable {host : Host} {limit : Nat} {writes : Prop}

/-- What a step of an operation stops on, the whole operation halts on. -/
theorem halts_of_stopsOn {steps : Nat} {op : Operation} {m mf : Machine}
    (hends : perform host (steps + 1) op m ≠ .cutOff)
    (hinside : ∀ op' m', Inside host steps op m op' m' → m'.sink.limit = none →
      CutShort limit (Halts host steps op' m') m' (perform host steps op' m')
        (perform host steps op' (m'.withLimit (some limit))))
    (h : StopsOn host limit writes (perform host steps)
      (fun self => Evaluation.step host self steps op) m mf) :
    Halts host (steps + 1) op m mf := by
  cases h with
  | here _ hleads hout =>
    rcases hleads with hstart | ⟨m₁, hop, hstart⟩
    · exact ⟨m, 0, ⟨steps + 1, op, m, .here, .inl rfl⟩, hstart.trans hout⟩
    · obtain ⟨op', m', hvalue, hasked, -⟩ := hop.inside hends
      exact ⟨m₁, 0, .inside hasked ⟨steps, op', m', .here, .inr hvalue⟩, hstart.trans hout⟩
  | inside k hop =>
    obtain ⟨op', m', ⟨hlimit, hfails, hne⟩, hasked, hended⟩ := hop.inside hends
    obtain ⟨m₂, hm₂⟩ := Outcome.machine?_of_ne hended
    obtain ⟨ws, -, hend⟩ := hinside op' m' hasked hlimit m₂ hm₂
    rcases hend with ⟨-, hsame⟩ | hstopped
    · exact absurd hsame hne
    · rw [hfails] at hstopped
      obtain ⟨-, -, -, m₁, k', hpasses, hout⟩ := hstopped
      refine ⟨m₁, k + k', .inside hasked hpasses, ?_⟩
      rw [Function.iterate_add_apply]
      exact hout.iterate_leaveBlock host k

/-- However many steps it is made of, an operation is cut short as it should be. -/
theorem cutShort_perform (hhost : host.OpensNothing) (steps : Nat) {op : Operation} {m : Machine}
    (hm : Contract.builtins.Inv m.store) (hadmits : Contract.builtins.Admits m.store op)
    (hlimit : m.sink.limit = none) :
    CutShort limit (Halts host steps op m) m (perform host steps op m)
      (perform host steps op (m.withLimit (some limit))) := by
  induction steps generalizing op m with
  | zero => exact cutShort_cutOff
  | succ steps ih =>
    by_cases hends : perform host (steps + 1) op m = .cutOff
    · rw [hends]
      exact cutShort_cutOff
    have hinside : ∀ op' m', Inside host steps op m op' m' → m'.sink.limit = none →
        CutShort limit (Halts host steps op' m') m' (perform host steps op' m')
          (perform host steps op' (m'.withLimit (some limit))) := by
      intro op' m' hasked hlimit'
      obtain ⟨hm', hadmits'⟩ := (Contract.lawful_builtins hhost).inside hm hadmits hasked
      exact ih hm' hadmits' hlimit'
    have hbuiltin : ∀ args isInfix callee i label, op = .call args isInfix →
        args.head?.bind Expression.handle? = some callee →
        m.store.arena.get? callee = some i → i.callable? ≠ some (.native label) := by
      rintro args isInfix callee i label rfl hcallee hi
      exact Contract.callable?_ne_native hm hadmits hcallee hi label
    obtain ⟨writes, hcuts⟩ := cuts_step hhost steps hbuiltin
    rcases hcuts hlimit with ⟨hcut, -⟩ | hoverruns
    · exact hcut.imp fun _ => halts_of_stopsOn hends hinside
    · obtain ⟨op', m', ⟨hlimit', hfails⟩, hasked, -⟩ := hoverruns.inside hends
      exact absurd ((hinside op' m' hasked hlimit').imp fun _ _ => trivial) hfails

end Evaluation

/-- An expression, a statement or a text is evaluated or run. -/
def Operation.RunsProgram : Operation → Prop
  | .evaluate _ | .run _ | .runTopLevel _ | .runText _ | .runTextTopLevel _ => True
  | _ => False

/-- Any program may be run where no function of the host is known. -/
theorem Operation.RunsProgram.admits {s : Store} {op : Operation} (hop : op.RunsProgram)
    (hbuiltin : s.arena.All Identifier.IsNotNative) : Contract.builtins.Admits s op := by
  have hplain : ∀ h, Contract.builtins.Lasts s h := fun h i hi =>
    ⟨hbuiltin h i hi, trivial, fun _ => trivial⟩
  cases op with
  | evaluate e =>
    cases e with
    | leaf h => exact hplain h
    | group es => exact fun h _ => hplain h
  | run st => exact fun h _ => hplain h
  | runTopLevel st => exact fun h _ => hplain h
  | runText text => exact fun _ _ _ => trivial
  | runTextTopLevel text => exact fun _ _ _ => trivial
  | _ => exact hop.elim

/-- On a machine in any state that is reached where no function of the host is known, with a host
that opens no modules, take a program that comes to an end, and the pieces that it writes, one after
the other, when there is no limit to its output. With a limit, it writes those that come before the
first one to exceed it. If that is all of them, it comes to the same end in the same state.
Otherwise it fails with an error of the output, and nothing has been done since some state that it
also passes without a limit, but that those pieces were written and blocks were left. -/
theorem sink_truncates {host : Host} (hhost : host.OpensNothing) {m : Machine}
    (hm : Reached host (fun _ => True) m) (hbuiltin : m.store.arena.All Identifier.IsNotNative)
    {op : Operation} (hop : op.RunsProgram) (limit : Nat) {steps : Nat} {m' : Machine}
    (hend : (perform host steps op (m.withLimit none)).machine? = some m') :
    ∃ ws : List String, m'.sink.pieces = ws.reverse ++ m.sink.pieces ∧ ∃ j ≤ ws.length,
      (∀ i, 0 < i → i ≤ j → m.sink.size + totalBytes (ws.take i) ≤ limit) ∧
      (j < ws.length → limit < m.sink.size + totalBytes (ws.take (j + 1))) ∧
      (j = ws.length → perform host steps op (m.withLimit (some limit)) =
        (perform host steps op (m.withLimit none)).onMachine (Machine.withLimit (some limit))) ∧
      (j < ws.length → ∃ m'',
        perform host steps op (m.withLimit (some limit)) = .failure (.stream "sink full") m'' ∧
        m''.sink.pieces = (ws.take j).reverse ++ m.sink.pieces ∧
        Halts host steps op (m.withLimit none) m'') := by
  have hinv : Contract.builtins.Inv (m.withLimit none).store :=
    ⟨hm.sound, fun h i hi => ⟨hbuiltin h i hi, fun _ => trivial⟩⟩
  have hadmits := hop.admits hbuiltin
  have hcut : Evaluation.CutShort limit (Halts host steps op (m.withLimit none)) (m.withLimit none)
      (perform host steps op (m.withLimit none))
      (perform host steps op (m.withLimit (some limit))) :=
    Evaluation.cutShort_perform hhost steps hinv hadmits rfl
  obtain ⟨ws, hwrites, hends⟩ := hcut m' hend
  refine ⟨ws, congrArg Sink.pieces hwrites, ?_⟩
  rcases hends with ⟨hfits, hsame⟩ | hstopped
  · refine ⟨ws.length, Nat.le_refl _, ?_, ?_, fun _ => hsame, ?_⟩
    · intro i hi hlength
      exact hfits.take hi hlength
    · intro hlength
      omega
    · intro hlength
      omega
  · obtain ⟨j, hlength, hfits, hfull, m'', hfails, hbefore, hhalts⟩ := hstopped.exists_take
    refine ⟨j, Nat.le_of_lt hlength, hfits, fun _ => hfull, ?_, fun _ => ?_⟩
    · intro heq
      omega
    · exact ⟨m'', hfails, congrArg Sink.pieces hbefore, hhalts⟩

/-- With room for two bytes, the second piece is the first one that does not fit. The third one
would fit, but it is not written. -/
theorem sink_truncates_print :
    ∃ m', (perform (Extension.Registry.host []) 12 (.runText "print 1 22 3\n")
        ((Machine.initial {}).withLimit none)).machine? = some m' ∧
      m'.sink.pieces = ["3", "22", "1"] ∧
      ∃ m'', perform (Extension.Registry.host []) 12 (.runText "print 1 22 3\n")
          ((Machine.initial {}).withLimit (some 2)) = .failure (.stream "sink full") m'' ∧
        m''.sink.pieces = ["1"] ∧
        Halts (Extension.Registry.host []) 12 (.runText "print 1 22 3\n")
          ((Machine.initial {}).withLimit none) m'' := by
  have hrun : (perform (Extension.Registry.host []) 12 (.runText "print 1 22 3\n")
      ((Machine.initial {}).withLimit none)).machine?.map (fun m => m.sink.pieces) =
        some ["3", "22", "1"] := by decide +kernel
  have hhost : (Extension.Registry.host []).OpensNothing := nofun
  have hnative : (Machine.initial {}).store.arena.All Identifier.IsNotNative := by
    rw [Machine.store_initial]
    exact Store.isNotNative_initial
  have hempty : (Machine.initial {}).sink = {} := by rw [Machine.initial]
  obtain ⟨m', hend, hpieces⟩ := Option.map_eq_some_iff.mp hrun
  have hprogram : (Operation.runText "print 1 22 3\n").RunsProgram := trivial
  obtain ⟨ws, hwritten, j, hj, hfits, hfull, -, hstops⟩ :=
    sink_truncates hhost (.initial {}) hnative hprogram 2 hend
  rw [hempty] at hwritten hfits hfull hstops
  obtain rfl : ws = ["1", "22", "3"] := by
    rw [hpieces, List.append_nil] at hwritten
    rw [← List.reverse_reverse ws, ← hwritten]
    rfl
  obtain rfl : j = 1 := by
    have hfirst : ¬ j < 1 := by
      intro hlt
      obtain rfl : j = 0 := by omega
      exact absurd (hfull (by decide)) (by decide)
    have hsecond : ¬ 2 ≤ j := fun hle => absurd (hfits 2 (by decide) hle) (by decide)
    omega
  obtain ⟨m'', hfails, hpieces', hhalts⟩ := hstops (by decide)
  exact ⟨m', hend, hpieces, m'', hfails, hpieces', hhalts⟩

end WordScript
