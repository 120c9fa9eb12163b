import WordScript.Proofs.Evaluation

/-!
# Running under a contract

Scripts, blocks and statements under a lawful contract, and from them one step of any operation.
By induction on the number of steps every operation keeps every lawful contract.
-/

namespace WordScript

/-- The condition that the head of a statement puts in front of its body. -/
def Evaluation.Head.condition : Evaluation.Head → List Expression
  | .ifTrue condition | .elseIf condition | .whileTrue condition => condition
  | .otherwise | .plain => []

namespace Contract

namespace Upheld

open Evaluation Machine

variable {C : Contract} {host : Host} {self self' : Performer} {m : Machine}

/-! ## Scripts -/

/-- A script that obeys a contract comes to what it says, whoever carries its operations out. -/
theorem run_script (hself : C.Agree self self') {α : Type}
    {post : Store → Except RuntimeError α → Prop} {script : Script α} (hm : C.Inv m.store)
    (hscript : C.Obeys post script m.store) :
    script.run self m = script.run self' m ∧
      match script.run self m with
      | .value a m' => C.Inv m'.store ∧ post m'.store (.ok a)
      | .failure e m' => C.Inv m'.store ∧ post m'.store (.error e)
      | .cutOff => True := by
  induction script generalizing m with
  | finish result =>
    refine ⟨rfl, ?_⟩
    cases result with
    | ok a => exact ⟨hm, hscript⟩
    | error e => exact ⟨hm, hscript⟩
  | ask op next ih =>
    obtain ⟨hadmits, hnext⟩ := hscript
    obtain ⟨hsame, hmeets⟩ := hself op m hm hadmits
    simp only [Script.run, Action.bind_apply, Action.attempt, ← hsame]
    cases hop : self op m with
    | value a m₁ =>
      rw [hop] at hmeets
      exact ih (.ok a) hmeets.1 (hnext (.ok a) m₁.store hmeets.1 hmeets.2.1 hmeets.2.2)
    | failure e m₁ =>
      rw [hop] at hmeets
      exact ih (.error e) hmeets.1 (hnext (.error e) m₁.store hmeets.1 hmeets.2.1 hmeets.2.2)
    | cutOff => exact ⟨rfl, trivial⟩

theorem keeps_call (hC : C.Upheld host) (hself : C.Agree self self') {args : List Expression}
    {isInfix : Bool} (hm : C.Inv m.store) (hadmits : C.Admits m.store (.call args isInfix)) :
    C.Keeps C.Evaluates (fun s handles => ∀ h ∈ handles, C.Fits s h)
      (call host self args isInfix) (call host self' args isInfix) m := by
  obtain ⟨hargs, hcallee, hgroup⟩ := hadmits
  unfold call
  cases hhead : args.head?.bind Expression.handle? with
  | none => exact keeps_fail hC.evaluates hm (hgroup hhead)
  | some callee =>
    have hcalls := hcallee callee hhead
    -- the callee is read as something to be called, which need not fit as a value
    have hread : C.Keeps C.Evaluates (fun s i => s = m.store ∧ m.store.arena.get? callee = some i)
        (identifier callee) (identifier callee) m := by
      refine ⟨rfl, ?_⟩
      unfold identifier
      cases hi : m.store.arena.get? callee with
      | some i => exact ⟨hm, hC.evaluates.refl hm, rfl, rfl⟩
      | none => exact ⟨hm, hC.evaluates.refl hm, hC.callee hm hcalls hi⟩
    refine hread.bind hC.evaluates fun i m₁ hm₁ _ hi => ?_
    obtain ⟨hstore, hi⟩ := hi
    rw [← hstore] at hargs hcalls hi
    split
    · next op hop =>
      refine hC.keeps_callBuiltin hself isInfix hm₁ hargs fun hload s hs path space => ?_
      exact hC.loads hm₁ hcalls hi (by rw [Identifier.LoadsModules, hop, hload]) hs path space args
    · next label hlabel =>
      obtain ⟨hsame, hends⟩ := run_script hself hm₁ (hC.native hm₁ hcalls hi hlabel hargs)
      refine ⟨hsame, ?_⟩
      cases hrun : (host.native label args).run self m₁ with
      | value handles m₂ =>
        rw [hrun] at hends
        exact ⟨hends.1, hends.2.1, hends.2.2.1 handles rfl⟩
      | failure e m₂ =>
        rw [hrun] at hends
        exact ⟨hends.1, hends.2.1, hends.2.2.2 e rfl⟩
      | cutOff => trivial
    · next hnone => exact keeps_fail hC.evaluates hm₁ (hC.notCallable hm₁ hcalls hi hnone)

theorem keeps_loadModule (hC : C.Upheld host) (hself : C.Agree self self') {path space : String}
    {args : List Expression} (hm : C.Inv m.store)
    (hpermits : C.Permits (.loadModule path space args) m.store)
    (hadmits : C.Admits m.store (.loadModule path space args)) :
    C.Keeps C.Evaluates (fun _ _ => True) (loadModule host self path space args)
      (loadModule host self' path space args) m := by
  unfold loadModule
  cases hopen : host.openModule path with
  | error e => exact keeps_fail hC.evaluates hm (hC.moduleError hopen)
  | ok entry =>
    obtain ⟨hinv, hobeys⟩ := hC.entry hm hpermits hadmits hopen
    obtain ⟨hsame, hends⟩ := run_script hself
      (m := { m with store := { m.store with scopes := m.store.scopes.goTo space } }) hinv hobeys
    refine ⟨?_, ?_⟩
    · simp only [inNamespace, hsame]
    · simp only [inNamespace]
      split
      · next a m₁ hrun =>
        rw [hrun] at hends
        exact ⟨hends.2.1, hends.2.2.1, trivial⟩
      · next e m₁ hrun =>
        rw [hrun] at hends
        exact ⟨hends.2.1, hends.2.2.1, hends.2.2.2 e rfl⟩
      · trivial

/-! ## Blocks -/

/-- What runs in a frame of its own runs as a block, whether it fails or not. -/
theorem keeps_inFrame (hC : C.Upheld host) {α : Type} {x y : Action α} (hm : C.Inv m.store)
    (hopens : C.Opens m.store)
    (hx : ∀ m', m'.store = m.store.enter → C.Keeps C.Runs (fun _ _ => True) x y m') :
    C.Keeps C.Blocks (fun _ _ => True) (inFrame host x) (inFrame host y) m := by
  obtain ⟨hsame, hmeets⟩ := hx { m with store := m.store.enter } rfl
  refine ⟨by simp only [inFrame, hsame], ?_⟩
  have hleave : ∀ m' : Machine, C.Inv m'.store → C.Runs m.store.enter m'.store → _ :=
    fun m' hm' hruns => hC.leave (host.arrange_perm m'.blocksLeft) hm hopens hruns hm'
  simp only [inFrame]
  cases hrun : x { m with store := m.store.enter } with
  | value a m₁ =>
    rw [hrun] at hmeets
    obtain ⟨hinv, hblocks, herror⟩ := hleave m₁ hmeets.1 hmeets.2.1
    simp only
    cases hl : (m₁.store.leave (host.arrange m₁.blocksLeft)).1 with
    | ok u => exact ⟨hinv, hblocks, trivial⟩
    | error e => exact ⟨hinv, hblocks, herror e hl⟩
  | failure e m₁ =>
    rw [hrun] at hmeets
    obtain ⟨hinv, hblocks, -⟩ := hleave m₁ hmeets.1 hmeets.2.1
    exact ⟨hinv, hblocks, hmeets.2.2⟩
  | cutOff => trivial

theorem lasts_inFrame (hC : C.Upheld host) {hs : List Handle} (hm : C.Inv m.store)
    (hopens : C.Opens m.store) (hlasts : ∀ h ∈ hs, C.Lasts m.store h) (m' : Machine)
    (hm' : m'.store = m.store.enter) :
    C.Inv m'.store ∧ ∀ h ∈ hs, C.Lasts m'.store h := by
  rw [hm']
  exact ⟨hC.enter hm hopens, fun h hh => hC.lasts_enter hm (hlasts h hh)⟩

theorem lasts_mono_all (hC : C.Upheld host) {s s' : Store} {hs : List Handle} (hstep : C.Runs s s')
    (hlasts : ∀ h ∈ hs, C.Lasts s h) : ∀ h ∈ hs, C.Lasts s' h :=
  fun h hh => hC.lasts_mono hstep (hlasts h hh)

theorem keeps_runAll (hC : C.Upheld host) (hself : C.Agree self self') (body : List Statement)
    (ladder : Option Bool) (hm : C.Inv m.store)
    (hbody : ∀ h ∈ Statement.leavesOf body, C.Lasts m.store h) :
    C.Keeps C.Runs (fun _ _ => True) (runAll self body ladder) (runAll self' body ladder) m := by
  induction body generalizing ladder m with
  | nil => exact keeps_pure hC.runs hm trivial
  | cons s ss ih =>
    have hs : ∀ h ∈ s.leaves, C.Lasts m.store h := fun h hh =>
      hbody h (by simp [Statement.leavesOf, hh])
    refine (hself (.runStep s ladder) m hm hs).bind hC.runs fun ladder m₁ hm₁ h₁ _ => ?_
    refine ih ladder hm₁ fun h hh => hC.lasts_mono h₁ (hbody h ?_)
    simp [Statement.leavesOf, hh]

theorem keeps_holds (hC : C.Upheld host) (hself : C.Agree self self')
    {condition : List Expression} (hm : C.Inv m.store)
    (hcondition : ∀ h ∈ Expression.leavesOf condition, C.Lasts m.store h) :
    C.Keeps C.Evaluates (fun _ _ => True) (holds self condition) (holds self' condition) m := by
  refine (hself (.evaluateGroup condition) m hm hcondition).bind hC.evaluates
    fun values m₁ hm₁ _ hvalues => ?_
  split
  · next h =>
    refine hC.keeps_bind_identifier hC.evaluates hm₁ (hvalues h (by simp)) fun i _ => ?_
    exact keeps_pure hC.evaluates hm₁ trivial
  · exact hC.keeps_raise hC.evaluates hm₁ nofun nofun

/-! ## Statements -/

theorem keeps_controlWord? (hC : C.Upheld host) (e? : Option Expression) (hm : C.Inv m.store)
    (he : ∀ h, e? = some (.leaf h) → C.Lasts m.store h) :
    C.Keeps C.Evaluates (fun _ _ => True) (controlWord? e?) (controlWord? e?) m := by
  unfold controlWord?
  split
  · next h =>
    refine (hC.keeps_resolveLeaf hm (hC.lasts_fits hm (he h rfl))).bind hC.evaluates
      fun k m₁ hm₁ _ hk => ?_
    refine hC.keeps_bind_identifier hC.evaluates hm₁ hk fun i _ => ?_
    exact keeps_pure hC.evaluates hm₁ trivial
  · exact keeps_pure hC.evaluates hm trivial

/-- The leaves of a condition are leaves of the head that it stands in. -/
theorem keeps_classify (hC : C.Upheld host) {head : Expression} (hm : C.Inv m.store)
    (hhead : ∀ h ∈ head.leaves, C.Lasts m.store h) :
    C.Keeps C.Evaluates
      (fun _ found => ∀ h ∈ Expression.leavesOf found.condition, h ∈ head.leaves)
      (classify head) (classify head) m := by
  have hpart : ∀ e ∈ head.parts, ∀ h ∈ e.leaves, h ∈ head.leaves := by
    intro e he h hh
    rw [← Expression.leavesOf_parts]
    exact Expression.mem_leavesOf.mpr ⟨e, he, hh⟩
  have hsublist : ∀ es : List Expression, es ⊆ head.parts →
      ∀ h ∈ Expression.leavesOf es, h ∈ head.leaves := by
    intro es hes h hh
    obtain ⟨e, he, hh⟩ := Expression.mem_leavesOf.mp hh
    exact hpart e (hes he) h hh
  have hleaf : ∀ h, Expression.leaf h ∈ head.parts → h ∈ head.leaves :=
    fun h hmem => hpart _ hmem h (by simp [Expression.leaves])
  have hdone : ∀ {m' : Machine} (found : Head), C.Inv m'.store → found.condition ⊆ head.parts →
      C.Keeps C.Evaluates
        (fun _ found => ∀ h ∈ Expression.leavesOf found.condition, h ∈ head.leaves)
        (pure found) (pure found) m' :=
    fun found hm' hsub => keeps_pure hC.evaluates hm' (hsublist _ hsub)
  have hword := hC.keeps_controlWord? head.parts.head? hm fun h hh =>
    hhead h (hleaf h (List.mem_of_head? hh))
  refine hword.bind hC.evaluates fun op m₁ hm₁ h₁ _ => ?_
  split
  · exact hdone _ hm₁ (fun _ => List.mem_of_mem_tail)
  · exact hdone _ hm₁ (fun _ => List.mem_of_mem_tail)
  · have hnext := hC.keeps_controlWord? head.parts[1]? hm₁ fun h hh =>
      hC.lasts_mono (hC.evaluates_runs h₁) (hhead h (hleaf h (List.mem_of_getElem? hh)))
    refine hnext.bind hC.evaluates fun op' m₂ hm₂ _ _ => ?_
    split
    · exact hdone _ hm₂ (List.drop_subset 2 _)
    · exact hdone _ hm₂ (List.nil_subset _)
  · exact hdone _ hm₁ (List.nil_subset _)

theorem keeps_decide (hC : C.Upheld host) (hself : C.Agree self self')
    {condition : List Expression} (hm : C.Inv m.store)
    (hcondition : ∀ h ∈ Expression.leavesOf condition, C.Lasts m.store h) :
    C.Keeps C.Runs (fun _ _ => True) (self (.decide condition)) (self' (.decide condition)) m :=
  (hself (.decide condition) m hm hcondition).imp (fun _ _ => hC.blocks_runs) fun _ _ _ => trivial

theorem keeps_runBlock (hC : C.Upheld host) (hself : C.Agree self self') {body : List Statement}
    (hm : C.Inv m.store) (hbody : ∀ h ∈ Statement.leavesOf body, C.Lasts m.store h) :
    C.Keeps C.Runs (fun _ _ => True) (self (.runBlock body)) (self' (.runBlock body)) m :=
  (hself (.runBlock body) m hm hbody).imp (fun _ _ => hC.blocks_runs) fun _ _ _ => trivial

theorem keeps_runRung (hC : C.Upheld host) (hself : C.Agree self self')
    {condition : List Expression} {body : List Statement} (hm : C.Inv m.store)
    (hcondition : ∀ h ∈ Expression.leavesOf condition, C.Lasts m.store h)
    (hbody : ∀ h ∈ Statement.leavesOf body, C.Lasts m.store h) :
    C.Keeps C.Runs (fun _ _ => True) (runRung self condition body) (runRung self' condition body)
      m := by
  refine (hC.keeps_decide hself hm hcondition).bind hC.runs fun taken m₁ hm₁ h₁ _ => ?_
  cases taken with
  | true =>
    have hrun := hC.keeps_runBlock hself hm₁ (hC.lasts_mono_all h₁ hbody)
    exact hrun.bind hC.runs fun _ m₂ hm₂ _ _ => keeps_pure hC.runs hm₂ trivial
  | false => exact keeps_pure hC.runs hm₁ trivial

/-- The head of a statement, when it has one, is evaluated for its effect. -/
theorem keeps_evaluateHead (hC : C.Upheld host) (hself : C.Agree self self') {head : Expression}
    {β : Type} {Q : Store → β → Prop} {x y : Action β} (hm : C.Inv m.store)
    (hhead : ∀ h ∈ head.leaves, C.Lasts m.store h)
    (hx : ∀ m', C.Inv m'.store → C.Runs m.store m'.store → C.Keeps C.Runs Q x y m') :
    C.Keeps C.Runs Q
      (if !head.isEmpty then self (.evaluate head) >>= fun _ => x else x)
      (if !head.isEmpty then self' (.evaluate head) >>= fun _ => y else y) m := by
  split
  · have hevaluate := hself (.evaluate head) m hm (hC.fitsExpression_of_lasts hm hhead)
    refine (hevaluate.imp (fun _ _ => hC.evaluates_runs) fun _ _ h => h).bind hC.runs ?_
    exact fun _ m₁ hm₁ h₁ _ => hx m₁ hm₁ h₁
  · exact hx m hm (hC.runs.refl hm)

theorem keeps_runStep (hC : C.Upheld host) (hself : C.Agree self self') (steps : Nat)
    {s : Statement} (ladder : Option Bool) (hm : C.Inv m.store)
    (hs : ∀ h ∈ s.leaves, C.Lasts m.store h) :
    C.Keeps C.Runs (fun _ _ => True) (runStep self steps s ladder) (runStep self' steps s ladder)
      m := by
  have hhead : ∀ h ∈ s.head.leaves, C.Lasts m.store h := fun h hh =>
    hs h (by rw [Statement.leaves_eq]; exact List.mem_append_left _ hh)
  have hbody : ∀ h ∈ Statement.leavesOf s.body, C.Lasts m.store h := fun h hh =>
    hs h (by rw [Statement.leaves_eq]; exact List.mem_append_right _ hh)
  unfold runStep
  split
  · exact keeps_pure hC.runs hm trivial
  · have hclassify := hC.keeps_classify hm hhead
    refine (hclassify.imp (fun _ _ => hC.evaluates_runs) fun _ _ h => h).bind hC.runs
      fun found m₁ hm₁ h₁ hfound => ?_
    have hhead₁ := hC.lasts_mono_all h₁ hhead
    have hbody₁ := hC.lasts_mono_all h₁ hbody
    have hcondition : ∀ h ∈ Expression.leavesOf found.condition, C.Lasts m₁.store h :=
      fun h hh => hhead₁ h (hfound h hh)
    have hrung : ∀ condition, found.condition = condition →
        C.Keeps C.Runs (fun _ _ => True)
          (do return some (← runRung self condition s.body))
          (do return some (← runRung self' condition s.body)) m₁ := by
      rintro condition rfl
      exact (hC.keeps_runRung hself hm₁ hcondition hbody₁).bind hC.runs
        fun _ m₂ hm₂ _ _ => keeps_pure hC.runs hm₂ trivial
    have hfail : C.Keeps C.Runs (fun _ (_ : Option Bool) => True) (Action.fail .elseWithoutIf)
        (Action.fail .elseWithoutIf) m₁ := by
      exact hC.keeps_raise hC.runs hm₁ nofun nofun
    have hblock : C.Keeps C.Runs (fun _ (_ : Option Bool) => True)
        (do
          self (.runBlock s.body)
          return none)
        (do
          self' (.runBlock s.body)
          return none) m₁ :=
      (hC.keeps_runBlock hself hm₁ hbody₁).bind hC.runs
        fun _ m₂ hm₂ _ _ => keeps_pure hC.runs hm₂ trivial
    cases found with
    | ifTrue condition => exact hrung condition rfl
    | elseIf condition =>
      match ladder with
      | none => exact hfail
      | some true => exact keeps_pure hC.runs hm₁ trivial
      | some false => exact hrung condition rfl
    | otherwise =>
      match ladder with
      | none => exact hfail
      | some true => exact keeps_pure hC.runs hm₁ trivial
      | some false => exact hblock
    | whileTrue condition =>
      have hloop : C.Keeps C.Runs (fun _ _ => True)
          (Action.repeatWhile (self (.decide condition)) (self (.runBlock s.body)) steps)
          (Action.repeatWhile (self' (.decide condition)) (self' (.runBlock s.body)) steps) m₁ :=
        keeps_repeatWhile hC.runs hm₁
          (fun m' hm' h' => hC.keeps_decide hself hm' (hC.lasts_mono_all h' hcondition))
          (fun m' hm' h' => hC.keeps_runBlock hself hm' (hC.lasts_mono_all h' hbody₁)) steps
      exact hloop.bind hC.runs fun _ m₂ hm₂ _ _ => keeps_pure hC.runs hm₂ trivial
    | plain =>
      refine hC.keeps_evaluateHead hself hm₁ hhead₁ fun m₂ hm₂ h₂ => ?_
      split
      · exact (hC.keeps_runBlock hself hm₂ (hC.lasts_mono_all h₂ hbody₁)).bind hC.runs
          fun _ m₃ hm₃ _ _ => keeps_pure hC.runs hm₃ trivial
      · exact keeps_pure hC.runs hm₂ trivial

theorem keeps_run (hC : C.Upheld host) (hself : C.Agree self self') {s : Statement}
    (hm : C.Inv m.store) (hs : ∀ h ∈ s.leaves, C.Lasts m.store h) :
    C.Keeps C.Runs (fun _ _ => True) (run self s) (run self' s) m :=
  (hself (.runStep s none) m hm hs).bind hC.runs
    fun _ _ hm₁ _ _ => keeps_pure hC.runs hm₁ trivial

theorem keeps_runTopLevel (hC : C.Upheld host) (hself : C.Agree self self') {s : Statement}
    (hm : C.Inv m.store) (hs : ∀ h ∈ s.leaves, C.Lasts m.store h) :
    C.Keeps C.Runs (fun _ _ => True) (runTopLevel self s) (runTopLevel self' s) m := by
  rw [Statement.leaves_eq] at hs
  refine hC.keeps_evaluateHead hself hm (fun h hh => hs h (List.mem_append_left _ hh))
    fun m₁ hm₁ h₁ => ?_
  exact hC.keeps_runAll hself s.body none hm₁
    (hC.lasts_mono_all h₁ fun h hh => hs h (List.mem_append_right _ hh))

/-! ## Operations -/

theorem keeps_readText (hC : C.Upheld host) {op : Operation} {text : String}
    (hop : op.ReadsText text) (hpermits : C.Permits op m.store) (hreads : C.Reads text)
    (hm : C.Inv m.store) :
    C.Keeps C.Evaluates
      (fun s result => ∀ st, result = Except.ok st → ∀ h ∈ Statement.leaves st, C.Lasts s h)
      (Machine.readText text) (Machine.readText text) m :=
  keeps_onStore (hC.readText text hop hpermits hreads hm)

theorem keeps_withText (hC : C.Upheld host) {op : Operation} {text : String}
    (hop : op.ReadsText text) (hpermits : C.Permits op m.store) (hreads : C.Reads text)
    {next next' : Statement → Action Unit} (hm : C.Inv m.store)
    (hnext : ∀ st m', C.Inv m'.store → (∀ h ∈ Statement.leaves st, C.Lasts m'.store h) →
      C.Keeps C.Runs (fun _ _ => True) (next st) (next' st) m') :
    C.Keeps C.Runs (fun _ _ => True) (withText text next) (withText text next') m := by
  refine ((hC.keeps_readText hop hpermits hreads hm).imp (fun _ _ => hC.evaluates_runs)
    fun _ _ h => h).bind hC.runs fun result m₁ hm₁ _ hresult => ?_
  cases result with
  | error e => exact keeps_pure hC.runs hm₁ trivial
  | ok st =>
    exact (hnext st m₁ hm₁ (hresult st rfl)).bind hC.runs
      fun _ _ hm₂ _ _ => keeps_pure hC.runs hm₂ trivial

/-- One step of an operation keeps the contract and asks nothing but what the contract admits: it
cannot tell performers apart that agree on that. -/
theorem keeps_step (hC : C.Upheld host) (hself : C.Agree self self') (steps : Nat) {op : Operation}
    (hm : C.Inv m.store) (hadmits : C.Admits m.store op)
    (hpermits : C.Permits op m.store) :
    C.Keeps (C.effect op) (fun s => C.Gives s op) (Evaluation.step host self steps op)
      (Evaluation.step host self' steps op) m := by
  cases op with
  | evaluate e => exact hC.keeps_evaluate hself hm hadmits
  | evaluateGroup es => exact hC.keeps_evaluateGroup hself hm hadmits
  | call args isInfix => exact hC.keeps_call hself hm hadmits
  | runStep s ladder => exact hC.keeps_runStep hself steps ladder hm hadmits
  | runBlock body =>
    have hopens : C.Opens m.store := ⟨.runBlock body, trivial, hpermits⟩
    refine hC.keeps_inFrame hm hopens fun m' hm' => ?_
    obtain ⟨hinv, hlasts⟩ := hC.lasts_inFrame hm hopens hadmits m' hm'
    exact hC.keeps_runAll hself body none hinv hlasts
  | decide condition =>
    have hopens : C.Opens m.store := ⟨.decide condition, trivial, hpermits⟩
    refine hC.keeps_inFrame hm hopens fun m' hm' => ?_
    obtain ⟨hinv, hlasts⟩ := hC.lasts_inFrame hm hopens hadmits m' hm'
    exact (hC.keeps_holds hself hinv hlasts).imp (fun _ _ => hC.evaluates_runs) fun _ _ h => h
  | run s => exact hC.keeps_run hself hm hadmits
  | runTopLevel s => exact hC.keeps_runTopLevel hself hm hadmits
  | readText text =>
    have hop : (Operation.readText text).ReadsText text := rfl
    exact hC.keeps_readText hop hpermits hadmits hm
  | runText text =>
    have hop : (Operation.runText text).ReadsText text := rfl
    exact hC.keeps_withText hop hpermits hadmits hm
      fun st m' hm' hst => hself (.run st) m' hm' hst
  | runTextTopLevel text =>
    have hop : (Operation.runTextTopLevel text).ReadsText text := rfl
    exact hC.keeps_withText hop hpermits hadmits hm
      fun st m' hm' hst => hself (.runTopLevel st) m' hm' hst
  | loadModule path space args => exact hC.keeps_loadModule hself hm hpermits hadmits
  | resolve name => exact ⟨rfl, hC.asked self steps trivial hm hpermits hadmits⟩
  | declare i => exact ⟨rfl, hC.asked self steps trivial hm hpermits hadmits⟩
  | registerFunction name isInfix label => exact ⟨rfl, hC.asked self steps trivial hm hpermits hadmits⟩
  | registerConstant name i => exact ⟨rfl, hC.asked self steps trivial hm hpermits hadmits⟩
  | push i => exact ⟨rfl, hC.asked self steps trivial hm hpermits hadmits⟩
  | identifier h => exact ⟨rfl, hC.asked self steps trivial hm hpermits hadmits⟩
  | setValue h value => exact ⟨rfl, hC.asked self steps trivial hm hpermits hadmits⟩
  | place => exact ⟨rfl, hC.asked self steps trivial hm hpermits hadmits⟩

end Upheld

namespace Lawful

open Evaluation

variable {C : Contract} {host : Host} {self self' : Performer} {m : Machine}

theorem step (hC : C.Lawful host) (hself : C.Agree self self') (steps : Nat) :
    C.Agree (Evaluation.step host self steps) (Evaluation.step host self' steps) :=
  fun _ _ hm hadmits => hC.keeps_step hself steps hm hadmits (hC.permits _ hm)

/-- Every operation keeps every lawful contract, with however many steps. -/
theorem perform (hC : C.Lawful host) (steps : Nat) :
    C.Agree (perform host steps) (WordScript.perform host steps) := by
  induction steps with
  | zero => exact fun op m _ _ => ⟨rfl, trivial⟩
  | succ steps ih => exact hC.step ih steps

theorem perform_meets (hC : C.Lawful host) (steps : Nat) {op : Operation} (hm : C.Inv m.store)
    (hadmits : C.Admits m.store op) :
    C.Meets (C.effect op) (fun s => C.Gives s op) m.store (WordScript.perform host steps op m) :=
  (hC.perform steps op m hm hadmits).meets

end Lawful

end Contract

end WordScript
