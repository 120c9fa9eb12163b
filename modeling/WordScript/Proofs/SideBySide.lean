import WordScript.Program
import WordScript.Proofs.Simulation
import WordScript.Proofs.Texts

/-!
# Programs side by side

Statements, blocks and texts are run on stores that belong together the same way, although the two
sides may destroy what a block leaves behind in different orders. By induction on the number of
steps, so is every operation of a program that only has the built-in functions and does not dump.
-/

namespace WordScript

/-- Two hosts without modules: whatever is asked for cannot be opened, with the same error. -/
def Twins.NoModules (host host' : Host) : Prop :=
  ∀ path, ∃ e, host.openModule path = .error e ∧ host'.openModule path = .error e

namespace Coupling

open Evaluation Machine

variable {C : Coupling} {w w' : C.World} {G : C.World → C.World → Prop} {h k : Handle}
  {self self' : Performer} {host host' : Host} {e e' : Expression} {es es' : List Expression}
  {s s' : Statement} {body body' : List Statement}

namespace Lawful

variable (hC : C.Lawful)
include hC

theorem simulates_runs {α β : Type} {P : C.World → α → β → Prop} {x : Action α} {y : Action β}
    (h : C.Simulates w C.Grows P x y) : C.Simulates w C.Runs P x y :=
  h.imp (fun _ => hC.grows_runs) fun _ _ _ => id

/-- The leaves of statements stay leaves of programs while blocks are run. -/
theorem body_runs (hruns : C.Runs w w')
    (hbody : List.Forall₂ (Statement.Alike (C.Lasts w)) body body') :
    List.Forall₂ (Statement.Alike (C.Lasts w')) body body' :=
  hbody.imp fun _ _ hs => hs.imp fun _ _ => hC.lasts_mono hruns

/-! ## Blocks -/

/-- What runs in a frame of its own leaves stores behind that belong together, also when it fails,
in whatever orders the two sides destroy what the frame holds. -/
theorem simulates_inFrame (host host' : Host) {α : Type} {x y : Action α} (hw : C.Valid w)
    (hx : ∀ inner, C.Valid inner → (∀ h k, C.Lasts w h k → C.Lasts inner h k) →
      C.Simulates inner C.Runs C.Same x y) :
    C.Simulates w C.Runs C.Same (inFrame host x) (inFrame host' y) := by
  intro m m' hs hs' hsink
  obtain ⟨inner, hl, hr, hinner, hlasts, hblock⟩ := hC.block hw
  have hends := hx inner hinner hlasts { m with store := m.store.enter }
    { m' with store := m'.store.enter } (by rw [hl, ← hs]) (by rw [hr, ← hs']) hsink
  -- where the block has ended, both sides can leave it
  have hleave : ∀ {α : Type} {a b : α} {m₁ m₁' : Machine},
      C.Reaches inner C.Runs C.Same m₁.store m₁'.store a b →
      (m₁.store.leave (host.arrange m₁.blocksLeft)).1 = .ok () ∧
        (m₁'.store.leave (host'.arrange m₁'.blocksLeft)).1 = .ok () ∧
        C.Reaches w C.Runs C.Same (m₁.store.leave (host.arrange m₁.blocksLeft)).2
          (m₁'.store.leave (host'.arrange m₁'.blocksLeft)).2 a b := by
    rintro α a b m₁ m₁' ⟨after, hl₁, hr₁, hafter, hruns, hab⟩
    obtain ⟨hok, hok', outer, hl₂, hr₂, houter, hruns₂⟩ := hblock after hafter hruns
      (host.arrange_perm m₁.blocksLeft) (host'.arrange_perm m₁'.blocksLeft)
    rw [hl₁] at hok hl₂
    rw [hr₁] at hok' hr₂
    exact ⟨hok, hok', outer, hl₂, hr₂, houter, hruns₂, hab⟩
  simp only [inFrame]
  cases hxm : x { m with store := m.store.enter } <;>
    cases hym : y { m' with store := m'.store.enter } <;> rw [hxm, hym] at hends <;>
    first | exact hends.elim | skip
  · obtain ⟨hok, hok', hreaches⟩ := hleave hends.2
    simp only [hok, hok']
    exact ⟨hends.1, hreaches⟩
  · obtain ⟨he, hsink₁, hends⟩ := hends
    obtain ⟨-, -, hreaches⟩ := hleave (a := ()) (b := ()) (hends.imp (fun _ => id) fun _ _ => rfl)
    exact ⟨he, hsink₁, hreaches.imp (fun _ => id) fun _ _ => trivial⟩
  · trivial

theorem simulates_runRungs (hself : C.Agree self self') (ladder : Option Bool) (hw : C.Valid w)
    (hbody : List.Forall₂ (Statement.Alike (C.Lasts w)) body body') :
    C.Simulates w C.Runs C.Same (runRungs self body ladder) (runRungs self' body' ladder) := by
  induction body generalizing w body' ladder with
  | nil =>
    cases hbody
    exact simulates_pure hC.runs hw rfl
  | cons s ss ih =>
    cases hbody with
    | cons hs hss =>
      refine (hself.runStep ladder hw hs).bind hC.runs fun w₁ ladder _ hw₁ h₁ heq => ?_
      obtain rfl : ladder = _ := heq
      exact ih ladder hw₁ (hC.body_runs h₁ hss)

theorem simulates_runAll (hself : C.Agree self self') (ladder : Option Bool) (hw : C.Valid w)
    (hbody : List.Forall₂ (Statement.Alike (C.Lasts w)) body body') :
    C.Simulates w C.Runs C.Same (runAll self body ladder) (runAll self' body' ladder) := by
  rw [runAll_eq_runRungs, runAll_eq_runRungs]
  exact (hC.simulates_runRungs hself ladder hw hbody).bind hC.runs
    fun _ _ _ hw₁ _ _ => simulates_pure hC.runs hw₁ rfl

theorem simulates_holds (hself : C.Agree self self') (hw : C.Valid w)
    (hes : List.Forall₂ (Expression.Alike (C.Lasts w)) es es') :
    C.Simulates w C.Grows C.Same (holds self es) (holds self' es') := by
  refine (hself.evaluateGroup hw hes).bind hC.grows fun w₁ values values' hw₁ _ hvalues => ?_
  have hcount : C.Simulates w₁ C.Grows C.Same (Action.fail (.conditionCount values.length))
      (Action.fail (.conditionCount values'.length) : Action Bool) :=
    simulates_fail hC.grows hw₁ (by rw [List.Forall₂.length_eq hvalues])
  cases hvalues with
  | nil => exact hcount
  | cons hh hrest =>
    cases hrest with
    | cons _ _ => exact hcount
    | nil =>
      exact simulates_bind_identifier hC hw₁ (hC.given_fits hh) (fun _ _ => rfl) fun i _ _ =>
        simulates_pure hC.grows hw₁ rfl

/-! ## Statements -/

theorem simulates_controlWord? {e? e?' : Option Expression} (hw : C.Valid w)
    (hrel : Option.Rel (Expression.Alike (C.Lasts w)) e? e?') :
    C.Simulates w C.Grows C.Same (controlWord? e?) (controlWord? e?') := by
  rcases optionRel_cases hrel with ⟨rfl, rfl⟩ | ⟨e, e', rfl, rfl, he⟩
  · exact simulates_pure hC.grows hw rfl
  · cases he with
    | leaf hh =>
      refine (hC.simulates_resolveLeaf hw (hC.lasts_fits hh)).bind hC.grows
        fun w₁ _ _ hw₁ _ hk => ?_
      exact simulates_bind_identifier hC hw₁ (hC.given_fits hk) (fun _ _ => rfl) fun i _ _ =>
        simulates_pure hC.grows hw₁ rfl
    | group _ => exact simulates_pure hC.grows hw rfl

/-- Heads of the same kind, with conditions that may be evaluated. -/
inductive Heads (C : Coupling) (w : C.World) : Head → Head → Prop where
  | ifTrue {es es' : List Expression} (hes : List.Forall₂ (Expression.Alike (C.Lasts w)) es es') :
      Heads C w (.ifTrue es) (.ifTrue es')
  | elseIf {es es' : List Expression} (hes : List.Forall₂ (Expression.Alike (C.Lasts w)) es es') :
      Heads C w (.elseIf es) (.elseIf es')
  | otherwise : Heads C w .otherwise .otherwise
  | whileTrue {es es' : List Expression}
      (hes : List.Forall₂ (Expression.Alike (C.Lasts w)) es es') :
      Heads C w (.whileTrue es) (.whileTrue es')
  | plain : Heads C w .plain .plain

theorem simulates_classify (hw : C.Valid w) (he : e.Alike (C.Lasts w) e') :
    C.Simulates w C.Grows (Heads C) (classify e) (classify e') := by
  have hparts := he.parts
  have hfirst : Option.Rel (Expression.Alike (C.Lasts w)) e.parts.head? e'.parts.head? := by
    rw [List.head?_eq_getElem?, List.head?_eq_getElem?]
    exact forall₂_getElem? hparts 0
  refine (hC.simulates_controlWord? hw hfirst).bind hC.grows fun w₁ op _ hw₁ h₁ heq => ?_
  obtain rfl : op = _ := heq
  have hparts₁ := hC.lasts_grows h₁ hparts
  have htail : List.Forall₂ (Expression.Alike (C.Lasts w₁)) e.parts.tail e'.parts.tail := by
    rw [← List.drop_one, ← List.drop_one]
    exact List.forall₂_drop 1 hparts₁
  split
  · exact simulates_pure hC.grows hw₁ (.ifTrue htail)
  · exact simulates_pure hC.grows hw₁ (.whileTrue htail)
  · refine (hC.simulates_controlWord? hw₁ (forall₂_getElem? hparts₁ 1)).bind hC.grows
      fun w₂ op' _ hw₂ h₂ heq => ?_
    obtain rfl : op' = _ := heq
    split
    · exact simulates_pure hC.grows hw₂
        (.elseIf (List.forall₂_drop 2 (hC.lasts_grows h₂ hparts₁)))
    · exact simulates_pure hC.grows hw₂ .otherwise
  · exact simulates_pure hC.grows hw₁ .plain

theorem simulates_runRung (hself : C.Agree self self') (hw : C.Valid w)
    (hes : List.Forall₂ (Expression.Alike (C.Lasts w)) es es')
    (hbody : List.Forall₂ (Statement.Alike (C.Lasts w)) body body') :
    C.Simulates w C.Runs C.Same (runRung self es body) (runRung self' es' body') := by
  refine (hself.decide hw hes).bind hC.runs fun w₁ taken _ hw₁ h₁ heq => ?_
  obtain rfl : taken = _ := heq
  cases taken with
  | true =>
    exact (hself.runBlock hw₁ (hC.body_runs h₁ hbody)).bind hC.runs
      fun _ _ _ hw₂ _ _ => simulates_pure hC.runs hw₂ rfl
  | false => exact simulates_pure hC.runs hw₁ rfl

/-- A rung of a ladder, which leaves the ladder open. -/
theorem simulates_rung (hself : C.Agree self self') (hw : C.Valid w)
    (hes : List.Forall₂ (Expression.Alike (C.Lasts w)) es es')
    (hbody : List.Forall₂ (Statement.Alike (C.Lasts w)) body body') :
    C.Simulates w C.Runs C.Same (do return some (← runRung self es body))
      (do return some (← runRung self' es' body')) := by
  refine (hC.simulates_runRung hself hw hes hbody).bind hC.runs fun _ taken _ hw₁ _ heq => ?_
  obtain rfl : taken = _ := heq
  exact simulates_pure hC.runs hw₁ rfl

/-- A block that is not a rung, or the last one, which ends a ladder. -/
theorem simulates_lastBlock (hself : C.Agree self self') (hw : C.Valid w)
    (hbody : List.Forall₂ (Statement.Alike (C.Lasts w)) body body') :
    C.Simulates w C.Runs C.Same
      (do
        self (.runBlock body)
        return (none : Option Bool))
      (do
        self' (.runBlock body')
        return none) :=
  (hself.runBlock hw hbody).bind hC.runs fun _ _ _ hw₁ _ _ => simulates_pure hC.runs hw₁ rfl

/-- A loop, each round of which may leave other stores behind. -/
theorem simulates_loop (hself : C.Agree self self') (steps : Nat) (hw : C.Valid w)
    (hes : List.Forall₂ (Expression.Alike (C.Lasts w)) es es')
    (hbody : List.Forall₂ (Statement.Alike (C.Lasts w)) body body') :
    C.Simulates w C.Runs (fun _ _ _ => True)
      (Action.repeatWhile (self (.decide es)) (self (.runBlock body)) steps)
      (Action.repeatWhile (self' (.decide es')) (self' (.runBlock body')) steps) :=
  simulates_repeatWhile hC.runs hw
    (fun _ hw' h' => hself.decide hw' (hC.lasts_runs h' hes))
    (fun _ hw' h' => (hself.runBlock hw' (hC.body_runs h' hbody)).imp (fun _ => id)
      fun _ _ _ _ => trivial) steps

/-- The head of a statement, when it has one, is evaluated for its effect. -/
theorem simulates_evaluateHead (hself : C.Agree self self') {α β : Type}
    {P : C.World → α → β → Prop} {x : Action α} {y : Action β} (hw : C.Valid w)
    (he : e.Alike (C.Lasts w) e')
    (hx : ∀ w', C.Valid w' → C.Runs w w' → C.Simulates w' C.Runs P x y) :
    C.Simulates w C.Runs P
      (if !e.isEmpty then self (.evaluate e) >>= fun _ => x else x)
      (if !e'.isEmpty then self' (.evaluate e') >>= fun _ => y else y) := by
  rw [← he.isEmpty]
  split
  · exact (hC.simulates_runs (hself.evaluate hw (hC.operand_of_alike he))).bind hC.runs
      fun w₁ _ _ hw₁ h₁ _ => hx w₁ hw₁ h₁
  · exact hx w hw (hC.runs.refl w)

theorem simulates_runStep (hself : C.Agree self self') (steps : Nat) (ladder : Option Bool)
    (hw : C.Valid w) (hs : s.Alike (C.Lasts w) s') :
    C.Simulates w C.Runs C.Same (runStep self steps s ladder) (runStep self' steps s' ladder) := by
  have hempty : (s'.head.isEmpty && !s'.isBlock) = (s.head.isEmpty && !s.isBlock) := by
    rw [hs.head.isEmpty, hs.isBlock]
  unfold runStep
  rw [hempty]
  split
  · exact simulates_pure hC.runs hw rfl
  refine (hC.simulates_runs (hC.simulates_classify hw hs.head)).bind hC.runs
    fun w₁ found found' hw₁ h₁ hfound => ?_
  have hbody₁ := hC.body_runs h₁ hs.body
  cases hfound with
  | ifTrue hes => exact hC.simulates_rung hself hw₁ hes hbody₁
  | elseIf hes =>
    match ladder with
    | none => exact simulates_fail hC.runs hw₁ rfl
    | some true => exact simulates_pure hC.runs hw₁ rfl
    | some false => exact hC.simulates_rung hself hw₁ hes hbody₁
  | otherwise =>
    match ladder with
    | none => exact simulates_fail hC.runs hw₁ rfl
    | some true => exact simulates_pure hC.runs hw₁ rfl
    | some false => exact hC.simulates_lastBlock hself hw₁ hbody₁
  | whileTrue hes =>
    exact (hC.simulates_loop hself steps hw₁ hes hbody₁).bind hC.runs
      fun _ _ _ hw₂ _ _ => simulates_pure hC.runs hw₂ rfl
  | plain =>
    have hhead := hs.head.imp fun _ _ => hC.lasts_mono h₁
    refine hC.simulates_evaluateHead hself hw₁ hhead fun w₂ hw₂ h₂ => ?_
    rw [← hs.isBlock]
    split
    · exact hC.simulates_lastBlock hself hw₂ (hC.body_runs h₂ hbody₁)
    · exact simulates_pure hC.runs hw₂ rfl

theorem simulates_run (hself : C.Agree self self') (hw : C.Valid w) (hs : s.Alike (C.Lasts w) s') :
    C.Simulates w C.Runs C.Same (run self s) (run self' s') :=
  (hself.runStep none hw hs).bind hC.runs
    fun _ _ _ hw₁ _ _ => simulates_pure hC.runs hw₁ rfl

theorem simulates_runTopLevel (hself : C.Agree self self') (hw : C.Valid w)
    (hs : s.Alike (C.Lasts w) s') :
    C.Simulates w C.Runs C.Same (runTopLevel self s) (runTopLevel self' s') :=
  hC.simulates_evaluateHead hself hw hs.head fun _ hw₁ h₁ =>
    hC.simulates_runAll hself none hw₁ (hC.body_runs h₁ hs.body)

/-! ## Texts -/

/-- A text is read the same way; what is done with the statement is too. -/
theorem simulates_withText {text : String} (htext : C.Reads text)
    {next next' : Statement → Action Unit} (hw : C.Valid w)
    (hnext : ∀ {w' : C.World} {s s' : Statement}, C.Valid w' → C.Runs w w' →
      s.Alike (C.Lasts w') s' → C.Simulates w' C.Runs C.Same (next s) (next' s')) :
    C.Simulates w C.Runs C.Same (withText text next) (withText text next') := by
  have hread : C.Simulates w C.Grows _ (Machine.readText text) (Machine.readText text) :=
    simulates_onStore (hC.readText hw htext)
  refine (hC.simulates_runs hread).bind hC.runs fun w₁ result result' hw₁ h₁ hresult => ?_
  rcases hresult with ⟨e, rfl, rfl⟩ | ⟨s, s', rfl, rfl, hs⟩
  · exact simulates_pure hC.runs hw₁ rfl
  · exact (hnext hw₁ h₁ hs).bind hC.runs
      fun _ _ _ hw₂ _ _ => simulates_pure hC.runs hw₂ rfl

/-! ## Operations -/

theorem simulates_loadModule (hhosts : Twins.NoModules host host') (self self' : Performer)
    (path space : String) (args args' : List Expression) (hw : C.Valid w) :
    C.Simulates w C.Grows C.Same (loadModule host self path space args)
      (loadModule host' self' path space args') := by
  obtain ⟨e, he, he'⟩ := hhosts path
  simp only [loadModule, he, he']
  exact simulates_fail hC.grows hw rfl

theorem agree_step (hhosts : C.Loads → Twins.NoModules host host') (hself : C.Agree self self')
    (steps : Nat) :
    C.Agree (Evaluation.step host self steps) (Evaluation.step host' self' steps) where
  evaluate := hC.simulates_evaluate hself
  evaluateGroup := hC.simulates_evaluateGroup hself
  call := fun isInfix => hC.simulates_call host host' hself isInfix
  loadModule := fun path space args args' hw hloads =>
    hC.simulates_loadModule (hhosts hloads) self self' path space args args' hw
  runStep := hC.simulates_runStep hself steps
  runBlock := fun hw hbody =>
    hC.simulates_inFrame host host' hw fun _ hinner hlasts =>
      hC.simulates_runAll hself none hinner (hbody.imp fun _ _ hs => hs.imp hlasts)
  decide := fun hw hes =>
    hC.simulates_inFrame host host' hw fun _ hinner hlasts =>
      hC.simulates_runs (hC.simulates_holds hself hinner (hes.imp fun _ _ he => he.imp hlasts))
  run := hC.simulates_run hself
  runTopLevel := hC.simulates_runTopLevel hself

/-- With however many steps, both hosts carry out the operations of a program the same way. -/
theorem agree_perform (hhosts : C.Loads → Twins.NoModules host host') (steps : Nat) :
    C.Agree (perform host steps) (perform host' steps) := by
  induction steps with
  | zero =>
    -- without a step, both sides are cut off at once
    constructor
    all_goals
      intros
      exact fun _ _ _ _ _ => trivial
  | succ steps ih => exact hC.agree_step hhosts ih steps

theorem simulates_runText (hhosts : C.Loads → Twins.NoModules host host') (steps : Nat)
    {text : String} (htext : C.Reads text) (hw : C.Valid w) :
    C.Simulates w C.Runs C.Same (perform host steps (.runText text))
      (perform host' steps (.runText text)) := by
  cases steps with
  | zero => exact fun _ _ _ _ _ => trivial
  | succ steps =>
    exact hC.simulates_withText htext hw fun hw' _ => (hC.agree_perform hhosts steps).run hw'

theorem simulates_runTextTopLevel (hhosts : C.Loads → Twins.NoModules host host') (steps : Nat)
    {text : String} (htext : C.Reads text) (hw : C.Valid w) :
    C.Simulates w C.Runs C.Same (perform host steps (.runTextTopLevel text))
      (perform host' steps (.runTextTopLevel text)) := by
  cases steps with
  | zero => exact fun _ _ _ _ _ => trivial
  | succ steps =>
    have hperform := hC.agree_perform hhosts steps
    exact hC.simulates_withText htext hw fun hw' _ => hperform.runTopLevel hw'

end Lawful

end Coupling

end WordScript
