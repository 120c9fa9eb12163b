import WordScript.Proofs.Coupling

/-!
# Two evaluations side by side

One lemma for each function of the evaluation that works on values: carried out on stores that
belong together, it ends the same way on both.
-/

namespace WordScript

namespace Coupling

open Evaluation Machine

variable {C : Coupling} {w w' : C.World} {G : C.World → C.World → Prop} {h k : Handle}
  {self self' : Performer} {e e' : Expression} {es es' : List Expression}

/-! ## What is evaluated -/

/-- Expressions that may be evaluated: leaves that are related, or groups that are still to be
evaluated. -/
inductive Operand (F : C.World → Handle → Handle → Prop) (w : C.World) :
    Expression → Expression → Prop where
  | leaf {h k : Handle} (hh : F w h k) : Operand F w (.leaf h) (.leaf k)
  | group {es es' : List Expression} (hes : List.Forall₂ (Expression.Alike (C.Lasts w)) es es') :
      Operand F w (.group es) (.group es')

/-- Two performers carry out operations on related values and programs the same way. -/
structure Agree (C : Coupling) (p p' : Performer) : Prop where
  evaluate : ∀ {w : C.World} {e e' : Expression}, C.Valid w → Operand C.Fits w e e' →
    C.Simulates w C.Grows C.Values (p (.evaluate e)) (p' (.evaluate e'))
  evaluateGroup : ∀ {w : C.World} {es es' : List Expression}, C.Valid w →
    List.Forall₂ (Expression.Alike (C.Lasts w)) es es' →
    C.Simulates w C.Grows C.Values (p (.evaluateGroup es)) (p' (.evaluateGroup es'))
  call : ∀ {w : C.World} {h k : Handle} {i : Identifier} {args args' : List Expression}
    (isInfix : Bool), C.Valid w → C.Given w h k → (C.left w).arena.get? h = some i →
    i.isFunction = true → List.Forall₂ (Operand C.Fits w) args args' →
    C.Simulates w C.Grows C.Values (p (.call (.leaf h :: args) isInfix))
      (p' (.call (.leaf k :: args') isInfix))
  loadModule : ∀ {w : C.World} (path space : String) (args args' : List Expression), C.Valid w →
    C.Loads → C.Simulates w C.Grows C.Same (p (.loadModule path space args))
      (p' (.loadModule path space args'))
  runStep : ∀ {w : C.World} {s s' : Statement} (ladder : Option Bool), C.Valid w →
    s.Alike (C.Lasts w) s' →
    C.Simulates w C.Runs C.Same (p (.runStep s ladder)) (p' (.runStep s' ladder))
  runBlock : ∀ {w : C.World} {body body' : List Statement}, C.Valid w →
    List.Forall₂ (Statement.Alike (C.Lasts w)) body body' →
    C.Simulates w C.Runs C.Same (p (.runBlock body)) (p' (.runBlock body'))
  decide : ∀ {w : C.World} {es es' : List Expression}, C.Valid w →
    List.Forall₂ (Expression.Alike (C.Lasts w)) es es' →
    C.Simulates w C.Runs C.Same (p (.decide es)) (p' (.decide es'))
  run : ∀ {w : C.World} {s s' : Statement}, C.Valid w → s.Alike (C.Lasts w) s' →
    C.Simulates w C.Runs C.Same (p (.run s)) (p' (.run s'))
  runTopLevel : ∀ {w : C.World} {s s' : Statement}, C.Valid w → s.Alike (C.Lasts w) s' →
    C.Simulates w C.Runs C.Same (p (.runTopLevel s)) (p' (.runTopLevel s'))

namespace Lawful

variable (hC : C.Lawful)
include hC

theorem persists_fits : C.Persists C.Fits := fun _ _ _ _ => hC.fits_mono

theorem persists_given : C.Persists C.Given := fun _ _ _ _ => hC.given_mono

theorem lasts_runs (hruns : C.Runs w w')
    (hes : List.Forall₂ (Expression.Alike (C.Lasts w)) es es') :
    List.Forall₂ (Expression.Alike (C.Lasts w')) es es' :=
  hes.imp fun _ _ he => he.imp fun _ _ => hC.lasts_mono hruns

theorem lasts_grows (hgrows : C.Grows w w')
    (hes : List.Forall₂ (Expression.Alike (C.Lasts w)) es es') :
    List.Forall₂ (Expression.Alike (C.Lasts w')) es es' :=
  hC.lasts_runs (hC.grows_runs hgrows) hes

theorem values_grows (hgrows : C.Grows w w') {handles handles' : List Handle}
    (hhandles : C.Values w handles handles') : C.Values w' handles handles' :=
  hhandles.imp fun _ _ => hC.given_mono hgrows

theorem persists_operand {F : C.World → Handle → Handle → Prop} (hF : C.Persists F) :
    C.Persists (Operand F) := by
  intro w w' e e' hgrows he
  cases he with
  | leaf hh => exact .leaf (hF _ _ _ _ hgrows hh)
  | group hes => exact .group (hC.lasts_grows hgrows hes)

theorem operands_grows (hgrows : C.Grows w w') (hes : List.Forall₂ (Operand C.Fits w) es es') :
    List.Forall₂ (Operand C.Fits w') es es' :=
  hes.imp fun _ _ => hC.persists_operand hC.persists_fits _ _ _ _ hgrows

theorem operand_of_alike (he : e.Alike (C.Lasts w) e') : Operand C.Fits w e e' := by
  cases he with
  | leaf hh => exact .leaf (hC.lasts_fits hh)
  | group hes => exact .group hes

/-- What is waiting for a function may be its operand. -/
theorem operand_of_given (he : Operand C.Given w e e') : Operand C.Fits w e e' := by
  cases he with
  | leaf hh => exact .leaf (hC.given_fits hh)
  | group hes => exact .group hes

/-- One value is given. -/
theorem simulates_value {x y : Action Handle} (hx : C.Simulates w C.Grows C.Given x y) :
    C.Simulates w C.Grows C.Values (do return [← x]) (do return [← y]) :=
  hx.bind hC.grows fun _ _ _ hw _ hh => simulates_pure hC.grows hw (.cons hh .nil)

/-! ## Groups -/

theorem simulates_resolveLeaf (hw : C.Valid w) (hh : C.Fits w h k) :
    C.Simulates w C.Grows C.Given (resolveLeaf h) (resolveLeaf k) := by
  refine simulates_bind_identifier hC hw hh (fun _ _ => rfl) fun i hi hgiven => ?_
  split
  · next hundefined => exact simulates_tryStore hC.grows hw (hC.resolve hw hh hi hundefined)
  · next hundefined => exact simulates_pure hC.grows hw (hgiven (by simpa using hundefined))

theorem simulates_evaluate (hself : C.Agree self self') (hw : C.Valid w)
    (he : Operand C.Fits w e e') :
    C.Simulates w C.Grows C.Values (evaluate self e) (evaluate self' e') := by
  cases he with
  | leaf hh => exact hC.simulates_value (hC.simulates_resolveLeaf hw hh)
  | group hes => exact hself.evaluateGroup hw hes

omit hC in
theorem operands_of_values {handles handles' : List Handle} (h : C.Values w handles handles') :
    List.Forall₂ (Operand C.Given w) (handles.map .leaf) (handles'.map .leaf) := by
  simp only [List.forall₂_map_left_iff, List.forall₂_map_right_iff]
  exact h.imp fun _ _ => .leaf

theorem simulates_scan (hself : C.Agree self self')
    {before before' waiting waiting' : List Expression} (hw : C.Valid w)
    (hbefore : List.Forall₂ (Expression.Alike (C.Lasts w)) before before')
    (hwaiting : List.Forall₂ (Operand C.Given w) waiting waiting') :
    C.Simulates w C.Grows (fun w => List.Forall₂ (Operand C.Given w)) (scan self before waiting)
      (scan self' before' waiting') := by
  induction hn : before.length using Nat.strongRecOn
    generalizing w before before' waiting waiting' with
  | ind n ih =>
  -- a call takes the place of its operands, with fewer members left to go through
  have afterCall : ∀ {w : C.World} {i : Identifier} {rest rest' args args' : List Expression}
      {h k : Handle} (isInfix : Bool), rest.length < n → C.Valid w →
      List.Forall₂ (Expression.Alike (C.Lasts w)) rest rest' → C.Given w h k →
      (C.left w).arena.get? h = some i → i.isFunction = true →
      List.Forall₂ (Operand C.Fits w) args args' →
      C.Simulates w C.Grows (fun w => List.Forall₂ (Operand C.Given w))
        (self (.call (.leaf h :: args) isInfix) >>= fun results =>
          scan self rest (results.map .leaf))
        (self' (.call (.leaf k :: args') isInfix) >>= fun results =>
          scan self' rest' (results.map .leaf)) := by
    intro w i rest rest' args args' h k isInfix hlength hw hrest hh hi hfunction hargs
    refine (hself.call isInfix hw hh hi hfunction hargs).bind hC.grows
      fun w₁ results results' hw₁ h₁ hresults => ?_
    exact ih _ hlength hw₁ (hC.lasts_grows h₁ hrest) (operands_of_values hresults) rfl
  cases hbefore with
  | nil =>
    rw [scan, scan]
    exact simulates_pure hC.grows hw hwaiting
  | @cons member member' before before' hmember hbefore =>
    cases hmember with
    | group hes =>
      rw [scan, scan]
      exact ih before.length (by simp [← hn]) hw hbefore (.cons (.group hes) hwaiting) rfl
    | leaf hh =>
      rw [scan, scan]
      refine (hC.simulates_resolveLeaf hw (hC.lasts_fits hh)).bind hC.grows
        fun w₁ callee callee' hw₁ h₁ hcallee => ?_
      have hbefore₁ := hC.lasts_grows h₁ hbefore
      have hwaiting₁ := hwaiting.imp fun _ _ =>
        hC.persists_operand hC.persists_given _ _ _ _ h₁
      have hoperands := hwaiting₁.imp fun _ _ => hC.operand_of_given
      refine simulates_bind_identifier hC hw₁ (hC.given_fits hcallee) (fun _ _ => rfl)
        fun i hi _ => ?_
      split
      · exact ih before.length (by simp [← hn]) hw₁ hbefore₁ (.cons (.leaf hcallee) hwaiting₁) rfl
      · next hfunction =>
        have hfunction : i.isFunction = true := by simpa using hfunction
        have hplain := afterCall false (by simp [← hn]) hw₁ hbefore₁ hcallee hi hfunction hoperands
        -- only an infix function with one value waiting takes its left neighbour as well
        cases i.isInfix with
        | false => exact hplain
        | true =>
          cases hoperands with
          | nil => exact hplain
          | cons hright hrest =>
            cases hrest with
            | cons _ _ => exact hplain
            | nil =>
              cases hbefore₁ with
              | nil => exact hplain
              | cons hleft hbefore₁ =>
                exact afterCall true (by grind) hw₁ hbefore₁ hcallee hi hfunction
                  (.cons (hC.operand_of_alike hleft) (.cons hright .nil))

theorem simulates_collect (hself : C.Agree self self') (hw : C.Valid w)
    (he : Operand C.Given w e e') :
    C.Simulates w C.Grows C.Values (collect self e) (collect self' e') := by
  cases he with
  | leaf hh => exact simulates_pure hC.grows hw (.cons hh .nil)
  | group hes => exact hself.evaluate hw (.group hes)

theorem simulates_evaluateGroup (hself : C.Agree self self') (hw : C.Valid w)
    (hes : List.Forall₂ (Expression.Alike (C.Lasts w)) es es') :
    C.Simulates w C.Grows C.Values (evaluateGroup self es) (evaluateGroup self' es') := by
  have hnote := simulates_change hC.grows hw
    (f := fun m => { m with journal := m.journal.map (es :: ·) })
    (g := fun m => { m with journal := m.journal.map (es' :: ·) })
    (fun _ => ⟨rfl, rfl⟩) fun _ => ⟨rfl, rfl⟩
  refine hnote.bind hC.grows fun w₁ _ _ hw₁ h₁ _ => ?_
  have hscan := hC.simulates_scan hself hw₁ (List.rel_reverse (hC.lasts_grows h₁ hes)) .nil
  refine hscan.bind hC.grows fun w₂ waiting waiting' hw₂ _ hwaiting => ?_
  exact simulates_concatMap hC (hC.persists_operand hC.persists_given) hC.persists_given
    (fun _ _ _ hw he => hC.simulates_collect hself hw he) hw₂ hwaiting

theorem simulates_evaluateEach (hself : C.Agree self self') (hw : C.Valid w)
    (hes : List.Forall₂ (Operand C.Fits w) es es') :
    C.Simulates w C.Grows C.Values (evaluateEach self es) (evaluateEach self' es') :=
  simulates_concatMap hC (hC.persists_operand hC.persists_fits) hC.persists_given
    (fun _ _ _ hw he => hself.evaluate hw he) hw hes

/-! ## Declarations -/

theorem simulates_declareAs (type : String) (hw : C.Valid w) (hh : C.Given w h k) :
    C.Simulates w C.Grows C.Given (declareAs type h) (declareAs type k) := by
  refine simulates_bind_identifier hC hw (hC.given_fits hh) (fun _ _ => rfl) fun i hi _ => ?_
  split
  · next hname => exact simulates_tryStore hC.grows hw (hC.declare hw hh hi hname type)
  · exact simulates_fail hC.grows hw rfl

theorem simulates_declareEach (type : String) (hw : C.Valid w) {handles handles' : List Handle}
    (hhandles : C.Values w handles handles') :
    C.Simulates w C.Grows C.Values
      (Action.concatMap (fun h => do return [← declareAs type h]) handles)
      (Action.concatMap (fun h => do return [← declareAs type h]) handles') :=
  simulates_concatMap hC hC.persists_given hC.persists_given
    (fun _ _ _ hw hh => hC.simulates_value (hC.simulates_declareAs type hw hh)) hw hhandles

theorem simulates_declareBetween (hself : C.Agree self self') (hw : C.Valid w)
    (hes : List.Forall₂ (Operand C.Fits w) es es') :
    C.Simulates w C.Grows C.Values (declareBetween self es) (declareBetween self' es') := by
  unfold declareBetween
  rcases optionRel_cases (forall₂_getLast? hes) with ⟨hl, hl'⟩ | ⟨last, last', hl, hl', hlast⟩ <;>
    simp only [hl, hl']
  · exact simulates_pure hC.grows hw .nil
  · refine (hself.evaluate hw hlast).bind hC.grows fun w₁ values values' hw₁ h₁ hvalues => ?_
    have harity : C.Simulates w₁ C.Grows C.Values (Action.fail (.typeArity values.length))
        (Action.fail (.typeArity values'.length)) :=
      simulates_fail hC.grows hw₁ (by rw [List.Forall₂.length_eq hvalues])
    cases hvalues with
    | nil => exact harity
    | cons hright hrest =>
      cases hrest with
      | cons _ _ => exact harity
      | nil =>
        refine simulates_bind_identifier hC hw₁ (hC.given_fits hright) (fun _ _ => rfl)
          fun type _ _ => ?_
        split
        · have htargets := forall₂_dropLast (hC.operands_grows h₁ hes)
          exact (hC.simulates_evaluateEach hself hw₁ htargets).bind hC.grows
            fun _ _ _ hw₂ _ htargets => hC.simulates_declareEach type.surface hw₂ htargets
        · exact simulates_fail hC.grows hw₁ rfl

/-- The handles are values, and the frames that the two sides are in have these depths. -/
def GivenAt (C : Coupling) (depth depth' : Nat) (w : C.World) (h k : Handle) : Prop :=
  C.Given w h k ∧ (C.left w).depth = depth ∧ (C.right w).depth = depth'

theorem persists_givenAt (depth depth' : Nat) : C.Persists (GivenAt C depth depth') :=
  fun _ _ _ _ hgrows hh => ⟨hC.given_mono hgrows hh.1, (hC.depth hgrows).1.trans hh.2.1,
    (hC.depth hgrows).2.trans hh.2.2⟩

/-- Each side looks for a variable of the frame that it is in. -/
theorem simulates_typeOfFirst? {depth depth' : Nat} (hw : C.Valid w)
    {handles handles' : List Handle}
    (hhandles : List.Forall₂ (GivenAt C depth depth' w) handles handles') :
    C.Simulates w C.Grows C.Same (typeOfFirst? depth handles) (typeOfFirst? depth' handles') := by
  induction hhandles with
  | nil => exact simulates_pure hC.grows hw rfl
  | @cons h k hs ks hh _ ih =>
    exact simulates_ite_variable hC hw hh.1 hh.2.1 hh.2.2 (fun _ _ => rfl) (fun _ _ => rfl)
      (fun _ => simulates_pure hC.grows hw rfl) fun _ => ih

theorem simulates_declareInFront (hself : C.Agree self self') (hw : C.Valid w)
    (hes : List.Forall₂ (Operand C.Fits w) es es') :
    C.Simulates w C.Grows C.Values (declareInFront self es) (declareInFront self' es') := by
  refine (hC.simulates_evaluateEach hself hw hes).bind hC.grows
    fun w₁ handles handles' hw₁ _ hhandles => ?_
  refine (simulates_place hC.grows hw₁).bind hC.grows fun w₂ here here' hw₂ h₂ hplaces => ?_
  obtain ⟨rfl, rfl⟩ := hplaces
  have hhandles₂ : List.Forall₂ (GivenAt C (C.left w₂).depth (C.right w₂).depth w₂)
      handles handles' := hhandles.imp fun _ _ hh => ⟨hC.given_mono h₂ hh, rfl, rfl⟩
  refine (hC.simulates_typeOfFirst? hw₂ (List.rel_reverse hhandles₂)).bind hC.grows
    fun w₃ type? _ hw₃ h₃ heq => ?_
  obtain rfl : type? = _ := heq
  have hpersists := hC.persists_givenAt (C.left w₂).depth (C.right w₂).depth
  refine simulates_concatMap hC hpersists hC.persists_given (fun w h k hw hh => ?_) hw₃
    (hhandles₂.imp fun _ _ => hpersists _ _ _ _ h₃)
  refine simulates_ite_variable hC hw hh.1 hh.2.1 hh.2.2 (fun _ _ => rfl) (fun _ _ => rfl)
    (fun _ => simulates_pure hC.grows hw (.cons hh.1 .nil)) fun _ => ?_
  cases type? with
  | some type => exact hC.simulates_value (hC.simulates_declareAs type hw hh.1)
  | none => exact simulates_fail hC.grows hw rfl

/-! ## Built-in functions -/

/-- Both sides of a pair of values. -/
def GivenPair (C : Coupling) (w : C.World) (p p' : Handle × Handle) : Prop :=
  C.Given w p.1 p'.1 ∧ C.Given w p.2 p'.2

theorem persists_givenPair : C.Persists (GivenPair C) :=
  fun _ _ _ _ hgrows hp => ⟨hC.given_mono hgrows hp.1, hC.given_mono hgrows hp.2⟩

omit hC in
theorem forall₂_zip {left left' right right' : List Handle} (hleft : C.Values w left left')
    (hright : C.Values w right right') :
    List.Forall₂ (GivenPair C w) (left.zip right) (left'.zip right') := by
  induction hleft generalizing right right' with
  | nil => exact .nil
  | cons hl _ ih =>
    cases hright with
    | nil => exact .nil
    | cons hr hright => exact .cons ⟨hl, hr⟩ (ih hright)

theorem simulates_pairs (hself : C.Agree self self') (hw : C.Valid w)
    (hes : List.Forall₂ (Operand C.Fits w) es es') :
    C.Simulates w C.Grows (fun w => List.Forall₂ (GivenPair C w)) (Evaluation.pairs self es)
      (Evaluation.pairs self' es') := by
  refine (hC.simulates_evaluateEach hself hw (List.forall₂_take 1 hes)).bind hC.grows
    fun w₁ left left' hw₁ h₁ hleft => ?_
  have hrest := List.forall₂_drop 1 (hC.operands_grows h₁ hes)
  refine (hC.simulates_evaluateEach hself hw₁ hrest).bind hC.grows
    fun w₂ right right' hw₂ h₂ hright => ?_
  rw [List.Forall₂.length_eq hleft, List.Forall₂.length_eq hright]
  split
  · exact simulates_pure hC.grows hw₂ (forall₂_zip (hC.values_grows h₂ hleft) hright)
  · exact simulates_fail hC.grows hw₂ rfl

/-- One thing for each pair of values. -/
theorem simulates_eachPair (hself : C.Agree self self') (hw : C.Valid w)
    (hes : List.Forall₂ (Operand C.Fits w) es es') {f : Handle × Handle → Action (List Handle)}
    (hf : ∀ (w : C.World) p p', C.Valid w → GivenPair C w p p' →
      C.Simulates w C.Grows C.Values (f p) (f p')) :
    C.Simulates w C.Grows C.Values (do Action.concatMap f (← Evaluation.pairs self es))
      (do Action.concatMap f (← Evaluation.pairs self' es')) :=
  (hC.simulates_pairs hself hw hes).bind hC.grows fun _ _ _ hw₁ _ hps =>
    simulates_concatMap hC hC.persists_givenPair hC.persists_given hf hw₁ hps

theorem simulates_pushTemporary (hw : C.Valid w) {i : Identifier} (hi : i.IsLiteral) :
    C.Simulates w C.Grows C.Given (Machine.pushTemporary i) (Machine.pushTemporary i) :=
  simulates_onStore (hC.push hw hi)

/-- What is made of each pair of values does not depend on the depths of their frames. -/
theorem simulates_pairwise (hself : C.Agree self self') (hw : C.Valid w)
    (hes : List.Forall₂ (Operand C.Fits w) es es')
    {result : Identifier → Identifier → Except RuntimeError Identifier}
    (hresult : ∀ l r, Identifier.IsResult (result l r))
    (hleft : ∀ l r scope, result (l.withScope scope) r = result l r)
    (hright : ∀ l r scope, result l (r.withScope scope) = result l r) :
    C.Simulates w C.Grows C.Values (pairwise self es result) (pairwise self' es' result) := by
  refine hC.simulates_eachPair hself hw hes fun w p p' hw hp => ?_
  refine simulates_bind_identifier hC hw (hC.given_fits hp.1) (fun l scope => ?_) fun left _ _ => ?_
  · simp only [hleft]
  refine simulates_bind_identifier hC hw (hC.given_fits hp.2) (fun r scope => ?_)
    fun right _ _ => ?_
  · simp only [hright]
  refine simulates_bind_ofExcept hC.grows hw (result left right) fun i hi => ?_
  have hlr := hresult left right
  rw [hi] at hlr
  exact hC.simulates_value (hC.simulates_pushTemporary hw hlr)

omit hC in
theorem simulates_bind_requireVariable {α β : Type} {P : C.World → α → β → Prop}
    (hG : C.Steady G) (hw : C.Valid w) {target : Identifier} {f : Unit → Action α}
    {g : Unit → Action β} (hf : target.isVariable = true → C.Simulates w G P (f ()) (g ())) :
    C.Simulates w G P (requireVariable target >>= f) (requireVariable target >>= g) := by
  unfold requireVariable
  split
  · next hvariable => exact hf hvariable
  · exact fun _ _ hs hs' hsink => ⟨rfl, hsink, .here hG hw hs hs' trivial⟩

/-- The left value is given a new payload, and is the result. -/
theorem simulates_assigned (hw : C.Valid w) (hh : C.Given w h k) {i : Identifier}
    (hi : (C.left w).arena.get? h = some i) (hvariable : i.isVariable = true) (value : Value) :
    C.Simulates w C.Grows C.Values (do Machine.setValue h value; return [h])
      (do Machine.setValue k value; return [k]) := by
  have hset : C.Simulates w C.Grows (fun _ _ _ => True) (Machine.setValue h value)
      (Machine.setValue k value) :=
    simulates_tryStore hC.grows hw (hC.setValue hw hh hi hvariable value)
  exact hset.bind hC.grows fun _ _ _ hw₁ h₁ _ =>
    simulates_pure hC.grows hw₁ (.cons (hC.given_mono h₁ hh) .nil)

theorem simulates_assign (hself : C.Agree self self') (hw : C.Valid w)
    (hes : List.Forall₂ (Operand C.Fits w) es es') :
    C.Simulates w C.Grows C.Values (assign self es) (assign self' es') := by
  refine hC.simulates_eachPair hself hw hes fun w p p' hw hp => ?_
  refine simulates_bind_identifier hC hw (hC.given_fits hp.1) (fun _ _ => rfl)
    fun target htarget _ => ?_
  refine simulates_bind_requireVariable hC.grows hw fun hvariable => ?_
  split
  · exact simulates_pure hC.grows hw .nil
  · refine simulates_bind_identifier hC hw (hC.given_fits hp.2) (fun _ _ => rfl)
      fun right _ _ => ?_
    refine simulates_bind_ofExcept hC.grows hw _ fun value _ => ?_
    exact hC.simulates_assigned hw hp.1 htarget hvariable value

theorem simulates_update (hself : C.Agree self self') (op : Arithmetic) (hw : C.Valid w)
    (hes : List.Forall₂ (Operand C.Fits w) es es') :
    C.Simulates w C.Grows C.Values (update self op es) (update self' op es') := by
  refine hC.simulates_eachPair hself hw hes fun w p p' hw hp => ?_
  refine simulates_bind_identifier hC hw (hC.given_fits hp.1) (fun _ _ => rfl)
    fun target htarget _ => ?_
  refine simulates_bind_requireVariable hC.grows hw fun hvariable => ?_
  refine simulates_bind_identifier hC hw (hC.given_fits hp.2) (fun _ _ => rfl) fun right _ _ => ?_
  refine simulates_bind_ofExcept hC.grows hw _ fun result _ => ?_
  refine simulates_bind_ofExcept hC.grows hw _ fun value _ => ?_
  exact hC.simulates_assigned hw hp.1 htarget hvariable value

theorem simulates_negate (hself : C.Agree self self') (hw : C.Valid w)
    (hes : List.Forall₂ (Operand C.Fits w) es es') :
    C.Simulates w C.Grows C.Values (negate self es) (negate self' es') := by
  refine (hC.simulates_evaluateEach hself hw hes).bind hC.grows
    fun w₁ handles handles' hw₁ _ hhandles => ?_
  refine simulates_concatMap hC hC.persists_given hC.persists_given (fun w h k hw hh => ?_) hw₁
    hhandles
  refine simulates_bind_identifier hC hw (hC.given_fits hh) (fun _ _ => rfl) fun i _ _ => ?_
  exact hC.simulates_value (hC.simulates_pushTemporary hw (.bool _))

theorem simulates_print (hself : C.Agree self self') (hw : C.Valid w)
    (hes : List.Forall₂ (Operand C.Fits w) es es') :
    C.Simulates w C.Grows (fun _ _ _ => True) (print self es) (print self' es') := by
  refine simulates_forEach hC (hC.persists_operand hC.persists_fits) (fun w e e' hw he => ?_) hw hes
  refine (hself.evaluate hw he).bind hC.grows fun w₁ handles handles' hw₁ _ hhandles => ?_
  refine simulates_forEach hC hC.persists_given (fun w h k hw hh => ?_) hw₁ hhandles
  exact simulates_bind_identifier hC hw (hC.given_fits hh) (fun _ _ => rfl) fun i _ _ =>
    simulates_write hC.grows hw i.toText

theorem simulates_loadModules (hself : C.Agree self self') (hloads : C.Loads) (hw : C.Valid w)
    (hes : List.Forall₂ (Operand C.Fits w) es es') :
    C.Simulates w C.Grows (fun _ _ _ => True) (loadModules self es) (loadModules self' es') := by
  have htail : List.Forall₂ (Operand C.Fits w) es.tail es'.tail := by
    rw [← List.drop_one, ← List.drop_one]
    exact List.forall₂_drop 1 hes
  refine (hC.simulates_evaluateEach hself hw htail).bind hC.grows
    fun w₁ handles handles' hw₁ _ hhandles => ?_
  have hwords := simulates_concatMap (P := C.Same) hC hC.persists_given persists_same
    (f := fun h => do return [requestWord (← Machine.identifier h)])
    (g := fun h => do return [requestWord (← Machine.identifier h)])
    (fun w h k hw hh => simulates_bind_identifier hC hw (hC.given_fits hh) (fun _ _ => rfl)
      fun i _ _ => simulates_pure hC.grows hw (.cons rfl .nil)) hw₁ hhandles
  refine hwords.bind hC.grows fun w₂ words words' hw₂ _ hwords => ?_
  obtain rfl : words = words' := by
    rw [← List.forall₂_eq_eq_eq]
    exact hwords
  refine simulates_forEach hC persists_same (fun w r _ hw heq => ?_) hw₂
    (List.forall₂_same.mpr fun r _ => rfl)
  obtain rfl : r = _ := heq
  exact (hself.loadModule r.1 r.2 es es' hw hloads).imp (fun _ => id) fun _ _ _ _ => trivial

/-- Something is done for its effect, and no value is given. -/
theorem simulates_nothing {x y : Action Unit}
    (h : C.Simulates w C.Grows (fun _ _ _ => True) x y) :
    C.Simulates w C.Grows C.Values (x >>= fun _ => pure []) (y >>= fun _ => pure []) :=
  h.bind hC.grows fun _ _ _ hw₁ _ _ => simulates_pure hC.grows hw₁ .nil

/-- Every built-in function but the one that shows the index of a handle. -/
theorem simulates_callBuiltin (hself : C.Agree self self') (isInfix : Bool) {op : Builtin}
    (hop : op ≠ .dump) (hloads : op = .loadModule → C.Loads) (hw : C.Valid w)
    (hes : List.Forall₂ (Operand C.Fits w) es es') :
    C.Simulates w C.Grows C.Values (callBuiltin self es isInfix op)
      (callBuiltin self' es' isInfix op) := by
  have htail : List.Forall₂ (Operand C.Fits w) es.tail es'.tail := by
    rw [← List.drop_one, ← List.drop_one]
    exact List.forall₂_drop 1 hes
  have hnothing : C.Simulates w C.Grows C.Values (pure []) (pure []) :=
    simulates_pure hC.grows hw .nil
  cases op with
  | declare =>
    cases isInfix with
    | true => exact hC.simulates_declareBetween hself hw htail
    | false => exact hC.simulates_declareInFront hself hw htail
  | assign => exact hC.simulates_assign hself hw htail
  | arithmetic op =>
    exact hC.simulates_pairwise hself hw htail (Identifier.isResult_arithmetic op)
      (fun _ _ _ => rfl) fun _ _ _ => rfl
  | update op => exact hC.simulates_update hself op hw htail
  | compare op =>
    exact hC.simulates_pairwise hself hw htail (Identifier.isResult_compared op)
      (fun _ _ _ => rfl) fun _ _ _ => rfl
  | connect op =>
    exact hC.simulates_pairwise hself hw htail (Identifier.isResult_connected op)
      (fun _ _ _ => rfl) fun _ _ _ => rfl
  | negate => exact hC.simulates_negate hself hw htail
  | index =>
    exact (hC.simulates_pairs hself hw htail).bind hC.grows fun _ _ _ hw₁ _ _ =>
      simulates_pure hC.grows hw₁ .nil
  | print =>
    exact (hC.simulates_print hself hw htail).bind hC.grows fun _ _ _ hw₁ _ _ =>
      hC.simulates_nothing (simulates_flush hC.grows hw₁)
  | printLine =>
    refine (hC.simulates_print hself hw htail).bind hC.grows fun _ _ _ hw₁ _ _ => ?_
    exact (simulates_write hC.grows hw₁ "\n").bind hC.grows fun _ _ _ hw₂ _ _ =>
      hC.simulates_nothing (simulates_flush hC.grows hw₂)
  | dump => exact absurd rfl hop
  | loadModule => exact hC.simulates_nothing (hC.simulates_loadModules hself (hloads rfl) hw hes)
  | push => exact hnothing
  | ifWord => exact hnothing
  | elseWord => exact hnothing
  | loopWord => exact hnothing

/-- What is called is a built-in function, and none that shows the index of a handle. -/
theorem simulates_call (host host' : Host) (hself : C.Agree self self') (isInfix : Bool)
    {i : Identifier} (hw : C.Valid w) (hh : C.Given w h k)
    (hi : (C.left w).arena.get? h = some i) (hfunction : i.isFunction = true)
    (hes : List.Forall₂ (Operand C.Fits w) es es') :
    C.Simulates w C.Grows C.Values (call host self (.leaf h :: es) isInfix)
      (call host' self' (.leaf k :: es') isInfix) := by
  have hfits := hC.given_fits hh
  refine simulates_bind_identifier hC hw hfits (fun _ _ => rfl) fun j hj _ => ?_
  obtain rfl : i = j := Option.some.inj (hi.symm.trans hj)
  obtain ⟨op, hcallable, hop, hloads⟩ := hC.function hw hh hi hfunction
  simp only [hcallable]
  exact hC.simulates_callBuiltin hself isInfix hop hloads hw (.cons (.leaf hfits) hes)

end Lawful

end Coupling

end WordScript
