import WordScript.Proofs.Lawful

/-!
# Evaluation under a contract

One lemma for each function of the evaluation: when the performers agree on what a lawful contract
admits, the function cannot tell them apart, and keeps the contract itself.
-/

namespace WordScript

namespace Contract

namespace Upheld

open Evaluation Machine

variable {C : Contract} {host : Host} {self self' : Performer} {m : Machine}

/-! ## Groups -/

theorem keeps_evaluate (hC : C.Upheld host) (hself : C.Agree self self') {e : Expression}
    (hm : C.Inv m.store) (he : C.FitsExpression m.store e) :
    C.Keeps C.Evaluates (fun s handles => ∀ h ∈ handles, C.Fits s h) (evaluate self e)
      (evaluate self' e) m := by
  cases e with
  | leaf h =>
    refine (hC.keeps_resolveLeaf hm he).bind hC.evaluates fun k m₁ hm₁ _ hk => ?_
    exact keeps_pure hC.evaluates hm₁ (by simpa using hk)
  | group es => exact hself (.evaluateGroup es) m hm he

/-- What a call gives waits as leaves. -/
theorem fitsExpression_of_mem_map {s : Store} {handles : List Handle}
    (h : ∀ k ∈ handles, C.Fits s k) : ∀ e ∈ handles.map Expression.leaf, C.FitsExpression s e := by
  intro e he
  obtain ⟨k, hk, rfl⟩ := List.mem_map.mp he
  exact h k hk

/-- A leaf that may be called may be called with expressions that fit. -/
theorem admits_call {s : Store} {callee : Handle} {args : List Expression} {isInfix : Bool}
    (hcalls : C.Calls s callee) (hargs : ∀ e ∈ Expression.leaf callee :: args,
      C.FitsExpression s e) : C.Admits s (.call (.leaf callee :: args) isInfix) := by
  refine ⟨hargs, fun k hk => ?_, nofun⟩
  obtain rfl : callee = k := by simpa [Expression.handle?] using hk
  exact hcalls

theorem keeps_scan (hC : C.Upheld host) (hself : C.Agree self self') (before : List Expression)
    (waiting : List Expression) (hm : C.Inv m.store)
    (hbefore : ∀ e ∈ before, ∀ h ∈ e.leaves, C.Lasts m.store h)
    (hwaiting : ∀ e ∈ waiting, C.FitsExpression m.store e) :
    C.Keeps C.Evaluates (fun s es => ∀ e ∈ es, C.FitsExpression s e) (scan self before waiting)
      (scan self' before waiting) m := by
  induction hn : before.length using Nat.strongRecOn generalizing before waiting m with
  | ind n ih =>
  -- a call takes the place of its operands, with fewer members left to go through
  have afterCall : ∀ {rest : List Expression} {args : List Expression} {isInfix : Bool}
      {m₁ : Machine}, rest.length < n → (∀ e ∈ rest, e ∈ before) →
      C.Inv m₁.store → C.Evaluates m.store m₁.store →
      C.Admits m₁.store (.call args isInfix) →
      C.Keeps C.Evaluates (fun s es => ∀ e ∈ es, C.FitsExpression s e)
        (self (.call args isInfix) >>= fun results => scan self rest (results.map .leaf))
        (self' (.call args isInfix) >>= fun results => scan self' rest (results.map .leaf)) m₁ := by
    intro rest args isInfix m₁ hlength hrest hm₁ h₁ hadmits
    refine (hself _ m₁ hm₁ hadmits).bind hC.evaluates fun results m₂ hm₂ h₂ hresults => ?_
    refine ih _ hlength rest _ hm₂ ?_ (fitsExpression_of_mem_map hresults) rfl
    intro e he h hh
    exact hC.lasts_mono (hC.evaluates_runs (hC.evaluates.trans h₁ h₂)) (hbefore e (hrest e he) h hh)
  match before with
  | [] =>
    rw [scan, scan]
    exact keeps_pure hC.evaluates hm hwaiting
  | .group es :: before =>
    rw [scan, scan]
    refine ih before.length (by simp [← hn]) before _ hm
      (fun e he => hbefore e (List.mem_cons_of_mem _ he)) ?_ rfl
    intro e he
    rcases List.mem_cons.mp he with rfl | he
    · exact hC.fitsExpression_of_lasts hm (hbefore _ (by simp))
    · exact hwaiting e he
  | .leaf h :: before =>
    rw [scan, scan]
    have hh : C.Lasts m.store h := hbefore (.leaf h) (by simp) h (by simp [Expression.leaves])
    refine (hC.keeps_resolveLeaf hm (hC.lasts_fits hm hh)).bind hC.evaluates
      fun callee m₁ hm₁ h₁ hcallee => ?_
    have hwaiting₁ : ∀ e ∈ waiting, C.FitsExpression m₁.store e :=
      fun e he => hC.stable_fitsExpression _ _ e h₁ (hwaiting e he)
    refine hC.keeps_bind_identifier hC.evaluates hm₁ hcallee fun i hi => ?_
    split
    · refine ih before.length (by simp [← hn]) before _ hm₁ ?_ ?_ rfl
      · intro e he k hk
        exact hC.lasts_mono (hC.evaluates_runs h₁) (hbefore e (List.mem_cons_of_mem _ he) k hk)
      · intro e he
        rcases List.mem_cons.mp he with rfl | he
        · exact hcallee
        · exact hwaiting₁ e he
    · next hfunction =>
      have hcalls : C.Calls m₁.store callee :=
        hC.calls hm₁ hcallee hi (by simpa using hfunction)
      split
      · next right left before hinfix =>
        refine afterCall (by grind) (by grind) hm₁ h₁ (admits_call hcalls ?_)
        intro e he
        simp only [List.mem_cons, List.not_mem_nil, or_false] at he
        rcases he with rfl | rfl | rfl
        · exact hcallee
        · refine hC.fitsExpression_of_lasts hm₁ fun k hk => ?_
          exact hC.lasts_mono (hC.evaluates_runs h₁) (hbefore _ (by simp) k hk)
        · exact hwaiting₁ _ (by simp)
      · refine afterCall (by simp [← hn]) (by grind) hm₁ h₁ (admits_call hcalls ?_)
        intro e he
        rcases List.mem_cons.mp he with rfl | he
        · exact hcallee
        · exact hwaiting₁ e he

theorem keeps_collect (hC : C.Upheld host) (hself : C.Agree self self') {e : Expression}
    (hm : C.Inv m.store) (he : C.FitsExpression m.store e) :
    C.Keeps C.Evaluates (fun s handles => ∀ h ∈ handles, C.Fits s h) (collect self e)
      (collect self' e) m := by
  cases e with
  | leaf h =>
    refine keeps_pure hC.evaluates hm fun k hk => ?_
    rw [List.mem_singleton.mp hk]
    exact he
  | group es => exact hself (.evaluate (.group es)) m hm he

/-- One thing for each of some values or expressions, which all are still fit when their turn
comes. -/
theorem keeps_concatMap_fits {α β : Type} (hC : C.Upheld host) {Takes : Store → α → Prop}
    {Fine : Store → β → Prop} {f g : α → Action (List β)} {as : List α}
    (htakes : Stable C.Evaluates Takes) (hfine : Stable C.Evaluates Fine) (hm : C.Inv m.store)
    (has : ∀ a ∈ as, Takes m.store a)
    (hf : ∀ a m', C.Inv m'.store → Takes m'.store a →
      C.Keeps C.Evaluates (fun s bs => ∀ b ∈ bs, Fine s b) (f a) (g a) m') :
    C.Keeps C.Evaluates (fun s bs => ∀ b ∈ bs, Fine s b) (Action.concatMap f as)
      (Action.concatMap g as) m :=
  keeps_concatMap hC.evaluates hfine as hm fun a ha m' hm' h' =>
    hf a m' hm' (htakes _ _ a h' (has a ha))

theorem keeps_evaluateGroup (hC : C.Upheld host) (hself : C.Agree self self')
    {es : List Expression} (hm : C.Inv m.store)
    (hes : ∀ h ∈ Expression.leavesOf es, C.Lasts m.store h) :
    C.Keeps C.Evaluates (fun s handles => ∀ h ∈ handles, C.Fits s h) (evaluateGroup self es)
      (evaluateGroup self' es) m := by
  refine (keeps_change hC.evaluates hm rfl).bind hC.evaluates fun _ m₁ hm₁ h₁ _ => ?_
  have hscan := hC.keeps_scan hself es.reverse [] hm₁ ?_ (by simp)
  · refine hscan.bind hC.evaluates fun waiting m₂ hm₂ h₂ hwaiting => ?_
    exact hC.keeps_concatMap_fits hC.stable_fitsExpression hC.stable_fits hm₂ hwaiting
      fun e m' hm' he => hC.keeps_collect hself hm' he
  · intro e he h hh
    refine hC.lasts_mono (hC.evaluates_runs h₁) (hes h ?_)
    exact Expression.mem_leavesOf.mpr ⟨e, List.mem_reverse.mp he, hh⟩

theorem keeps_evaluateEach (hC : C.Upheld host) (hself : C.Agree self self')
    (es : List Expression) (hm : C.Inv m.store) (hes : ∀ e ∈ es, C.FitsExpression m.store e) :
    C.Keeps C.Evaluates (fun s handles => ∀ h ∈ handles, C.Fits s h) (evaluateEach self es)
      (evaluateEach self' es) m :=
  hC.keeps_concatMap_fits hC.stable_fitsExpression hC.stable_fits hm hes
    fun e m' hm' he => hself (.evaluate e) m' hm' he

/-! ## Declarations -/

theorem keeps_declareEach (hC : C.Upheld host) {type : String} {handles : List Handle}
    (hm : C.Inv m.store) (hhandles : ∀ h ∈ handles, C.Fits m.store h) (htype : C.Types type) :
    C.Keeps C.Evaluates (fun s ks => ∀ k ∈ ks, C.Fits s k)
      (Action.concatMap (fun h => do return [← declareAs type h]) handles)
      (Action.concatMap (fun h => do return [← declareAs type h]) handles) m := by
  refine hC.keeps_concatMap_fits hC.stable_fits hC.stable_fits hm hhandles fun h m' hm' hh => ?_
  refine (hC.keeps_declareAs hm' hh htype).bind hC.evaluates fun k m₁ hm₁ _ hk => ?_
  exact keeps_pure hC.evaluates hm₁ (by simpa using hk)

theorem keeps_declareBetween (hC : C.Upheld host) (hself : C.Agree self self')
    {operands : List Expression} (hm : C.Inv m.store)
    (hoperands : ∀ e ∈ operands, C.FitsExpression m.store e) :
    C.Keeps C.Evaluates (fun s handles => ∀ h ∈ handles, C.Fits s h) (declareBetween self operands)
      (declareBetween self' operands) m := by
  unfold declareBetween
  cases hlast : operands.getLast? with
  | none => exact keeps_pure hC.evaluates hm (by simp)
  | some last =>
    have hmem : last ∈ operands := List.mem_of_getLast? hlast
    refine (hself (.evaluate last) m hm (hoperands last hmem)).bind hC.evaluates
      fun values m₁ hm₁ h₁ hvalues => ?_
    split
    · next right =>
      refine hC.keeps_bind_identifier hC.evaluates hm₁ (hvalues right (by simp)) fun type hget => ?_
      split
      · next hrole =>
        have htype : C.Types type.surface := hC.typeName hm₁ hget hrole
        have htargets := hC.keeps_evaluateEach hself operands.dropLast hm₁ fun e he =>
          hC.stable_fitsExpression _ _ e h₁ (hoperands e (List.dropLast_subset _ he))
        exact htargets.bind hC.evaluates fun targets m₂ hm₂ _ htargets =>
          hC.keeps_declareEach hm₂ htargets htype
      · exact hC.keeps_raise hC.evaluates hm₁ nofun nofun
    · exact hC.keeps_raise hC.evaluates hm₁ nofun nofun

theorem keeps_typeOfFirst? (hC : C.Upheld host) (depth : Nat) (handles : List Handle)
    (hm : C.Inv m.store) (hhandles : ∀ h ∈ handles, C.Fits m.store h) :
    C.Keeps C.Evaluates (fun _ type? => ∀ type, type? = some type → C.Types type)
      (typeOfFirst? depth handles) (typeOfFirst? depth handles) m := by
  induction handles with
  | nil => exact keeps_pure hC.evaluates hm nofun
  | cons h handles ih =>
    refine hC.keeps_bind_identifier hC.evaluates hm (hhandles h (by simp)) fun i hi => ?_
    split
    · next hat =>
      have hvariable : i.isVariable = true := by
        unfold isVariableAt at hat
        exact (Bool.and_eq_true_iff.mp hat).1
      refine keeps_pure hC.evaluates hm fun type htype => ?_
      obtain rfl := Option.some.inj htype
      exact hC.typeOf hm hi hvariable
    · exact ih fun k hk => hhandles k (List.mem_cons_of_mem _ hk)

theorem keeps_declareInFront (hC : C.Upheld host) (hself : C.Agree self self')
    {operands : List Expression} (hm : C.Inv m.store)
    (hoperands : ∀ e ∈ operands, C.FitsExpression m.store e) :
    C.Keeps C.Evaluates (fun s handles => ∀ h ∈ handles, C.Fits s h) (declareInFront self operands)
      (declareInFront self' operands) m := by
  refine (hC.keeps_evaluateEach hself operands hm hoperands).bind hC.evaluates
    fun handles m₁ hm₁ _ hhandles => ?_
  refine (keeps_inspect (P := fun _ _ => True) hC.evaluates hm₁ trivial).bind hC.evaluates
    fun here m₂ hm₂ h₂ _ => ?_
  have hhandles₂ : ∀ h ∈ handles, C.Fits m₂.store h := fun h hh => hC.fits_mono h₂ (hhandles h hh)
  refine (hC.keeps_typeOfFirst? here.depth handles.reverse hm₂ ?_).bind hC.evaluates
    fun type? m₃ hm₃ h₃ htype => ?_
  · exact fun h hh => hhandles₂ h (List.mem_reverse.mp hh)
  refine hC.keeps_concatMap_fits hC.stable_fits hC.stable_fits hm₃
    (fun h hh => hC.fits_mono h₃ (hhandles₂ h hh)) fun h m' hm' hh => ?_
  refine hC.keeps_bind_identifier hC.evaluates hm' hh fun i _ => ?_
  split
  · exact keeps_pure hC.evaluates hm' (by simpa using hh)
  · cases type? with
    | some type =>
      refine (hC.keeps_declareAs hm' hh (htype type rfl)).bind hC.evaluates fun k m₄ hm₄ _ hk => ?_
      exact keeps_pure hC.evaluates hm₄ (by simpa using hk)
    | none =>
      exact hC.keeps_raise hC.evaluates hm' nofun nofun

/-! ## Built-in functions -/

/-- Both sides of a pair fit. -/
def FitsPair (C : Contract) (s : Store) (p : Handle × Handle) : Prop :=
  C.Fits s p.1 ∧ C.Fits s p.2

theorem stable_fitsPair (hC : C.Upheld host) : Stable C.Evaluates (FitsPair C) :=
  fun _ _ _ hstep hp => ⟨hC.fits_mono hstep hp.1, hC.fits_mono hstep hp.2⟩

theorem keeps_pairs (hC : C.Upheld host) (hself : C.Agree self self') {operands : List Expression}
    (hm : C.Inv m.store) (hoperands : ∀ e ∈ operands, C.FitsExpression m.store e) :
    C.Keeps C.Evaluates (fun s ps => ∀ p ∈ ps, FitsPair C s p) (pairs self operands)
      (pairs self' operands) m := by
  have hleft := hC.keeps_evaluateEach hself (operands.take 1) hm fun e he =>
    hoperands e (List.mem_of_mem_take he)
  refine hleft.bind hC.evaluates fun left m₁ hm₁ h₁ hleft => ?_
  have hright := hC.keeps_evaluateEach hself (operands.drop 1) hm₁ fun e he =>
    hC.stable_fitsExpression _ _ e h₁ (hoperands e (List.mem_of_mem_drop he))
  refine hright.bind hC.evaluates fun right m₂ hm₂ h₂ hright => ?_
  split
  · refine keeps_pure hC.evaluates hm₂ ?_
    rintro ⟨l, r⟩ hp
    obtain ⟨hl, hr⟩ := List.of_mem_zip hp
    exact ⟨hC.fits_mono h₂ (hleft l hl), hright r hr⟩
  · exact hC.keeps_raise hC.evaluates hm₂ nofun nofun

theorem keeps_pairwise (hC : C.Upheld host) (hself : C.Agree self self')
    {operands : List Expression}
    {result : Identifier → Identifier → Except RuntimeError Identifier}
    (hresult : ∀ l r, Identifier.IsResult (result l r)) (hm : C.Inv m.store)
    (hoperands : ∀ e ∈ operands, C.FitsExpression m.store e) :
    C.Keeps C.Evaluates (fun s handles => ∀ h ∈ handles, C.Fits s h)
      (pairwise self operands result) (pairwise self' operands result) m := by
  refine (hC.keeps_pairs hself hm hoperands).bind hC.evaluates fun ps m₁ hm₁ _ hps => ?_
  refine hC.keeps_concatMap_fits hC.stable_fitsPair hC.stable_fits hm₁ hps fun p m' hm' hp => ?_
  refine hC.keeps_bind_identifier hC.evaluates hm' hp.1 fun left _ => ?_
  refine hC.keeps_bind_identifier hC.evaluates hm' hp.2 fun right _ => ?_
  have hlr := hresult left right
  refine keeps_bind_ofExcept hC.evaluates hm' ?_ ?_
  · intro i hi
    rw [hi] at hlr
    refine (hC.keeps_pushTemporary hlr hm').bind hC.evaluates fun k m₂ hm₂ _ hk => ?_
    exact keeps_pure hC.evaluates hm₂ (by simpa using hk)
  · intro e he
    rw [he] at hlr
    exact hC.raises hlr

/-- Casts raise no error about a handle. -/
theorem raises_castValue (hC : C.Upheld host) {i : Identifier} {type : String} {e : RuntimeError}
    (he : i.castValue type = .error e) : C.Raises e :=
  hC.raises (Identifier.isResult_numericCast (Identifier.castValue_error he))

theorem keeps_assign (hC : C.Upheld host) (hself : C.Agree self self')
    {operands : List Expression} (hm : C.Inv m.store)
    (hoperands : ∀ e ∈ operands, C.FitsExpression m.store e) :
    C.Keeps C.Evaluates (fun s handles => ∀ h ∈ handles, C.Fits s h) (assign self operands)
      (assign self' operands) m := by
  refine (hC.keeps_pairs hself hm hoperands).bind hC.evaluates fun ps m₁ hm₁ _ hps => ?_
  refine hC.keeps_concatMap_fits hC.stable_fitsPair hC.stable_fits hm₁ hps fun p m' hm' hp => ?_
  refine hC.keeps_bind_identifier hC.evaluates hm' hp.1 fun target htarget => ?_
  refine hC.keeps_bind_requireVariable hC.evaluates hm' fun hvariable => ?_
  split
  · exact keeps_pure hC.evaluates hm' (by simp)
  · next hcontainer =>
    refine hC.keeps_bind_identifier hC.evaluates hm' hp.2 fun right hright => ?_
    refine keeps_bind_ofExcept hC.evaluates hm' (fun value hcast => ?_)
      fun e he => hC.raises_castValue he
    have hvalue : m'.store.Assigns target value := .value (by simpa using hcontainer) hright hcast
    refine (hC.keeps_setValue hm' hp.1 htarget hvariable hvalue).bind hC.evaluates
      fun _ m₂ hm₂ h₂ _ => ?_
    exact keeps_pure hC.evaluates hm₂ (by simpa using hC.fits_mono h₂ hp.1)

theorem keeps_update (hC : C.Upheld host) (hself : C.Agree self self') (op : Arithmetic)
    {operands : List Expression} (hm : C.Inv m.store)
    (hoperands : ∀ e ∈ operands, C.FitsExpression m.store e) :
    C.Keeps C.Evaluates (fun s handles => ∀ h ∈ handles, C.Fits s h) (update self op operands)
      (update self' op operands) m := by
  refine (hC.keeps_pairs hself hm hoperands).bind hC.evaluates fun ps m₁ hm₁ _ hps => ?_
  refine hC.keeps_concatMap_fits hC.stable_fitsPair hC.stable_fits hm₁ hps fun p m' hm' hp => ?_
  refine hC.keeps_bind_identifier hC.evaluates hm' hp.1 fun target htarget => ?_
  refine hC.keeps_bind_requireVariable hC.evaluates hm' fun hvariable => ?_
  refine hC.keeps_bind_identifier hC.evaluates hm' hp.2 fun right _ => ?_
  have hresult := Identifier.isResult_arithmetic op target right
  refine keeps_bind_ofExcept hC.evaluates hm' (fun result hok => ?_) fun e he => ?_
  · rw [hok] at hresult
    refine keeps_bind_ofExcept hC.evaluates hm' (fun value hcast => ?_)
      fun e he => hC.raises_castValue he
    have hvalue : m'.store.Assigns target value := .result hresult hcast
    refine (hC.keeps_setValue hm' hp.1 htarget hvariable hvalue).bind hC.evaluates
      fun _ m₂ hm₂ h₂ _ => ?_
    exact keeps_pure hC.evaluates hm₂ (by simpa using hC.fits_mono h₂ hp.1)
  · rw [he] at hresult
    exact hC.raises hresult

theorem keeps_negate (hC : C.Upheld host) (hself : C.Agree self self')
    {operands : List Expression} (hm : C.Inv m.store)
    (hoperands : ∀ e ∈ operands, C.FitsExpression m.store e) :
    C.Keeps C.Evaluates (fun s handles => ∀ h ∈ handles, C.Fits s h) (negate self operands)
      (negate self' operands) m := by
  refine (hC.keeps_evaluateEach hself operands hm hoperands).bind hC.evaluates
    fun handles m₁ hm₁ _ hhandles => ?_
  refine hC.keeps_concatMap_fits hC.stable_fits hC.stable_fits hm₁ hhandles fun h m' hm' hh => ?_
  refine hC.keeps_bind_identifier hC.evaluates hm' hh fun i _ => ?_
  refine (hC.keeps_pushTemporary (.bool _) hm').bind hC.evaluates fun k m₂ hm₂ _ hk => ?_
  exact keeps_pure hC.evaluates hm₂ (by simpa using hk)

/-- Something is written for each value of each operand, and something after each operand. -/
theorem keeps_forEach_value (hC : C.Upheld host) (hself : C.Agree self self')
    {operands : List Expression} (text : Handle → Identifier → String) (after : Action Unit)
    (hafter : ∀ m', C.Inv m'.store → C.Keeps C.Evaluates (fun _ _ => True) after after m')
    (hm : C.Inv m.store) (hoperands : ∀ e ∈ operands, C.FitsExpression m.store e) :
    C.Keeps C.Evaluates (fun _ _ => True)
      (Action.forEach (fun e => do
        let handles ← self (.evaluate e)
        Action.forEach (fun h => do write (text h (← identifier h))) handles
        after) operands)
      (Action.forEach (fun e => do
        let handles ← self' (.evaluate e)
        Action.forEach (fun h => do write (text h (← identifier h))) handles
        after) operands) m := by
  refine keeps_forEach hC.evaluates operands hm fun e he m₁ hm₁ h₁ => ?_
  have hvalues := hself (.evaluate e) m₁ hm₁ (hC.stable_fitsExpression _ _ e h₁ (hoperands e he))
  refine hvalues.bind hC.evaluates fun handles m₂ hm₂ _ hhandles => ?_
  have hprinted : C.Keeps C.Evaluates (fun _ _ => True)
      (Action.forEach (fun h => do write (text h (← identifier h))) handles)
      (Action.forEach (fun h => do write (text h (← identifier h))) handles) m₂ := by
    refine keeps_forEach hC.evaluates handles hm₂ fun h hh m₃ hm₃ h₃ => ?_
    refine hC.keeps_bind_identifier hC.evaluates hm₃ (hC.fits_mono h₃ (hhandles h hh)) fun i _ => ?_
    exact keeps_write hC.evaluates hm₃ hC.raises_stream _
  exact hprinted.bind hC.evaluates fun _ m₃ hm₃ _ _ => hafter m₃ hm₃

theorem keeps_print (hC : C.Upheld host) (hself : C.Agree self self')
    {operands : List Expression} (hm : C.Inv m.store)
    (hoperands : ∀ e ∈ operands, C.FitsExpression m.store e) :
    C.Keeps C.Evaluates (fun _ _ => True) (print self operands) (print self' operands) m := by
  have hprint := hC.keeps_forEach_value hself (fun _ i => i.toText) (pure ())
    (fun _ hm' => keeps_pure hC.evaluates hm' trivial) hm hoperands
  simpa only [bind_pure_unit, print] using hprint

theorem keeps_dump (hC : C.Upheld host) (hself : C.Agree self self')
    {operands : List Expression} (hm : C.Inv m.store)
    (hoperands : ∀ e ∈ operands, C.FitsExpression m.store e) :
    C.Keeps C.Evaluates (fun _ _ => True) (dump self operands) (dump self' operands) m :=
  hC.keeps_forEach_value hself dumped _
    (fun _ hm' => keeps_write hC.evaluates hm' hC.raises_stream _) hm hoperands

theorem keeps_loadModules (hC : C.Upheld host) (hself : C.Agree self self')
    {args : List Expression} (hm : C.Inv m.store)
    (hargs : ∀ e ∈ args, C.FitsExpression m.store e)
    (hasks : ∀ s, C.Evaluates m.store s → ∀ path space, C.Asks s (.loadModule path space args)) :
    C.Keeps C.Evaluates (fun _ _ => True) (loadModules self args) (loadModules self' args) m := by
  have hhandles := hC.keeps_evaluateEach hself args.tail hm fun e he =>
    hargs e (List.mem_of_mem_tail he)
  refine hhandles.bind hC.evaluates fun handles m₁ hm₁ h₁ hhandles => ?_
  have hwords := hC.keeps_concatMap_fits (f := fun h => do return [requestWord (← identifier h)])
    hC.stable_fits (stable_true C.Evaluates) hm₁ hhandles fun h m' hm' hh =>
      hC.keeps_bind_identifier hC.evaluates hm' hh fun i _ =>
        keeps_pure hC.evaluates hm' (by simp)
  refine hwords.bind hC.evaluates fun words m₂ hm₂ h₂ _ => ?_
  refine keeps_forEach hC.evaluates (requests words) hm₂ fun r _ m₃ hm₃ h₃ => ?_
  have h := hC.evaluates.trans h₁ (hC.evaluates.trans h₂ h₃)
  exact (hself (.loadModule r.1 r.2 args) m₃ hm₃
    ⟨fun e he => hC.stable_fitsExpression _ _ e h (hargs e he), hasks _ h r.1 r.2⟩).weaken
    fun _ _ _ => trivial

/-- Something is done for its effect, and no value is given. -/
theorem keeps_nothing (hC : C.Upheld host) {x y : Action Unit}
    (h : C.Keeps C.Evaluates (fun _ _ => True) x y m) :
    C.Keeps C.Evaluates (fun s handles => ∀ h ∈ handles, C.Fits s h)
      (x >>= fun _ => pure []) (y >>= fun _ => pure []) m :=
  h.bind hC.evaluates fun _ _ hm₁ _ _ => keeps_pure hC.evaluates hm₁ (by simp)

theorem keeps_callBuiltin (hC : C.Upheld host) (hself : C.Agree self self')
    {args : List Expression} (isInfix : Bool) {op : Builtin} (hm : C.Inv m.store)
    (hargs : ∀ e ∈ args, C.FitsExpression m.store e)
    (hasks : op = .loadModule → ∀ s, C.Evaluates m.store s → ∀ path space,
      C.Asks s (.loadModule path space args)) :
    C.Keeps C.Evaluates (fun s handles => ∀ h ∈ handles, C.Fits s h)
      (callBuiltin self args isInfix op) (callBuiltin self' args isInfix op) m := by
  have htail : ∀ e ∈ args.tail, C.FitsExpression m.store e :=
    fun e he => hargs e (List.mem_of_mem_tail he)
  have hnothing : C.Keeps C.Evaluates (fun s handles => ∀ h ∈ handles, C.Fits s h)
      (pure []) (pure []) m := keeps_pure hC.evaluates hm (by simp)
  have hflush : ∀ m', C.Inv m'.store → C.Keeps C.Evaluates (fun _ _ => True) flush flush m' :=
    fun m' hm' => keeps_flush hC.evaluates hm' hC.raises_stream
  cases op with
  | declare =>
    cases isInfix with
    | true => exact hC.keeps_declareBetween hself hm htail
    | false => exact hC.keeps_declareInFront hself hm htail
  | assign => exact hC.keeps_assign hself hm htail
  | arithmetic op =>
    exact hC.keeps_pairwise hself (Identifier.isResult_arithmetic op) hm htail
  | update op => exact hC.keeps_update hself op hm htail
  | compare op => exact hC.keeps_pairwise hself (Identifier.isResult_compared op) hm htail
  | connect op => exact hC.keeps_pairwise hself (Identifier.isResult_connected op) hm htail
  | negate => exact hC.keeps_negate hself hm htail
  | index =>
    exact (hC.keeps_pairs hself hm htail).bind hC.evaluates fun _ _ hm₁ _ _ =>
      keeps_pure hC.evaluates hm₁ (by simp)
  | print =>
    exact (hC.keeps_print hself hm htail).bind hC.evaluates fun _ m₁ hm₁ _ _ =>
      hC.keeps_nothing (hflush m₁ hm₁)
  | printLine =>
    refine (hC.keeps_print hself hm htail).bind hC.evaluates fun _ m₁ hm₁ _ _ => ?_
    exact (keeps_write hC.evaluates hm₁ hC.raises_stream "\n").bind hC.evaluates
      fun _ m₂ hm₂ _ _ => hC.keeps_nothing (hflush m₂ hm₂)
  | dump =>
    exact (hC.keeps_dump hself hm htail).bind hC.evaluates fun _ m₁ hm₁ _ _ =>
      hC.keeps_nothing (hflush m₁ hm₁)
  | loadModule => exact hC.keeps_nothing (hC.keeps_loadModules hself hm hargs (hasks rfl))
  | push => exact hnothing
  | ifWord => exact hnothing
  | elseWord => exact hnothing
  | loopWord => exact hnothing

end Upheld

end Contract

end WordScript
