import WordScript.Proofs.Sequence

/-!
# Where a cut comes from

Apart from loops, an evaluation is cut off only because an operation that it asks for is: it relays
the cut. What it asks for is smaller than the evaluation itself, in a measure that goes by how deep
groups and blocks are nested. The rules for actions come first, then one lemma for each function of
the evaluation that can ask for anything.
-/

namespace WordScript

/-! ## The measure -/

namespace Expression

mutual

/-- How deep the groups of an expression are nested. -/
def height : Expression → Nat
  | leaf _ => 0
  | group es => heightOf es + 1

/-- The greatest height of expressions side by side. -/
def heightOf : List Expression → Nat
  | [] => 0
  | e :: es => max e.height (heightOf es)

end

@[simp] theorem height_leaf (h : Handle) : (leaf h).height = 0 := rfl

@[simp] theorem heightOf_nil : heightOf [] = 0 := rfl

@[simp] theorem heightOf_cons_le_iff {e : Expression} {es : List Expression} {n : Nat} :
    heightOf (e :: es) ≤ n ↔ e.height ≤ n ∧ heightOf es ≤ n := by
  rw [heightOf, Nat.max_le]

theorem heightOf_le_iff {es : List Expression} {n : Nat} :
    heightOf es ≤ n ↔ ∀ e ∈ es, e.height ≤ n := by
  induction es with
  | nil => simp
  | cons e es ih => simp [ih]

theorem heightOf_mono {es es' : List Expression} (h : es ⊆ es') : heightOf es ≤ heightOf es' :=
  heightOf_le_iff.mpr fun _ he => heightOf_le_iff.mp (Nat.le_refl _) _ (h he)

/-- The members of a group are less high than the group, and a leaf is as high as itself. -/
theorem heightOf_parts_le (e : Expression) : heightOf e.parts ≤ e.height := by
  cases e with
  | leaf h => simp [parts, heightOf, height]
  | group es => simp [parts, height]

end Expression

namespace Statement

mutual

/-- A number of steps that a statement without loops can be run in. -/
def steps : Statement → Nat
  | mk head body => max (3 * head.height + 5) (stepsOf body + 2)

/-- A number of steps that each of some statements can be run in. -/
def stepsOf : List Statement → Nat
  | [] => 0
  | s :: ss => max s.steps (stepsOf ss)

end

theorem steps_eq (s : Statement) :
    s.steps = max (3 * s.head.height + 5) (stepsOf s.body + 2) := by
  cases s
  rfl

end Statement

/-- The operation evaluates something that so many steps are enough for: three for each level of
groups, which are the group, the calls in it and their operands. -/
def Operation.EvaluatesWithin (n : Nat) : Operation → Prop
  | evaluate e => 3 * e.height + 1 ≤ n
  | evaluateGroup es => 3 * Expression.heightOf es + 3 ≤ n
  | call args _ => 3 * Expression.heightOf args + 2 ≤ n
  | loadModule _ _ _ => 1 ≤ n
  | _ => False

/-- The operation runs something that so many steps are enough for, unless there is a loop in it. -/
def Operation.RunsWithin (n : Nat) : Operation → Prop
  | runStep s _ => s.steps ≤ n
  | runBlock body => Statement.stepsOf body + 1 ≤ n
  | decide condition => 3 * Expression.heightOf condition + 4 ≤ n
  | run s => s.steps + 1 ≤ n
  | runTopLevel s => s.steps + 1 ≤ n
  | _ => False

/-- So many steps are enough for the operation, unless there is a loop in it. -/
def Operation.EndsWithin (n : Nat) (op : Operation) : Prop :=
  op.EvaluatesWithin n ∨ op.RunsWithin n

/-- The head of a statement makes a loop of it: its first word stands for that control word where
the statement is run. -/
def Statement.HeadsLoop (s : Statement) (m : Machine) : Prop :=
  ∃ condition m', Evaluation.classify s.head m = .value (.whileTrue condition) m'

namespace Evaluation

open WordScript.Action WordScript.Machine

/-! ## Actions that ask for nothing -/

/-- An action that is never cut off. -/
def Settles {α : Type} (x : Action α) : Prop :=
  ∀ m, x m ≠ .cutOff

section Settles

variable {α β : Type} {x : Action α} {f : α → Action β}

theorem settles_pure (a : α) : Settles (pure a) := nofun

theorem settles_fail (e : RuntimeError) : Settles (fail e : Action α) := nofun

theorem settles_inspect (f : Machine → α) : Settles (inspect f) := nofun

theorem settles_change (f : Machine → Machine) : Settles (change f) := nofun

theorem settles_onStore (f : Store → α × Store) : Settles (onStore f) := nofun

theorem settles_tryStore (f : Store → Except RuntimeError (α × Store)) : Settles (tryStore f) := by
  intro m
  unfold tryStore
  split <;> nofun

theorem settles_ofExcept (result : Except RuntimeError α) : Settles (ofExcept result) := by
  cases result with
  | ok a => exact settles_pure a
  | error e => exact settles_fail e

theorem Settles.bind (hx : Settles x) (hf : ∀ a, Settles (f a)) : Settles (x >>= f) := by
  intro m
  rw [bind_apply]
  cases hxm : x m with
  | value a m' => exact hf a m'
  | failure e m' => nofun
  | cutOff => exact absurd hxm (hx m)

theorem settles_concatMap {f : α → Action (List β)} (hf : ∀ a, Settles (f a)) (as : List α) :
    Settles (concatMap f as) := by
  induction as with
  | nil => exact settles_pure _
  | cons a as ih => exact (hf a).bind fun _ => ih.bind fun _ => settles_pure _

theorem settles_forEach {f : α → Action Unit} (hf : ∀ a, Settles (f a)) (as : List α) :
    Settles (forEach f as) := by
  induction as with
  | nil => exact settles_pure _
  | cons a as ih => exact (hf a).bind fun _ => ih

theorem settles_identifier (h : Handle) : Settles (identifier h) := by
  intro m
  unfold identifier
  split <;> nofun

theorem settles_write (text : String) : Settles (write text) := by
  intro m
  unfold write
  split <;> nofun

theorem settles_flush : Settles flush := by
  intro m
  unfold flush
  split <;> nofun

theorem settles_setValue (h : Handle) (value : Value) : Settles (setValue h value) :=
  settles_tryStore _

theorem settles_declare (i : Identifier) : Settles (declare i) := settles_tryStore _

theorem settles_resolveLeaf (h : Handle) : Settles (resolveLeaf h) := by
  refine (settles_identifier h).bind fun i => ?_
  split
  · exact settles_tryStore _
  · exact settles_pure h

theorem settles_declareAs (type : String) (h : Handle) : Settles (declareAs type h) := by
  refine (settles_identifier h).bind fun i => ?_
  split
  · exact settles_declare _
  · exact settles_fail _

theorem settles_requireVariable (target : Identifier) : Settles (requireVariable target) := by
  unfold requireVariable
  split
  · exact settles_pure ()
  · exact settles_fail _

theorem settles_typeOfFirst? (depth : Nat) (handles : List Handle) :
    Settles (typeOfFirst? depth handles) := by
  induction handles with
  | nil => exact settles_pure none
  | cons h handles ih =>
    refine (settles_identifier h).bind fun i => ?_
    split
    · exact settles_pure _
    · exact ih

theorem settles_controlWord? (e? : Option Expression) : Settles (controlWord? e?) := by
  unfold controlWord?
  split
  · exact (settles_resolveLeaf _).bind fun k => (settles_identifier k).bind fun _ =>
      settles_pure _
  · exact settles_pure none

theorem settles_classify (head : Expression) : Settles (classify head) := by
  refine (settles_controlWord? _).bind fun op => ?_
  split
  · exact settles_pure _
  · exact settles_pure _
  · refine (settles_controlWord? _).bind fun op' => ?_
    split <;> exact settles_pure _
  · exact settles_pure _

end Settles

/-- Every value that an action can give meets a condition. -/
def Yields {α : Type} (P : α → Prop) (x : Action α) : Prop :=
  ∀ m a m', x m = .value a m' → P a

theorem yields_pure {α : Type} {P : α → Prop} {a : α} (ha : P a) : Yields P (pure a) := by
  intro m b m' h
  obtain ⟨rfl, -⟩ := Outcome.value.inj h
  exact ha

theorem yields_bind {α β : Type} {P : β → Prop} {x : Action α} {f : α → Action β}
    (hf : ∀ a, Yields P (f a)) : Yields P (x >>= f) := by
  intro m b m' h
  rw [bind_apply] at h
  split at h
  · next a m₁ _ => exact hf a m₁ b m' h
  · cases h
  · cases h

/-! ## Rules for actions -/

/-- When the action is cut off, then because an operation of some kind is, which it asks for: it
would have failed if that operation had failed. -/
def Relays {α : Type} (K : Operation → Prop) (self : Performer) (x : Performer → Action α)
    (m : Machine) : Prop :=
  x self m = .cutOff → ∃ op m', K op ∧ self op m' = .cutOff ∧
    ∃ e m'', x (alter self op m' (.failure .elseWithoutIf m')) m = .failure e m''

section Rules

variable {α β : Type} {K : Operation → Prop} {self : Performer} {m : Machine}
variable {x : Performer → Action α} {f : α → Performer → Action β}

/-- An action that is relayed a cut asks for the operation that was cut off. -/
theorem Relays.asks (hx : Relays K self x m) (hcut : x self m = .cutOff) :
    ∃ op m', K op ∧ self op m' = .cutOff ∧ Asks x self m op m' := by
  obtain ⟨op, m', hop, hself, e, m'', hfails⟩ := hx hcut
  refine ⟨op, m', hop, hself, .failure .elseWithoutIf m', self op m', ?_⟩
  rw [hfails, alter_same, hcut]
  nofun

/-- How an operation that is cut off might have ended makes no difference to what is not cut off. -/
theorem Sequential.alter_eq (hx : Sequential x) {op : Operation} {m' : Machine}
    (hcut : self op m' = .cutOff) (hends : x self m ≠ .cutOff) (o : Outcome op.Answer) :
    x (Evaluation.alter self op m' o) m = x self m := by
  by_contra hne
  obtain ⟨op₁, m₁, hdiffers, hcut₁⟩ := hx self _ m hends (Ne.symm hne)
  obtain ⟨rfl, rfl⟩ : op₁ = op ∧ m₁ = m' :=
    Classical.byContradiction fun hne => hdiffers (alter_of_ne hne).symm
  rw [← hcut, alter_same] at hcut₁
  exact hends hcut₁

theorem relays_const {y : Action α} (hy : Settles y) : Relays K self (fun _ => y) m :=
  fun hcut => absurd hcut (hy m)

theorem relays_ask {op : Operation} (hop : K op) : Relays K self (fun self => self op) m :=
  fun hcut => ⟨op, m, hop, hcut, _, _, alter_self self op m _⟩

theorem Relays.bind (hseq : Sequential x) (hx : Relays K self x m)
    (hf : ∀ a m₁, x self m = .value a m₁ → Relays K self (f a) m₁) :
    Relays K self (fun self => x self >>= fun a => f a self) m := by
  intro hcut
  simp only [bind_apply] at hcut ⊢
  cases hxm : x self m with
  | value a m₁ =>
    rw [hxm] at hcut
    obtain ⟨op, m', hop, hself, e, m'', hfails⟩ := hf a m₁ hxm hcut
    refine ⟨op, m', hop, hself, e, m'', ?_⟩
    rw [hseq.alter_eq hself (by rw [hxm]; nofun), hxm]
    exact hfails
  | failure e m₁ =>
    rw [hxm] at hcut
    cases hcut
  | cutOff =>
    obtain ⟨op, m', hop, hself, e, m'', hfails⟩ := hx hxm
    refine ⟨op, m', hop, hself, e, m'', ?_⟩
    rw [hfails]

/-- Something is asked for, and then nothing more. -/
theorem Relays.bind_const (hseq : Sequential x) (hx : Relays K self x m) {g : α → Action β}
    (hg : ∀ a, Settles (g a)) : Relays K self (fun self => x self >>= g) m :=
  hx.bind hseq fun a _ _ => relays_const (hg a)

/-- Nothing is asked for at first. -/
theorem Relays.const_bind {y : Action α} (hy : Settles y)
    (hf : ∀ a m₁, y m = .value a m₁ → Relays K self (f a) m₁) :
    Relays K self (fun self => y >>= fun a => f a self) m :=
  (relays_const hy).bind (sequential_const y) hf

theorem Relays.ite {c : Prop} [Decidable c] {y : Performer → Action α}
    (hx : Relays K self x m) (hy : Relays K self y m) :
    Relays K self (fun self => if c then x self else y self) m := by
  by_cases hc : c
  · simpa only [hc, if_true] using hx
  · simpa only [hc, if_false] using hy

theorem relays_concatMap {f : Performer → α → Action (List β)}
    (hseq : ∀ a, Sequential fun self => f self a) (as : List α)
    (hf : ∀ a ∈ as, ∀ m, Relays K self (fun self => f self a) m) :
    Relays K self (fun self => concatMap (f self) as) m := by
  induction as generalizing m with
  | nil => exact relays_const (settles_pure _)
  | cons a as ih =>
    refine (hf a (by simp) m).bind (hseq a) fun _ m₁ _ => ?_
    refine (ih fun b hb => hf b (List.mem_cons_of_mem a hb)).bind_const
      (sequential_concatMap hseq as) fun _ => settles_pure _

theorem relays_forEach {f : Performer → α → Action Unit}
    (hseq : ∀ a, Sequential fun self => f self a) (as : List α)
    (hf : ∀ a ∈ as, ∀ m, Relays K self (fun self => f self a) m) :
    Relays K self (fun self => forEach (f self) as) m := by
  induction as generalizing m with
  | nil => exact relays_const (settles_pure _)
  | cons a as ih =>
    exact (hf a (by simp) m).bind (hseq a) fun _ m₁ _ =>
      ih fun b hb => hf b (List.mem_cons_of_mem a hb)

/-- A frame is left again whether or not something failed in it. -/
theorem Relays.inFrame {host : Host} (hx : Relays K self x { m with store := m.store.enter }) :
    Relays K self (fun self => Evaluation.inFrame host (x self)) m := by
  intro hcut
  obtain ⟨op, m', hop, hself, e, m'', hfails⟩ := hx (inFrame_eq_cutOff_iff.mp hcut)
  refine ⟨op, m', hop, hself, e, ?_⟩
  simp only [Evaluation.inFrame, hfails]
  exact ⟨_, rfl⟩

end Rules

/-! ## Groups -/

section Functions

variable {self : Performer} {m : Machine} {n h : Nat}

theorem relays_evaluate {e : Expression} (he : 3 * e.height ≤ n) :
    Relays (Operation.EvaluatesWithin n) self (fun self => evaluate self e) m := by
  cases e with
  | leaf h => exact relays_const ((settles_resolveLeaf h).bind fun _ => settles_pure _)
  | group es =>
    refine relays_ask ?_
    rw [Expression.height] at he
    change 3 * Expression.heightOf es + 3 ≤ n
    omega

/-- What a call gives waits as leaves. -/
theorem heightOf_map_leaf (handles : List Handle) :
    Expression.heightOf (handles.map .leaf) = 0 := by
  rw [← Nat.le_zero, Expression.heightOf_le_iff]
  simp

theorem relays_scan (before waiting : List Expression) (hn : 3 * h + 2 ≤ n)
    (hbefore : Expression.heightOf before ≤ h) (hwaiting : Expression.heightOf waiting ≤ h) :
    Relays (Operation.EvaluatesWithin n) self (fun self => scan self before waiting) m := by
  induction hlength : before.length using Nat.strongRecOn generalizing before waiting m with
  | ind length ih =>
  have afterCall : ∀ (args rest : List Expression) (isInfix : Bool) (m₁ : Machine),
      rest.length < length → Expression.heightOf args ≤ h → Expression.heightOf rest ≤ h →
      Relays (Operation.EvaluatesWithin n) self
        (fun self => self (.call args isInfix) >>= fun results =>
          scan self rest (results.map .leaf)) m₁ := by
    intro args rest isInfix m₁ hrest hargs hheight
    have hcall : (Operation.call args isInfix).EvaluatesWithin n := by
      change 3 * Expression.heightOf args + 2 ≤ n
      omega
    refine (relays_ask hcall).bind (sequential_ask _) fun results m₂ _ => ?_
    exact ih _ hrest rest _ hheight (by simp [heightOf_map_leaf]) rfl
  match before with
  | [] =>
    simp only [scan]
    exact relays_const (settles_pure _)
  | .group es :: before =>
    obtain ⟨hgroup, hrest⟩ := Expression.heightOf_cons_le_iff.mp hbefore
    simp only [scan]
    exact ih before.length (by simp [← hlength]) before _ hrest (by simp [hgroup, hwaiting]) rfl
  | .leaf k :: before =>
    obtain ⟨-, hrest⟩ := Expression.heightOf_cons_le_iff.mp hbefore
    simp only [scan]
    refine Relays.const_bind (settles_resolveLeaf k) fun callee m₁ _ => ?_
    refine Relays.const_bind (settles_identifier callee) fun i m₂ _ => ?_
    refine Relays.ite (ih before.length (by simp [← hlength]) before _ hrest ?_ rfl) ?_
    · simp [hwaiting]
    · split
      · obtain ⟨hleft, hrest⟩ := Expression.heightOf_cons_le_iff.mp hrest
        refine afterCall _ _ _ _ (by grind) ?_ hrest
        simpa [hleft] using hwaiting
      · exact afterCall _ _ _ _ (by simp [← hlength]) (by simp [hwaiting]) hrest

/-- What is left waiting is no higher than the members of the group. -/
theorem yields_scan (before waiting : List Expression) (hbefore : Expression.heightOf before ≤ h)
    (hwaiting : Expression.heightOf waiting ≤ h) :
    Yields (fun es => Expression.heightOf es ≤ h) (scan self before waiting) := by
  induction hlength : before.length using Nat.strongRecOn generalizing before waiting with
  | ind length ih =>
  have afterCall : ∀ (args rest : List Expression) (isInfix : Bool),
      rest.length < length → Expression.heightOf rest ≤ h →
      Yields (fun es => Expression.heightOf es ≤ h)
        (self (.call args isInfix) >>= fun results => scan self rest (results.map .leaf)) := by
    intro args rest isInfix hrest hheight
    exact yields_bind fun results => ih _ hrest rest _ hheight (by simp [heightOf_map_leaf]) rfl
  match before with
  | [] =>
    simp only [scan]
    exact yields_pure hwaiting
  | .group es :: before =>
    obtain ⟨hgroup, hrest⟩ := Expression.heightOf_cons_le_iff.mp hbefore
    simp only [scan]
    exact ih before.length (by simp [← hlength]) before _ hrest (by simp [hgroup, hwaiting]) rfl
  | .leaf k :: before =>
    obtain ⟨-, hrest⟩ := Expression.heightOf_cons_le_iff.mp hbefore
    simp only [scan]
    refine yields_bind fun callee => yields_bind fun i => ?_
    split
    · exact ih before.length (by simp [← hlength]) before _ hrest (by simp [hwaiting]) rfl
    · split
      · obtain ⟨-, hrest⟩ := Expression.heightOf_cons_le_iff.mp hrest
        exact afterCall _ _ _ (by grind) hrest
      · exact afterCall _ _ _ (by simp [← hlength]) hrest

theorem relays_evaluateGroup {es : List Expression} (hes : 3 * Expression.heightOf es + 2 ≤ n) :
    Relays (Operation.EvaluatesWithin n) self (fun self => evaluateGroup self es) m := by
  have hreverse : Expression.heightOf es.reverse ≤ Expression.heightOf es :=
    Expression.heightOf_mono fun _ he => List.mem_reverse.mp he
  refine Relays.const_bind (settles_change _) fun _ m₁ _ => ?_
  refine (relays_scan es.reverse [] hes hreverse (by simp)).bind (sequential_scan _ _)
    fun waiting m₂ hwaiting => ?_
  have hheight := yields_scan es.reverse [] hreverse (by simp) m₁ waiting m₂ hwaiting
  refine relays_concatMap sequential_collect waiting fun e he m₃ => ?_
  cases e with
  | leaf k => exact relays_const (settles_pure _)
  | group es' =>
    refine relays_ask ?_
    have he := Expression.heightOf_le_iff.mp hheight _ he
    change 3 * (Expression.group es').height + 1 ≤ n
    omega

/-! ## Built-in functions -/

section Operands

variable {operands : List Expression} (hn : 3 * Expression.heightOf operands + 1 ≤ n)

include hn

theorem relays_operand {e : Expression} (he : e ∈ operands) :
    Relays (Operation.EvaluatesWithin n) self (fun self => self (.evaluate e)) m := by
  refine relays_ask ?_
  have hheight := Expression.heightOf_le_iff.mp (Nat.le_refl _) e he
  change 3 * e.height + 1 ≤ n
  omega

theorem relays_evaluateEach {es : List Expression} (hes : es ⊆ operands) :
    Relays (Operation.EvaluatesWithin n) self (fun self => evaluateEach self es) m :=
  relays_concatMap (fun _ => sequential_ask _) es fun _ he _ => relays_operand hn (hes he)

theorem relays_declareBetween :
    Relays (Operation.EvaluatesWithin n) self (fun self => declareBetween self operands) m := by
  unfold declareBetween
  cases hlast : operands.getLast? with
  | none => exact relays_const (settles_pure _)
  | some last =>
    refine (relays_operand hn (List.mem_of_getLast? hlast)).bind (sequential_ask _)
      fun values m₁ _ => ?_
    split
    · refine Relays.const_bind (settles_identifier _) fun type m₂ _ => ?_
      refine Relays.ite ?_ (relays_const (settles_fail _))
      refine (relays_evaluateEach hn (List.dropLast_subset _)).bind_const
        (sequential_evaluateEach _) fun targets => ?_
      exact settles_concatMap (fun k => (settles_declareAs _ k).bind fun _ => settles_pure _) _
    · exact relays_const (settles_fail _)

theorem relays_declareInFront :
    Relays (Operation.EvaluatesWithin n) self (fun self => declareInFront self operands) m := by
  refine (relays_evaluateEach hn (List.Subset.refl _)).bind_const (sequential_evaluateEach _)
    fun handles => ?_
  refine (settles_inspect _).bind fun here => ?_
  refine (settles_typeOfFirst? _ _).bind fun type? => settles_concatMap (fun k => ?_) _
  refine (settles_identifier k).bind fun i => ?_
  split
  · exact settles_pure _
  · split
    · exact (settles_declareAs _ k).bind fun _ => settles_pure _
    · exact settles_fail _

theorem relays_pairs :
    Relays (Operation.EvaluatesWithin n) self (fun self => pairs self operands) m := by
  refine (relays_evaluateEach hn (List.take_subset 1 _)).bind (sequential_evaluateEach _)
    fun left m₁ _ => ?_
  refine (relays_evaluateEach hn (List.drop_subset 1 _)).bind_const (sequential_evaluateEach _)
    fun right => ?_
  split
  · exact settles_pure _
  · exact settles_fail _

/-- What is done with each pair asks for nothing. -/
theorem relays_eachPair {f : Handle × Handle → Action (List Handle)} (hf : ∀ p, Settles (f p)) :
    Relays (Operation.EvaluatesWithin n) self (fun self => pairs self operands >>= concatMap f) m :=
  (relays_pairs hn).bind_const (sequential_pairs _) fun ps => settles_concatMap hf ps

theorem relays_pairwise
    (result : Identifier → Identifier → Except RuntimeError Identifier) :
    Relays (Operation.EvaluatesWithin n) self (fun self => pairwise self operands result) m :=
  relays_eachPair hn fun _ =>
    (settles_identifier _).bind fun _ => (settles_identifier _).bind fun _ =>
      (settles_ofExcept _).bind fun _ => (settles_onStore _).bind fun _ => settles_pure _

theorem relays_assign :
    Relays (Operation.EvaluatesWithin n) self (fun self => assign self operands) m := by
  refine relays_eachPair hn fun p => ?_
  refine (settles_identifier _).bind fun target => (settles_requireVariable target).bind fun _ => ?_
  split
  · exact settles_pure _
  · exact (settles_identifier _).bind fun right => (settles_ofExcept _).bind fun value =>
      (settles_setValue _ _).bind fun _ => settles_pure _

theorem relays_update (op : Arithmetic) :
    Relays (Operation.EvaluatesWithin n) self (fun self => update self op operands) m := by
  refine relays_eachPair hn fun p => ?_
  refine (settles_identifier _).bind fun target => (settles_requireVariable target).bind fun _ => ?_
  exact (settles_identifier _).bind fun right => (settles_ofExcept _).bind fun result =>
    (settles_ofExcept _).bind fun value => (settles_setValue _ _).bind fun _ => settles_pure _

theorem relays_negate :
    Relays (Operation.EvaluatesWithin n) self (fun self => negate self operands) m := by
  refine (relays_evaluateEach hn (List.Subset.refl _)).bind_const (sequential_evaluateEach _)
    fun handles => settles_concatMap (fun k => ?_) _
  exact (settles_identifier k).bind fun i => (settles_onStore _).bind fun _ => settles_pure _

/-- Something is written for each value of each operand, and something after each operand. -/
theorem relays_forEach_value (text : Handle → Identifier → String) {after : Action Unit}
    (hafter : Settles after) :
    Relays (Operation.EvaluatesWithin n) self (fun self => forEach (fun e => do
      let handles ← self (.evaluate e)
      forEach (fun h => do write (text h (← identifier h))) handles
      after) operands) m := by
  refine relays_forEach (fun e => (sequential_ask _).bind fun _ => sequential_const _) operands
    fun e he m₁ => ?_
  refine (relays_operand hn he).bind_const (sequential_ask _) fun handles => ?_
  refine Settles.bind (settles_forEach (fun k => ?_) handles) fun _ => hafter
  exact (settles_identifier k).bind fun _ => settles_write _

theorem relays_print :
    Relays (Operation.EvaluatesWithin n) self (fun self => print self operands) m := by
  unfold print
  simpa only [bind_pure_unit] using relays_forEach_value hn (fun _ i => i.toText) (settles_pure ())

theorem relays_dump :
    Relays (Operation.EvaluatesWithin n) self (fun self => dump self operands) m :=
  relays_forEach_value hn dumped (settles_write _)

end Operands

theorem relays_callBuiltin {args : List Expression} (isInfix : Bool) (op : Builtin)
    (hargs : 3 * Expression.heightOf args + 1 ≤ n) :
    Relays (Operation.EvaluatesWithin n) self (fun self => callBuiltin self args isInfix op) m := by
  have htail : 3 * Expression.heightOf args.tail + 1 ≤ n := by
    have hmono := Expression.heightOf_mono fun e (he : e ∈ args.tail) => List.mem_of_mem_tail he
    omega
  have hflush : Settles (flush >>= fun _ => pure ([] : List Handle)) :=
    settles_flush.bind fun _ => settles_pure _
  cases op with
  | declare => exact Relays.ite (relays_declareBetween htail) (relays_declareInFront htail)
  | assign => exact relays_assign htail
  | arithmetic op => exact relays_pairwise htail _
  | update op => exact relays_update htail op
  | compare op => exact relays_pairwise htail _
  | connect op => exact relays_pairwise htail _
  | negate => exact relays_negate htail
  | index => exact (relays_pairs htail).bind_const (sequential_pairs _) fun _ => settles_pure _
  | print => exact (relays_print htail).bind_const (sequential_print _) fun _ => hflush
  | printLine =>
    exact (relays_print htail).bind_const (sequential_print _) fun _ =>
      (settles_write _).bind fun _ => hflush
  | dump => exact (relays_dump htail).bind_const (sequential_dump _) fun _ => hflush
  | loadModule =>
    refine Relays.bind_const (sequential_loadModules args) ?_ fun _ => settles_pure _
    refine (relays_evaluateEach htail (List.Subset.refl _)).bind (sequential_evaluateEach _)
      fun handles m₁ _ => ?_
    refine Relays.const_bind (settles_concatMap (fun k => ?_) handles) fun words m₂ _ => ?_
    · exact (settles_identifier k).bind fun _ => settles_pure _
    · refine relays_forEach (fun _ => sequential_ask _) (requests words) fun r _ m₃ => relays_ask ?_
      change 1 ≤ n
      omega
  | _ => exact relays_const (settles_pure _)

/-- A call of anything but a function of the host. -/
theorem relays_call {host : Host} {args : List Expression} (isInfix : Bool)
    (hargs : 3 * Expression.heightOf args + 1 ≤ n)
    (hbuiltin : ∀ callee i label, args.head?.bind Expression.handle? = some callee →
      m.store.arena.get? callee = some i → i.callable? ≠ some (.native label)) :
    Relays (Operation.EvaluatesWithin n) self (fun self => call host self args isInfix) m := by
  unfold call
  cases hcallee : args.head?.bind Expression.handle? with
  | none => exact relays_const (settles_fail _)
  | some callee =>
    refine Relays.const_bind (settles_identifier callee) fun i m₁ hi => ?_
    cases hcallable : i.callable? with
    | none => exact relays_const (settles_fail _)
    | some c =>
      cases c with
      | builtin op => exact relays_callBuiltin isInfix op hargs
      | native label =>
        have hget : m.store.arena.get? callee = some i := by
          unfold identifier at hi
          split at hi <;> grind
        exact absurd hcallable (hbuiltin callee i label hcallee hget)

/-! ## Statements -/

theorem relays_runAll (body : List Statement) (ladder : Option Bool)
    (hbody : Statement.stepsOf body ≤ n) :
    Relays (Operation.EndsWithin n) self (fun self => runAll self body ladder) m := by
  induction body generalizing ladder m with
  | nil => exact relays_const (settles_pure _)
  | cons s ss ih =>
    rw [Statement.stepsOf, Nat.max_le] at hbody
    have hs : (Operation.runStep s ladder).EndsWithin n := .inr hbody.1
    exact (relays_ask hs).bind (sequential_ask _) fun ladder m₁ _ => ih ladder hbody.2

theorem relays_holds {condition : List Expression}
    (hcondition : 3 * Expression.heightOf condition + 3 ≤ n) :
    Relays (Operation.EndsWithin n) self (fun self => holds self condition) m := by
  have hask : (Operation.evaluateGroup condition).EndsWithin n := .inl hcondition
  refine (relays_ask hask).bind_const (sequential_ask _) fun values => ?_
  split
  · exact (settles_identifier _).bind fun _ => settles_pure _
  · exact settles_fail _

/-- The condition of a statement consists of parts of its head. -/
theorem yields_classify (head : Expression) :
    Yields (fun found => found.condition ⊆ head.parts) (classify head) := by
  refine yields_bind fun op => ?_
  split
  · exact yields_pure fun _ => List.mem_of_mem_tail
  · exact yields_pure fun _ => List.mem_of_mem_tail
  · refine yields_bind fun op' => ?_
    split
    · exact yields_pure (List.drop_subset 2 _)
    · exact yields_pure (List.nil_subset _)
  · exact yields_pure (List.nil_subset _)

/-- A statement that is no loop. -/
theorem relays_runStep (steps : Nat) {s : Statement} (ladder : Option Bool) (hs : s.steps ≤ n + 1)
    (hloop : ¬ s.HeadsLoop m) :
    Relays (Operation.EndsWithin n) self (fun self => runStep self steps s ladder) m := by
  rw [Statement.steps_eq, Nat.max_le] at hs
  have hblock : (Operation.runBlock s.body).EndsWithin n := by
    refine .inr ?_
    change Statement.stepsOf s.body + 1 ≤ n
    omega
  refine Relays.ite (relays_const (settles_pure _)) ?_
  refine Relays.const_bind (settles_classify s.head) fun found m₁ hfound => ?_
  have hcondition : (Operation.decide found.condition).EndsWithin n := by
    have hmono := Expression.heightOf_mono (yields_classify s.head m found m₁ hfound)
    have hparts := Expression.heightOf_parts_le s.head
    refine .inr ?_
    change 3 * Expression.heightOf found.condition + 4 ≤ n
    omega
  have hrung : ∀ condition, found.condition = condition →
      Relays (Operation.EndsWithin n) self
        (fun self => (do return some (← runRung self condition s.body))) m₁ := by
    rintro condition rfl
    refine Relays.bind_const (sequential_runRung _ _) ?_ fun _ => settles_pure _
    refine (relays_ask hcondition).bind (sequential_ask _) fun taken m₂ _ => ?_
    refine Relays.ite ?_ (relays_const (settles_pure _))
    exact (relays_ask hblock).bind_const (sequential_ask _) fun _ => settles_pure _
  have hblock : ∀ m₂, Relays (Operation.EndsWithin n) self
      (fun self => (do self (.runBlock s.body); return (none : Option Bool))) m₂ := fun _ =>
    (relays_ask hblock).bind_const (sequential_ask _) fun _ => settles_pure _
  cases found with
  | ifTrue condition => exact hrung condition rfl
  | elseIf condition =>
    match ladder with
    | none => exact relays_const (settles_fail _)
    | some true => exact relays_const (settles_pure _)
    | some false => exact hrung condition rfl
  | otherwise =>
    match ladder with
    | none => exact relays_const (settles_fail _)
    | some true => exact relays_const (settles_pure _)
    | some false => exact hblock m₁
  | whileTrue condition => exact absurd ⟨condition, m₁, hfound⟩ hloop
  | plain =>
    have hbody : ∀ m₂, Relays (Operation.EndsWithin n) self
        (fun self => if s.isBlock then (do self (.runBlock s.body); return none) else return none)
        m₂ := fun m₂ => Relays.ite (hblock m₂) (relays_const (settles_pure none))
    have hhead : (Operation.evaluate s.head).EndsWithin n := by
      refine .inl ?_
      change 3 * s.head.height + 1 ≤ n
      omega
    refine Relays.ite ?_ (hbody m₁)
    exact (relays_ask hhead).bind (sequential_ask _) fun _ m₂ _ => hbody m₂

theorem relays_runTopLevel {s : Statement} (hs : s.steps ≤ n) :
    Relays (Operation.EndsWithin n) self (fun self => runTopLevel self s) m := by
  rw [Statement.steps_eq, Nat.max_le] at hs
  have hhead : (Operation.evaluate s.head).EndsWithin n := by
    refine .inl ?_
    change 3 * s.head.height + 1 ≤ n
    omega
  have hbody : Statement.stepsOf s.body ≤ n := by omega
  refine Relays.ite ?_ (relays_runAll s.body none hbody)
  exact (relays_ask hhead).bind (sequential_ask _) fun _ _ _ => relays_runAll s.body none hbody

/-! ## Operations -/

/-- One step of an evaluation is cut off only when a smaller evaluation is that it asks for: it does
not call a function of the host or load a module. -/
theorem relays_evaluation {host : Host} (steps : Nat) {op : Operation}
    (hop : op.EvaluatesWithin (n + 1))
    (hbuiltin : ∀ args isInfix callee i label, op = .call args isInfix →
      args.head?.bind Expression.handle? = some callee →
      m.store.arena.get? callee = some i → i.callable? ≠ some (.native label))
    (hmodule : ∀ path entry, host.openModule path ≠ .ok entry) :
    Relays (Operation.EvaluatesWithin n) self (fun self => step host self steps op) m := by
  cases op with
  | evaluate e => exact relays_evaluate (Nat.le_of_succ_le_succ hop)
  | evaluateGroup es => exact relays_evaluateGroup (Nat.le_of_succ_le_succ hop)
  | call args isInfix =>
    exact relays_call isInfix (Nat.le_of_succ_le_succ hop) fun callee i label =>
      hbuiltin args isInfix callee i label rfl
  | loadModule path space args =>
    simp only [step, loadModule]
    cases hopen : host.openModule path with
    | error e => exact relays_const (settles_fail e)
    | ok entry => exact absurd hopen (hmodule path entry)
  | _ => exact hop.elim

/-- One step of running something is cut off only when something smaller is that it asks for: it is
no loop. -/
theorem relays_running {host : Host} (steps : Nat) {op : Operation} (hop : op.RunsWithin (n + 1))
    (hloop : ∀ s ladder, op = .runStep s ladder → ¬ s.HeadsLoop m) :
    Relays (Operation.EndsWithin n) self (fun self => step host self steps op) m := by
  cases op with
  | runStep s ladder => exact relays_runStep steps ladder hop (hloop s ladder rfl)
  | runBlock body => exact (relays_runAll body none (Nat.le_of_succ_le_succ hop)).inFrame
  | decide condition => exact (relays_holds (Nat.le_of_succ_le_succ hop)).inFrame
  | run s =>
    have hs : (Operation.runStep s none).EndsWithin n := .inr (Nat.le_of_succ_le_succ hop)
    exact (relays_ask hs).bind_const (sequential_ask _) fun _ => settles_pure _
  | runTopLevel s => exact relays_runTopLevel (Nat.le_of_succ_le_succ hop)
  | _ => exact hop.elim

end Functions

end Evaluation

end WordScript
