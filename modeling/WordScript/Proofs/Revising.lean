import WordScript.Proofs.Reassigning
import WordScript.Proofs.Relaying

/-!
# Evaluating without declarations

An evaluation that calls no function but built-in ones, none of which declares a name or loads a
module, does three things to the store: it resolves names, adds temporary identifiers, and writes the
payloads of variables. So variables stay variables, and names stay bound. It asks only for evaluations
of the same kind, and comes to an end. The rules for actions come first, then one lemma for each
function of the evaluation.
-/

namespace WordScript

namespace Store

/-- One after the other, names have been resolved, temporary identifiers added and payloads of
variables written. -/
inductive Revises (s : Store) : Store → Prop where
  | refl : s.Revises s
  | resolve {s' s'' : Store} {name : String} {k : Handle} (h : s.Revises s')
      (hr : s'.resolve name = .ok (k, s'')) : s.Revises s''
  | push {s' : Store} (h : s.Revises s') (i : Identifier) : s.Revises (s'.pushTemporary i).2
  | put {s' : Store} {k : Handle} {i : Identifier} (h : s.Revises s')
      (hi : s'.arena.get? k = some i) (hvariable : i.isVariable = true) (value : Value) :
      s.Revises { s' with arena := s'.arena.put k.index { i with value } }

variable {s s' s'' : Store}

theorem Revises.trans (h : s.Revises s') (h' : s'.Revises s'') : s.Revises s'' := by
  induction h' with
  | refl => exact h
  | resolve _ hr ih => exact ih.resolve hr
  | push _ i ih => exact ih.push i
  | put _ hi hvariable value ih => exact ih.put hi hvariable value

theorem Revises.reassigns (hs : s.Ready) (h : s.Revises s') : s.Reassigns s' := by
  induction h with
  | refl => exact .refl hs
  | resolve _ hr ih => exact ih.trans (widens_resolve ih.ready hr).reassigns
  | push _ i ih => exact ih.trans (widens_pushTemporary ih.ready i).reassigns
  | put _ hi hvariable value ih => exact ih.trans (reassigns_put ih.ready hi hvariable value)

theorem Revises.makesNoFunction (hs : s.Ready) (h : s.Revises s') : s.MakesNoFunction s' := by
  induction h with
  | refl => exact .refl hs
  | resolve _ hr ih => exact ih.trans (makesNoFunction_resolve ih.ready hr)
  | push _ i ih => exact ih.trans (makesNoFunction_pushTemporary ih.ready i)
  | put _ hi hvariable value ih =>
    exact ih.trans (makesNoFunction_put ih.ready hi hvariable (ih.ready.sound.put hi rfl rfl))

end Store

/-- The operation declares no name and loads no module. -/
def Builtin.Stays (op : Builtin) : Prop := op ≠ .declare ∧ op ≠ .loadModule

instance (op : Builtin) : Decidable op.Stays := inferInstanceAs (Decidable (_ ∧ _))

/-- The identifier is no function, or a built-in one that declares no name and loads no module. -/
def Identifier.Stays (i : Identifier) : Prop :=
  i.isFunction = true → ∃ op, i.callable? = some (.builtin op) ∧ op.Stays

theorem Identifier.stays_of_not_isFunction (i : Identifier) (hi : i.isFunction = false) :
    i.Stays := by
  intro hfunction
  rw [hi] at hfunction
  cases hfunction

/-- The leaves of a group resolve to such identifiers; a leaf by itself is only resolved. -/
def Store.Operable (s : Store) : Expression → Prop
  | .leaf _ => True
  | .group es => ∀ h ∈ Expression.leavesOf es, s.ResolvesTo Identifier.Stays h

theorem Store.operable_of_leaves {s : Store} {e : Expression}
    (h : ∀ k ∈ e.leaves, s.ResolvesTo Identifier.Stays k) : s.Operable e := by
  cases e with
  | leaf k => trivial
  | group es => exact h

theorem Store.Revises.resolvesTo {s s' : Store} (hs : s.Ready) (h : s.Revises s') {k : Handle}
    (hk : s.ResolvesTo Identifier.Stays k) : s'.ResolvesTo Identifier.Stays k :=
  hk.mono Identifier.stays_of_not_isFunction hs (h.makesNoFunction hs)

theorem Store.Revises.operable {s s' : Store} (hs : s.Ready) (h : s.Revises s') {e : Expression}
    (he : s.Operable e) : s'.Operable e := by
  cases e with
  | leaf k => trivial
  | group es => exact fun k hk => h.resolvesTo hs (he k hk)

/-- The operation evaluates something without declarations. -/
def Store.Admits (s : Store) : Operation → Prop
  | .evaluate e => s.Operable e
  | .evaluateGroup es => s.Operable (.group es)
  | .call (.leaf k :: operands) _ =>
      (∀ i, s.arena.get? k = some i → i.isFunction = true ∧ i.Stays) ∧
        ∀ e ∈ operands, s.Operable e
  | _ => False

namespace Evaluation

open WordScript.Action WordScript.Machine

/-- Two actions end in the same way. When that is with a value, they have only revised the store, and
the value meets a condition. -/
def Revising {α : Type} (P : Store → α → Prop) (x y : Action α) (m : Machine) : Prop :=
  m.store.Ready → x m = y m ∧
    ∀ a m', x m = .value a m' → m.store.Revises m'.store ∧ P m'.store a

/-- No condition. -/
abbrev anything {α : Type} : Store → α → Prop := fun _ _ => True

section Rules

variable {α β : Type} {P : Store → α → Prop} {Q : Store → β → Prop} {x y : Action α}
  {f g : α → Action β} {m : Machine}

theorem Revising.bind (hx : Revising P x y m)
    (hf : ∀ a m₁, m.store.Ready → m.store.Revises m₁.store → P m₁.store a →
      Revising Q (f a) (g a) m₁) : Revising Q (x >>= f) (y >>= g) m := by
  intro hs
  obtain ⟨hsame, hends⟩ := hx hs
  rw [Action.bind_apply, Action.bind_apply, ← hsame]
  cases hxm : x m with
  | value a m₁ =>
    obtain ⟨hfirst, ha⟩ := hends a m₁ hxm
    obtain ⟨hsame', hrest⟩ := hf a m₁ hs hfirst ha (hfirst.reassigns hs).ready
    exact ⟨hsame', fun b m' hend => (hrest b m' hend).imp_left hfirst.trans⟩
  | failure e m₁ => exact ⟨rfl, nofun⟩
  | cutOff => exact ⟨rfl, nofun⟩

/-- The store can be relied on to be ready. -/
theorem revising_of_ready (h : m.store.Ready → Revising P x y m) : Revising P x y m :=
  fun hs => h hs hs

theorem revising_pure {a : α} (ha : P m.store a) : Revising P (pure a) (pure a) m := by
  refine fun _ => ⟨rfl, fun b m' hend => ?_⟩
  obtain ⟨rfl, rfl⟩ := Outcome.value.inj hend
  exact ⟨.refl, ha⟩

theorem revising_fail (e : RuntimeError) : Revising P (fail e) (fail e) m := fun _ => ⟨rfl, nofun⟩

theorem revising_bind_identifier {h : Handle} {f g : Identifier → Action β}
    (hf : ∀ i, m.store.arena.get? h = some i → Revising Q (f i) (g i) m) :
    Revising Q (identifier h >>= f) (identifier h >>= g) m := by
  intro hs
  rw [Action.bind_apply, Action.bind_apply]
  cases hi : m.store.arena.get? h with
  | none =>
    have hfails : identifier h m = .failure (.invalidReference h) m := by rw [identifier, hi]
    rw [hfails]
    exact ⟨rfl, fun _ _ hend => by cases hend⟩
  | some i =>
    rw [identifier_of_get? hi]
    exact hf i hi hs

theorem revising_bind_ofExcept {result : Except RuntimeError α}
    (hf : ∀ a, Revising Q (f a) (g a) m) :
    Revising Q (Action.ofExcept result >>= f) (Action.ofExcept result >>= g) m := by
  cases result with
  | ok a => exact hf a
  | error e => exact fun _ => ⟨rfl, nofun⟩

theorem revising_bind_requireVariable {target : Identifier} {f g : Unit → Action β}
    (hf : target.isVariable = true → Revising Q (f ()) (g ()) m) :
    Revising Q (requireVariable target >>= f) (requireVariable target >>= g) m := by
  unfold requireVariable
  split
  · next hvariable => exact hf hvariable
  · exact fun _ => ⟨rfl, nofun⟩

theorem revising_pushTemporary (i : Identifier) :
    Revising anything (pushTemporary i) (pushTemporary i) m := by
  refine fun _ => ⟨rfl, fun k m' hend => ?_⟩
  obtain ⟨-, rfl⟩ := Outcome.value.inj hend
  exact ⟨Store.Revises.refl.push i, trivial⟩

theorem revising_setValue {h : Handle} {i : Identifier} (hi : m.store.arena.get? h = some i)
    (hvariable : i.isVariable = true) (value : Value) :
    Revising anything (setValue h value) (setValue h value) m := by
  refine fun _ => ⟨rfl, fun _ m' hend => ?_⟩
  rw [setValue_of_get? hi] at hend
  obtain ⟨-, rfl⟩ := Outcome.value.inj hend
  exact ⟨Store.Revises.refl.put hi hvariable value, trivial⟩

theorem revising_write (text : String) : Revising anything (write text) (write text) m := by
  refine fun _ => ⟨rfl, fun _ m' hend => ?_⟩
  unfold write at hend
  split at hend
  · obtain ⟨-, rfl⟩ := Outcome.value.inj hend
    exact ⟨.refl, trivial⟩
  · cases hend

theorem revising_flush : Revising anything flush flush m := by
  refine fun _ => ⟨rfl, fun _ m' hend => ?_⟩
  unfold flush at hend
  split at hend
  · obtain ⟨-, rfl⟩ := Outcome.value.inj hend
    exact ⟨.refl, trivial⟩
  · cases hend

theorem revising_concatMap {f g : α → Action (List β)} (as : List α)
    (hf : ∀ a ∈ as, ∀ m₁, m.store.Ready → m.store.Revises m₁.store →
      Revising anything (f a) (g a) m₁) :
    Revising anything (concatMap f as) (concatMap g as) m := by
  induction as generalizing m with
  | nil => exact revising_pure trivial
  | cons a as ih =>
    refine revising_of_ready fun hs => (hf a (by simp) m hs .refl).bind fun bs m₁ _ h₁ _ => ?_
    refine (ih fun a' ha' m₂ _ h₂ => ?_).bind fun rest m₂ _ _ _ => revising_pure trivial
    exact hf a' (List.mem_cons_of_mem _ ha') m₂ hs (h₁.trans h₂)

theorem revising_forEach {f g : α → Action Unit} (as : List α)
    (hf : ∀ a ∈ as, ∀ m₁, m.store.Ready → m.store.Revises m₁.store →
      Revising anything (f a) (g a) m₁) :
    Revising anything (forEach f as) (forEach g as) m := by
  induction as generalizing m with
  | nil => exact revising_pure trivial
  | cons a as ih =>
    refine revising_of_ready fun hs => (hf a (by simp) m hs .refl).bind fun _ m₁ _ h₁ _ => ?_
    exact ih fun a' ha' m₂ _ h₂ => hf a' (List.mem_cons_of_mem _ ha') m₂ hs (h₁.trans h₂)

end Rules

/-! ## Groups -/

section Functions

open Expression

variable {self self' : Performer} {m : Machine}
variable (hself : ∀ op {m : Machine}, m.store.Admits op →
  Revising anything (self op) (self' op) m)

theorem revising_resolveLeaf (h : Handle) :
    Revising (fun s k => s.StandsFor h k) (resolveLeaf h) (resolveLeaf h) m := by
  refine fun hs => ⟨rfl, fun k m' hend => ?_⟩
  obtain ⟨hstands, rfl | ⟨i, s, rfl, -, -, -, hr⟩⟩ := resolveLeaf_cases hs hend
  · exact ⟨.refl, hstands⟩
  · exact ⟨Store.Revises.refl.resolve hr, hstands⟩

include hself

theorem revising_evaluate {e : Expression} (he : m.store.Operable e) :
    Revising anything (evaluate self e) (evaluate self' e) m := by
  cases e with
  | leaf h => exact (revising_resolveLeaf h).bind fun _ _ _ _ _ => revising_pure trivial
  | group es => exact hself (.evaluateGroup es) he

/-- A call of a function that neither declares nor loads anything. -/
theorem revising_self_call {k : Handle} {i : Identifier} (hi : m.store.arena.get? k = some i)
    (hfunction : i.isFunction = true) (hstays : i.Stays) {operands : List Expression}
    (hoperands : ∀ e ∈ operands, m.store.Operable e) (isInfix : Bool) :
    Revising anything (self (.call (.leaf k :: operands) isInfix))
      (self' (.call (.leaf k :: operands) isInfix)) m := by
  refine hself (.call (.leaf k :: operands) isInfix) ⟨fun j hj => ?_, hoperands⟩
  obtain rfl := Option.some.inj (hi.symm.trans hj)
  exact ⟨hfunction, hstays⟩

/-- By induction on the number of members in front: what waits can be an operand. -/
theorem revising_scan {before waiting : List Expression}
    (hbefore : ∀ h ∈ leavesOf before, m.store.ResolvesTo Identifier.Stays h)
    (hwaiting : ∀ e ∈ waiting, m.store.Operable e) :
    Revising (fun s result => ∀ e ∈ result, s.Operable e) (scan self before waiting)
      (scan self' before waiting) m := by
  induction hn : before.length using Nat.strongRecOn generalizing before waiting m with
  | ind n ih =>
  cases before with
  | nil =>
    simp only [scan]
    exact revising_pure hwaiting
  | cons e before =>
    rw [List.length_cons] at hn
    rw [leavesOf] at hbefore
    have hrest : ∀ h ∈ leavesOf before, m.store.ResolvesTo Identifier.Stays h :=
      fun h hh => hbefore h (List.mem_append_right _ hh)
    cases e with
    | group es =>
      simp only [scan]
      refine ih before.length (by omega) hrest (List.forall_mem_cons.mpr ⟨?_, hwaiting⟩) rfl
      exact fun h hh => hbefore h (List.mem_append_left _ hh)
    | leaf h =>
      simp only [scan]
      refine (revising_resolveLeaf h).bind fun callee m₁ hs h₁ hcallee =>
        revising_of_ready fun hs₁ => revising_bind_identifier fun i hi => ?_
      have hstays : i.Stays := (h₁.resolvesTo hs (hbefore h (by simp [leaves]))).of_standsFor hs₁
        hcallee hi
      have hrest₁ : ∀ h ∈ leavesOf before, m₁.store.ResolvesTo Identifier.Stays h :=
        fun h hh => h₁.resolvesTo hs (hrest h hh)
      have hwaiting₁ : ∀ e ∈ waiting, m₁.store.Operable e :=
        fun e he => h₁.operable hs (hwaiting e he)
      -- what a call has given waits as leaves
      have hcall : ∀ (operands rest : List Expression) (isInfix : Bool), i.isFunction = true →
          (∀ e ∈ operands, m₁.store.Operable e) → rest.length < n →
          (∀ h ∈ leavesOf rest, m₁.store.ResolvesTo Identifier.Stays h) →
          Revising (fun s result => ∀ e ∈ result, s.Operable e)
            (self (.call (.leaf callee :: operands) isInfix) >>= fun results =>
              scan self rest (results.map .leaf))
            (self' (.call (.leaf callee :: operands) isInfix) >>= fun results =>
              scan self' rest (results.map .leaf)) m₁ := by
        intro operands rest isInfix hfunction hoperands hlength hrest'
        refine (revising_self_call hself hi hfunction hstays hoperands isInfix).bind
          fun results m₂ hs₁ h₂ _ => ?_
        refine ih rest.length hlength (fun h hh => h₂.resolvesTo hs₁ (hrest' h hh)) ?_ rfl
        exact List.forall_mem_map.mpr fun _ _ => trivial
      by_cases hfunction : i.isFunction
      · simp only [hfunction, Bool.not_true, Bool.false_eq_true, if_false]
        split
        · next right left rest _ =>
          rw [leavesOf] at hrest₁
          have hleft : m₁.store.Operable left :=
            Store.operable_of_leaves fun k hk => hrest₁ k (List.mem_append_left _ hk)
          refine hcall [left, right] rest true hfunction ?_ ?_ ?_
          · exact List.forall_mem_cons.mpr ⟨hleft, hwaiting₁⟩
          · simp only [List.length_cons] at hn
            omega
          · exact fun k hk => hrest₁ k (List.mem_append_right _ hk)
        · exact hcall _ _ false hfunction hwaiting₁ (by omega) hrest₁
      · simp only [hfunction, Bool.not_false, if_true]
        exact ih before.length (by omega) hrest₁
          (List.forall_mem_cons.mpr ⟨trivial, hwaiting₁⟩) rfl

theorem revising_collect {e : Expression} (he : m.store.Operable e) :
    Revising anything (collect self e) (collect self' e) m := by
  cases e with
  | leaf h => exact revising_pure trivial
  | group es => exact hself (.evaluate (.group es)) he

theorem revising_evaluateGroup {es : List Expression} (hes : m.store.Operable (.group es)) :
    Revising anything (evaluateGroup self es) (evaluateGroup self' es) m := by
  have hnote : Revising anything (note es) (note es) m := by
    refine fun _ => ⟨rfl, fun _ m' hend => ?_⟩
    obtain ⟨-, rfl⟩ := Outcome.value.inj hend
    exact ⟨.refl, trivial⟩
  have hreverse : ∀ h ∈ leavesOf es.reverse, m.store.ResolvesTo Identifier.Stays h := by
    intro h hh
    obtain ⟨e, he, hmem⟩ := mem_leavesOf.mp hh
    exact hes h (mem_leavesOf.mpr ⟨e, List.mem_reverse.mp he, hmem⟩)
  refine hnote.bind fun _ m₁ hs h₁ _ => ?_
  refine (revising_scan hself (fun h hh => h₁.resolvesTo hs (hreverse h hh))
    (List.forall_mem_nil _)).bind
    fun waiting m₂ hs₁ _ hwaiting => ?_
  exact revising_concatMap waiting fun e he m₃ hs₂ h₃ =>
    revising_collect hself (h₃.operable hs₂ (hwaiting e he))

theorem revising_evaluateEach {es : List Expression} (hes : ∀ e ∈ es, m.store.Operable e) :
    Revising anything (evaluateEach self es) (evaluateEach self' es) m :=
  revising_concatMap es fun e he _ hs h₁ => hself (.evaluate e) (h₁.operable hs (hes e he))

/-! ## Built-in functions -/

variable {operands : List Expression}

theorem revising_pairs (h : ∀ e ∈ operands, m.store.Operable e) :
    Revising anything (pairs self operands) (pairs self' operands) m := by
  refine (revising_evaluateEach hself fun e he => h e (List.mem_of_mem_take he)).bind
    fun left m₁ hs h₁ _ => ?_
  refine (revising_evaluateEach hself fun e he =>
    h₁.operable hs (h e (List.mem_of_mem_drop he))).bind fun right m₂ _ _ _ => ?_
  split
  · exact revising_pure trivial
  · exact revising_fail _

/-- Something is done for each pair of values. -/
theorem revising_eachPair (h : ∀ e ∈ operands, m.store.Operable e)
    {f : Handle × Handle → Action (List Handle)}
    (hf : ∀ pair m₁, Revising anything (f pair) (f pair) m₁) :
    Revising anything (pairs self operands >>= concatMap f)
      (pairs self' operands >>= concatMap f) m :=
  (revising_pairs hself h).bind fun ps _ _ _ _ => revising_concatMap ps fun pair _ m₁ _ _ =>
    hf pair m₁

theorem revising_pairwise (h : ∀ e ∈ operands, m.store.Operable e)
    (result : Identifier → Identifier → Except RuntimeError Identifier) :
    Revising anything (pairwise self operands result) (pairwise self' operands result) m := by
  refine revising_eachPair hself h fun pair m₁ => ?_
  refine revising_bind_identifier fun left _ => revising_bind_identifier fun right _ => ?_
  refine revising_bind_ofExcept fun i => (revising_pushTemporary i).bind fun _ _ _ _ _ => ?_
  exact revising_pure trivial

theorem revising_assign (h : ∀ e ∈ operands, m.store.Operable e) :
    Revising anything (assign self operands) (assign self' operands) m := by
  refine revising_eachPair hself h fun pair m₁ => ?_
  refine revising_bind_identifier fun target htarget =>
    revising_bind_requireVariable fun hvariable => ?_
  split
  · exact revising_pure trivial
  · refine revising_bind_identifier fun right _ => revising_bind_ofExcept fun value => ?_
    exact (revising_setValue htarget hvariable value).bind fun _ _ _ _ _ => revising_pure trivial

theorem revising_update (h : ∀ e ∈ operands, m.store.Operable e) (op : Arithmetic) :
    Revising anything (update self op operands) (update self' op operands) m := by
  refine revising_eachPair hself h fun pair m₁ => ?_
  refine revising_bind_identifier fun target htarget =>
    revising_bind_requireVariable fun hvariable => revising_bind_identifier fun right _ => ?_
  refine revising_bind_ofExcept fun result => revising_bind_ofExcept fun value => ?_
  exact (revising_setValue htarget hvariable value).bind fun _ _ _ _ _ => revising_pure trivial

theorem revising_negate (h : ∀ e ∈ operands, m.store.Operable e) :
    Revising anything (negate self operands) (negate self' operands) m := by
  refine (revising_evaluateEach hself h).bind fun handles m₁ _ _ _ =>
    revising_concatMap handles fun k _ m₂ _ _ => revising_bind_identifier fun i _ => ?_
  exact (revising_pushTemporary _).bind fun _ _ _ _ _ => revising_pure trivial

theorem revising_print (h : ∀ e ∈ operands, m.store.Operable e) :
    Revising anything (print self operands) (print self' operands) m := by
  refine revising_forEach operands fun e he m₁ hs h₁ => ?_
  refine (hself (.evaluate e) (h₁.operable hs (h e he))).bind fun handles m₂ _ _ _ => ?_
  exact revising_forEach handles fun k _ m₃ _ _ =>
    revising_bind_identifier fun i _ => revising_write _

theorem revising_dump (h : ∀ e ∈ operands, m.store.Operable e) :
    Revising anything (dump self operands) (dump self' operands) m := by
  refine revising_forEach operands fun e he m₁ hs h₁ => ?_
  refine (hself (.evaluate e) (h₁.operable hs (h e he))).bind fun handles m₂ _ _ _ => ?_
  refine (revising_forEach handles fun k _ m₃ _ _ => ?_).bind fun _ _ _ _ _ => revising_write _
  exact revising_bind_identifier fun i _ => revising_write _

theorem revising_callBuiltin (k : Handle) (h : ∀ e ∈ operands, m.store.Operable e) (isInfix : Bool)
    {op : Builtin} (hop : op.Stays) :
    Revising anything (callBuiltin self (.leaf k :: operands) isInfix op)
      (callBuiltin self' (.leaf k :: operands) isInfix op) m := by
  have hflush : ∀ m : Machine, Revising anything (flush >>= fun _ => pure ([] : List Handle))
      (flush >>= fun _ => pure []) m :=
    fun m => revising_flush.bind fun _ _ _ _ _ => revising_pure trivial
  cases op with
  | declare => exact absurd rfl hop.1
  | loadModule => exact absurd rfl hop.2
  | assign => exact revising_assign hself h
  | arithmetic op => exact revising_pairwise hself h _
  | update op => exact revising_update hself h op
  | compare op => exact revising_pairwise hself h _
  | connect op => exact revising_pairwise hself h _
  | negate => exact revising_negate hself h
  | index => exact (revising_pairs hself h).bind fun _ _ _ _ _ => revising_pure trivial
  | print => exact (revising_print hself h).bind fun _ m₁ _ _ _ => hflush m₁
  | printLine =>
    exact (revising_print hself h).bind fun _ m₁ _ _ _ =>
      (revising_write _).bind fun _ m₂ _ _ _ => hflush m₂
  | dump => exact (revising_dump hself h).bind fun _ m₁ _ _ _ => hflush m₁
  | push | ifWord | elseWord | loopWord => exact revising_pure trivial

theorem revising_call (host : Host) {args : List Expression} {isInfix : Bool}
    (h : m.store.Admits (.call args isInfix)) :
    Revising anything (call host self args isInfix) (call host self' args isInfix) m := by
  match args, h with
  | .leaf k :: operands, ⟨hcallee, hoperands⟩ =>
    refine revising_bind_identifier fun i hi => ?_
    obtain ⟨hfunction, hstays⟩ := hcallee i hi
    obtain ⟨op, hcallable, hop⟩ := hstays hfunction
    simp only [hcallable]
    exact revising_callBuiltin hself k hoperands isInfix hop

theorem revising_step (host : Host) (steps : Nat) {op : Operation} (h : m.store.Admits op) :
    Revising anything (step host self steps op) (step host self' steps op) m := by
  cases op with
  | evaluate e => exact revising_evaluate hself h
  | evaluateGroup es => exact revising_evaluateGroup hself h
  | call args isInfix => exact revising_call hself host h
  | _ => exact h.elim

end Functions

/-- By induction on the steps, an evaluation without declarations only revises the store. -/
theorem revising_perform (host : Host) (steps : Nat) (op : Operation) {m : Machine}
    (h : m.store.Admits op) :
    Revising anything (perform host steps op) (perform host steps op) m := by
  induction steps generalizing op m with
  | zero => exact fun _ => ⟨rfl, nofun⟩
  | succ steps ih => exact revising_step ih host steps h

/-- An evaluation without declarations asks only for evaluations without declarations: how anything
else might have ended makes no difference. -/
theorem admits_of_asks {host : Host} {steps : Nat} {op op' : Operation} {m m' : Machine}
    (hs : m.store.Ready) (h : m.store.Admits op)
    (hasks : Asks (fun self => step host self steps op) (perform host steps) m op' m') :
    m'.store.Ready ∧ m'.store.Admits op' := by
  obtain ⟨o, o', hne⟩ := hasks
  refine Classical.byContradiction fun hnot => hne (revising_step ?_ host steps h hs).1
  intro op₁ m₁ h₁ hs₁
  have hother : ¬ (op₁ = op' ∧ m₁ = m') := by
    rintro ⟨rfl, rfl⟩
    exact hnot ⟨hs₁, h₁⟩
  rw [alter_of_ne hother, alter_of_ne hother]
  exact revising_perform host steps op₁ h₁ hs₁

/-- An evaluation without declarations comes to an end. -/
theorem perform_ne_cutOff_of_admits {host : Host} {steps : Nat} {op : Operation} {m : Machine}
    (hs : m.store.Ready) (h : m.store.Admits op) (hop : op.EvaluatesWithin steps) :
    perform host steps op m ≠ .cutOff := by
  induction steps generalizing op m with
  | zero => cases op <;> simp [Operation.EvaluatesWithin] at hop
  | succ steps ih =>
    intro hcut
    have hrelays : Relays (Operation.EvaluatesWithin steps) (perform host steps)
        (fun self => step host self steps op) m := by
      cases op with
      | evaluate e => exact relays_evaluate (Nat.le_of_succ_le_succ hop)
      | evaluateGroup es => exact relays_evaluateGroup (Nat.le_of_succ_le_succ hop)
      | call args isInfix =>
        refine relays_call isInfix (Nat.le_of_succ_le_succ hop) ?_
        intro callee i label hcallee hi hnative
        match args, h, hcallee with
        | .leaf k :: operands, h, hcallee =>
          obtain rfl := Option.some.inj hcallee
          obtain ⟨hfunction, hstays⟩ := h.1 i hi
          obtain ⟨op, hcallable, -⟩ := hstays hfunction
          cases hcallable.symm.trans hnative
      | _ => exact h.elim
    obtain ⟨op', m', hop', hcut', hasks⟩ := hrelays.asks hcut
    obtain ⟨hs', h'⟩ := admits_of_asks hs h hasks
    exact ih hs' h' hop' hcut'

end Evaluation

end WordScript
