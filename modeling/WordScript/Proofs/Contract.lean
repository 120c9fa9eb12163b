import WordScript.Evaluation
import WordScript.Proofs.Reading

/-!
# Contracts

A contract says what holds of a store between operations, which handles an evaluation may work on,
and what the operations may do to the store. The rules for actions below compare an action with
itself carried out by another performer: as long as the two performers agree on all that the
contract admits, they cannot be told apart.
-/

namespace WordScript

theorem Action.bind_apply {α β : Type} (x : Action α) (f : α → Action β) (m : Machine) :
    (x >>= f) m = match x m with
      | .value a m => f a m
      | .failure e m => .failure e m
      | .cutOff => .cutOff := rfl

/-- Where one action after the other gives a value, both have given one. -/
theorem Action.exists_of_bind_value {α β : Type} {x : Action α} {f : α → Action β} {b : β}
    {m m' : Machine} (h : (x >>= f) m = .value b m') :
    ∃ a m₁, x m = .value a m₁ ∧ f a m₁ = .value b m' := by
  rw [bind_apply] at h
  cases hx : x m with
  | value a m₁ =>
    rw [hx] at h
    exact ⟨a, m₁, rfl, h⟩
  | failure e m₁ => simp [hx] at h
  | cutOff => simp [hx] at h

/-- The value that an action has ended with. -/
def Outcome.answer? {α : Type} : Outcome α → Option α
  | .value a _ => some a
  | _ => none

theorem Outcome.exists_of_answer? {α : Type} {o : Outcome α} {a : α} (h : o.answer? = some a) :
    ∃ m, o = .value a m := by
  cases o with
  | value b m =>
    obtain rfl := Option.some.inj h
    exact ⟨m, rfl⟩
  | failure e m => cases h
  | cutOff => cases h

/-- The machine that an action leaves behind, whether with a value or with an error. -/
def Outcome.machine? {α : Type} : Outcome α → Option Machine
  | .value _ m => some m
  | .failure _ m => some m
  | .cutOff => none

theorem Outcome.machine?_of_ne {α : Type} {o : Outcome α} (h : o ≠ .cutOff) :
    ∃ m, o.machine? = some m := by
  cases o with
  | value a m => exact ⟨m, rfl⟩
  | failure e m => exact ⟨m, rfl⟩
  | cutOff => exact absurd rfl h

theorem Outcome.eq_value {α : Type} {o : Outcome α} {a : α} {m : Machine}
    (ha : o.answer? = some a) (hm : o.machine? = some m) : o = .value a m := by
  obtain ⟨m', rfl⟩ := Outcome.exists_of_answer? ha
  obtain rfl := Option.some.inj hm
  rfl

/-- Whether an action has ended with a value, and some test holds of that and of the machine. -/
def Outcome.test {α : Type} (p : α → Machine → Bool) : Outcome α → Bool
  | .value a m => p a m
  | _ => false

theorem Outcome.exists_of_test {α : Type} {o : Outcome α} {p : α → Machine → Bool}
    (h : o.test p = true) : ∃ a m, o = .value a m ∧ p a m = true := by
  cases o with
  | value a m => exact ⟨a, m, rfl, h⟩
  | failure e m => cases h
  | cutOff => cases h

theorem Except.exists_of_any_toOption {ε α : Type} {r : Except ε α} {p : α → Bool}
    (h : r.toOption.any p = true) : ∃ a, r = .ok a ∧ p a = true := by
  cases r with
  | ok a => exact ⟨a, rfl, h⟩
  | error e => cases h

/-- The operation runs something in a frame of its own. -/
def Operation.OpensBlock : Operation → Prop
  | .runBlock _ | .decide _ => True
  | _ => False

instance Operation.decidableOpensBlock : DecidablePred Operation.OpensBlock
  | .runBlock _ | .decide _ => isTrue trivial
  | .evaluate _ | .evaluateGroup _ | .call _ _ | .runStep _ _ | .run _ | .runTopLevel _
  | .readText _ | .runText _ | .runTextTopLevel _ | .loadModule _ _ _ | .resolve _ | .declare _
  | .registerFunction _ _ _ | .registerConstant _ _ | .push _ | .identifier _ | .setValue _ _
  | .place => isFalse id

/-- The operation starts by reading the text. -/
def Operation.ReadsText (text : String) : Operation → Prop
  | .readText other | .runText other | .runTextTopLevel other => other = text
  | _ => False

/-- What can be relied on while operations are carried out inside of other operations. -/
structure Contract where
  /-- What holds of the store whenever an operation is asked or comes to its end. -/
  Inv : Store → Prop
  /-- The handle may be a value in an evaluation. -/
  Fits : Store → Handle → Prop
  /-- The handle may stand at a leaf of a program that is still to be run. -/
  Lasts : Store → Handle → Prop
  /-- The handle may be called. -/
  Calls : Store → Handle → Prop
  /-- What evaluating may do to the store. -/
  Evaluates : Store → Store → Prop
  /-- What running a block may do to the store. -/
  Blocks : Store → Store → Prop
  /-- What running statements in the current frame may do to the store. -/
  Runs : Store → Store → Prop
  /-- The errors that may come up. -/
  Raises : RuntimeError → Prop
  /-- Where operations may be carried out. -/
  Permits : Operation → Store → Prop := fun _ _ => True
  /-- The types that variables may be declared with. -/
  Types : String → Prop := fun _ => True
  /-- The texts that may be read while operations are carried out. -/
  Reads : String → Prop
  /-- The operations that scripts may ask, as far as the arguments do not decide it. -/
  Asks : Store → Operation → Prop

namespace Contract

variable (C : Contract)

/-- Some operation that runs in a frame of its own may be carried out. -/
def Opens (s : Store) : Prop := ∃ op : Operation, op.OpensBlock ∧ C.Permits op s

/-- A leaf may be a value; a group is still to be evaluated. -/
def FitsExpression (s : Store) : Expression → Prop
  | .leaf h => C.Fits s h
  | .group es => ∀ h ∈ Expression.leavesOf es, C.Lasts s h

/-- What may be asked. -/
def Admits (s : Store) : Operation → Prop
  | .evaluate e => C.FitsExpression s e
  | .evaluateGroup es => ∀ h ∈ Expression.leavesOf es, C.Lasts s h
  | .call args _ => (∀ e ∈ args, C.FitsExpression s e) ∧
      (∀ h, args.head?.bind Expression.handle? = some h → C.Calls s h) ∧
      (args.head?.bind Expression.handle? = none → C.Raises (.notCallable "(group)"))
  | .runStep st _ => ∀ h ∈ st.leaves, C.Lasts s h
  | .runBlock body => ∀ h ∈ Statement.leavesOf body, C.Lasts s h
  | .decide condition => ∀ h ∈ Expression.leavesOf condition, C.Lasts s h
  | .run st => ∀ h ∈ st.leaves, C.Lasts s h
  | .runTopLevel st => ∀ h ∈ st.leaves, C.Lasts s h
  | .readText text => C.Reads text
  | .runText text => C.Reads text
  | .runTextTopLevel text => C.Reads text
  | .loadModule path space args => (∀ e ∈ args, C.FitsExpression s e) ∧
      C.Asks s (.loadModule path space args)
  | op => C.Asks s op

/-- What an operation may do to the store. -/
def effect : Operation → Store → Store → Prop
  | .runBlock _ => C.Blocks
  | .decide _ => C.Blocks
  | .runStep _ _ => C.Runs
  | .run _ => C.Runs
  | .runTopLevel _ => C.Runs
  | .runText _ => C.Runs
  | .runTextTopLevel _ => C.Runs
  | _ => C.Evaluates

/-- What can be relied on in an answer. -/
def Gives (s : Store) : (op : Operation) → op.Answer → Prop
  | .evaluate _, handles => ∀ h ∈ handles, C.Fits s h
  | .evaluateGroup _, handles => ∀ h ∈ handles, C.Fits s h
  | .call _ _, handles => ∀ h ∈ handles, C.Fits s h
  | .readText _, result => ∀ st, result = .ok st → ∀ h ∈ Statement.leaves st, C.Lasts s h
  | .resolve _, h => C.Fits s h
  | .declare _, h => C.Fits s h
  | .registerFunction _ _ _, h => C.Fits s h
  | .registerConstant _ _, h => C.Fits s h
  | .push _, h => C.Fits s h
  | .identifier h, i => s.arena.get? h = some i
  | _, _ => True

/-- What can be relied on in an answer or an error. -/
def Answers (s : Store) (op : Operation) : Except RuntimeError op.Answer → Prop
  | .ok a => C.Gives s op a
  | .error e => C.Raises e

/-- A script only asks what is admitted, whatever it is answered, and what it comes to meets a
condition. -/
def Obeys {α : Type} (post : Store → Except RuntimeError α → Prop) : Script α → Store → Prop
  | .finish result, s => post s result
  | .ask op next, s => C.Admits s op ∧ ∀ answer s', C.Inv s' → C.effect op s s' →
      C.Answers s' op answer → Obeys post (next answer) s'

/-- How an action may end that starts from a store: the invariant holds again, the store has
changed as it may, and the value meets a condition. -/
def Meets {α : Type} (R : Store → Store → Prop) (P : Store → α → Prop) (s : Store) :
    Outcome α → Prop
  | .value a m => C.Inv m.store ∧ R s m.store ∧ P m.store a
  | .failure e m => C.Inv m.store ∧ R s m.store ∧ C.Raises e
  | .cutOff => True

/-- Two actions do the same on a machine, and end as they may. -/
structure Keeps {α : Type} (R : Store → Store → Prop) (P : Store → α → Prop) (x y : Action α)
    (m : Machine) : Prop where
  same : x m = y m
  meets : C.Meets R P m.store (x m)

/-- A relation that doing nothing and doing one thing after the other stay within. -/
structure Steady (R : Store → Store → Prop) : Prop where
  refl : ∀ {s}, C.Inv s → R s s
  trans : ∀ {s s' s''}, R s s' → R s' s'' → R s s''

/-- What can be relied on in a value stays so whatever happens within a relation. -/
def Stable {α : Type} (R : Store → Store → Prop) (Fine : Store → α → Prop) : Prop :=
  ∀ s s' a, R s s' → Fine s a → Fine s' a

theorem stable_true {α : Type} (R : Store → Store → Prop) :
    Stable R fun _ (_ : α) => True :=
  fun _ _ _ _ _ => trivial

variable {C}
variable {α β : Type} {R R' : Store → Store → Prop} {P : Store → α → Prop} {Q : Store → β → Prop}
variable {x y : Action α} {f g : α → Action β} {m : Machine}

theorem FitsExpression.imp {s s' : Store} (hfits : ∀ h, C.Fits s h → C.Fits s' h)
    (hlasts : ∀ h, C.Lasts s h → C.Lasts s' h) {e : Expression} (he : C.FitsExpression s e) :
    C.FitsExpression s' e := by
  cases e with
  | leaf h => exact hfits h he
  | group es => exact fun h hmem => hlasts h (he h hmem)

/-! ## Rules for actions -/

theorem Meets.imp {P' : Store → α → Prop} {s s' : Store} {o : Outcome α} (h : C.Meets R P s o)
    (hR : ∀ t, R s t → R' s' t) (hP : ∀ t a, P t a → P' t a) : C.Meets R' P' s' o := by
  cases o with
  | value a m => exact ⟨h.1, hR _ h.2.1, hP _ _ h.2.2⟩
  | failure e m => exact ⟨h.1, hR _ h.2.1, h.2.2⟩
  | cutOff => trivial

theorem Keeps.imp {P' : Store → α → Prop} (h : C.Keeps R P x y m) (hR : ∀ s s', R s s' → R' s s')
    (hP : ∀ s a, P s a → P' s a) : C.Keeps R' P' x y m :=
  ⟨h.same, h.meets.imp (hR m.store) hP⟩

theorem Keeps.weaken {P' : Store → α → Prop} (h : C.Keeps R P x y m)
    (hP : ∀ s a, P s a → P' s a) : C.Keeps R P' x y m :=
  h.imp (fun _ _ hR => hR) hP

theorem keeps_pure (hR : C.Steady R) (hm : C.Inv m.store) {a : α} (ha : P m.store a) :
    C.Keeps R P (pure a) (pure a) m :=
  ⟨rfl, hm, hR.refl hm, ha⟩

theorem keeps_fail (hR : C.Steady R) (hm : C.Inv m.store) {e : RuntimeError} (he : C.Raises e) :
    C.Keeps R P (Action.fail e) (Action.fail e) m :=
  ⟨rfl, hm, hR.refl hm, he⟩

theorem Keeps.bind (hR : C.Steady R) (hx : C.Keeps R P x y m)
    (hf : ∀ a m', C.Inv m'.store → R m.store m'.store → P m'.store a →
      C.Keeps R Q (f a) (g a) m') : C.Keeps R Q (x >>= f) (y >>= g) m := by
  obtain ⟨hsame, hmeets⟩ := hx
  cases hxm : x m with
  | value a m' =>
    rw [hxm] at hmeets
    obtain ⟨hinv, hstep, ha⟩ := hmeets
    obtain ⟨hsame', hmeets'⟩ := hf a m' hinv hstep ha
    refine ⟨?_, ?_⟩
    · rw [Action.bind_apply, Action.bind_apply, ← hsame, hxm]
      exact hsame'
    · rw [Action.bind_apply, hxm]
      exact hmeets'.imp (fun t ht => hR.trans hstep ht) fun _ _ h => h
  | failure e m' =>
    rw [hxm] at hmeets
    refine ⟨?_, ?_⟩
    · rw [Action.bind_apply, Action.bind_apply, ← hsame, hxm]
    · rw [Action.bind_apply, hxm]
      exact hmeets
  | cutOff =>
    refine ⟨?_, ?_⟩
    · rw [Action.bind_apply, Action.bind_apply, ← hsame, hxm]
    · rw [Action.bind_apply, hxm]
      trivial

/-- Reading something off the machine. -/
theorem keeps_inspect (hR : C.Steady R) (hm : C.Inv m.store) {f : Machine → α}
    (hf : P m.store (f m)) : C.Keeps R P (Action.inspect f) (Action.inspect f) m :=
  ⟨rfl, hm, hR.refl hm, hf⟩

/-- A change of the machine that leaves the store alone. -/
theorem keeps_change (hR : C.Steady R) (hm : C.Inv m.store) {f : Machine → Machine}
    (hf : (f m).store = m.store) :
    C.Keeps R (fun _ _ => True) (Action.change f) (Action.change f) m := by
  refine ⟨rfl, ?_⟩
  simp only [Meets, Action.change, hf]
  exact ⟨hm, hR.refl hm, trivial⟩

theorem keeps_tryStore {f : Store → Except RuntimeError (α × Store)} (hm : C.Inv m.store)
    (hR : C.Steady R)
    (hok : ∀ a s, f m.store = .ok (a, s) → C.Inv s ∧ R m.store s ∧ P s a)
    (herror : ∀ e, f m.store = .error e → C.Raises e) :
    C.Keeps R P (Action.tryStore f) (Action.tryStore f) m := by
  refine ⟨rfl, ?_⟩
  unfold Action.tryStore
  cases hf : f m.store with
  | ok result => exact hok _ _ hf
  | error e => exact ⟨hm, hR.refl hm, herror e hf⟩

theorem keeps_onStore {f : Store → α × Store}
    (hf : C.Inv (f m.store).2 ∧ R m.store (f m.store).2 ∧ P (f m.store).2 (f m.store).1) :
    C.Keeps R P (Action.onStore f) (Action.onStore f) m :=
  ⟨rfl, hf⟩

/-- One thing for each member of a list, when what can be relied on stays so. -/
theorem keeps_concatMap (hR : C.Steady R) {Fine : Store → β → Prop} (hfine : Stable R Fine)
    {f g : α → Action (List β)} (as : List α) (hm : C.Inv m.store)
    (hf : ∀ a ∈ as, ∀ m', C.Inv m'.store → R m.store m'.store →
      C.Keeps R (fun s bs => ∀ b ∈ bs, Fine s b) (f a) (g a) m') :
    C.Keeps R (fun s bs => ∀ b ∈ bs, Fine s b) (Action.concatMap f as) (Action.concatMap g as)
      m := by
  induction as generalizing m with
  | nil => exact keeps_pure hR hm (by simp)
  | cons a as ih =>
    refine (hf a (by simp) m hm (hR.refl hm)).bind hR fun bs m₁ hm₁ h₁ hbs => ?_
    have hrest := ih hm₁ fun a ha m' hm' h' =>
      hf a (List.mem_cons_of_mem _ ha) m' hm' (hR.trans h₁ h')
    refine hrest.bind hR fun rest m₂ hm₂ h₂ hrest => keeps_pure hR hm₂ ?_
    intro b hb
    rcases List.mem_append.mp hb with hb | hb
    · exact hfine _ _ b h₂ (hbs b hb)
    · exact hrest b hb

theorem keeps_forEach (hR : C.Steady R) {f g : α → Action Unit} (as : List α)
    (hm : C.Inv m.store)
    (hf : ∀ a ∈ as, ∀ m', C.Inv m'.store → R m.store m'.store →
      C.Keeps R (fun _ _ => True) (f a) (g a) m') :
    C.Keeps R (fun _ _ => True) (Action.forEach f as) (Action.forEach g as) m := by
  induction as generalizing m with
  | nil => exact keeps_pure hR hm trivial
  | cons a as ih =>
    refine (hf a (by simp) m hm (hR.refl hm)).bind hR fun _ m₁ hm₁ h₁ _ => ih hm₁ ?_
    exact fun a ha m' hm' h' => hf a (List.mem_cons_of_mem _ ha) m' hm' (hR.trans h₁ h')

theorem keeps_repeatWhile (hR : C.Steady R) {c c' : Action Bool} {b b' : Action Unit}
    (hm : C.Inv m.store)
    (hc : ∀ m', C.Inv m'.store → R m.store m'.store → C.Keeps R (fun _ _ => True) c c' m')
    (hb : ∀ m', C.Inv m'.store → R m.store m'.store → C.Keeps R (fun _ _ => True) b b' m')
    (n : Nat) :
    C.Keeps R (fun _ _ => True) (Action.repeatWhile c b n) (Action.repeatWhile c' b' n) m := by
  induction n generalizing m with
  | zero => exact ⟨rfl, trivial⟩
  | succ n ih =>
    refine (hc m hm (hR.refl hm)).bind hR fun holds m₁ hm₁ h₁ _ => ?_
    split
    · refine (hb m₁ hm₁ h₁).bind hR fun _ m₂ hm₂ h₂ _ => ih hm₂ ?_ ?_
      · exact fun m' hm' h' => hc m' hm' (hR.trans h₁ (hR.trans h₂ h'))
      · exact fun m' hm' h' => hb m' hm' (hR.trans h₁ (hR.trans h₂ h'))
    · exact keeps_pure hR hm₁ trivial

theorem keeps_write (hR : C.Steady R) (hm : C.Inv m.store)
    (hraises : ∀ text, C.Raises (.stream text)) (text : String) :
    C.Keeps R (fun _ _ => True) (Machine.write text) (Machine.write text) m := by
  refine ⟨rfl, ?_⟩
  unfold Machine.write Sink.write
  split
  · exact ⟨hm, hR.refl hm, trivial⟩
  · next e he =>
    split at he
    · cases he
    · split at he
      · cases he
      · cases he
        exact ⟨hm, hR.refl hm, hraises _⟩

theorem keeps_flush (hR : C.Steady R) (hm : C.Inv m.store)
    (hraises : ∀ text, C.Raises (.stream text)) :
    C.Keeps R (fun _ _ => True) Machine.flush Machine.flush m := by
  refine ⟨rfl, ?_⟩
  unfold Machine.flush Sink.flush
  split
  · exact ⟨hm, hR.refl hm, trivial⟩
  · next e he =>
    split at he
    · cases he
      exact ⟨hm, hR.refl hm, hraises _⟩
    · cases he

end Contract

end WordScript
