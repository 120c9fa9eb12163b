import WordScript.Proofs.Reached

/-!
# One operation after the other

An evaluation asks its operations one after the other. So if it makes a difference to it who carries
them out, then it asks for one that they carry out differently: when just that one is cut off, the
evaluation is cut off as well. The rules for actions come first, then one lemma for each function of
the evaluation, up to a whole step.
-/

namespace WordScript

namespace Evaluation

open WordScript.Action WordScript.Machine

theorem alter_same (self : Performer) (op : Operation) (m : Machine) :
    alter self op m (self op m) = self := by
  funext op' m'
  unfold alter
  split
  · next h =>
    obtain ⟨rfl, rfl⟩ := h
    rfl
  · rfl

/-- What is cut off with one of its operations, and not by itself, asks for that operation. -/
theorem asks_of_cutOff {α : Type} {x : Performer → Action α} {self : Performer} {m m' : Machine}
    {op : Operation} (hends : x self m ≠ .cutOff)
    (hcut : x (alter self op m' .cutOff) m = .cutOff) : Asks x self m op m' := by
  refine ⟨.cutOff, self op m', ?_⟩
  rw [hcut, alter_same]
  exact hends.symm

/-- Whenever two performers make a difference to an action, it depends on an operation that they
carry out differently, unless it is cut off anyway. -/
def Sequential {α : Type} (x : Performer → Action α) : Prop :=
  ∀ (self self' : Performer) (m : Machine), x self m ≠ .cutOff → x self m ≠ x self' m →
    ∃ op m', self op m' ≠ self' op m' ∧ x (alter self op m' .cutOff) m = .cutOff

/-! ## Rules for actions -/

section Rules

variable {α β : Type} {x : Performer → Action α} {f : α → Performer → Action β}

theorem sequential_const (y : Action α) : Sequential fun _ => y :=
  fun _ _ _ _ hne => absurd rfl hne

theorem sequential_ask (op : Operation) : Sequential fun self => self op := by
  intro self self' m _ hne
  exact ⟨op, m, hne, alter_self self op m .cutOff⟩

/-- Cutting off one operation leaves an action as it is, or cuts it off. -/
theorem Sequential.alter (hx : Sequential x) {self : Performer} {m : Machine} (op : Operation)
    (m' : Machine) (h : x self m ≠ .cutOff) :
    x (alter self op m' .cutOff) m = x self m ∨ x (alter self op m' .cutOff) m = .cutOff := by
  by_cases hsame : x self m = x (Evaluation.alter self op m' .cutOff) m
  · exact .inl hsame.symm
  · obtain ⟨op₁, m₁, hdiffers, hcut⟩ := hx _ _ m h hsame
    obtain ⟨rfl, rfl⟩ : op₁ = op ∧ m₁ = m' :=
      Classical.byContradiction fun hne => hdiffers (alter_of_ne hne).symm
    exact .inr hcut

theorem Sequential.bind (hx : Sequential x) (hf : ∀ a, Sequential (f a)) :
    Sequential fun self => x self >>= fun a => f a self := by
  intro self self' m hends hne
  simp only [Action.bind_apply] at hends hne ⊢
  have hx_ends : x self m ≠ .cutOff := by
    intro hcut
    rw [hcut] at hends
    contradiction
  by_cases hsame : x self m = x self' m
  · rw [← hsame] at hne
    cases hxm : x self m with
    | value a m₁ =>
      rw [hxm] at hends hne
      obtain ⟨op, m', hdiffers, hcut⟩ := hf a self self' m₁ hends hne
      refine ⟨op, m', hdiffers, ?_⟩
      rcases hx.alter op m' hx_ends with hsame' | hcut'
      · rw [hsame', hxm]
        exact hcut
      · rw [hcut']
    | failure e m₁ =>
      rw [hxm] at hne
      contradiction
    | cutOff => exact absurd hxm hx_ends
  · obtain ⟨op, m', hdiffers, hcut⟩ := hx self self' m hx_ends hsame
    refine ⟨op, m', hdiffers, ?_⟩
    rw [hcut]

/-- Something that is made of one run of an action, and cut off when that is, depends on what the
action depends on. -/
theorem Sequential.wrap (hx : Sequential x) {g : Action α → Action β} (before : Machine → Machine)
    (hg : ∀ y y' m, y (before m) = y' (before m) → g y m = g y' m)
    (hcutOff : ∀ y m, y (before m) = .cutOff → g y m = .cutOff) :
    Sequential fun self => g (x self) := by
  intro self self' m hends hne
  have hx_ends : x self (before m) ≠ .cutOff := fun hcut => hends (hcutOff _ m hcut)
  have hx_ne : x self (before m) ≠ x self' (before m) := fun hsame => hne (hg _ _ m hsame)
  obtain ⟨op, m', hdiffers, hcut⟩ := hx self self' (before m) hx_ends hx_ne
  exact ⟨op, m', hdiffers, hcutOff _ m hcut⟩

theorem Sequential.ite {c : Prop} [Decidable c] {y : Performer → Action α} (hx : Sequential x)
    (hy : Sequential y) : Sequential fun self => if c then x self else y self := by
  by_cases hc : c
  · simpa only [hc, if_true] using hx
  · simpa only [hc, if_false] using hy

theorem sequential_concatMap {f : Performer → α → Action (List β)}
    (hf : ∀ a, Sequential fun self => f self a) (as : List α) :
    Sequential fun self => concatMap (f self) as := by
  induction as with
  | nil => exact sequential_const _
  | cons a as ih => exact (hf a).bind fun _ => ih.bind fun _ => sequential_const _

theorem sequential_forEach {f : Performer → α → Action Unit}
    (hf : ∀ a, Sequential fun self => f self a) (as : List α) :
    Sequential fun self => forEach (f self) as := by
  induction as with
  | nil => exact sequential_const _
  | cons a as ih => exact (hf a).bind fun _ => ih

theorem sequential_repeatWhile {condition : Performer → Action Bool}
    {body : Performer → Action Unit} (hcondition : Sequential condition)
    (hbody : Sequential body) (n : Nat) :
    Sequential fun self => repeatWhile (condition self) (body self) n := by
  induction n with
  | zero => exact sequential_const _
  | succ n ih =>
    refine hcondition.bind fun holds => ?_
    exact Sequential.ite (hbody.bind fun _ => ih) (sequential_const _)

theorem Sequential.attempt (hx : Sequential x) : Sequential fun self => (x self).attempt := by
  refine hx.wrap id ?_ ?_
  · intro y y' m hy
    simp only [id_eq] at hy
    simp only [Action.attempt, hy]
  · intro y m hy
    simp only [id_eq] at hy
    simp only [Action.attempt, hy]

theorem sequential_script (script : Script α) : Sequential fun self => script.run self := by
  induction script with
  | finish result => exact sequential_const _
  | ask op next ih => exact (sequential_ask op).attempt.bind ih

end Rules

/-! ## Groups -/

theorem sequential_evaluate (e : Expression) : Sequential fun self => evaluate self e := by
  cases e with
  | leaf h => exact sequential_const _
  | group es => exact sequential_ask _

theorem sequential_scan (before waiting : List Expression) :
    Sequential fun self => scan self before waiting := by
  induction hn : before.length using Nat.strongRecOn generalizing before waiting with
  | ind n ih =>
  have afterCall : ∀ (args rest : List Expression) (isInfix : Bool), rest.length < n →
      Sequential fun self =>
        self (.call args isInfix) >>= fun results => scan self rest (results.map .leaf) :=
    fun args rest isInfix hlength =>
      (sequential_ask _).bind fun results => ih _ hlength rest _ rfl
  match before with
  | [] =>
    simp only [scan]
    exact sequential_const _
  | .group es :: before =>
    simp only [scan]
    exact ih before.length (by simp [← hn]) before _ rfl
  | .leaf h :: before =>
    simp only [scan]
    refine (sequential_const _).bind fun callee => (sequential_const _).bind fun i => ?_
    refine Sequential.ite (ih before.length (by simp [← hn]) before _ rfl) ?_
    split
    · exact afterCall _ _ _ (by grind)
    · exact afterCall _ _ _ (by simp [← hn])

theorem sequential_collect (e : Expression) : Sequential fun self => collect self e := by
  cases e with
  | leaf h => exact sequential_const _
  | group es => exact sequential_ask _

theorem sequential_evaluateGroup (es : List Expression) :
    Sequential fun self => evaluateGroup self es :=
  (sequential_const _).bind fun _ => (sequential_scan es.reverse []).bind fun waiting =>
    sequential_concatMap sequential_collect waiting

theorem sequential_evaluateEach (es : List Expression) :
    Sequential fun self => evaluateEach self es :=
  sequential_concatMap (fun _ => sequential_ask _) es

/-! ## Built-in functions -/

theorem sequential_declareBetween (operands : List Expression) :
    Sequential fun self => declareBetween self operands := by
  unfold declareBetween
  cases operands.getLast? with
  | none => exact sequential_const _
  | some last =>
    refine (sequential_ask _).bind fun values => ?_
    split
    · refine (sequential_const _).bind fun type => Sequential.ite ?_ (sequential_const _)
      exact (sequential_evaluateEach _).bind fun _ => sequential_const _
    · exact sequential_const _

theorem sequential_declareInFront (operands : List Expression) :
    Sequential fun self => declareInFront self operands :=
  (sequential_evaluateEach _).bind fun _ => sequential_const _

theorem sequential_pairs (operands : List Expression) :
    Sequential fun self => pairs self operands :=
  (sequential_evaluateEach _).bind fun _ =>
    (sequential_evaluateEach _).bind fun _ => sequential_const _

/-- What is done with the pairs does not ask for anything. -/
theorem sequential_pairs_bind {α : Type} (operands : List Expression)
    (f : List (Handle × Handle) → Action α) :
    Sequential fun self => pairs self operands >>= f :=
  (sequential_pairs operands).bind fun _ => sequential_const _

theorem sequential_print (operands : List Expression) :
    Sequential fun self => print self operands :=
  sequential_forEach (fun _ => (sequential_ask _).bind fun _ => sequential_const _) operands

theorem sequential_dump (operands : List Expression) :
    Sequential fun self => dump self operands :=
  sequential_forEach (fun _ => (sequential_ask _).bind fun _ => sequential_const _) operands

theorem sequential_loadModules (args : List Expression) :
    Sequential fun self => loadModules self args := by
  refine (sequential_evaluateEach _).bind fun handles => (sequential_const _).bind fun words => ?_
  exact sequential_forEach (fun _ => sequential_ask _) (requests words)

theorem sequential_callBuiltin (args : List Expression) (isInfix : Bool) (op : Builtin) :
    Sequential fun self => callBuiltin self args isInfix op := by
  cases op with
  | declare => exact Sequential.ite (sequential_declareBetween _) (sequential_declareInFront _)
  | assign => exact sequential_pairs_bind _ _
  | arithmetic op => exact sequential_pairs_bind _ _
  | update op => exact sequential_pairs_bind _ _
  | compare op => exact sequential_pairs_bind _ _
  | connect op => exact sequential_pairs_bind _ _
  | negate => exact (sequential_evaluateEach _).bind fun _ => sequential_const _
  | index => exact sequential_pairs_bind _ _
  | print => exact (sequential_print _).bind fun _ => sequential_const _
  | printLine => exact (sequential_print _).bind fun _ => sequential_const _
  | dump => exact (sequential_dump _).bind fun _ => sequential_const _
  | loadModule => exact (sequential_loadModules args).bind fun _ => sequential_const _
  | _ => exact sequential_const _

theorem sequential_call (host : Host) (args : List Expression) (isInfix : Bool) :
    Sequential fun self => call host self args isInfix := by
  unfold call
  cases args.head?.bind Expression.handle? with
  | none => exact sequential_const _
  | some callee =>
    refine (sequential_const _).bind fun i => ?_
    cases i.callable? with
    | none => exact sequential_const _
    | some c =>
      cases c with
      | builtin op => exact sequential_callBuiltin args isInfix op
      | native label => exact sequential_script _

/-! ## Statements -/

theorem sequential_runAll (body : List Statement) (ladder : Option Bool) :
    Sequential fun self => runAll self body ladder := by
  induction body generalizing ladder with
  | nil => exact sequential_const _
  | cons s ss ih => exact (sequential_ask _).bind ih

theorem sequential_holds (condition : List Expression) :
    Sequential fun self => holds self condition :=
  (sequential_ask _).bind fun _ => sequential_const _

section Frames

variable {α : Type} {x : Performer → Action α}

theorem inFrame_eq_cutOff_iff {host : Host} {y : Action α} {m : Machine} :
    inFrame host y m = .cutOff ↔ y { m with store := m.store.enter } = .cutOff := by
  simp only [inFrame]
  cases y { m with store := m.store.enter } with
  | value a m₁ =>
    simp only
    cases (m₁.store.leave (host.arrange m₁.blocksLeft)).1 <;> simp
  | failure e m₁ => simp
  | cutOff => simp

theorem Sequential.inFrame (hx : Sequential x) (host : Host) :
    Sequential fun self => Evaluation.inFrame host (x self) := by
  refine hx.wrap (fun m => { m with store := m.store.enter }) ?_
    fun _ _ => inFrame_eq_cutOff_iff.mpr
  intro y y' m hy
  simp only [Evaluation.inFrame, hy]

theorem Sequential.inNamespace (hx : Sequential x) (space : String) :
    Sequential fun self => Evaluation.inNamespace space (x self) := by
  refine hx.wrap
    (fun m => { m with store := { m.store with scopes := m.store.scopes.goTo space } }) ?_ ?_
  · intro y y' m hy
    simp only [Evaluation.inNamespace, hy]
  · intro y m hy
    simp only [Evaluation.inNamespace, hy]

end Frames

theorem sequential_runRung (condition : List Expression) (body : List Statement) :
    Sequential fun self => runRung self condition body := by
  refine (sequential_ask (.decide condition)).bind fun taken => ?_
  exact Sequential.ite ((sequential_ask _).bind fun _ => sequential_const _) (sequential_const _)

theorem sequential_runStep (steps : Nat) (s : Statement) (ladder : Option Bool) :
    Sequential fun self => runStep self steps s ladder := by
  have hrung : ∀ condition : List Expression,
      Sequential fun self => (do return some (← runRung self condition s.body)) :=
    fun condition => (sequential_runRung condition s.body).bind fun _ => sequential_const _
  have hblock : Sequential fun self => (do
      self (.runBlock s.body)
      return (none : Option Bool)) :=
    (sequential_ask (.runBlock s.body)).bind fun _ => sequential_const _
  refine Sequential.ite (sequential_const _) ((sequential_const _).bind fun found => ?_)
  cases found with
  | ifTrue condition => exact hrung condition
  | elseIf condition =>
    match ladder with
    | none => exact sequential_const _
    | some true => exact sequential_const _
    | some false => exact hrung condition
  | otherwise =>
    match ladder with
    | none => exact sequential_const _
    | some true => exact sequential_const _
    | some false => exact hblock
  | whileTrue condition =>
    exact (sequential_repeatWhile (sequential_ask _) (sequential_ask _) steps).bind
      fun _ => sequential_const _
  | plain =>
    have hbody : Sequential fun self =>
        (if s.isBlock then (do self (.runBlock s.body); return none) else return none :
          Action (Option Bool)) := Sequential.ite hblock (sequential_const _)
    exact Sequential.ite ((sequential_ask _).bind fun _ => hbody) hbody

theorem sequential_run (s : Statement) : Sequential fun self => run self s :=
  (sequential_ask _).bind fun _ => sequential_const _

theorem sequential_runTopLevel (s : Statement) : Sequential fun self => runTopLevel self s :=
  Sequential.ite ((sequential_ask _).bind fun _ => sequential_runAll s.body none)
    (sequential_runAll s.body none)

theorem sequential_withText (text : String) {next : Performer → Statement → Action Unit}
    (hnext : ∀ s, Sequential fun self => next self s) :
    Sequential fun self => withText text (next self) := by
  refine (sequential_const (Machine.readText text)).bind fun result => ?_
  cases result with
  | error e => exact sequential_const _
  | ok s => exact (hnext s).bind fun _ => sequential_const _

theorem sequential_loadModule (host : Host) (path space : String) (args : List Expression) :
    Sequential fun self => loadModule host self path space args := by
  unfold loadModule
  cases host.openModule path with
  | error e => exact sequential_const _
  | ok entry => exact (sequential_script _).inNamespace space

/-! ## Operations -/

/-- One step of an operation asks for other operations one after the other. -/
theorem sequential_step (host : Host) (steps : Nat) (op : Operation) :
    Sequential fun self => step host self steps op := by
  cases op with
  | evaluate e => exact sequential_evaluate e
  | evaluateGroup es => exact sequential_evaluateGroup es
  | call args isInfix => exact sequential_call host args isInfix
  | runStep s ladder => exact sequential_runStep steps s ladder
  | runBlock body => exact (sequential_runAll body none).inFrame host
  | decide condition => exact (sequential_holds condition).inFrame host
  | run s => exact sequential_run s
  | runTopLevel s => exact sequential_runTopLevel s
  | runText text => exact sequential_withText text fun s => sequential_ask (.run s)
  | runTextTopLevel text => exact sequential_withText text fun s => sequential_ask (.runTopLevel s)
  | loadModule path space args => exact sequential_loadModule host path space args
  | _ => exact sequential_const _

/-! ## More steps -/

/-- An action goes on where another one is cut off, and does the same everywhere else. -/
def Completes {α : Type} (x y : Action α) : Prop :=
  ∀ m, x m ≠ .cutOff → y m = x m

section Completes

variable {α β : Type} {x y : Action α}

theorem completes_refl (x : Action α) : Completes x x := fun _ _ => rfl

theorem Completes.trans {z : Action α} (h : Completes x y) (h' : Completes y z) :
    Completes x z := by
  intro m hends
  have heq := h m hends
  rw [h' m (heq ▸ hends), heq]

theorem Completes.bind {f g : α → Action β} (h : Completes x y)
    (hf : ∀ a, Completes (f a) (g a)) : Completes (x >>= f) (y >>= g) := by
  intro m hends
  rw [Action.bind_apply] at hends ⊢
  rw [Action.bind_apply]
  cases hxm : x m with
  | value a m₁ =>
    rw [hxm] at hends
    rw [h m (by rw [hxm]; nofun), hxm]
    exact hf a m₁ hends
  | failure e m₁ => rw [h m (by rw [hxm]; nofun), hxm]
  | cutOff =>
    rw [hxm] at hends
    exact absurd rfl hends

theorem completes_repeatWhile (condition : Action Bool) (body : Action Unit) (steps : Nat) :
    Completes (repeatWhile condition body steps) (repeatWhile condition body (steps + 1)) := by
  induction steps with
  | zero => exact fun _ hends => absurd rfl hends
  | succ steps ih =>
    refine (completes_refl condition).bind fun holds => ?_
    split
    · exact (completes_refl body).bind fun _ => ih
    · exact completes_refl _

/-- What is not cut off does not depend on operations that are. -/
theorem Sequential.completes {x : Performer → Action α} (hx : Sequential x)
    {self self' : Performer} (hself : ∀ op, Completes (self op) (self' op)) :
    Completes (x self) (x self') := by
  intro m hends
  by_contra hne
  obtain ⟨op, m', hdiffers, hcut⟩ := hx self self' m hends (Ne.symm hne)
  have hop : self op m' = .cutOff := by
    by_contra hop
    exact hdiffers (hself op m' hop).symm
  rw [← hop, alter_same] at hcut
  exact hends hcut

theorem completes_runStep (self : Performer) (steps : Nat) (s : Statement) (ladder : Option Bool) :
    Completes (runStep self steps s ladder) (runStep self (steps + 1) s ladder) := by
  unfold runStep
  split
  · exact completes_refl _
  refine (completes_refl _).bind fun found => ?_
  cases found with
  | whileTrue condition =>
    exact (completes_repeatWhile _ _ steps).bind fun _ => completes_refl _
  | _ => exact completes_refl _

/-- With one step more, an operation that was not cut off ends the same way. -/
theorem completes_perform_succ (host : Host) (steps : Nat) (op : Operation) :
    Completes (perform host steps op) (perform host (steps + 1) op) := by
  induction steps generalizing op with
  | zero => exact fun _ hends => absurd rfl hends
  | succ steps ih =>
    refine ((sequential_step host steps op).completes ih).trans ?_
    cases op with
    | runStep s ladder => exact completes_runStep _ steps s ladder
    | _ => exact completes_refl _

/-- More steps never change an answer. -/
theorem completes_perform (host : Host) {steps steps' : Nat} (h : steps ≤ steps')
    (op : Operation) : Completes (perform host steps op) (perform host steps' op) := by
  induction h with
  | refl => exact completes_refl _
  | step _ ih => exact ih.trans (completes_perform_succ host _ op)

end Completes

/-! ## Watching what is asked -/

/-- Carries out operations, but cuts off those that fail a test, however far down they are asked. -/
def watched (host : Host) (test : Operation → Machine → Bool) : Nat → Performer
  | 0, _ => fun _ => .cutOff
  | steps + 1, op => fun m =>
    if test op m then step host (watched host test steps) steps op m else .cutOff

section Watched

variable {host : Host} {test : Operation → Machine → Bool} {α : Type}
variable {self self' : Performer} {m m' : Machine} {op' : Operation}

theorem watched_succ (host : Host) (test : Operation → Machine → Bool) (steps : Nat) (op : Operation)
    (m : Machine) : watched host test (steps + 1) op m =
      if test op m then step host (watched host test steps) steps op m else .cutOff := rfl

theorem completes_watched (host : Host) (test : Operation → Machine → Bool) (steps : Nat)
    (op : Operation) : Completes (watched host test steps op) (perform host steps op) := by
  induction steps generalizing op with
  | zero => exact fun _ hends => absurd rfl hends
  | succ steps ih =>
    intro m hends
    rw [watched_succ] at hends ⊢
    split at hends
    · next htest =>
      rw [if_pos htest]
      exact (sequential_step host steps op).completes ih m hends
    · exact absurd rfl hends

/-- An action that comes to an end with some operations cut off asks for none of them: it would make
no difference how they end. -/
theorem Sequential.ends_of_asks {x : Performer → Action α} (hx : Sequential x)
    (hself : ∀ op, Completes (self op) (self' op)) (hends : x self m ≠ .cutOff)
    (h : Asks x self' m op' m') : self op' m' ≠ .cutOff := by
  intro hcut
  obtain ⟨o, o', hne⟩ := h
  have hsame : ∀ o : Outcome op'.Answer, x (Evaluation.alter self' op' m' o) m = x self m := by
    intro o
    refine hx.completes (fun op m₁ hends₁ => ?_) m hends
    rw [alter_of_ne, hself op m₁ hends₁]
    rintro ⟨rfl, rfl⟩
    exact hends₁ hcut
  exact hne ((hsame o).trans (hsame o').symm)

theorem ends_of_reaches {script : Script α} (hself : ∀ op, Completes (self op) (self' op))
    (hends : script.run self m ≠ .cutOff) (h : script.Reaches self' m op' m') :
    self op' m' ≠ .cutOff := by
  induction h with
  | @here op next m =>
    intro hcut
    simp [Script.run, Action.bind_apply, Action.attempt, hcut] at hends
  | @value op op' next m m₁ m' a hop _ ih =>
    refine ih fun hcut => hends ?_
    simp only [Script.run, Action.bind_apply, Action.attempt]
    by_cases hcut' : self op m = .cutOff
    · rw [hcut']
    · rw [← hself op m hcut', hop]
      exact hcut
  | @failure op op' next m m₁ m' e hop _ ih =>
    refine ih fun hcut => hends ?_
    simp only [Script.run, Action.bind_apply, Action.attempt]
    by_cases hcut' : self op m = .cutOff
    · rw [hcut']
    · rw [← hself op m hcut', hop]
      exact hcut

theorem ends_of_inside {steps : Nat} {op : Operation}
    (hself : ∀ op, Completes (self op) (perform host steps op))
    (hends : step host self steps op m ≠ .cutOff) (h : Inside host steps op m op' m') :
    self op' m' ≠ .cutOff := by
  cases h with
  | evaluation h => exact (sequential_step host steps op).ends_of_asks hself hends h
  | native hcallee hi hlabel h =>
    refine ends_of_reaches hself (fun hcut => hends ?_) h
    simp only [step, call, hcallee, Action.bind_apply, Machine.identifier, hi, hlabel]
    exact hcut
  | entry hopen h =>
    refine ends_of_reaches hself (fun hcut => hends ?_) h
    simp only [step, loadModule, hopen, inNamespace, hcut]

/-- What comes to an end although all operations that fail a test are cut off asks for none that
does. -/
theorem test_of_during {steps steps' : Nat} {op : Operation}
    (hends : watched host test steps op m ≠ .cutOff)
    (h : During host steps op m steps' op' m') : test op' m' = true := by
  induction h with
  | @here steps op m =>
    cases steps with
    | zero => exact absurd rfl hends
    | succ steps =>
      rw [watched_succ] at hends
      by_contra htest
      exact hends (if_neg htest)
  | @inside steps steps' op op₁ op' m m₁ m' h _ ih =>
    rw [watched_succ] at hends
    split at hends
    · exact ih (ends_of_inside (completes_watched host test steps) hends h)
    · exact absurd rfl hends

end Watched

end Evaluation

/-! ## Operations that are carried out where they may be -/

namespace Contract

open Evaluation

variable {C : Contract} {host : Host} {α : Type}

/-- Whatever is carried out during the operation, the contract permits it where that happens. -/
def PermitsWithin (C : Contract) (host : Host) (steps : Nat) (op : Operation) (m : Machine) : Prop :=
  ∀ steps' op' m', During host steps op m steps' op' m' → C.Permits op' m'.store

open Classical in
/-- Carries out only operations during which nothing happens but what the contract permits. -/
noncomputable def within (C : Contract) (host : Host) (steps : Nat) : Performer := fun op m =>
  if C.PermitsWithin host steps op m then perform host steps op m else .cutOff

theorem within_eq {steps : Nat} {op : Operation} {m : Machine}
    (h : C.PermitsWithin host steps op m) : C.within host steps op m = perform host steps op m :=
  if_pos h

/-- An action that depends only on operations within what is permitted ends as it does when all else
is cut off. -/
theorem meets_of_within {R : Store → Store → Prop} {P : Store → α → Prop} {s : Store}
    {x : Performer → Action α} (hx : Sequential x) {steps : Nat} {m : Machine}
    (hmeets : C.Meets R P s (x (C.within host steps) m))
    (hpermits : ∀ op m', x (perform host steps) m ≠ .cutOff →
      x (alter (perform host steps) op m' .cutOff) m = .cutOff →
      C.PermitsWithin host steps op m') :
    C.Meets R P s (x (perform host steps) m) := by
  by_cases hends : x (perform host steps) m = .cutOff
  · rw [hends]
    trivial
  by_cases hsame : x (perform host steps) m = x (C.within host steps) m
  · rw [hsame]
    exact hmeets
  · obtain ⟨op, m', hdiffers, hcut⟩ := hx _ _ m hends hsame
    exact absurd (within_eq (hpermits op m' hends hcut)).symm hdiffers

/-- By induction on the steps, whatever is permitted throughout keeps a contract that is upheld. -/
theorem Upheld.agree_within (hC : C.Upheld host) (steps : Nat) :
    C.Agree (C.within host steps) (C.within host steps) := by
  intro op m hm hadmits
  refine ⟨rfl, ?_⟩
  by_cases hpermits : C.PermitsWithin host steps op m
  · rw [within_eq hpermits]
    induction steps generalizing op m with
    | zero => trivial
    | succ steps ih =>
      have hself : C.Agree (C.within host steps) (C.within host steps) := by
        intro op' m' hm' hadmits'
        refine ⟨rfl, ?_⟩
        by_cases hpermits' : C.PermitsWithin host steps op' m'
        · rw [within_eq hpermits']
          exact ih op' m' hm' hadmits' hpermits'
        · rw [within, if_neg hpermits']
          trivial
      refine meets_of_within (sequential_step host steps op)
        (hC.keeps_step hself steps hm hadmits (hpermits _ _ _ .here)).meets ?_
      intro op' m' hends hcut steps' op'' m'' h
      exact hpermits _ _ _ (.inside (.evaluation (asks_of_cutOff hends hcut)) h)
  · rw [within, if_neg hpermits]
    trivial

theorem Upheld.perform_meets (hC : C.Upheld host) {steps : Nat} {op : Operation} {m : Machine}
    (hm : C.Inv m.store) (hadmits : C.Admits m.store op)
    (hpermits : C.PermitsWithin host steps op m) :
    C.Meets (C.effect op) (fun s => C.Gives s op) m.store (perform host steps op m) := by
  have hmeets := (hC.agree_within steps op m hm hadmits).meets
  rwa [within_eq hpermits] at hmeets

/-- What runs in the frame that an operation opens keeps the contract as well. -/
theorem meets_inFrame {R : Store → Store → Prop} {P : Store → α → Prop} {s : Store}
    {x : Performer → Action α} (hx : Sequential x) {steps : Nat} {op : Operation} {m : Machine}
    (hpermits : C.PermitsWithin host (steps + 1) op m)
    (hop : ∀ self, Evaluation.step host self steps op m = .cutOff ↔
      x self { m with store := m.store.enter } = .cutOff)
    (hmeets : C.Meets R P s (x (C.within host steps) { m with store := m.store.enter })) :
    C.Meets R P s (x (perform host steps) { m with store := m.store.enter }) := by
  refine meets_of_within hx hmeets fun op' m' hends hcut steps' op'' m'' h => ?_
  have hasks := asks_of_cutOff (x := fun self => Evaluation.step host self steps op)
    (fun h => hends ((hop _).mp h)) ((hop _).mpr hcut)
  exact hpermits _ _ _ (.inside (.evaluation hasks) h)

end Contract

end WordScript
