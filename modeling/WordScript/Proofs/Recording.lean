import WordScript.Evaluation
import WordScript.Proofs.Coupling

/-!
# Keeping books

Besides the store and the output, a machine counts the blocks it has left, and may keep a journal of
the groups that are evaluated. The journal is only written; whether one is kept, and what is in it,
makes no difference to how an operation ends. Nor does the count, where the order in which blocks
destroy what they hold does not depend on it. The rules for actions come first, then one lemma for
each function of the evaluation, up to a whole operation.
-/

namespace WordScript

/-- A relation of machines that have the same store and the same output, and keep the same books
from then on when the same is done on them. -/
class Machine.Bookkeeping (R : Machine → Machine → Prop) : Prop where
  store : ∀ {m m'}, R m m' → m.store = m'.store
  sink : ∀ {m m'}, R m m' → m.sink = m'.sink
  withStore : ∀ {m m'} (store : Store), R m m' → R { m with store } { m' with store }
  withSink : ∀ {m m'} (sink : Sink), R m m' → R { m with sink } { m' with sink }
  note : ∀ {m m'} (group : List Expression), R m m' →
    R { m with journal := m.journal.map (group :: ·) }
      { m' with journal := m'.journal.map (group :: ·) }
  leave : ∀ {m m'}, R m m' →
    R { m with blocksLeft := m.blocksLeft + 1 } { m' with blocksLeft := m'.blocksLeft + 1 }

/-- The machines are the same but for their journals. -/
def Machine.SameButJournal (m m' : Machine) : Prop := ∃ journal, m' = { m with journal }

instance : Machine.Bookkeeping Machine.SameButJournal where
  store := by rintro m _ ⟨journal, rfl⟩; rfl
  sink := by rintro m _ ⟨journal, rfl⟩; rfl
  withStore := by rintro m _ store ⟨journal, rfl⟩; exact ⟨journal, rfl⟩
  withSink := by rintro m _ sink ⟨journal, rfl⟩; exact ⟨journal, rfl⟩
  note := by rintro m _ group ⟨journal, rfl⟩; exact ⟨journal.map (group :: ·), rfl⟩
  leave := by rintro m _ ⟨journal, rfl⟩; exact ⟨journal, rfl⟩

/-- The machines are the same but for their journals and the number of blocks they have left. -/
def Machine.SameButBooks (m m' : Machine) : Prop :=
  ∃ blocksLeft journal, m' = { m with blocksLeft, journal }

instance : Machine.Bookkeeping Machine.SameButBooks where
  store := by rintro m _ ⟨n, journal, rfl⟩; rfl
  sink := by rintro m _ ⟨n, journal, rfl⟩; rfl
  withStore := by rintro m _ store ⟨n, journal, rfl⟩; exact ⟨n, journal, rfl⟩
  withSink := by rintro m _ sink ⟨n, journal, rfl⟩; exact ⟨n, journal, rfl⟩
  note := by rintro m _ group ⟨n, journal, rfl⟩; exact ⟨n, journal.map (group :: ·), rfl⟩
  leave := by rintro m _ ⟨n, journal, rfl⟩; exact ⟨n + 1, journal, rfl⟩

theorem Machine.SameButBooks.symm {m m' : Machine} (h : m.SameButBooks m') : m'.SameButBooks m := by
  obtain ⟨n, journal, rfl⟩ := h
  exact ⟨m.blocksLeft, m.journal, rfl⟩

namespace Evaluation

open WordScript.Action WordScript.Machine

/-- The books make no difference to an action. -/
def Unrecorded {α : Type} (R : Machine → Machine → Prop) (x : Action α) : Prop :=
  ∀ m m', R m m' → (x m).Agrees R (x m')

variable {R : Machine → Machine → Prop}

/-! ## Rules for actions -/

section Rules

variable {α β : Type} {x : Action α} {f : α → Action β} {m m' : Machine}

theorem unrecorded_pure (a : α) : Unrecorded R (pure a : Action α) :=
  fun _ _ hsame => ⟨rfl, hsame⟩

theorem unrecorded_fail (e : RuntimeError) : Unrecorded R (Action.fail e : Action α) :=
  fun _ _ hsame => ⟨rfl, hsame⟩

theorem unrecorded_ofExcept (result : Except RuntimeError α) :
    Unrecorded R (Action.ofExcept result) := by
  cases result with
  | ok a => exact unrecorded_pure a
  | error e => exact unrecorded_fail e

/-- Both times it ends with the same value, with the same error, or not at all. -/
theorem Unrecorded.cases (hx : Unrecorded R x) (hsame : R m m') :
    (∃ a m₁ m₁', x m = .value a m₁ ∧ x m' = .value a m₁' ∧ R m₁ m₁') ∨
    (∃ e m₁ m₁', x m = .failure e m₁ ∧ x m' = .failure e m₁' ∧ R m₁ m₁') ∨
    (x m = .cutOff ∧ x m' = .cutOff) := by
  have hends := hx m m' hsame
  cases hxm : x m <;> cases hxm' : x m' <;> rw [hxm, hxm'] at hends
  case value.value a m₁ b m₁' =>
    obtain ⟨rfl, hsame₁⟩ := hends
    exact .inl ⟨a, m₁, m₁', rfl, rfl, hsame₁⟩
  case failure.failure e m₁ e' m₁' =>
    obtain ⟨rfl, hsame₁⟩ := hends
    exact .inr (.inl ⟨e, m₁, m₁', rfl, rfl, hsame₁⟩)
  case cutOff.cutOff => exact .inr (.inr ⟨rfl, rfl⟩)
  all_goals exact hends.elim

/-- It ends alike on machines that are the same but for their books. -/
theorem Unrecorded.agrees (hx : Unrecorded R x) (hsame : R m m') : (x m).Agrees R (x m') :=
  hx m m' hsame

/-- What gives a value gives the same one with any other books. -/
theorem Unrecorded.of_value (hx : Unrecorded R x) {m₁ : Machine} {a : α}
    (h : x m = .value a m₁) (hsame : R m m') : ∃ m₁', x m' = .value a m₁' ∧ R m₁ m₁' := by
  obtain ⟨b, m₂, m₂', hxm, hxm', hsame₂⟩ | ⟨e, m₂, m₂', hxm, -⟩ | ⟨hxm, -⟩ := hx.cases hsame
  · obtain ⟨rfl, rfl⟩ := Outcome.value.inj (h.symm.trans hxm)
    exact ⟨_, hxm', hsame₂⟩
  · cases h.symm.trans hxm
  · cases h.symm.trans hxm

theorem Unrecorded.bind (hx : Unrecorded R x) (hf : ∀ a, Unrecorded R (f a)) :
    Unrecorded R (x >>= f) := by
  intro m m' hsame
  rw [Action.bind_apply, Action.bind_apply]
  obtain ⟨a, m₁, m₁', h, h', hsame₁⟩ | ⟨e, m₁, m₁', h, h', hsame₁⟩ | ⟨h, h'⟩ := hx.cases hsame
  · rw [h, h']
    exact hf a m₁ m₁' hsame₁
  · rw [h, h']
    exact ⟨rfl, hsame₁⟩
  · rw [h, h']
    trivial

theorem Unrecorded.attempt (hx : Unrecorded R x) : Unrecorded R x.attempt := by
  intro m m' hsame
  unfold Action.attempt
  obtain ⟨a, m₁, m₁', h, h', hsame₁⟩ | ⟨e, m₁, m₁', h, h', hsame₁⟩ | ⟨h, h'⟩ := hx.cases hsame
  · rw [h, h']
    exact ⟨rfl, hsame₁⟩
  · rw [h, h']
    exact ⟨rfl, hsame₁⟩
  · rw [h, h']
    trivial

theorem unrecorded_concatMap {g : α → Action (List β)} (hg : ∀ a, Unrecorded R (g a))
    (as : List α) : Unrecorded R (concatMap g as) := by
  induction as with
  | nil => exact unrecorded_pure []
  | cons a as ih => exact (hg a).bind fun _ => ih.bind fun _ => unrecorded_pure _

theorem unrecorded_forEach {g : α → Action Unit} (hg : ∀ a, Unrecorded R (g a)) (as : List α) :
    Unrecorded R (forEach g as) := by
  induction as with
  | nil => exact unrecorded_pure ()
  | cons a as ih => exact (hg a).bind fun _ => ih

theorem Unrecorded.ite {c : Prop} [Decidable c] {y : Action α} (hx : Unrecorded R x)
    (hy : Unrecorded R y) : Unrecorded R (if c then x else y) := by
  split
  · exact hx
  · exact hy

theorem unrecorded_repeatWhile {condition : Action Bool} {body : Action Unit}
    (hcondition : Unrecorded R condition) (hbody : Unrecorded R body) (n : Nat) :
    Unrecorded R (repeatWhile condition body n) := by
  induction n with
  | zero => exact fun _ _ _ => trivial
  | succ n ih =>
    exact hcondition.bind fun _ => Unrecorded.ite (hbody.bind fun _ => ih) (unrecorded_pure ())

theorem unrecorded_script {self : Performer} (hself : ∀ op, Unrecorded R (self op))
    (script : Script α) : Unrecorded R (script.run self) := by
  induction script with
  | finish result => exact unrecorded_ofExcept result
  | ask op next ih => exact (hself op).attempt.bind ih

/-! ## What is done to the store and the output -/

variable [Bookkeeping R]

theorem unrecorded_onStore (g : Store → α × Store) : Unrecorded R (Action.onStore g) := by
  intro m m' hsame
  simp only [Action.onStore, ← Bookkeeping.store hsame]
  exact ⟨rfl, Bookkeeping.withStore _ hsame⟩

theorem unrecorded_tryStore (g : Store → Except RuntimeError (α × Store)) :
    Unrecorded R (Action.tryStore g) := by
  intro m m' hsame
  simp only [Action.tryStore, ← Bookkeeping.store hsame]
  cases g m.store with
  | ok result => exact ⟨rfl, Bookkeeping.withStore _ hsame⟩
  | error e => exact ⟨rfl, hsame⟩

theorem unrecorded_identifier (h : Handle) : Unrecorded R (identifier h) := by
  intro m m' hsame
  simp only [identifier, ← Bookkeeping.store hsame]
  cases m.store.arena.get? h with
  | some i => exact ⟨rfl, hsame⟩
  | none => exact ⟨rfl, hsame⟩

theorem unrecorded_write (text : String) : Unrecorded R (write text) := by
  intro m m' hsame
  simp only [write, ← Bookkeeping.sink hsame]
  cases m.sink.write text with
  | ok sink => exact ⟨rfl, Bookkeeping.withSink _ hsame⟩
  | error e => exact ⟨rfl, hsame⟩

theorem unrecorded_flush : Unrecorded R flush := by
  intro m m' hsame
  simp only [flush, ← Bookkeeping.sink hsame]
  cases m.sink.flush with
  | ok _ => exact ⟨rfl, hsame⟩
  | error e => exact ⟨rfl, hsame⟩

theorem unrecorded_resolve (name : String) : Unrecorded R (resolve name) :=
  unrecorded_tryStore _

theorem unrecorded_declare (i : Identifier) : Unrecorded R (declare i) :=
  unrecorded_tryStore _

theorem unrecorded_setValue (h : Handle) (value : Value) : Unrecorded R (setValue h value) :=
  unrecorded_tryStore _

theorem unrecorded_pushTemporary (i : Identifier) : Unrecorded R (pushTemporary i) :=
  unrecorded_onStore _

theorem unrecorded_readText (text : String) : Unrecorded R (readText text) :=
  unrecorded_onStore _

theorem unrecorded_place : Unrecorded R place := by
  intro m m' hsame
  simp only [place, Action.inspect, ← Bookkeeping.store hsame]
  exact ⟨rfl, hsame⟩

theorem unrecorded_note (group : List Expression) : Unrecorded R (note group) :=
  fun _ _ hsame => ⟨rfl, Bookkeeping.note group hsame⟩

/-- A block is left the same way when the order in which it destroys what it holds is the same. -/
theorem Unrecorded.inFrame (hx : Unrecorded R x) {host : Host}
    (hhost : ∀ m m', R m m' → host.arrange m.blocksLeft = host.arrange m'.blocksLeft) :
    Unrecorded R (Evaluation.inFrame host x) := by
  intro m m' hsame
  have hentered := Bookkeeping.withStore m.store.enter hsame
  unfold Evaluation.inFrame
  rw [← Bookkeeping.store hsame]
  obtain ⟨a, m₁, m₁', h, h', hsame₁⟩ | ⟨e, m₁, m₁', h, h', hsame₁⟩ | ⟨h, h'⟩ := hx.cases hentered
  · simp only [h, h', ← Bookkeeping.store hsame₁, ← hhost m₁ m₁' hsame₁]
    have hleft := Bookkeeping.leave (Bookkeeping.withStore
      (m₁.store.leave (host.arrange m₁.blocksLeft)).2 hsame₁)
    cases (m₁.store.leave (host.arrange m₁.blocksLeft)).1 with
    | ok _ => exact ⟨rfl, hleft⟩
    | error e => exact ⟨rfl, hleft⟩
  · simp only [h, h', ← Bookkeeping.store hsame₁, ← hhost m₁ m₁' hsame₁]
    exact ⟨rfl, Bookkeeping.leave (Bookkeeping.withStore
      (m₁.store.leave (host.arrange m₁.blocksLeft)).2 hsame₁)⟩
  · simp only [h, h']
    trivial

theorem Unrecorded.inNamespace (hx : Unrecorded R x) (space : String) :
    Unrecorded R (Evaluation.inNamespace space x) := by
  intro m m' hsame
  have hentered :=
    Bookkeeping.withStore { m.store with scopes := m.store.scopes.goTo space } hsame
  unfold Evaluation.inNamespace
  rw [← Bookkeeping.store hsame]
  obtain ⟨a, m₁, m₁', h, h', hsame₁⟩ | ⟨e, m₁, m₁', h, h', hsame₁⟩ | ⟨h, h'⟩ := hx.cases hentered
  · simp only [h, h', ← Bookkeeping.store hsame₁]
    exact ⟨rfl, Bookkeeping.withStore _ hsame₁⟩
  · simp only [h, h', ← Bookkeeping.store hsame₁]
    exact ⟨rfl, Bookkeeping.withStore _ hsame₁⟩
  · simp only [h, h']
    trivial

end Rules

/-! ## Groups -/

section Functions

variable [Bookkeeping R] {self : Performer} (hself : ∀ op, Unrecorded R (self op))

theorem unrecorded_resolveLeaf (h : Handle) : Unrecorded R (resolveLeaf h) :=
  (unrecorded_identifier h).bind fun _ =>
    Unrecorded.ite (unrecorded_resolve _) (unrecorded_pure h)

include hself

theorem unrecorded_evaluate (e : Expression) : Unrecorded R (evaluate self e) := by
  cases e with
  | leaf h => exact (unrecorded_resolveLeaf h).bind fun _ => unrecorded_pure _
  | group es => exact hself _

theorem unrecorded_scan (before waiting : List Expression) :
    Unrecorded R (scan self before waiting) := by
  induction hn : before.length using Nat.strongRecOn generalizing before waiting with
  | ind n ih =>
  have afterCall : ∀ (args rest : List Expression) (isInfix : Bool), rest.length < n →
      Unrecorded R (self (.call args isInfix) >>= fun results =>
        scan self rest (results.map .leaf)) :=
    fun args rest isInfix hlength => (hself _).bind fun results => ih _ hlength rest _ rfl
  match before with
  | [] =>
    simp only [scan]
    exact unrecorded_pure waiting
  | .group es :: before =>
    simp only [scan]
    exact ih before.length (by simp [← hn]) before _ rfl
  | .leaf h :: before =>
    simp only [scan]
    refine (unrecorded_resolveLeaf h).bind fun callee => (unrecorded_identifier callee).bind
      fun i => Unrecorded.ite (ih before.length (by simp [← hn]) before _ rfl) ?_
    split
    · exact afterCall _ _ _ (by grind)
    · exact afterCall _ _ _ (by simp [← hn])

omit [Bookkeeping R] in
theorem unrecorded_collect (e : Expression) : Unrecorded R (collect self e) := by
  cases e with
  | leaf h => exact unrecorded_pure _
  | group es => exact hself _

theorem unrecorded_evaluateGroup (es : List Expression) : Unrecorded R (evaluateGroup self es) :=
  (unrecorded_note es).bind fun _ => (unrecorded_scan hself es.reverse []).bind
    (unrecorded_concatMap (unrecorded_collect hself))

omit [Bookkeeping R] in
theorem unrecorded_evaluateEach (es : List Expression) : Unrecorded R (evaluateEach self es) :=
  unrecorded_concatMap (fun _ => hself _) es

/-! ## Built-in functions -/

omit hself in
theorem unrecorded_declareAs (type : String) (h : Handle) : Unrecorded R (declareAs type h) :=
  (unrecorded_identifier h).bind fun _ =>
    Unrecorded.ite (unrecorded_declare _) (unrecorded_fail _)

theorem unrecorded_declareBetween (operands : List Expression) :
    Unrecorded R (declareBetween self operands) := by
  unfold declareBetween
  cases operands.getLast? with
  | none => exact unrecorded_pure []
  | some last =>
    refine (hself _).bind fun values => ?_
    split
    · refine (unrecorded_identifier _).bind fun type => Unrecorded.ite ?_ (unrecorded_fail _)
      refine (unrecorded_evaluateEach hself _).bind (unrecorded_concatMap fun h => ?_)
      exact (unrecorded_declareAs _ h).bind fun _ => unrecorded_pure _
    · exact unrecorded_fail _

omit hself in
theorem unrecorded_typeOfFirst? (depth : Nat) (hs : List Handle) :
    Unrecorded R (typeOfFirst? depth hs) := by
  induction hs with
  | nil => exact unrecorded_pure none
  | cons h hs ih =>
    exact (unrecorded_identifier h).bind fun _ => Unrecorded.ite (unrecorded_pure _) ih

theorem unrecorded_declareInFront (operands : List Expression) :
    Unrecorded R (declareInFront self operands) := by
  refine (unrecorded_evaluateEach hself operands).bind fun handles => unrecorded_place.bind
    fun here => (unrecorded_typeOfFirst? _ _).bind fun type? => unrecorded_concatMap (fun h => ?_) _
  refine (unrecorded_identifier h).bind fun i => Unrecorded.ite (unrecorded_pure _) ?_
  split
  · exact (unrecorded_declareAs _ h).bind fun _ => unrecorded_pure _
  · exact unrecorded_fail _

omit [Bookkeeping R] in
theorem unrecorded_pairs (operands : List Expression) : Unrecorded R (pairs self operands) :=
  (unrecorded_evaluateEach hself _).bind fun _ => (unrecorded_evaluateEach hself _).bind fun _ =>
    Unrecorded.ite (unrecorded_pure _) (unrecorded_fail _)

omit [Bookkeeping R] in
/-- Doing something with each pair of values. -/
theorem unrecorded_eachPair {α : Type} (operands : List Expression)
    {f : Handle × Handle → Action (List α)} (hf : ∀ pair, Unrecorded R (f pair)) :
    Unrecorded R (pairs self operands >>= concatMap f) :=
  (unrecorded_pairs hself operands).bind (unrecorded_concatMap hf)

theorem unrecorded_pairwise (operands : List Expression)
    (result : Identifier → Identifier → Except RuntimeError Identifier) :
    Unrecorded R (pairwise self operands result) :=
  unrecorded_eachPair hself operands fun _ => (unrecorded_identifier _).bind fun _ =>
    (unrecorded_identifier _).bind fun _ => (unrecorded_ofExcept _).bind fun _ =>
      (unrecorded_pushTemporary _).bind fun _ => unrecorded_pure _

omit [Bookkeeping R] hself in
theorem unrecorded_requireVariable (target : Identifier) :
    Unrecorded R (requireVariable target) :=
  Unrecorded.ite (unrecorded_pure _) (unrecorded_fail _)

theorem unrecorded_assign (operands : List Expression) : Unrecorded R (assign self operands) :=
  unrecorded_eachPair hself operands fun _ => (unrecorded_identifier _).bind fun target =>
    (unrecorded_requireVariable target).bind fun _ => Unrecorded.ite (unrecorded_pure _) <|
      (unrecorded_identifier _).bind fun _ => (unrecorded_ofExcept _).bind fun _ =>
        (unrecorded_setValue _ _).bind fun _ => unrecorded_pure _

theorem unrecorded_update (op : Arithmetic) (operands : List Expression) :
    Unrecorded R (update self op operands) :=
  unrecorded_eachPair hself operands fun _ => (unrecorded_identifier _).bind fun target =>
    (unrecorded_requireVariable target).bind fun _ => (unrecorded_identifier _).bind fun _ =>
      (unrecorded_ofExcept _).bind fun _ => (unrecorded_ofExcept _).bind fun _ =>
        (unrecorded_setValue _ _).bind fun _ => unrecorded_pure _

theorem unrecorded_negate (operands : List Expression) : Unrecorded R (negate self operands) :=
  (unrecorded_evaluateEach hself operands).bind <| unrecorded_concatMap fun h =>
    (unrecorded_identifier h).bind fun _ =>
      (unrecorded_pushTemporary _).bind fun _ => unrecorded_pure _

omit hself in
/-- Writing something about each value. -/
theorem unrecorded_writeEach (text : Handle → Identifier → String) (handles : List Handle) :
    Unrecorded R (forEach (fun h => do write (text h (← identifier h))) handles) :=
  unrecorded_forEach (fun h => (unrecorded_identifier h).bind fun _ => unrecorded_write _) handles

theorem unrecorded_print (operands : List Expression) : Unrecorded R (print self operands) :=
  unrecorded_forEach (fun _ => (hself _).bind (unrecorded_writeEach fun _ i => i.toText)) operands

theorem unrecorded_dump (operands : List Expression) : Unrecorded R (dump self operands) := by
  refine unrecorded_forEach (fun _ => (hself _).bind fun handles => ?_) operands
  exact (unrecorded_writeEach dumped handles).bind fun _ => unrecorded_write _

theorem unrecorded_loadModules (args : List Expression) : Unrecorded R (loadModules self args) := by
  refine (unrecorded_evaluateEach hself _).bind fun handles => Unrecorded.bind ?_ fun words =>
    unrecorded_forEach (fun _ => hself _) _
  exact unrecorded_concatMap (fun h => (unrecorded_identifier h).bind fun _ => unrecorded_pure _) _

theorem unrecorded_callBuiltin (args : List Expression) (isInfix : Bool) (op : Builtin) :
    Unrecorded R (callBuiltin self args isInfix op) := by
  have hflush : Unrecorded R (flush >>= fun _ => (pure [] : Action (List Handle))) :=
    unrecorded_flush.bind fun _ => unrecorded_pure []
  cases op with
  | declare =>
    exact Unrecorded.ite (unrecorded_declareBetween hself _) (unrecorded_declareInFront hself _)
  | assign => exact unrecorded_assign hself _
  | arithmetic op => exact unrecorded_pairwise hself _ _
  | update op => exact unrecorded_update hself op _
  | compare op => exact unrecorded_pairwise hself _ _
  | connect op => exact unrecorded_pairwise hself _ _
  | negate => exact unrecorded_negate hself _
  | index => exact (unrecorded_pairs hself _).bind fun _ => unrecorded_pure []
  | print => exact (unrecorded_print hself _).bind fun _ => hflush
  | printLine =>
    exact (unrecorded_print hself _).bind fun _ => (unrecorded_write _).bind fun _ => hflush
  | dump => exact (unrecorded_dump hself _).bind fun _ => hflush
  | loadModule => exact (unrecorded_loadModules hself args).bind fun _ => unrecorded_pure []
  | _ => exact unrecorded_pure []

theorem unrecorded_call (host : Host) (args : List Expression) (isInfix : Bool) :
    Unrecorded R (call host self args isInfix) := by
  unfold call
  cases args.head?.bind Expression.handle? with
  | none => exact unrecorded_fail _
  | some callee =>
    refine (unrecorded_identifier callee).bind fun i => ?_
    cases i.callable? with
    | none => exact unrecorded_fail _
    | some c =>
      cases c with
      | builtin op => exact unrecorded_callBuiltin hself args isInfix op
      | native label => exact unrecorded_script hself _

/-! ## Statements -/

omit [Bookkeeping R] in
theorem unrecorded_runAll (body : List Statement) (ladder : Option Bool) :
    Unrecorded R (runAll self body ladder) := by
  induction body generalizing ladder with
  | nil => exact unrecorded_pure ()
  | cons s ss ih => exact (hself _).bind ih

theorem unrecorded_holds (condition : List Expression) : Unrecorded R (holds self condition) := by
  refine (hself _).bind fun values => ?_
  split
  · exact (unrecorded_identifier _).bind fun _ => unrecorded_pure _
  · exact unrecorded_fail _

omit hself in
theorem unrecorded_controlWord? (e? : Option Expression) : Unrecorded R (controlWord? e?) := by
  unfold controlWord?
  split
  · exact (unrecorded_resolveLeaf _).bind fun _ => (unrecorded_identifier _).bind fun _ =>
      unrecorded_pure _
  · exact unrecorded_pure none

omit hself in
theorem unrecorded_classify (head : Expression) : Unrecorded R (classify head) := by
  refine (unrecorded_controlWord? _).bind fun word? => ?_
  split
  · exact unrecorded_pure _
  · exact unrecorded_pure _
  · refine (unrecorded_controlWord? _).bind fun next? => ?_
    split
    · exact unrecorded_pure _
    · exact unrecorded_pure _
  · exact unrecorded_pure _

omit [Bookkeeping R] in
theorem unrecorded_runRung (condition : List Expression) (body : List Statement) :
    Unrecorded R (runRung self condition body) :=
  (hself (.decide condition)).bind fun _ =>
    Unrecorded.ite ((hself _).bind fun _ => unrecorded_pure _) (unrecorded_pure _)

theorem unrecorded_runStep (steps : Nat) (s : Statement) (ladder : Option Bool) :
    Unrecorded R (runStep self steps s ladder) := by
  have hrung : ∀ condition : List Expression,
      Unrecorded R (runRung self condition s.body >>= fun taken => pure (some taken)) :=
    fun condition => (unrecorded_runRung hself condition s.body).bind fun _ => unrecorded_pure _
  have hblock : Unrecorded R (self (.runBlock s.body) >>= fun _ => pure (none : Option Bool)) :=
    (hself (.runBlock s.body)).bind fun _ => unrecorded_pure _
  refine Unrecorded.ite (unrecorded_pure _) ((unrecorded_classify _).bind fun found => ?_)
  cases found with
  | ifTrue condition => exact hrung condition
  | elseIf condition =>
    match ladder with
    | none => exact unrecorded_fail _
    | some true => exact unrecorded_pure _
    | some false => exact hrung condition
  | otherwise =>
    match ladder with
    | none => exact unrecorded_fail _
    | some true => exact unrecorded_pure _
    | some false => exact hblock
  | whileTrue condition =>
    exact (unrecorded_repeatWhile (hself (.decide condition)) (hself (.runBlock s.body)) steps).bind
      fun _ => unrecorded_pure _
  | plain =>
    have hbody : Unrecorded R (if s.isBlock then self (.runBlock s.body) >>= fun _ => pure none
        else pure (none : Option Bool)) := Unrecorded.ite hblock (unrecorded_pure _)
    exact Unrecorded.ite ((hself _).bind fun _ => hbody) hbody

omit [Bookkeeping R] in
theorem unrecorded_runTopLevel (s : Statement) : Unrecorded R (runTopLevel self s) :=
  have hbody := unrecorded_runAll hself s.body none
  Unrecorded.ite ((hself _).bind fun _ => hbody) hbody

omit hself in
theorem unrecorded_withText (text : String) {next : Statement → Action Unit}
    (hnext : ∀ s, Unrecorded R (next s)) : Unrecorded R (withText text next) := by
  refine (unrecorded_readText text).bind fun result => ?_
  cases result with
  | error e => exact unrecorded_pure _
  | ok s => exact (hnext s).bind fun _ => unrecorded_pure _

theorem unrecorded_loadModule (host : Host) (path space : String) (args : List Expression) :
    Unrecorded R (loadModule host self path space args) := by
  unfold loadModule
  cases host.openModule path with
  | error e => exact unrecorded_fail e
  | ok entry => exact (unrecorded_script hself (entry args)).inNamespace space

theorem unrecorded_step {host : Host}
    (hhost : ∀ m m', R m m' → host.arrange m.blocksLeft = host.arrange m'.blocksLeft) (steps : Nat)
    (op : Operation) :
    Unrecorded R (step host self steps op) := by
  cases op with
  | evaluate e => exact unrecorded_evaluate hself e
  | evaluateGroup es => exact unrecorded_evaluateGroup hself es
  | call args isInfix => exact unrecorded_call hself host args isInfix
  | runStep s ladder => exact unrecorded_runStep hself steps s ladder
  | runBlock body => exact (unrecorded_runAll hself body none).inFrame hhost
  | decide condition => exact (unrecorded_holds hself condition).inFrame hhost
  | run s => exact (hself _).bind fun _ => unrecorded_pure ()
  | runTopLevel s => exact unrecorded_runTopLevel hself s
  | readText text => exact unrecorded_readText text
  | runText text => exact unrecorded_withText text fun s => hself (.run s)
  | runTextTopLevel text => exact unrecorded_withText text fun s => hself (.runTopLevel s)
  | loadModule path space args => exact unrecorded_loadModule hself host path space args
  | resolve name => exact unrecorded_resolve name
  | declare i => exact unrecorded_declare i
  | registerFunction name isInfix label => exact unrecorded_declare _
  | registerConstant name i => exact unrecorded_declare _
  | push i => exact unrecorded_pushTemporary i
  | identifier h => exact unrecorded_identifier h
  | setValue h value => exact unrecorded_setValue h value
  | place => exact unrecorded_place

end Functions

/-- By induction on the steps, the books make no difference to any operation, if they make none to
the order in which blocks destroy what they hold. -/
theorem unrecorded_perform_of_arrange [Bookkeeping R] {host : Host}
    (hhost : ∀ m m', R m m' → host.arrange m.blocksLeft = host.arrange m'.blocksLeft) (steps : Nat)
    (op : Operation) : Unrecorded R (perform host steps op) := by
  induction steps generalizing op with
  | zero => exact fun _ _ _ => trivial
  | succ steps ih => exact unrecorded_step ih hhost steps op

/-- The journal makes no difference to any operation. -/
theorem unrecorded_perform (host : Host) (steps : Nat) (op : Operation) :
    Unrecorded SameButJournal (perform host steps op) :=
  unrecorded_perform_of_arrange (by rintro m _ ⟨journal, rfl⟩; rfl) steps op

end Evaluation

end WordScript
