import WordScript.Proofs.Contract
import WordScript.Proofs.Operators
import WordScript.Proofs.Ownership

/-!
# Keeping a contract

A contract is upheld by a host when the operations on the store keep it, one law for each. Then
everything that is made of them keeps it as well, and asks of its performer nothing but what the
contract admits: one lemma for each function of the evaluation, in the order in which they call each
other, up to a whole operation.
-/

namespace WordScript

/-- A call of an identifier that loads modules. -/
def Identifier.LoadsModules (i : Identifier) : Prop :=
  i.callable? = some (.builtin .loadModule)

/-- The operations that are carried out in one go, without asking for others. -/
def Operation.IsPrimitive : Operation → Prop
  | resolve _ | declare _ | registerFunction _ _ _ | registerConstant _ _ | push _ | identifier _
  | setValue _ _ | place => True
  | _ => False

/-- What a variable may be assigned: what something that is there, or the result of an operation, is
cast to for the type of the variable. -/
inductive Store.Assigns (s : Store) (i : Identifier) : Value → Prop where
  | value {h : Handle} {j : Identifier} {value : Value}
      (hi : Evaluation.isContainer i.type = false) (hj : s.arena.get? h = some j)
      (hcast : j.castValue i.type = .ok value) : Assigns s i value
  | result {j : Identifier} {value : Value} (hj : j.IsLiteral)
      (hcast : j.castValue i.type = .ok value) : Assigns s i value

namespace Contract

/-- What makes every operation keep a contract, as long as operations are carried out where they may
be. -/
structure Upheld (C : Contract) (host : Host) : Prop where
  evaluates : C.Steady C.Evaluates
  runs : C.Steady C.Runs
  evaluates_runs : ∀ {s s'}, C.Evaluates s s' → C.Runs s s'
  blocks_runs : ∀ {s s'}, C.Blocks s s' → C.Runs s s'
  fits_mono : ∀ {s s' h}, C.Evaluates s s' → C.Fits s h → C.Fits s' h
  lasts_mono : ∀ {s s' h}, C.Runs s s' → C.Lasts s h → C.Lasts s' h
  lasts_fits : ∀ {s h}, C.Inv s → C.Lasts s h → C.Fits s h
  missing : ∀ {s h}, C.Inv s → C.Fits s h → s.arena.get? h = none → C.Raises (.invalidReference h)
  raises : ∀ {e : RuntimeError}, ¬ e.IsInternal → C.Raises e
  calls : ∀ {s h i}, C.Inv s → C.Fits s h → s.arena.get? h = some i → i.isFunction = true →
    C.Calls s h
  /-- A name at a leaf is resolved. -/
  resolve : ∀ {s s' h i k}, C.Inv s → C.Fits s h → s.arena.get? h = some i →
    i.isUndefined = true → s.resolve i.surface = .ok (k, s') →
    C.Inv s' ∧ C.Evaluates s s' ∧ C.Fits s' k
  /-- The result of an operator becomes a temporary identifier. -/
  push : ∀ {s i}, C.Inv s → Identifier.IsLiteral i →
    C.Inv (s.pushTemporary i).2 ∧ C.Evaluates s (s.pushTemporary i).2 ∧
      C.Fits (s.pushTemporary i).2 (s.pushTemporary i).1
  /-- The types that declarations name, and those that they take over from variables. -/
  typeName : ∀ {s h i}, C.Inv s → s.arena.get? h = some i → i.role = .typeName → C.Types i.surface
  typeOf : ∀ {s h i}, C.Inv s → s.arena.get? h = some i → i.isVariable = true → C.Types i.type
  /-- A variable is declared under the name of an identifier. -/
  declare : ∀ {s s' h i k type}, C.Inv s → C.Fits s h → s.arena.get? h = some i →
    (i.isUndefined || i.isVariable) = true → C.Types type →
    s.declare ((Identifier.name i.surface 0).asVariable type 0) = .ok (some (k, s')) →
    C.Inv s' ∧ C.Evaluates s s' ∧ C.Fits s' k
  declare_error : ∀ {s i e}, C.Inv s → s.declare i = .error e → C.Raises e
  /-- A variable is assigned to. -/
  setValue : ∀ {s h i value}, C.Inv s → C.Fits s h → s.arena.get? h = some i →
    i.isVariable = true → s.Assigns i value →
    C.Inv { s with arena := s.arena.put h.index { i with value } } ∧
      C.Evaluates s { s with arena := s.arena.put h.index { i with value } }
  enter : ∀ {s}, C.Inv s → C.Opens s → C.Inv s.enter
  lasts_enter : ∀ {s h}, C.Inv s → C.Lasts s h → C.Lasts s.enter h
  /-- A block that has been run is left again. -/
  leave : ∀ {s s'} {arrange : List Handle → List Handle}, (∀ hs, (arrange hs).Perm hs) →
    C.Inv s → C.Opens s → C.Runs s.enter s' → C.Inv s' →
    C.Inv (s'.leave arrange).2 ∧ C.Blocks s (s'.leave arrange).2 ∧
      ∀ e, (s'.leave arrange).1 = .error e → C.Raises e
  readText : ∀ {s} {op : Operation} (text : String), op.ReadsText text → C.Permits op s →
    C.Reads text → C.Inv s →
    C.Inv { s with arena := (Statement.ofText text s.arena).2 } ∧
      C.Evaluates s { s with arena := (Statement.ofText text s.arena).2 } ∧
      ∀ st, (Statement.ofText text s.arena).1 = .ok st → ∀ h ∈ st.leaves,
        C.Lasts { s with arena := (Statement.ofText text s.arena).2 } h
  /-- A called identifier that loads modules may load them. -/
  loads : ∀ {s s' h i}, C.Inv s → C.Calls s h → s.arena.get? h = some i → i.LoadsModules →
    C.Evaluates s s' → ∀ path space args, C.Asks s' (.loadModule path space args)
  callee : ∀ {s h}, C.Inv s → C.Calls s h → s.arena.get? h = none →
    C.Raises (.invalidReference h)
  notCallable : ∀ {s h i}, C.Inv s → C.Calls s h → s.arena.get? h = some i →
    i.callable? = none → C.Raises (.notCallable i.surface)
  /-- A called function of the host asks only what is admitted. -/
  native : ∀ {s h i label args}, C.Inv s → C.Calls s h → s.arena.get? h = some i →
    i.callable? = some (.native label) → (∀ e ∈ args, C.FitsExpression s e) →
    C.Obeys (fun s' result => C.Evaluates s s' ∧
      (∀ handles, result = .ok handles → ∀ k ∈ handles, C.Fits s' k) ∧
      ∀ e, result = .error e → C.Raises e) (host.native label args) s
  moduleError : ∀ {path e}, host.openModule path = .error e → C.Raises e
  /-- The entry point of a module asks only what is admitted, at the global frame of a namespace. -/
  entry : ∀ {s path space args entry}, C.Inv s → C.Permits (.loadModule path space args) s →
    C.Admits s (.loadModule path space args) → host.openModule path = .ok entry →
    C.Inv { s with scopes := s.scopes.goTo space } ∧
    C.Obeys (fun s' result =>
      C.Inv { s' with scopes := s'.scopes.restore s.scopes.place } ∧
      C.Evaluates s { s' with scopes := s'.scopes.restore s.scopes.place } ∧
      ∀ e, result = .error e → C.Raises e) (entry args) { s with scopes := s.scopes.goTo space }
  /-- What scripts ask for directly. -/
  asked : ∀ {m : Machine} {op : Operation} (self : Evaluation.Performer) (steps : Nat),
    op.IsPrimitive → C.Inv m.store → C.Permits op m.store → C.Asks m.store op →
    C.Meets C.Evaluates (fun s => C.Gives s op) m.store (Evaluation.step host self steps op m)

/-- What makes every operation keep a contract: all may be carried out everywhere. -/
structure Lawful (C : Contract) (host : Host) : Prop extends C.Upheld host where
  permits : ∀ {s} (op : Operation), C.Inv s → C.Permits op s

theorem Lawful.opens {C : Contract} {host : Host} (hC : C.Lawful host) {s : Store} (hs : C.Inv s) :
    C.Opens s :=
  ⟨.runBlock [], trivial, hC.permits _ hs⟩

/-- Two performers agree on all that a contract admits, and keep it. -/
def Agree (C : Contract) (self self' : Evaluation.Performer) : Prop :=
  ∀ op m, C.Inv m.store → C.Admits m.store op →
    C.Keeps (C.effect op) (fun s => C.Gives s op) (self op) (self' op) m

namespace Upheld

open Evaluation Machine

variable {C : Contract} {host : Host} {self self' : Performer} {m : Machine}
variable {α β : Type} {R : Store → Store → Prop} {P : Store → α → Prop} {Q : Store → β → Prop}

theorem stable_fits (hC : C.Upheld host) : Stable C.Evaluates C.Fits :=
  fun _ _ _ hstep hh => hC.fits_mono hstep hh

theorem stable_fitsExpression (hC : C.Upheld host) : Stable C.Evaluates C.FitsExpression :=
  fun _ _ _ hstep he =>
    he.imp (fun _ => hC.fits_mono hstep) fun _ => hC.lasts_mono (hC.evaluates_runs hstep)

theorem fitsExpression_of_lasts (hC : C.Upheld host) {s : Store} (hs : C.Inv s) {e : Expression}
    (he : ∀ h ∈ e.leaves, C.Lasts s h) : C.FitsExpression s e := by
  cases e with
  | leaf h => exact hC.lasts_fits hs (he h (by simp [Expression.leaves]))
  | group es => exact fun h hmem => he h (by simpa [Expression.leaves] using hmem)

/-- Failing for a reason that may come up. -/
theorem keeps_raise (hC : C.Upheld host) (hR : C.Steady R) (hm : C.Inv m.store) {e : RuntimeError}
    (hreference : ∀ h, e ≠ .invalidReference h) (hcall : ∀ name, e ≠ .notCallable name) :
    C.Keeps R P (Action.fail e) (Action.fail e) m :=
  keeps_fail hR hm (hC.raises (RuntimeError.not_isInternal hreference hcall))

/-! ## Reading identifiers -/

theorem keeps_bind_identifier (hC : C.Upheld host) (hR : C.Steady R) {h : Handle}
    {f g : Identifier → Action β} (hm : C.Inv m.store) (hh : C.Fits m.store h)
    (hf : ∀ i, m.store.arena.get? h = some i → C.Keeps R Q (f i) (g i) m) :
    C.Keeps R Q (identifier h >>= f) (identifier h >>= g) m := by
  cases hi : m.store.arena.get? h with
  | some i =>
    have hbind : ∀ k : Identifier → Action β, (identifier h >>= k) m = k i m := fun k => by
      rw [Action.bind_apply, identifier, hi]
    obtain ⟨hsame, hmeets⟩ := hf i hi
    exact ⟨by rw [hbind, hbind]; exact hsame, by rw [hbind]; exact hmeets⟩
  | none =>
    have hbind : ∀ k : Identifier → Action β,
        (identifier h >>= k) m = .failure (.invalidReference h) m := fun k => by
      rw [Action.bind_apply, identifier, hi]
    refine ⟨by rw [hbind, hbind], ?_⟩
    rw [hbind]
    exact ⟨hm, hR.refl hm, hC.missing hm hh hi⟩

theorem keeps_bind_ofExcept (hR : C.Steady R) {result : Except RuntimeError α}
    {f g : α → Action β} (hm : C.Inv m.store)
    (hok : ∀ a, result = .ok a → C.Keeps R Q (f a) (g a) m)
    (herror : ∀ e, result = .error e → C.Raises e) :
    C.Keeps R Q (Action.ofExcept result >>= f) (Action.ofExcept result >>= g) m := by
  cases result with
  | ok a => exact hok a rfl
  | error e => exact ⟨rfl, hm, hR.refl hm, herror e rfl⟩

theorem keeps_bind_requireVariable (hC : C.Upheld host) (hR : C.Steady R) {target : Identifier}
    {f g : Unit → Action β} (hm : C.Inv m.store)
    (hf : target.isVariable = true → C.Keeps R Q (f ()) (g ()) m) :
    C.Keeps R Q (requireVariable target >>= f) (requireVariable target >>= g) m := by
  unfold requireVariable
  split
  · next hvariable => exact hf hvariable
  · exact hC.keeps_raise hR hm nofun nofun

/-! ## Primitive actions -/

theorem keeps_resolveLeaf (hC : C.Upheld host) {h : Handle} (hm : C.Inv m.store)
    (hh : C.Fits m.store h) :
    C.Keeps C.Evaluates C.Fits (resolveLeaf h) (resolveLeaf h) m := by
  refine hC.keeps_bind_identifier hC.evaluates hm hh fun i hi => ?_
  split
  · next hundefined =>
    refine keeps_tryStore hm hC.evaluates ?_ ?_
    · intro k s hk
      exact hC.resolve hm hh hi hundefined hk
    · intro e he
      obtain ⟨space, rfl⟩ := Store.resolve_error he
      exact hC.raises (RuntimeError.not_isInternal nofun nofun)
  · exact keeps_pure hC.evaluates hm hh

theorem keeps_pushTemporary (hC : C.Upheld host) {i : Identifier} (hi : i.IsLiteral)
    (hm : C.Inv m.store) :
    C.Keeps C.Evaluates C.Fits (pushTemporary i) (pushTemporary i) m :=
  keeps_onStore (hC.push hm hi)

theorem keeps_declareAs (hC : C.Upheld host) {type : String} {h : Handle} (hm : C.Inv m.store)
    (hh : C.Fits m.store h) (htype : C.Types type) :
    C.Keeps C.Evaluates C.Fits (declareAs type h) (declareAs type h) m := by
  refine hC.keeps_bind_identifier hC.evaluates hm hh fun i hi => ?_
  split
  · next hname =>
    refine keeps_tryStore hm hC.evaluates ?_ ?_
    · intro k s hk
      split at hk
      · next result hresult =>
        cases hk
        exact hC.declare hm hh hi hname htype hresult
      · cases hk
      · cases hk
    · intro e he
      split at he
      · cases he
      · cases he
        exact hC.raises (RuntimeError.not_isInternal nofun nofun)
      · next e' herror =>
        cases he
        exact hC.declare_error hm herror
  · exact hC.keeps_raise hC.evaluates hm nofun nofun

theorem keeps_setValue (hC : C.Upheld host) {h : Handle} {i : Identifier} {value : Value}
    (hm : C.Inv m.store) (hh : C.Fits m.store h) (hi : m.store.arena.get? h = some i)
    (hvariable : i.isVariable = true) (hvalue : m.store.Assigns i value) :
    C.Keeps C.Evaluates (fun _ _ => True) (Machine.setValue h value) (Machine.setValue h value)
      m := by
  refine keeps_tryStore hm hC.evaluates ?_ ?_
  · intro a s hs
    simp only [Arena.setValue?, hi] at hs
    cases hs
    obtain ⟨hinv, hstep⟩ := hC.setValue hm hh hi hvariable hvalue
    exact ⟨hinv, hstep, trivial⟩
  · intro e he
    simp only [Arena.setValue?, hi] at he
    cases he

theorem raises_stream (hC : C.Upheld host) (text : String) : C.Raises (.stream text) :=
  hC.raises (RuntimeError.not_isInternal nofun nofun)

end Upheld

end Contract

end WordScript
