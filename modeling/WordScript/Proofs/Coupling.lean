import WordScript.Proofs.Contract
import WordScript.Proofs.Leaves
import WordScript.Proofs.Operators

/-!
# Couplings

Two runs of the same program that go on side by side, on stores that are not the same but answer
alike. A coupling says which stores belong together, and which handle of the one stands for which
handle of the other: at the leaves of programs, in the middle of an evaluation, and among the values
that it comes to. The rules for actions below say how the two sides end: with the same error, or
with values that stand for each other, with the same output, and on stores that belong together
again.
-/

namespace WordScript

/-- The identifier in a frame of another depth. -/
def Identifier.withScope (i : Identifier) (scope : Nat) : Identifier := { i with scope }

/-- Declares an identifier in the current frame, where it must not have been declared before. -/
def Store.declared (s : Store) (i : Identifier) : Except RuntimeError (Handle × Store) :=
  match s.declare i with
  | .ok (some result) => .ok result
  | .ok none => .error (.redefinition i.surface)
  | .error e => .error e

theorem Store.declared_new {s : Store} {i : Identifier}
    (h : s.scopes.currentFrame.names.find? i.surface = none) :
    s.declared i = .ok (s.define { i with scope := s.depth }) := by
  simp only [declared, declare, h]

theorem Store.declared_bound {s : Store} {i : Identifier} {k : Handle}
    (h : s.scopes.currentFrame.names.find? i.surface = some k) :
    s.declared i = match s.arena.get? k with
      | none => .error (.invalidReference k)
      | some old =>
        if old.isUndefined then
          .ok (k, { s with arena := s.arena.put k.index { i with scope := s.depth } })
        else .error (.redefinition i.surface) := by
  simp only [declared, declare, h]
  cases s.arena.get? k with
  | none => rfl
  | some old => cases hold : old.isUndefined <;> simp [hold]

/-- Overwrites the payload of the identifier behind a handle. -/
def Store.assigned (s : Store) (h : Handle) (value : Value) : Except RuntimeError (Unit × Store) :=
  match s.arena.setValue? h value with
  | some arena => .ok ((), { s with arena })
  | none => .error (.invalidReference h)

/-- Two actions have ended the same way: with the same value or with the same error, on machines
that are related, or both were cut off. -/
def Outcome.Agrees {α : Type} (R : Machine → Machine → Prop) : Outcome α → Outcome α → Prop
  | .value a m, .value b m' => a = b ∧ R m m'
  | .failure e m, .failure e' m' => e = e' ∧ R m m'
  | .cutOff, .cutOff => True
  | _, _ => False

theorem Outcome.Agrees.cutOff_iff {α : Type} {R : Machine → Machine → Prop} {o o' : Outcome α}
    (h : o.Agrees R o') : o = .cutOff ↔ o' = .cutOff := by
  cases o <;> cases o' <;> first | exact h.elim | simp

/-- Two stores that belong together, and what stands for what in them. -/
structure Coupling where
  World : Type
  left : World → Store
  right : World → Store
  /-- The two stores belong together. -/
  Valid : World → Prop
  /-- The handles may stand at the same leaf of two expressions that are evaluated. -/
  Fits : World → Handle → Handle → Prop
  /-- The handles may be values of two evaluations. -/
  Given : World → Handle → Handle → Prop
  /-- The handles may stand at the same leaf of two programs that are still to be run. -/
  Lasts : World → Handle → Handle → Prop
  /-- What evaluating may do. -/
  Grows : World → World → Prop
  /-- What running statements may do. -/
  Runs : World → World → Prop
  /-- Whether functions that load modules may be called. -/
  Loads : Prop
  /-- The texts that may be read. -/
  Reads : String → Prop

namespace Coupling

variable (C : Coupling)

/-- A relation that doing nothing and doing one thing after the other stay within. -/
structure Steady (G : C.World → C.World → Prop) : Prop where
  refl : ∀ w, G w w
  trans : ∀ {w w' w''}, G w w' → G w' w'' → G w w''

/-- The stores have become these ones, which belong together, and the values are related. -/
def Reaches {α β : Type} (w : C.World) (G : C.World → C.World → Prop) (P : C.World → α → β → Prop)
    (s s' : Store) (a : α) (b : β) : Prop :=
  ∃ w', C.left w' = s ∧ C.right w' = s' ∧ C.Valid w' ∧ G w w' ∧ P w' a b

/-- Both stores give an answer, and have become stores that belong together, or both fail with the
same error. -/
def Answers {α β : Type} (w : C.World) (G : C.World → C.World → Prop) (P : C.World → α → β → Prop) :
    Except RuntimeError (α × Store) → Except RuntimeError (β × Store) → Prop
  | .ok (a, s), .ok (b, s') => C.Reaches w G P s s' a b
  | .error e, .error e' => e = e'
  | _, _ => False

/-- How an action may end on the two sides: both times with a value, or with the same error, or cut
off; the outputs are the same, and the stores belong together again. -/
def Ends {α β : Type} (w : C.World) (G : C.World → C.World → Prop) (P : C.World → α → β → Prop) :
    Outcome α → Outcome β → Prop
  | .value a m, .value b m' => m.sink = m'.sink ∧ C.Reaches w G P m.store m'.store a b
  | .failure e m, .failure e' m' => e = e' ∧ m.sink = m'.sink ∧
      C.Reaches w G (fun _ _ _ => True) m.store m'.store () ()
  | .cutOff, .cutOff => True
  | _, _ => False

/-- Two actions end the same way on machines with these stores and the same output. -/
def Simulates {α β : Type} (w : C.World) (G : C.World → C.World → Prop)
    (P : C.World → α → β → Prop) (x : Action α) (y : Action β) : Prop :=
  ∀ m m' : Machine, m.store = C.left w → m'.store = C.right w → m.sink = m'.sink →
    C.Ends w G P (x m) (y m')

/-- The values of two evaluations. -/
def Values (w : C.World) : List Handle → List Handle → Prop := List.Forall₂ (C.Given w)

/-- The same on both sides, whatever the stores are. -/
def Same {α : Type} (_ : C.World) (a b : α) : Prop := a = b

/-- What the operations on the two stores have to do for every program to run on them the same
way. -/
structure Lawful : Prop where
  grows : C.Steady C.Grows
  runs : C.Steady C.Runs
  grows_runs : ∀ {w w'}, C.Grows w w' → C.Runs w w'
  depth : ∀ {w w'}, C.Grows w w' → (C.left w').depth = (C.left w).depth ∧
    (C.right w').depth = (C.right w).depth
  fits_mono : ∀ {w w' h k}, C.Grows w w' → C.Fits w h k → C.Fits w' h k
  given_mono : ∀ {w w' h k}, C.Grows w w' → C.Given w h k → C.Given w' h k
  lasts_mono : ∀ {w w' h k}, C.Runs w w' → C.Lasts w h k → C.Lasts w' h k
  given_fits : ∀ {w h k}, C.Given w h k → C.Fits w h k
  lasts_fits : ∀ {w h k}, C.Lasts w h k → C.Fits w h k
  /-- Behind the handles is the same identifier, but for the depth of its frame; it is a value
  unless it is a name that is still to be resolved. -/
  identifier : ∀ {w h k}, C.Valid w → C.Fits w h k → ∃ i scope, (C.left w).arena.get? h = some i ∧
    (C.right w).arena.get? k = some (i.withScope scope) ∧
      (i.isUndefined = false → C.Given w h k)
  /-- A function that is called is built in, and shows no handles. -/
  function : ∀ {w h k i}, C.Valid w → C.Given w h k → (C.left w).arena.get? h = some i →
    i.isFunction = true → ∃ op, i.callable? = some (.builtin op) ∧ op ≠ .dump ∧
      (op = .loadModule → C.Loads)
  /-- A variable belongs to the current frame on both sides, or on neither. -/
  isVariableAt : ∀ {w h k i j}, C.Valid w → C.Given w h k → (C.left w).arena.get? h = some i →
    (C.right w).arena.get? k = some j → Evaluation.isVariableAt (C.left w).depth i =
      Evaluation.isVariableAt (C.right w).depth j
  resolve : ∀ {w h k i}, C.Valid w → C.Fits w h k → (C.left w).arena.get? h = some i →
    i.isUndefined = true →
    C.Answers w C.Grows C.Given ((C.left w).resolve i.surface) ((C.right w).resolve i.surface)
  push : ∀ {w i}, C.Valid w → Identifier.IsLiteral i →
    C.Reaches w C.Grows C.Given ((C.left w).pushTemporary i).2 ((C.right w).pushTemporary i).2
      ((C.left w).pushTemporary i).1 ((C.right w).pushTemporary i).1
  declare : ∀ {w h k i}, C.Valid w → C.Given w h k → (C.left w).arena.get? h = some i →
    (i.isUndefined || i.isVariable) = true → ∀ type,
    C.Answers w C.Grows C.Given
      ((C.left w).declared ((Identifier.name i.surface 0).asVariable type 0))
      ((C.right w).declared ((Identifier.name i.surface 0).asVariable type 0))
  setValue : ∀ {w h k i}, C.Valid w → C.Given w h k → (C.left w).arena.get? h = some i →
    i.isVariable = true → ∀ value,
    C.Answers w C.Grows (fun _ _ _ => True) ((C.left w).assigned h value)
      ((C.right w).assigned k value)
  /-- Both sides open a block; whatever is run in it, both sides can leave it again, each destroying
  what it holds in an order of its own. -/
  block : ∀ {w}, C.Valid w → ∃ inner, C.left inner = (C.left w).enter ∧
    C.right inner = (C.right w).enter ∧ C.Valid inner ∧
    (∀ h k, C.Lasts w h k → C.Lasts inner h k) ∧
    ∀ after, C.Valid after → C.Runs inner after → ∀ {arrange arrange' : List Handle → List Handle},
      (∀ hs, (arrange hs).Perm hs) → (∀ hs, (arrange' hs).Perm hs) →
      ((C.left after).leave arrange).1 = .ok () ∧ ((C.right after).leave arrange').1 = .ok () ∧
        ∃ outer, C.left outer = ((C.left after).leave arrange).2 ∧
          C.right outer = ((C.right after).leave arrange').2 ∧ C.Valid outer ∧ C.Runs w outer
  readText : ∀ {w text}, C.Valid w → C.Reads text →
    C.Reaches w C.Grows
      (fun w r r' => (∃ e, r = .error e ∧ r' = .error e) ∨
        ∃ s s', r = .ok s ∧ r' = .ok s' ∧ s.Alike (C.Lasts w) s')
      ⟨(Statement.ofText text (C.left w).arena).2, (C.left w).scopes⟩
      ⟨(Statement.ofText text (C.right w).arena).2, (C.right w).scopes⟩
      (Statement.ofText text (C.left w).arena).1 (Statement.ofText text (C.right w).arena).1

variable {C} {w w' : C.World} {G : C.World → C.World → Prop}
variable {α β α' β' : Type} {P P' : C.World → α → β → Prop} {Q : C.World → α' → β' → Prop}

/-! ## Rules for actions -/

theorem Reaches.here (hG : C.Steady G) (hw : C.Valid w) {s s' : Store} (hs : s = C.left w)
    (hs' : s' = C.right w) {a : α} {b : β} (hP : P w a b) : C.Reaches w G P s s' a b :=
  ⟨w, hs.symm, hs'.symm, hw, hG.refl w, hP⟩

theorem Reaches.imp {G' : C.World → C.World → Prop} {s s' : Store} {a : α} {b : β} {a' : α'}
    {b' : β'} (hG : ∀ w', G w w' → G' w w') (hP : ∀ w', P w' a b → Q w' a' b')
    (h : C.Reaches w G P s s' a b) : C.Reaches w G' Q s s' a' b' := by
  obtain ⟨w', hs, hs', hw', hstep, hab⟩ := h
  exact ⟨w', hs, hs', hw', hG _ hstep, hP _ hab⟩

/-- What is reached from where something was reached. -/
theorem Reaches.trans (hG : C.Steady G) {s s' : Store} {a : α} {b : β} (hstep : G w w')
    (h : C.Reaches w' G P s s' a b) : C.Reaches w G P s s' a b := by
  obtain ⟨w'', hs, hs', hw'', hrest, hab⟩ := h
  exact ⟨w'', hs, hs', hw'', hG.trans hstep hrest, hab⟩

theorem Ends.imp {G' : C.World → C.World → Prop} {o : Outcome α} {o' : Outcome β}
    (hG : ∀ w', G w w' → G' w w') (hP : ∀ w' a b, P w' a b → P' w' a b) (h : C.Ends w G P o o') :
    C.Ends w G' P' o o' := by
  cases o <;> cases o' <;> first | exact h.elim | skip
  · exact ⟨h.1, h.2.imp hG fun w' => hP w' _ _⟩
  · exact ⟨h.1, h.2.1, h.2.2.imp hG fun _ => id⟩
  · trivial

theorem Simulates.imp {G' : C.World → C.World → Prop} {x : Action α} {y : Action β}
    (hG : ∀ w', G w w' → G' w w') (hP : ∀ w' a b, P w' a b → P' w' a b)
    (h : C.Simulates w G P x y) : C.Simulates w G' P' x y :=
  fun m m' hs hs' hsink => (h m m' hs hs' hsink).imp hG hP

theorem simulates_pure (hG : C.Steady G) (hw : C.Valid w) {a : α} {b : β} (hP : P w a b) :
    C.Simulates w G P (pure a) (pure b) :=
  fun _ _ hs hs' hsink => ⟨hsink, .here hG hw hs hs' hP⟩

theorem simulates_fail (hG : C.Steady G) (hw : C.Valid w) {e e' : RuntimeError} (he : e = e') :
    C.Simulates w G P (Action.fail e) (Action.fail e') :=
  fun _ _ hs hs' hsink => ⟨he, hsink, .here hG hw hs hs' trivial⟩

theorem Simulates.bind (hG : C.Steady G) {x : Action α} {y : Action β} {f : α → Action α'}
    {g : β → Action β'} (hx : C.Simulates w G P x y)
    (hf : ∀ w' a b, C.Valid w' → G w w' → P w' a b → C.Simulates w' G Q (f a) (g b)) :
    C.Simulates w G Q (x >>= f) (y >>= g) := by
  intro m m' hs hs' hsink
  have hends := hx m m' hs hs' hsink
  rw [Action.bind_apply, Action.bind_apply]
  cases hxm : x m <;> cases hym : y m' <;> rw [hxm, hym] at hends <;>
    first | exact hends.elim | skip
  · next a m₁ b m₁' =>
    obtain ⟨hsink₁, w', hs₁, hs₁', hw', hstep, hab⟩ := hends
    have hrest := hf w' a b hw' hstep hab m₁ m₁' hs₁.symm hs₁'.symm hsink₁
    show C.Ends w G Q (f a m₁) (g b m₁')
    cases hfm : f a m₁ <;> cases hgm : g b m₁' <;> rw [hfm, hgm] at hrest <;>
      first | exact hrest.elim | skip
    · exact ⟨hrest.1, hrest.2.trans hG hstep⟩
    · exact ⟨hrest.1, hrest.2.1, hrest.2.2.trans hG hstep⟩
    · trivial
  · exact hends
  · trivial

/-! ### Ending the same way -/

section Agrees

variable {R : Machine → Machine → Prop} {m m' : Machine}

theorem Ends.agrees {o o' : Outcome α} (h : C.Ends w G C.Same o o')
    (hR : ∀ m m', m.sink = m'.sink →
      C.Reaches w G (fun _ _ _ => True) m.store m'.store () () → R m m') : o.Agrees R o' := by
  cases o <;> cases o' <;> first | exact h.elim | skip
  · obtain ⟨hsink, w', hs, hs', hw', hstep, hab⟩ := h
    exact ⟨hab, hR _ _ hsink ⟨w', hs, hs', hw', hstep, trivial⟩⟩
  · exact ⟨h.1, hR _ _ h.2.1 h.2.2⟩
  · trivial

/-- What goes on from values that stand for each other ends the same way when it does so from
there. -/
theorem Ends.bind_agrees {x : Action α} {y : Action β} {f : α → Action α'} {g : β → Action α'}
    (h : C.Ends w G P (x m) (y m'))
    (hR : ∀ m m', m.sink = m'.sink →
      C.Reaches w G (fun _ _ _ => True) m.store m'.store () () → R m m')
    (hf : ∀ a b m₁ m₁', y m' = .value b m₁' → m₁.sink = m₁'.sink →
      C.Reaches w G P m₁.store m₁'.store a b → (f a m₁).Agrees R (g b m₁')) :
    ((x >>= f) m).Agrees R ((y >>= g) m') := by
  rw [Action.bind_apply, Action.bind_apply]
  cases hx : x m <;> cases hy : y m' <;> rw [hx, hy] at h <;> first | exact h.elim | skip
  · exact hf _ _ _ _ hy h.1 h.2
  · exact ⟨h.1, hR _ _ h.2.1 h.2.2⟩
  · trivial

end Agrees

/-! ### Reading and changing the machine -/

theorem simulates_bind_ofExcept (hG : C.Steady G) (hw : C.Valid w) {γ : Type}
    (result : Except RuntimeError γ) {f : γ → Action α} {g : γ → Action β}
    (hf : ∀ c, result = .ok c → C.Simulates w G P (f c) (g c)) :
    C.Simulates w G P (Action.ofExcept result >>= f) (Action.ofExcept result >>= g) := by
  cases result with
  | ok c => exact hf c rfl
  | error e => exact fun _ _ hs hs' hsink => ⟨rfl, hsink, .here hG hw hs hs' trivial⟩

/-- What is read behind handles that are not looked at for their depth is the same identifier. -/
theorem simulates_bind_identifier (hC : C.Lawful) (hw : C.Valid w) {h k : Handle}
    (hh : C.Fits w h k) {f : Identifier → Action α} {g : Identifier → Action β}
    (hg : ∀ i scope, g (i.withScope scope) = g i)
    (hf : ∀ i, (C.left w).arena.get? h = some i → (i.isUndefined = false → C.Given w h k) →
      C.Simulates w G P (f i) (g i)) :
    C.Simulates w G P (Machine.identifier h >>= f) (Machine.identifier k >>= g) := by
  obtain ⟨i, scope, hi, hi', hgiven⟩ := hC.identifier hw hh
  intro m m' hs hs' hsink
  have hread : Machine.identifier h m = .value i m := by
    simp only [Machine.identifier, hs, hi]
  have hread' : Machine.identifier k m' = .value (i.withScope scope) m' := by
    simp only [Machine.identifier, hs', hi']
  rw [Action.bind_apply, Action.bind_apply, hread, hread']
  simp only [hg]
  exact hf i hi hgiven m m' hs hs' hsink

/-- What is read behind values may be asked whether it is a variable of the current frame. -/
theorem simulates_ite_variable (hC : C.Lawful) (hw : C.Valid w) {h k : Handle}
    (hh : C.Given w h k) {depth depth' : Nat} (hdepth : (C.left w).depth = depth)
    (hdepth' : (C.right w).depth = depth') {x f : Identifier → Action α}
    {y g : Identifier → Action β} (hy : ∀ i scope, y (i.withScope scope) = y i)
    (hg : ∀ i scope, g (i.withScope scope) = g i)
    (hvariable : ∀ i, C.Simulates w G P (x i) (y i))
    (hother : ∀ i, C.Simulates w G P (f i) (g i)) :
    C.Simulates w G P
      (Machine.identifier h >>= fun i => if Evaluation.isVariableAt depth i then x i else f i)
      (Machine.identifier k >>= fun i =>
        if Evaluation.isVariableAt depth' i then y i else g i) := by
  subst hdepth hdepth'
  obtain ⟨i, scope, hi, hi', -⟩ := hC.identifier hw (hC.given_fits hh)
  intro m m' hs hs' hsink
  have hread : Machine.identifier h m = .value i m := by
    simp only [Machine.identifier, hs, hi]
  have hread' : Machine.identifier k m' = .value (i.withScope scope) m' := by
    simp only [Machine.identifier, hs', hi']
  rw [Action.bind_apply, Action.bind_apply, hread, hread']
  simp only [hy, hg, ← hC.isVariableAt hw hh hi hi']
  cases Evaluation.isVariableAt (C.left w).depth i with
  | true => exact hvariable i m m' hs hs' hsink
  | false => exact hother i m m' hs hs' hsink

theorem simulates_tryStore (hG : C.Steady G) (hw : C.Valid w)
    {f : Store → Except RuntimeError (α × Store)} {g : Store → Except RuntimeError (β × Store)}
    (h : C.Answers w G P (f (C.left w)) (g (C.right w))) :
    C.Simulates w G P (Action.tryStore f) (Action.tryStore g) := by
  intro m m' hs hs' hsink
  rw [← hs, ← hs'] at h
  unfold Action.tryStore
  cases hfm : f m.store <;> cases hgm : g m'.store <;> rw [hfm, hgm] at h <;>
    first | exact h.elim | skip
  · exact ⟨h, hsink, .here hG hw hs hs' trivial⟩
  · exact ⟨hsink, h⟩

theorem simulates_onStore {f : Store → α × Store} {g : Store → β × Store}
    (h : C.Reaches w G P (f (C.left w)).2 (g (C.right w)).2 (f (C.left w)).1 (g (C.right w)).1) :
    C.Simulates w G P (Action.onStore f) (Action.onStore g) := by
  intro m m' hs hs' hsink
  rw [← hs, ← hs'] at h
  exact ⟨hsink, h⟩

/-- Each side reads the place of its own store. -/
theorem simulates_place (hG : C.Steady G) (hw : C.Valid w) :
    C.Simulates w G (fun w a b => a = (C.left w).scopes.place ∧ b = (C.right w).scopes.place)
      Machine.place Machine.place :=
  fun _ _ hs hs' hsink => ⟨hsink, .here hG hw hs hs' ⟨by rw [← hs], by rw [← hs']⟩⟩

/-- A change that leaves the store and the output alone. -/
theorem simulates_change (hG : C.Steady G) (hw : C.Valid w) {f g : Machine → Machine}
    (hf : ∀ m, (f m).store = m.store ∧ (f m).sink = m.sink)
    (hg : ∀ m, (g m).store = m.store ∧ (g m).sink = m.sink) :
    C.Simulates w G (fun _ _ _ => True) (Action.change f) (Action.change g) := by
  intro m m' hs hs' hsink
  refine ⟨?_, .here hG hw ((hf m).1.trans hs) ((hg m').1.trans hs') trivial⟩
  rw [(hf m).2, (hg m').2, hsink]

theorem simulates_write (hG : C.Steady G) (hw : C.Valid w) (text : String) :
    C.Simulates w G (fun _ _ _ => True) (Machine.write text) (Machine.write text) := by
  intro m m' hs hs' hsink
  unfold Machine.write
  rw [hsink]
  cases m'.sink.write text with
  | ok sink => exact ⟨rfl, .here hG hw hs hs' trivial⟩
  | error e => exact ⟨rfl, hsink, .here hG hw hs hs' trivial⟩

theorem simulates_flush (hG : C.Steady G) (hw : C.Valid w) :
    C.Simulates w G (fun _ _ _ => True) Machine.flush Machine.flush := by
  intro m m' hs hs' hsink
  unfold Machine.flush
  rw [hsink]
  cases m'.sink.flush with
  | ok _ => exact ⟨hsink, .here hG hw hs hs' trivial⟩
  | error e => exact ⟨rfl, hsink, .here hG hw hs hs' trivial⟩

/-! ### Lists and loops -/

/-- What is related stays so while evaluation goes on. -/
def Persists (C : Coupling) (P : C.World → α → β → Prop) : Prop :=
  ∀ w w' a b, C.Grows w w' → P w a b → P w' a b

theorem persists_same {α : Type} : C.Persists (C.Same (α := α)) := fun _ _ _ _ _ => id

/-- One thing for each of some members that are related, and still are when their turn comes. -/
theorem simulates_concatMap (hC : C.Lawful) {γ γ' : Type} {F : C.World → γ → γ' → Prop}
    (hF : C.Persists F) (hP : C.Persists P) {f : γ → Action (List α)} {g : γ' → Action (List β)}
    (hf : ∀ w c c', C.Valid w → F w c c' →
      C.Simulates w C.Grows (fun w => List.Forall₂ (P w)) (f c) (g c'))
    {cs : List γ} {cs' : List γ'} (hw : C.Valid w) (hcs : List.Forall₂ (F w) cs cs') :
    C.Simulates w C.Grows (fun w => List.Forall₂ (P w)) (Action.concatMap f cs)
      (Action.concatMap g cs') := by
  induction cs generalizing w cs' with
  | nil =>
    cases hcs
    exact simulates_pure hC.grows hw .nil
  | cons c cs ih =>
    cases hcs with
    | cons hc hcs =>
      refine (hf w c _ hw hc).bind hC.grows fun w₁ as bs hw₁ h₁ has => ?_
      have hrest := ih hw₁ (hcs.imp fun _ _ => hF _ _ _ _ h₁)
      refine hrest.bind hC.grows fun w₂ as' bs' hw₂ h₂ has' => ?_
      exact simulates_pure hC.grows hw₂
        (List.rel_append (has.imp fun _ _ => hP _ _ _ _ h₂) has')

theorem simulates_forEach (hC : C.Lawful) {γ γ' : Type} {F : C.World → γ → γ' → Prop}
    (hF : C.Persists F) {f : γ → Action Unit} {g : γ' → Action Unit}
    (hf : ∀ w c c', C.Valid w → F w c c' →
      C.Simulates w C.Grows (fun _ _ _ => True) (f c) (g c'))
    {cs : List γ} {cs' : List γ'} (hw : C.Valid w) (hcs : List.Forall₂ (F w) cs cs') :
    C.Simulates w C.Grows (fun _ _ _ => True) (Action.forEach f cs) (Action.forEach g cs') := by
  induction cs generalizing w cs' with
  | nil =>
    cases hcs
    exact simulates_pure hC.grows hw trivial
  | cons c cs ih =>
    cases hcs with
    | cons hc hcs =>
      refine (hf w c _ hw hc).bind hC.grows fun w₁ _ _ hw₁ h₁ _ => ?_
      exact ih hw₁ (hcs.imp fun _ _ => hF _ _ _ _ h₁)

theorem simulates_repeatWhile (hG : C.Steady G) {condition condition' : Action Bool}
    {body body' : Action Unit} (hw : C.Valid w)
    (hcondition : ∀ w', C.Valid w' → G w w' →
      C.Simulates w' G (fun _ a b => a = b) condition condition')
    (hbody : ∀ w', C.Valid w' → G w w' → C.Simulates w' G (fun _ _ _ => True) body body')
    (n : Nat) :
    C.Simulates w G (fun _ _ _ => True) (Action.repeatWhile condition body n)
      (Action.repeatWhile condition' body' n) := by
  induction n generalizing w with
  | zero => exact fun _ _ _ _ _ => trivial
  | succ n ih =>
    refine (hcondition w hw (hG.refl w)).bind hG fun w₁ holds _ hw₁ h₁ heq => ?_
    subst heq
    split
    · refine (hbody w₁ hw₁ h₁).bind hG fun w₂ _ _ hw₂ h₂ _ => ih hw₂ ?_ ?_
      · exact fun w' hw' h' => hcondition w' hw' (hG.trans h₁ (hG.trans h₂ h'))
      · exact fun w' hw' h' => hbody w' hw' (hG.trans h₁ (hG.trans h₂ h'))
    · exact simulates_pure hG hw₁ trivial

end Coupling

end WordScript
