import WordScript.Proofs.Reached

/-!
# Contracts that do not look at handles

What holds of the store in all states, whichever handles a program or a host comes up with. Such a
contract asks nothing of handles and lets every operation do the same to the store; a host keeps it
as long as the identifiers that it stores are of the right kind.
-/

namespace WordScript

/-- Every identifier that the operation stores is of some kind. -/
def Operation.Stores (Kind : Identifier → Prop) : Operation → Prop
  | .declare i => Kind i
  | .registerFunction name isInfix label => Kind (.function name "any" isInfix (.native label))
  | .registerConstant name i => Kind { i with surface := name }
  | .push i => Kind i
  | _ => True

/-- An answer that can be given: an identifier that is read off is never an invalid one. -/
def Operation.CanAnswer : (op : Operation) → Except RuntimeError op.Answer → Prop
  | .identifier _, .ok i => i.role ≠ .invalid
  | _, _ => True

/-- A script asks only operations that are allowed, whatever it can be answered, and what it gives
meets a condition. -/
def Script.Gives {α : Type} (allowed : Operation → Prop) (P : α → Prop) : Script α → Prop
  | .finish (.ok a) => P a
  | .finish (.error _) => True
  | .ask op next => allowed op ∧ ∀ answer, op.CanAnswer answer → Gives allowed P (next answer)

/-- A script asks only operations that are allowed. -/
abbrev Script.AsksOnly {α : Type} (allowed : Operation → Prop) (script : Script α) : Prop :=
  script.Gives allowed fun _ => True

/-- The functions and modules of a host ask only operations that are allowed. -/
structure Host.AsksOnly (host : Host) (allowed : Operation → Prop) : Prop where
  native : ∀ label args, (host.native label args).AsksOnly allowed
  entry : ∀ {path entry} (args : List Expression), host.openModule path = .ok entry →
    (entry args).AsksOnly allowed

/-- The name may be resolved: it is that of an identifier that is not declared, or a script asks for
it. -/
def Store.MayResolve (Permits : Operation → Store → Prop) (s : Store) (name : String) : Prop :=
  (∃ h i, s.arena.get? h = some i ∧ i.isUndefined = true ∧ i.surface = name) ∨
    Permits (.resolve name) s

namespace Contract

/-- The contract that asks nothing of handles: `Inv` holds of the store, every operation stays
within `R`, blocks do no more than `B`, operations are carried out where `Permits` says so, and
scripts store identifiers of a kind. -/
def uniform (Inv : Store → Prop) (R B : Store → Store → Prop)
    (Permits : Operation → Store → Prop) (Kind : Identifier → Prop) : Contract where
  Inv := Inv
  Fits := fun _ _ => True
  Lasts := fun _ _ => True
  Calls := fun _ _ => True
  Evaluates := R
  Blocks := B
  Runs := R
  Raises := fun _ => True
  Permits := Permits
  Reads := fun _ => True
  Asks := fun _ op => op.Stores Kind

/-- What the operations on the store have to do for that. -/
structure Kept (Inv : Store → Prop) (R B : Store → Store → Prop)
    (Permits : Operation → Store → Prop) (Kind : Identifier → Prop) : Prop where
  refl : ∀ {s}, Inv s → R s s
  trans : ∀ {s s' s''}, R s s' → R s' s'' → R s s''
  blocks : ∀ {s s'}, B s s' → R s s'
  literal : ∀ {i}, Identifier.IsLiteral i → Kind i
  declared : ∀ name type, Kind ((Identifier.name name 0).asVariable type 0)
  read : ∀ {s} {op : Operation} (text : String), op.ReadsText text → Permits op s → Inv s →
    Inv { s with arena := (Statement.ofText text s.arena).2 } ∧
      R s { s with arena := (Statement.ofText text s.arena).2 }
  resolve : ∀ {s s' name h}, Inv s → s.MayResolve Permits name → s.resolve name = .ok (h, s') →
    Inv s' ∧ R s s'
  declare : ∀ {s s' i h}, Inv s → Kind i → s.declare i = .ok (some (h, s')) → Inv s' ∧ R s s'
  push : ∀ {s i}, Inv s → Kind i → Inv (s.pushTemporary i).2 ∧ R s (s.pushTemporary i).2
  setValue : ∀ {s h i}, Inv s → s.arena.get? h = some i → ∀ value,
    Inv { s with arena := s.arena.put h.index { i with value } } ∧
      R s { s with arena := s.arena.put h.index { i with value } }
  enter : ∀ {s}, Inv s → (uniform Inv R B Permits Kind).Opens s → Inv s.enter
  leave : ∀ {s s'} {arrange : List Handle → List Handle}, (∀ hs, (arrange hs).Perm hs) →
    Inv s → (uniform Inv R B Permits Kind).Opens s → R s.enter s' → Inv s' →
    Inv (s'.leave arrange).2 ∧ B s (s'.leave arrange).2
  goTo : ∀ {s} (space : String), Inv s → Inv { s with scopes := s.scopes.goTo space }
  restore : ∀ {s s'} (path space : String) (args : List Expression), Inv s →
    Permits (.loadModule path space args) s → R { s with scopes := s.scopes.goTo space } s' →
    Inv s' → Inv { s' with scopes := s'.scopes.restore s.scopes.place } ∧
      R s { s' with scopes := s'.scopes.restore s.scopes.place }

section Kept

variable {Inv : Store → Prop} {R B : Store → Store → Prop} {Permits : Operation → Store → Prop}
variable {Kind : Identifier → Prop} {host : Host}

theorem Kept.steady (hK : Kept Inv R B Permits Kind) : (uniform Inv R B Permits Kind).Steady R :=
  ⟨hK.refl, hK.trans⟩

theorem admits_uniform {s : Store} {op : Operation} (hop : op.Stores Kind) :
    (uniform Inv R B Permits Kind).Admits s op := by
  have hfits : ∀ e : Expression, (uniform Inv R B Permits Kind).FitsExpression s e := by
    intro e
    cases e with
    | leaf h => trivial
    | group es => exact fun _ _ => trivial
  cases op with
  | evaluate e => exact hfits e
  | evaluateGroup es => exact fun _ _ => trivial
  | call args isInfix => exact ⟨fun e _ => hfits e, fun _ _ => trivial, fun _ => trivial⟩
  | runStep st ladder => exact fun _ _ => trivial
  | runBlock body => exact fun _ _ => trivial
  | decide condition => exact fun _ _ => trivial
  | run st => exact fun _ _ => trivial
  | runTopLevel st => exact fun _ _ => trivial
  | readText text => trivial
  | runText text => trivial
  | runTextTopLevel text => trivial
  | loadModule path space args => exact ⟨fun e _ => hfits e, trivial⟩
  | resolve name => exact hop
  | declare i => exact hop
  | registerFunction name isInfix label => exact hop
  | registerConstant name i => exact hop
  | push i => exact hop
  | identifier h => exact hop
  | setValue h value => exact hop
  | place => exact hop

theorem Kept.effect (hK : Kept Inv R B Permits Kind) {op : Operation} {s s' : Store}
    (h : (uniform Inv R B Permits Kind).effect op s s') : R s s' := by
  cases op <;> first | exact h | exact hK.blocks h

/-- Whatever an operation gives is an answer that can be given. -/
theorem canAnswer_of_answers {C : Contract} {s : Store} {op : Operation}
    {answer : Except RuntimeError op.Answer} (h : C.Answers s op answer) :
    op.CanAnswer answer := by
  cases op with
  | identifier k =>
    cases answer with
    | ok i => exact Arena.role_ne_invalid h
    | error e => trivial
  | _ => trivial

/-- A script that stores identifiers of the right kind obeys the contract. -/
theorem Kept.obeys (hK : Kept Inv R B Permits Kind) {α : Type} {script : Script α}
    (hscript : script.AsksOnly (·.Stores Kind)) {s₀ s : Store} (hs : Inv s) (hR : R s₀ s)
    {post : Store → Except RuntimeError α → Prop}
    (hpost : ∀ s result, Inv s → R s₀ s → post s result) :
    (uniform Inv R B Permits Kind).Obeys post script s := by
  induction script generalizing s with
  | finish result => exact hpost s result hs hR
  | ask op next ih =>
    refine ⟨admits_uniform hscript.1, fun answer s' hs' hstep hanswer => ?_⟩
    exact ih answer (hscript.2 answer (canAnswer_of_answers hanswer)) hs'
      (hK.trans hR (hK.effect hstep))

theorem Kept.meets_declare (hK : Kept Inv R B Permits Kind) {i : Identifier} (hi : Kind i)
    {m : Machine} (hm : Inv m.store) :
    (uniform Inv R B Permits Kind).Meets R (fun _ _ => True) m.store (Machine.declare i m) := by
  refine (keeps_tryStore (C := uniform Inv R B Permits Kind) hm hK.steady ?_
    fun _ _ => trivial).meets
  intro h s hs
  split at hs
  · next result hresult =>
    cases hs
    obtain ⟨hinv, hstep⟩ := hK.declare hm hi hresult
    exact ⟨hinv, hstep, trivial⟩
  · cases hs
  · cases hs

/-- What scripts ask for directly keeps the contract. -/
theorem Kept.asked (hK : Kept Inv R B Permits Kind) {op : Operation} (self : Evaluation.Performer)
    (steps : Nat) (hop : op.IsPrimitive) (hstores : op.Stores Kind) {m : Machine}
    (hm : Inv m.store) (hpermits : Permits op m.store) :
    (uniform Inv R B Permits Kind).Meets R (fun s => (uniform Inv R B Permits Kind).Gives s op)
      m.store (Evaluation.step host self steps op m) := by
  cases op with
  | resolve name =>
    change (uniform Inv R B Permits Kind).Meets R (fun _ _ => True) m.store (Machine.resolve name m)
    refine (keeps_tryStore (C := uniform Inv R B Permits Kind) hm hK.steady ?_
      fun _ _ => trivial).meets
    intro h s hs
    obtain ⟨hinv, hstep⟩ := hK.resolve hm (.inr hpermits) hs
    exact ⟨hinv, hstep, trivial⟩
  | declare i => exact hK.meets_declare hstores hm
  | registerFunction name isInfix label => exact hK.meets_declare hstores hm
  | registerConstant name i => exact hK.meets_declare hstores hm
  | push i =>
    obtain ⟨hinv, hstep⟩ := hK.push hm hstores
    exact ⟨hinv, hstep, trivial⟩
  | identifier h =>
    simp only [Evaluation.step, Machine.identifier]
    split
    · next i hi => exact ⟨hm, hK.refl hm, hi⟩
    · exact ⟨hm, hK.refl hm, trivial⟩
  | setValue h value =>
    change (uniform Inv R B Permits Kind).Meets R (fun _ _ => True) m.store
      (Machine.setValue h value m)
    refine (keeps_tryStore (C := uniform Inv R B Permits Kind) hm hK.steady ?_
      fun _ _ => trivial).meets
    intro u s hs
    simp only [Arena.setValue?] at hs
    split at hs
    · next arena harena =>
      cases hs
      split at harena
      · next i hi =>
        cases harena
        obtain ⟨hinv, hstep⟩ := hK.setValue hm hi value
        exact ⟨hinv, hstep, trivial⟩
      · cases harena
    · cases hs
  | place => exact ⟨hm, hK.refl hm, trivial⟩
  | _ => exact hop.elim

/-- The contract is upheld by every host that stores identifiers of the right kind. -/
theorem Kept.upheld (hK : Kept Inv R B Permits Kind) (hhost : host.AsksOnly (·.Stores Kind)) :
    (uniform Inv R B Permits Kind).Upheld host where
  evaluates := hK.steady
  runs := hK.steady
  evaluates_runs := id
  blocks_runs := hK.blocks
  fits_mono := fun _ _ => trivial
  lasts_mono := fun _ _ => trivial
  lasts_fits := fun _ _ => trivial
  missing := fun _ _ _ => trivial
  raises := fun _ => trivial
  calls := fun _ _ _ _ => trivial
  resolve := by
    intro s s' h i k hs _ hi hundefined hr
    obtain ⟨hinv, hstep⟩ := hK.resolve hs (.inl ⟨h, i, hi, hundefined, rfl⟩) hr
    exact ⟨hinv, hstep, trivial⟩
  push := by
    intro s i hs hi
    obtain ⟨hinv, hstep⟩ := hK.push hs (hK.literal hi)
    exact ⟨hinv, hstep, trivial⟩
  typeName := fun _ _ _ => trivial
  typeOf := fun _ _ _ => trivial
  declare := by
    intro s s' h i k type hs _ _ _ _ hd
    obtain ⟨hinv, hstep⟩ := hK.declare hs (hK.declared i.surface type) hd
    exact ⟨hinv, hstep, trivial⟩
  declare_error := fun _ _ => trivial
  setValue := fun hs _ hi _ _ => hK.setValue hs hi _
  enter := hK.enter
  lasts_enter := fun _ _ => trivial
  leave := by
    intro s s' arrange harrange hs hopens hruns hs'
    obtain ⟨hinv, hstep⟩ := hK.leave harrange hs hopens hruns hs'
    exact ⟨hinv, hstep, fun _ _ => trivial⟩
  readText := by
    intro s op text hop hpermits _ hs
    obtain ⟨hinv, hstep⟩ := hK.read text hop hpermits hs
    exact ⟨hinv, hstep, fun _ _ _ _ => trivial⟩
  loads := fun _ _ _ _ _ _ _ _ => trivial
  callee := fun _ _ _ => trivial
  notCallable := fun _ _ _ _ => trivial
  native := by
    intro s h i label args hs _ _ _ _
    refine hK.obeys (hhost.native label args) hs (hK.refl hs) fun s' result _ hstep => ?_
    exact ⟨hstep, fun _ _ _ _ => trivial, fun _ _ => trivial⟩
  moduleError := fun _ => trivial
  entry := by
    intro s path space args entry hs hpermits _ hopen
    have hgo := hK.goTo space hs
    refine ⟨hgo, hK.obeys (hhost.entry args hopen) hgo (hK.refl hgo) fun s' result hs' hstep => ?_⟩
    obtain ⟨hinv, hback⟩ := hK.restore path space args hs hpermits hstep hs'
    exact ⟨hinv, hback, fun _ _ => trivial⟩
  asked := fun self steps hop hs hpermits hstores => hK.asked self steps hop hstores hs hpermits

/-- The contract is lawful if operations may be carried out everywhere. -/
theorem Kept.lawful (hK : Kept Inv R B (fun _ _ => True) Kind)
    (hhost : host.AsksOnly (·.Stores Kind)) :
    (uniform Inv R B (fun _ _ => True) Kind).Lawful host :=
  { hK.upheld hhost with permits := fun _ _ => trivial }

/-- The invariant holds in all states that the host reaches. -/
theorem Kept.reached (hK : Kept Inv R B (fun _ _ => True) Kind)
    (hhost : host.AsksOnly (·.Stores Kind)) (hinitial : Inv Store.initial) {m : Machine}
    (h : Reached host (·.Stores Kind) m) : Inv m.store :=
  (hK.lawful hhost).reached hinitial (fun _ _ _ hop => admits_uniform hop) h

end Kept

end Contract

end WordScript
