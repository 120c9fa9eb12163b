import WordScript.Proofs.Teardown

/-!
# No dangling handles

When native code does nothing but declare variables and register constants, no operation ever comes
upon a handle that refers to nothing. The leaves of a program are loose: they are live and no frame
holds them, so that nothing destroys them. The values of an evaluation stay live while it goes on,
since blocks are run only between evaluations.
-/

namespace WordScript

namespace Store

/-- The handle is live, and no frame will ever destroy it. -/
def Loose (s : Store) (h : Handle) : Prop :=
  s.arena.IsLive h ∧ h ∉ s.scopes.held

/-- What is live stays live, and what is loose stays loose. -/
structure Grows (s s' : Store) : Prop where
  live : ∀ {h}, s.arena.IsLive h → s'.arena.IsLive h
  loose : ∀ {h}, s.Loose h → s'.Loose h

theorem Grows.refl (s : Store) : s.Grows s := ⟨id, id⟩

theorem Grows.trans {s s' s'' : Store} (h : s.Grows s') (h' : s'.Grows s'') : s.Grows s'' :=
  ⟨fun hl => h'.live (h.live hl), fun hl => h'.loose (h.loose hl)⟩

theorem grows_push {s : Store} (hs : s.Sound) (i : Identifier) : s.Grows (s.push i).2 where
  live := fun hl => Arena.isLive_push hs.tidy i hl
  loose := fun hl => ⟨Arena.isLive_push hs.tidy i hl.1, hl.2⟩

/-- A frame takes the handle of a new identifier, which was not loose before. -/
theorem grows_hold {s : Store} (hs : s.Sound) {i : Identifier} {space : String} {index : Nat}
    {f : Frame → Frame}
    (hf : (f (s.scopes.frameAt space index)).handles.Perm
      ((s.arena.push i).1 :: (s.scopes.frameAt space index).handles)) :
    s.Grows ⟨(s.arena.push i).2, s.scopes.modifyFrame space index f⟩ where
  live := fun hl => Arena.isLive_push hs.tidy i hl
  loose := by
    intro h hl
    have hheld : (s.scopes.modifyFrame space index f).held.Perm
        ([(s.arena.push i).1] ++ s.scopes.held) := Scopes.held_modifyFrame hf
    refine ⟨Arena.isLive_push hs.tidy i hl.1, fun hmem => ?_⟩
    rcases List.mem_cons.mp (hheld.mem_iff.mp hmem) with heq | hmem
    · exact Arena.not_isLive_push hs.tidy i (heq ▸ hl.1)
    · exact hl.2 hmem

theorem grows_bindNew {s : Store} (hs : s.Sound) {i : Identifier} {space : String} {index : Nat}
    (hname : (s.scopes.frameAt space index).names.find? i.surface = none) :
    s.Grows ⟨(s.arena.push i).2, s.scopes.modifyFrame space index fun f =>
      { f with names := f.names.insert i.surface (s.arena.push i).1 }⟩ :=
  grows_hold hs (Frame.handles_bind hname _)

theorem grows_put {s : Store} (hs : s.Sound) {h : Handle} (hl : s.arena.IsLive h)
    {i : Identifier} (hi : i.IsValid) : s.Grows { s with arena := s.arena.put h.index i } where
  live := fun hk => Arena.isLive_put hs.tidy hl hi hk
  loose := fun hk => ⟨Arena.isLive_put hs.tidy hl hi hk.1, hk.2⟩

theorem grows_resolve {s s' : Store} (hs : s.Sound) {name : String} {h : Handle}
    (hr : s.resolve name = .ok (h, s')) : s.Grows s' := by
  rcases resolve_cases hr with ⟨rfl, -⟩ | ⟨space, member, -, -, hglobal, heq⟩ | ⟨-, hlookup, heq⟩
  · exact .refl _
  · obtain ⟨-, rfl⟩ := Prod.mk.inj heq
    exact grows_bindNew hs (i := .name member 0) (by rwa [← Scopes.global?_eq])
  · obtain ⟨-, rfl⟩ := Prod.mk.inj heq
    exact grows_bindNew hs (i := .name name s.depth)
      (Scopes.find?_currentFrame_of_lookup? hs.visible hlookup)

theorem grows_declare {s s' : Store} (hs : s.Sound) {i : Identifier} (hi : i.IsValid) {h : Handle}
    (hd : s.declare i = .ok (some (h, s'))) : s.Grows s' := by
  rcases declare_cases hd with ⟨hfind, heq⟩ | ⟨old, -, hold, -, rfl⟩
  · obtain ⟨-, rfl⟩ := Prod.mk.inj heq
    exact grows_bindNew hs (i := { i with scope := s.depth }) hfind
  · exact grows_put hs (Arena.isLive_of_get? hold) hi

/-- A name that is resolved stands for a live handle. -/
theorem isLive_resolve {s s' : Store} (hs : s.Sound) (hf : s.arena.Full) {name : String}
    {h : Handle} (hr : s.resolve name = .ok (h, s')) : s'.arena.IsLive h := by
  rcases resolve_cases hr with ⟨rfl, index, key, hb, -⟩ | ⟨space, member, -, -, -, heq⟩ | ⟨-, -, heq⟩
  · exact hf h (hs.inUse h (Scopes.mem_held_of_binds hb))
  · obtain ⟨rfl, rfl⟩ := Prod.mk.inj heq
    exact Arena.isLive_push_self hs.tidy (by simp [Identifier.name])
  · obtain ⟨rfl, rfl⟩ := Prod.mk.inj heq
    exact Arena.isLive_push_self hs.tidy (by simp [Identifier.name])

theorem isLive_declare {s s' : Store} (hs : s.Sound) {i : Identifier} (hi : i.IsValid) {h : Handle}
    (hd : s.declare i = .ok (some (h, s'))) : s'.arena.IsLive h := by
  rcases declare_cases hd with ⟨-, heq⟩ | ⟨old, -, hold, -, rfl⟩
  · obtain ⟨rfl, rfl⟩ := Prod.mk.inj heq
    exact Arena.isLive_push_self hs.tidy hi
  · have hl := Arena.isLive_of_get? hold
    have hi' : Identifier.IsValid { i with scope := s.depth } := hi
    exact Arena.isLive_put hs.tidy hl hi' hl

theorem Loose.enter {s : Store} {h : Handle} (hl : s.Loose h) : s.enter.Loose h :=
  ⟨hl.1, fun hmem => hl.2 ((Scopes.held_enter _).mem_iff.mp hmem)⟩

theorem Loose.goTo {s : Store} {h : Handle} (hl : s.Loose h) (space : String) :
    Loose { s with scopes := s.scopes.goTo space } h :=
  ⟨hl.1, fun hmem => hl.2 (by rwa [Scopes.held_goTo] at hmem)⟩

/-- Leaving a block destroys only what is held. -/
theorem loose_leave {s : Store} (hs : s.Sound) {arrange : List Handle → List Handle}
    (harrange : ∀ hs, (arrange hs).Perm hs) {h : Handle} (hl : s.Loose h) :
    (s.leave arrange).2.Loose h := by
  rcases leave_cases arrange s with ⟨-, heq⟩ | ⟨frame, scopes, hleave, heq, -⟩
  · rw [heq]
    exact hl
  · rw [heq]
    have hheld := Scopes.held_leave? hleave
    have hframe : h ∉ arrange frame.handles := fun hmem =>
      hl.2 (hheld.mem_iff.mpr (List.mem_append_left _ ((harrange _).mem_iff.mp hmem)))
    refine ⟨?_, fun hmem => hl.2 (hheld.mem_iff.mpr (List.mem_append_right _ hmem))⟩
    rw [Arena.IsLive, Arena.get?_destroyAll hs.tidy, if_neg hframe]
    exact hl.1

/-- Identifiers that are added while no frame takes them are loose. -/
theorem loose_pushAll {s : Store} (hs : s.Sound) {is : List Identifier}
    (his : ∀ i ∈ is, i.IsValid) :
    s.Grows { s with arena := (s.arena.pushAll is).2 } ∧
      ∀ h ∈ (s.arena.pushAll is).1, Loose { s with arena := (s.arena.pushAll is).2 } h := by
  induction is generalizing s with
  | nil => exact ⟨.refl s, by simp [Arena.pushAll]⟩
  | cons i is ih =>
    have hi := his i (by simp)
    obtain ⟨hgrows, hloose⟩ := ih (hs.push i) fun j hj => his j (List.mem_cons_of_mem i hj)
    refine ⟨(grows_push hs i).trans hgrows, fun h hmem => ?_⟩
    rcases List.mem_cons.mp hmem with rfl | hmem
    · refine hgrows.loose ⟨Arena.isLive_push_self hs.tidy hi, fun hheld => ?_⟩
      exact Arena.not_inUse_push hs.tidy i (hs.inUse _ hheld)
    · exact hloose h hmem

end Store

/-! ## Functions of the host -/

/-- The identifier is not a function of the host. -/
def Identifier.IsNotNative (i : Identifier) : Prop :=
  i.isFunction = true → ∀ label, i.callable? ≠ some (.native label)

/-- The functions of the vocabulary are built in, and only the word for dumping dumps. -/
theorem Identifier.builtin_of_mem_vocabulary {i : Identifier} (hi : i ∈ vocabulary)
    (hfunction : i.isFunction = true) :
    ∃ op, i.callable? = some (.builtin op) ∧ (op = .dump → i.surface = "dump") ∧
      (op = .loadModule → i.surface = "include") := by
  have hall : ∀ i ∈ vocabulary, i.isFunction = true →
      ∃ op, i.callable? = some (.builtin op) ∧ (op = .dump → i.surface = "dump") ∧
        (op = .loadModule → i.surface = "include") := by
    simp [vocabulary, typeWords, truthWords, controlWords, functionWords, between, inFront,
      Identifier.isFunction, Identifier.typeName, Identifier.control, Identifier.function,
      Identifier.bool, Identifier.constant, Identifier.callable?]
  exact hall i hi hfunction

theorem Identifier.isNotNative_of_mem_vocabulary {i : Identifier} (hi : i ∈ vocabulary) :
    i.IsNotNative := by
  intro hfunction label hnative
  obtain ⟨op, hbuiltin, -⟩ := builtin_of_mem_vocabulary hi hfunction
  rw [hnative] at hbuiltin
  cases hbuiltin

theorem Identifier.isNotNative_of_role {i : Identifier} (hi : i.role ≠ .function) :
    i.IsNotNative := by
  intro hfunction
  simp only [isFunction, decide_eq_true_eq] at hfunction
  contradiction

theorem Identifier.isNotNative_of_isVariable {i : Identifier} (hi : i.isVariable = true) :
    i.IsNotNative := by
  simp only [isVariable, decide_eq_true_eq] at hi
  exact isNotNative_of_role (by simp [hi])

theorem Identifier.IsLiteral.isNotNative {i : Identifier} (hi : i.IsLiteral) : i.IsNotNative :=
  isNotNative_of_role (by simp [hi.role])

theorem Identifier.IsWritten.isNotNative {i : Identifier} (hi : i.IsWritten) : i.IsNotNative :=
  isNotNative_of_role (by rcases hi.role with hrole | hrole <;> simp [hrole])

namespace Store

variable {s s' : Store} {h k : Handle}

theorem isNotNative_initial : initial.arena.All Identifier.IsNotNative :=
  all_initial fun _ hi => Identifier.isNotNative_of_mem_vocabulary hi

theorem isNotNative_resolve (hs : s.Sound) (hnative : s.arena.All Identifier.IsNotNative)
    {name : String} (hr : s.resolve name = .ok (k, s')) : s'.arena.All Identifier.IsNotNative :=
  all_resolve hs hnative
    (fun _ _ => Identifier.isNotNative_of_role (by simp [Identifier.name])) hr

theorem isNotNative_declare (hs : s.Sound) (hnative : s.arena.All Identifier.IsNotNative)
    {i : Identifier} (hrole : i.role ≠ .function) (hd : s.declare i = .ok (some (k, s'))) :
    s'.arena.All Identifier.IsNotNative :=
  all_declare hs hnative (Identifier.isNotNative_of_role hrole) hd

theorem isNotNative_put (hs : s.Sound) (hnative : s.arena.All Identifier.IsNotNative)
    {old i : Identifier} (hold : s.arena.get? h = some old) (hi : i.isVariable = true) :
    (s.arena.put h.index i).All Identifier.IsNotNative :=
  hnative.put hs.tidy (Arena.isLive_of_get? hold) (Identifier.isNotNative_of_isVariable hi)

/-- What is called is then no function of the host. -/
theorem not_native_of_calls (hnative : s.arena.All Identifier.IsNotNative)
    (hcalls : ∃ i, s.arena.get? h = some i ∧ i.isFunction = true) {i : Identifier} {label : Native}
    (hi : s.arena.get? h = some i) : i.callable? ≠ some (.native label) := by
  obtain ⟨j, hj, hfunction⟩ := hcalls
  obtain rfl : i = j := Option.some.inj (hi.symm.trans hj)
  exact hnative h i hi hfunction label

end Store

/-! ## Hosts that only declare -/

/-- The operation declares a variable or registers a constant. -/
def Operation.IsDeclaration : Operation → Prop
  | .declare i => i.role = .var
  | .registerConstant _ i => i.role = .constant
  | _ => False

/-- A script does nothing but declare variables and register constants, and makes up no error about
a handle that refers to nothing. -/
def Script.OnlyDeclares {α : Type} : Script α → Prop
  | .finish (.ok _) => True
  | .finish (.error e) => ¬ e.IsInvalidReference
  | .ask op next => op.IsDeclaration ∧
      ∀ answer, (∀ e, answer = .error e → ¬ e.IsInvalidReference) → OnlyDeclares (next answer)

theorem Script.OnlyDeclares.bind {α β : Type} {x : Script α} {f : α → Script β}
    (hx : x.OnlyDeclares) (hf : ∀ a, (f a).OnlyDeclares) : (x >>= f).OnlyDeclares := by
  change (x.bind f).OnlyDeclares
  induction x with
  | finish result =>
    cases result with
    | ok a => exact hf a
    | error e => exact hx
  | ask op next ih => exact ⟨hx.1, fun answer hanswer => ih answer (hx.2 answer hanswer)⟩

theorem Script.onlyDeclares_request (op : Operation) (hop : op.IsDeclaration) :
    (request op).OnlyDeclares := by
  refine ⟨hop, fun answer hanswer => ?_⟩
  cases answer with
  | ok a => trivial
  | error e => exact hanswer e rfl

/-- The modules of a host do nothing but declare variables and register constants. -/
structure Host.OnlyDeclares (host : Host) : Prop where
  entry : ∀ {path entry} (args : List Expression), host.openModule path = .ok entry →
    (entry args).OnlyDeclares
  missing : ∀ {path e}, host.openModule path = .error e → ¬ e.IsInvalidReference

namespace Extension

/-- The directive declares a variable or registers a constant. -/
def Directive.OnlyDeclares : Directive → Prop
  | .declare i => i.role = .var
  | .constant _ i => i.role = .constant
  | _ => False

theorem onlyDeclares_directive {d : Directive} (hd : d.OnlyDeclares) (args : List Expression) :
    (d.script args).OnlyDeclares := by
  cases d with
  | declare i => exact (Script.onlyDeclares_request (.declare i) hd).bind fun _ => trivial
  | constant name i =>
    exact (Script.onlyDeclares_request (.registerConstant name i) hd).bind fun _ => trivial
  | _ => exact hd.elim

theorem onlyDeclares_entryPoint {ds : List Directive} (hds : ∀ d ∈ ds, d.OnlyDeclares)
    (args : List Expression) : (entryPoint ds args).OnlyDeclares := by
  induction ds with
  | nil => trivial
  | cons d ds ih =>
    exact (onlyDeclares_directive (hds d (by simp)) args).bind fun _ =>
      ih fun d hd => hds d (List.mem_cons_of_mem _ hd)

/-- A registry whose directives only declare makes a host whose modules do. -/
theorem Registry.host_onlyDeclares {r : Registry}
    (hr : ∀ path ds, (path, ds) ∈ r → ∀ d ∈ ds, d.OnlyDeclares) :
    (Registry.host r).OnlyDeclares where
  entry := by
    intro path entry args hopen
    simp only [Registry.host, Registry.openModule] at hopen
    split at hopen
    · next ds hfind =>
      cases hopen
      exact onlyDeclares_entryPoint (hr path ds (Bindings.mem_of_find? hfind)) args
    · cases hopen
  missing := by
    rintro path e hopen ⟨h, rfl⟩
    simp only [Registry.host, Registry.openModule] at hopen
    split at hopen <;> cases hopen

end Extension

namespace Contract

/-- The values of evaluations are live, and the leaves of programs are loose. -/
def liveness : Contract where
  Inv s := s.Sound ∧ s.arena.Full ∧ s.arena.All Identifier.IsNotNative
  Fits s h := s.arena.IsLive h
  Lasts s h := s.Loose h
  Calls s h := ∃ i, s.arena.get? h = some i ∧ i.isFunction = true
  Evaluates := Store.Grows
  Blocks s s' := ∀ h, s.Loose h → s'.Loose h
  Runs s s' := ∀ h, s.Loose h → s'.Loose h
  Raises e := ¬ e.IsInvalidReference
  Reads _ := True
  Asks _ op := op.IsDeclaration ∨ ∃ path space args, op = .loadModule path space args

variable {s s' : Store} {h k : Handle}

/-- Whatever a name is resolved to is live. -/
theorem liveness_resolve {name : String} (hs : liveness.Inv s)
    (hr : s.resolve name = .ok (k, s')) :
    liveness.Inv s' ∧ s.Grows s' ∧ s'.arena.IsLive k := by
  obtain ⟨hsound, hfull, hnative⟩ := hs
  exact ⟨⟨hsound.resolve hr, Store.full_resolve hsound hfull hr,
    Store.isNotNative_resolve hsound hnative hr⟩, Store.grows_resolve hsound hr,
    Store.isLive_resolve hsound hfull hr⟩

theorem liveness_push {i : Identifier} (hs : liveness.Inv s) (hi : i.IsLiteral) :
    liveness.Inv (s.pushTemporary i).2 ∧ s.Grows (s.pushTemporary i).2 ∧
      (s.pushTemporary i).2.arena.IsLive (s.pushTemporary i).1 := by
  obtain ⟨hsound, hfull, hnative⟩ := hs
  exact ⟨⟨hsound.pushTemporary i, Arena.Full.push hsound.tidy hfull hi.isValid,
    hnative.push hsound.tidy hi.isNotNative⟩, Store.grows_hold hsound (Frame.handles_adopt _ _),
    Arena.isLive_push_self hsound.tidy hi.isValid⟩

theorem liveness_declare {i : Identifier} (hs : liveness.Inv s) (hvalid : i.IsValid)
    (hrole : i.role ≠ .function) (hd : s.declare i = .ok (some (k, s'))) :
    liveness.Inv s' ∧ s.Grows s' ∧ s'.arena.IsLive k := by
  obtain ⟨hsound, hfull, hnative⟩ := hs
  exact ⟨⟨hsound.declare hd, Store.full_declare hsound hfull hvalid hd,
    Store.isNotNative_declare hsound hnative hrole hd⟩, Store.grows_declare hsound hvalid hd,
    Store.isLive_declare hsound hvalid hd⟩

theorem liveness_setValue {i : Identifier} (hs : liveness.Inv s) (hi : s.arena.get? h = some i)
    (hvariable : i.isVariable = true) (value : Value) :
    liveness.Inv { s with arena := s.arena.put h.index { i with value } } ∧
      s.Grows { s with arena := s.arena.put h.index { i with value } } := by
  obtain ⟨hsound, hfull, hnative⟩ := hs
  have hl := Arena.isLive_of_get? hi
  have hrole : i.role ≠ .invalid := Arena.role_ne_invalid hi
  have hvalid : Identifier.IsValid { i with value } := hrole
  exact ⟨⟨hsound.put hi rfl rfl, Arena.Full.put hsound.tidy hfull hl hvalid,
    Store.isNotNative_put hsound hnative hi hvariable⟩, Store.grows_put hsound hl hvalid⟩

/-- A block is left without an error, and what has been loose before it still is. -/
theorem liveness_leave {arrange : List Handle → List Handle}
    (harrange : ∀ hs, (arrange hs).Perm hs) (hruns : ∀ h, s.enter.Loose h → s'.Loose h)
    (hs' : liveness.Inv s') :
    liveness.Inv (s'.leave arrange).2 ∧ (∀ h, s.Loose h → (s'.leave arrange).2.Loose h) ∧
      (s'.leave arrange).1 = .ok () := by
  obtain ⟨hsound, hfull, hnative⟩ := hs'
  refine ⟨⟨hsound.leave harrange, Store.full_leave hsound hfull _,
    Store.all_leave hsound hnative _⟩, fun h hl => ?_, ?_⟩
  · exact Store.loose_leave hsound harrange (hruns h hl.enter)
  · exact hsound.leave_ok (fun h hh => hfull h (hsound.inUse h hh)) harrange

/-- The leaves of what is read from a text are loose. -/
theorem liveness_ofText (hs : liveness.Inv s) (text : String) :
    liveness.Inv { s with arena := (Statement.ofText text s.arena).2 } ∧
      s.Grows { s with arena := (Statement.ofText text s.arena).2 } ∧
      ∀ st, (Statement.ofText text s.arena).1 = .ok st → ∀ h ∈ st.leaves,
        Store.Loose { s with arena := (Statement.ofText text s.arena).2 } h := by
  obtain ⟨hsound, hfull, hnative⟩ := hs
  obtain ⟨is, his, harena, hleaves⟩ := Statement.ofText_adds text s.arena
  obtain ⟨hgrows, hloose⟩ := Store.loose_pushAll hsound fun i hi => (his i hi).isValid
  have hinv : liveness.Inv { s with arena := (Statement.ofText text s.arena).2 } :=
    ⟨hsound.ofText text, Store.full_ofText hsound hfull text,
      Store.all_ofText hsound.tidy hnative (fun _ hi => hi.isNotNative) text⟩
  rw [harena] at hinv ⊢
  refine ⟨hinv, hgrows, fun st hst h hh => ?_⟩
  rw [hleaves st hst] at hh
  exact hloose h hh

/-- What is bound is live, so that a declaration finds nothing missing. -/
theorem liveness_declare_error {i : Identifier} {e : RuntimeError}
    (hs : liveness.Inv s) : s.declare i ≠ .error e := by
  intro hd
  obtain ⟨h, hfind, hnone, -⟩ := Store.declare_error hd
  have hb : s.scopes.Binds s.depth i.surface h :=
    Scopes.binds_of_frameAt (Bindings.mem_of_find? hfind)
  exact Arena.not_isLive_iff.mpr hnone
    (hs.2.1 h (hs.1.inUse h (Scopes.mem_held_of_binds hb)))

/-- A script that only declares obeys the contract. -/
theorem liveness_obeys {script : Script Unit} (hscript : script.OnlyDeclares) {s₀ : Store}
    (hs : liveness.Inv s) (hgrows : s₀.Grows s)
    {post : Store → Except RuntimeError Unit → Prop}
    (hpost : ∀ s result, liveness.Inv s → s₀.Grows s →
      (∀ e, result = .error e → ¬ e.IsInvalidReference) → post s result) :
    liveness.Obeys post script s := by
  induction script generalizing s with
  | finish result =>
    refine hpost s result hs hgrows ?_
    rintro e rfl
    exact hscript
  | ask op next ih =>
    obtain ⟨hop, hnext⟩ := hscript
    have hadmits : liveness.Admits s op := by
      cases op <;> first | exact .inl hop | exact hop.elim
    have heffect : liveness.effect op = Store.Grows := by
      cases op <;> first | rfl | exact hop.elim
    refine ⟨hadmits, fun answer s' hs' hstep hanswer => ?_⟩
    rw [heffect] at hstep
    refine ih answer (hnext answer ?_) hs' (hgrows.trans hstep)
    rintro e rfl
    exact hanswer

/-- Declaring keeps the contract, also when a script asks for it. -/
theorem liveness_meets_declare {i : Identifier} (hvalid : i.IsValid) (hrole : i.role ≠ .function)
    {m : Machine} (hm : liveness.Inv m.store) :
    liveness.Meets liveness.Evaluates liveness.Fits m.store (Machine.declare i m) := by
  refine (keeps_tryStore (C := liveness) hm ⟨fun _ => .refl _, fun h h' => h.trans h'⟩ ?_ ?_).meets
  · intro h s hs
    split at hs
    · next result hresult =>
      cases hs
      exact liveness_declare hm hvalid hrole hresult
    · cases hs
    · cases hs
  · intro e he
    split at he
    · cases he
    · cases he
      exact RuntimeError.not_isInvalidReference nofun
    · next e' herror => exact absurd herror (liveness_declare_error hm)

/-- A script that only declares runs at the global frame of a namespace like any evaluation. -/
theorem liveness_entry {script : Script Unit} (hscript : script.OnlyDeclares)
    (hs : liveness.Inv s) (space : String) :
    liveness.Obeys (fun s' result =>
      liveness.Inv { s' with scopes := s'.scopes.restore s.scopes.place } ∧
      s.Grows { s' with scopes := s'.scopes.restore s.scopes.place } ∧
      ∀ e, result = .error e → ¬ e.IsInvalidReference) script
      { s with scopes := s.scopes.goTo space } := by
  have hgo : liveness.Inv { s with scopes := s.scopes.goTo space } := ⟨hs.1.goTo space, hs.2⟩
  refine liveness_obeys hscript hgo (.refl _) fun s' result hs' hgrows herror => ?_
  refine ⟨⟨hs'.1.restore hs.1.visible, hs'.2⟩, ⟨hgrows.live, fun hl => ?_⟩, herror⟩
  exact hgrows.loose (hl.goTo space)

theorem liveness_steady : liveness.Steady liveness.Evaluates :=
  ⟨fun _ => .refl _, fun h h' => h.trans h'⟩

/-- The contract is lawful for hosts whose modules only declare. -/
theorem lawful_liveness {host : Host} (hhost : host.OnlyDeclares) : liveness.Lawful host where
  evaluates := liveness_steady
  runs := ⟨fun _ _ h => h, fun h h' k hk => h' k (h k hk)⟩
  evaluates_runs := fun h _ hk => h.loose hk
  blocks_runs := id
  fits_mono := fun h hk => h.live hk
  lasts_mono := fun h hk => h _ hk
  lasts_fits := fun _ hk => hk.1
  missing := fun _ hk hnone => absurd hk (Arena.not_isLive_iff.mpr hnone)
  raises := fun he hreference => he (.inl hreference)
  calls := fun _ _ hi hfunction => ⟨_, hi, hfunction⟩
  resolve := fun hs _ _ _ hr => liveness_resolve hs hr
  push := fun hs hi => liveness_push hs hi
  typeName := fun _ _ _ => trivial
  typeOf := fun _ _ _ => trivial
  declare := fun hs _ _ _ _ hd =>
    liveness_declare hs (by simp [Identifier.IsValid, Identifier.asVariable])
      (by simp [Identifier.asVariable]) hd
  declare_error := fun hs hd => absurd hd (liveness_declare_error hs)
  setValue := fun hs _ hi hvariable _ => liveness_setValue hs hi hvariable _
  enter := fun hs _ => ⟨hs.1.enter, hs.2⟩
  lasts_enter := fun _ hk => hk.enter
  leave := by
    intro s s' arrange harrange _ _ hruns hs'
    obtain ⟨hinv, hloose, hok⟩ := liveness_leave harrange hruns hs'
    refine ⟨hinv, hloose, fun e he => ?_⟩
    rw [hok] at he
    cases he
  readText := fun text _ _ _ hs => liveness_ofText hs text
  loads := fun _ _ _ _ _ path space args => .inr ⟨path, space, args, rfl⟩
  callee := by
    rintro s h _ ⟨i, hi, -⟩ hnone
    rw [hi] at hnone
    contradiction
  notCallable := fun _ _ _ _ => RuntimeError.not_isInvalidReference nofun
  native := fun hs hcalls hi hlabel _ =>
    absurd hlabel (Store.not_native_of_calls hs.2.2 hcalls hi)
  moduleError := hhost.missing
  entry := fun {_ _ space args _} hs _ _ hopen =>
    ⟨⟨hs.1.goTo space, hs.2⟩, liveness_entry (hhost.entry args hopen) hs space⟩
  asked := by
    intro m op self steps hop hm _ hasks
    rcases hasks with hdeclares | ⟨path, space, args, rfl⟩
    · cases op with
      | declare i =>
        exact liveness_meets_declare (by simp_all [Identifier.IsValid, Operation.IsDeclaration])
          (by simp_all [Operation.IsDeclaration]) hm
      | registerConstant name i =>
        exact liveness_meets_declare (by simp_all [Identifier.IsValid, Operation.IsDeclaration])
          (by simp_all [Operation.IsDeclaration]) hm
      | _ => exact hdeclares.elim
    · exact hop.elim
  permits := fun _ _ => trivial

end Contract

/-! ## Programs that are run from their text -/

/-- The operation runs a text, as a block or in the current frame. -/
def Operation.RunsText : Operation → Prop
  | .runText _ => True
  | .runTextTopLevel _ => True
  | _ => False

/-- The values of an evaluation. -/
def Operation.values : (op : Operation) → op.Answer → List Handle
  | .evaluate _, handles => handles
  | .evaluateGroup _, handles => handles
  | .call _ _, handles => handles
  | _, _ => []

/-- While texts are run one after the other, on a host whose modules only declare, no operation
fails because a handle refers to nothing, the values of every evaluation are live when it has come
to its end, and every frame is left without an error. -/
theorem no_dangling_handles {host : Host} (hhost : host.OnlyDeclares) {m : Machine}
    (hm : Reached host Operation.RunsText m) {op : Operation} (hop : op.RunsText)
    {steps steps' : Nat} {op' : Operation} {m' : Machine}
    (h : During host steps op m steps' op' m') :
    (∀ e m'', perform host steps' op' m' = .failure e m'' → ∀ k, e ≠ .invalidReference k) ∧
      (∀ a m'', perform host steps' op' m' = .value a m'' →
        ∀ k ∈ op'.values a, m''.store.arena.IsLive k) ∧
      ∀ steps'', Evaluation.LeavesCleanly host steps'' m' op' := by
  have hC := Contract.lawful_liveness hhost
  have hallowed : ∀ s op, Contract.liveness.Inv s → op.RunsText →
      Contract.liveness.Admits s op := by
    intro s op _ hop
    cases op <;> trivial
  have hinitial : Contract.liveness.Inv .initial :=
    ⟨Store.sound_initial, Store.full_initial,
      Store.all_initial fun i hi => Identifier.isNotNative_of_mem_vocabulary hi⟩
  have hinv := hC.reached hinitial hallowed hm
  obtain ⟨hm', hadmits⟩ := hC.during hinv (hallowed _ _ hinv hop) h
  have hmeets := hC.perform_meets steps' hm' hadmits
  refine ⟨?_, ?_, ?_⟩
  · rintro e m'' hend k rfl
    rw [hend] at hmeets
    exact hmeets.2.2 ⟨k, rfl⟩
  · intro a m'' hend k hk
    rw [hend] at hmeets
    have hgives := hmeets.2.2
    cases op' with
    | evaluate e => exact hgives k hk
    | evaluateGroup es => exact hgives k hk
    | call args isInfix => exact hgives k hk
    | _ => cases hk
  · intro steps''
    exact hC.leavesCleanly (fun hs => ⟨hs.1, hs.2.1⟩) steps'' hm' hadmits

set_option maxRecDepth 100000 in
/-- A loop loads a module with a constant in the first round, and uses that in every round. The
declaration in the first line gives a live handle. -/
theorem no_dangling_handles_include :
    let host := Extension.Registry.host [("m", [.constant "n" (.int 1)])]
    let text := "decas x :: int\nloop x < 3 \x7b\nif x == 0 \x7b\ninclude m\n\x7d\nx = x + m.n\n\x7d\n"
    host.OnlyDeclares ∧
      (∃ m, perform host 99 (.runTextTopLevel text) (.initial {}) = .value (.ok ()) m) ∧
      (∀ steps' op' m', During host 99 (.runTextTopLevel text) (.initial {}) steps' op' m' →
        (∀ e m'', perform host steps' op' m' = .failure e m'' → ∀ k, e ≠ .invalidReference k) ∧
        (∀ a m'', perform host steps' op' m' = .value a m'' →
          ∀ k ∈ op'.values a, m''.store.arena.IsLive k) ∧
        ∀ steps'', Evaluation.LeavesCleanly host steps'' m' op') ∧
      ∃ e m' h m'', During host 99 (.runTextTopLevel text) (.initial {}) 96 (.evaluate e) m' ∧
        perform host 96 (.evaluate e) m' = .value [h] m'' ∧ m''.store.arena.IsLive h := by
  intro host text
  have hhost : host.OnlyDeclares := by
    refine Extension.Registry.host_onlyDeclares ?_
    simp [Extension.Directive.OnlyDeclares, Identifier.int, Identifier.constant]
  have hop : (Operation.runTextTopLevel text).RunsText := trivial
  have hrun : (perform host 99 (.runTextTopLevel text) (.initial {})).test
      (fun result _ => result.toOption.any fun _ => true) = true := by decide +kernel
  have hline : (Machine.readText text (.initial {})).test (fun result m =>
      result.toOption.any fun s => s.head.isEmpty && s.body.head?.any fun first =>
        !first.head.isEmpty && (Evaluation.controlWord? first.head.parts.head? m).test
          fun word? m' => decide (word? = none) &&
            (perform host 96 (.evaluate first.head) m').test fun (handles : List Handle) _ =>
              handles.length = 1) = true := by
    decide +kernel
  obtain ⟨result, m, hend, hok⟩ := Outcome.exists_of_test hrun
  obtain ⟨_, rfl, -⟩ := Except.exists_of_any_toOption hok
  obtain ⟨result, m₁, hread, hline⟩ := Outcome.exists_of_test hline
  obtain ⟨s, rfl, hline⟩ := Except.exists_of_any_toOption hline
  obtain ⟨hhead, hline⟩ := Bool.and_eq_true_iff.mp hline
  obtain ⟨first, hfirst, hline⟩ := (Option.any_eq_true _ _).mp hline
  obtain ⟨hnonempty, hline⟩ := Bool.and_eq_true_iff.mp hline
  obtain ⟨word?, m', hplain, hline⟩ := Outcome.exists_of_test hline
  obtain ⟨hword, hline⟩ := Bool.and_eq_true_iff.mp hline
  rw [of_decide_eq_true hword] at hplain
  obtain ⟨handles, m'', hvalue, hlength⟩ := Outcome.exists_of_test hline
  obtain ⟨h, rfl⟩ := List.length_eq_one_iff.mp (of_decide_eq_true hlength)
  have hduring : During host 99 (.runTextTopLevel text) (.initial {}) 96 (.evaluate first.head)
      m' :=
    .inside (inside_runTextTopLevel host 98 hread)
      (.inside (inside_runTopLevel host 97 m₁ hhead hfirst)
        (.inside (inside_runStep host 96 (by simpa using hnonempty) hplain none) .here))
  have hlive := (no_dangling_handles hhost (.initial {}) hop hduring).2.1 _ _ hvalue
  refine ⟨hhost, ⟨m, hend⟩, fun steps' op' m' h => ?_, first.head, m', h, m'', hduring, hvalue,
    hlive h List.mem_cons_self⟩
  exact no_dangling_handles hhost (.initial {}) hop h

end WordScript
