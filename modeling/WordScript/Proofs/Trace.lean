import WordScript.Proofs.Innermost
import WordScript.Proofs.Liveness

/-!
# Blocks that leave no trace

Where the current frame is the last one of its namespace, blocks, conditions and loops of programs
that name only what can be seen leave nothing behind: nothing stays live, and nothing stays bound.
Elsewhere they do: at the global frame of a namespace with open blocks, a block opens its frame
after all others, but what it names gets bound further out.
-/

namespace WordScript

theorem Identifier.not_loads_of_isFunction {i : Identifier} (hi : i.isFunction = false) :
    ¬ i.Loads := by
  rintro ⟨hfunction, -⟩
  rw [hi] at hfunction
  contradiction

theorem Identifier.not_loads_of_isVariable {i : Identifier} (hi : i.isVariable = true) :
    ¬ i.Loads :=
  not_loads_of_isFunction (not_isFunction_of_isVariable hi)

namespace Store

/-- A name without a namespace in front, which does not stand for a function that loads modules. -/
structure NamesPlainly (s : Store) (name : String) : Prop where
  unqualified : '.' ∉ name.toList
  notLoads : ∀ {h i}, s.scopes.lookup? name = some h → s.arena.get? h = some i → ¬ i.Loads

/-- A leaf of a program that has only such names, and loads no modules. -/
def Plain (s : Store) (h : Handle) : Prop :=
  ∀ i, s.arena.get? h = some i → ¬ i.Loads ∧ (i.isUndefined = true → s.NamesPlainly i.surface)

/-- What is behind the handle loads no modules, and has a name of some kind if it is undefined. -/
def Harmless (Named : String → Prop) (s : Store) (h : Handle) : Prop :=
  ∀ i, s.arena.get? h = some i → ¬ i.Loads ∧ (i.isUndefined = true → Named i.surface)

/-- If the handle refers to a variable, that can be seen or is one of the program's own handles. -/
def Near (Own : Handle → Prop) (s : Store) (h : Handle) : Prop :=
  ∀ i, s.arena.get? h = some i → i.isVariable = true → s.scopes.Shows h ∨ Own h

theorem qualified?_eq_none {name : String} (h : '.' ∉ name.toList) : qualified? name = none := by
  unfold qualified?
  have hall : ∀ cs : List Char, '.' ∉ cs → cs.dropWhile (· ≠ '.') = [] := by
    intro cs hcs
    induction cs with
    | nil => rfl
    | cons c cs ih =>
      rw [List.mem_cons, not_or] at hcs
      rw [List.dropWhile_cons_of_pos (by simpa using Ne.symm hcs.1), ih hcs.2]
  rw [hall _ h]

section Confined

variable {Named : String → Prop} {Own : Handle → Prop} {s s' : Store}

/-- An identifier came up in the current frame, or it is what an older one has become. -/
theorem Fills.cases {new : List Handle} {f : Frame} (h : Fills Named Own new f s s') {k : Handle}
    {i' : Identifier} (hi' : s'.arena.get? k = some i') :
    Added Named f k i' ∨ ∃ i, s.arena.get? k = some i ∧ Becomes Own s k i i' := by
  rcases (h.live k).mp (Arena.isLive_of_get? hi') with hnew | hl
  · exact .inl (h.added hnew hi')
  · obtain ⟨i, hi⟩ := Arena.isLive_iff.mp hl
    obtain ⟨i'', hi'', hbecomes⟩ := h.kept hi
    rw [hi'] at hi''
    obtain rfl := Option.some.inj hi''
    exact .inr ⟨i, hi, hbecomes⟩

theorem Confined.harmless (h : Confined Named Own s s') {k : Handle} (hk : s.Harmless Named k) :
    s'.Harmless Named k := by
  obtain ⟨new, f, hfills⟩ := h.fills
  intro i' hi'
  rcases hfills.cases hi' with hadded | ⟨i, hi, hbecomes⟩
  · exact ⟨Identifier.not_loads_of_isFunction hadded.notFunction, hadded.named⟩
  · cases hbecomes with
    | same => exact hk _ hi
    | assigned hvariable _ value =>
      exact ⟨Identifier.not_loads_of_isVariable hvariable, (hk i hi).2⟩
    | declared _ _ hvariable =>
      refine ⟨Identifier.not_loads_of_isVariable hvariable, fun hundefined => ?_⟩
      rw [Identifier.not_isUndefined_of_isVariable hvariable] at hundefined
      contradiction

theorem Confined.near (h : Confined Named Own s s') {k : Handle} (hk : s.Near Own k) :
    s'.Near Own k := by
  obtain ⟨new, f, hfills⟩ := h.fills
  have hshows : ∀ {k}, s.scopes.Shows k → s'.scopes.Shows k :=
    fun hk => hfills.shows h.innermost h.visible hk
  intro i' hi' hvariable'
  rcases hfills.cases hi' with hadded | ⟨i, hi, hbecomes⟩
  · obtain ⟨name, hname⟩ := hadded.bound hvariable'
    refine .inl ⟨f, ?_, name, hname⟩
    rw [hfills.visibleFrames h.innermost h.visible]
    exact List.mem_cons_self
  · cases hbecomes with
    | same => exact (hk _ hi hvariable').imp_left hshows
    | assigned _ hnear value => exact hnear.imp_left hshows
    | declared _ hname _ =>
      exact .inl (hshows (h.innermost.shows_of_currentFrame h.visible hname))

/-- No name comes to stand for a function that loads modules. -/
theorem Confined.namesPlainly (h : Confined Named Own s s') {name : String}
    (hname : s.NamesPlainly name) : s'.NamesPlainly name := by
  obtain ⟨new, f, hfills⟩ := h.fills
  refine ⟨hname.unqualified, fun {k i'} hk hi' => ?_⟩
  rcases hfills.cases hi' with hadded | ⟨i, hi, hbecomes⟩
  · exact Identifier.not_loads_of_isFunction hadded.notFunction
  · have hfound := hfills.lookup?_of_isLive h.innermost h.visible (Arena.isLive_of_get? hi) hk
    have hold := hname.notLoads hfound hi
    cases hbecomes with
    | same => exact hold
    | assigned hvariable _ value => exact Identifier.not_loads_of_isVariable hvariable
    | declared _ _ hvariable => exact Identifier.not_loads_of_isVariable hvariable

end Confined

end Store

namespace Contract

/-- Programs whose names are of some kind and whose leaves are `Own` ones, at the last frame of
their namespace. -/
def trace (Named : String → Prop) (Own : Handle → Prop) : Contract where
  Inv s := s.Sound ∧ s.scopes.AtInnermost ∧ s.arena.All Identifier.IsNotNative ∧
    ∀ name, Named name → s.NamesPlainly name
  Fits s h := s.Harmless Named h ∧ s.Near Own h
  Lasts s h := Own h ∧ s.Harmless Named h
  Calls s h := ∃ i, s.arena.get? h = some i ∧ i.isFunction = true ∧ ¬ i.LoadsModules
  Evaluates := Store.Confined Named Own
  Blocks s s' := s.Confined Named Own s' ∧ s.TraceFree Own s'
  Runs := Store.Confined Named Own
  Raises _ := True
  Reads _ := False
  Asks _ _ := False

variable {Named : String → Prop} {Own : Handle → Prop}

theorem trace_steady : (trace Named Own).Steady (Store.Confined Named Own) :=
  ⟨fun hs => .refl hs.1 hs.2.1, fun h h' => h.trans h'⟩

/-- What is confined to the current frame keeps the invariant as far as it is not about the
arena. -/
theorem trace_inv {s s' : Store} (hs : (trace Named Own).Inv s) (h : s.Confined Named Own s')
    (hsound : s'.Sound) (hnative : s'.arena.All Identifier.IsNotNative) :
    (trace Named Own).Inv s' :=
  ⟨hsound, h.atInnermost, hnative, fun name hname => h.namesPlainly (hs.2.2.2 name hname)⟩

/-- A name of the program stands for something that may be a value. -/
theorem trace_resolve {s s' : Store} {h k : Handle} {i : Identifier}
    (hs : (trace Named Own).Inv s) (hh : (trace Named Own).Fits s h) (hi : s.arena.get? h = some i)
    (hundefined : i.isUndefined = true) (hr : s.resolve i.surface = .ok (k, s')) :
    (trace Named Own).Inv s' ∧ s.Confined Named Own s' ∧ (trace Named Own).Fits s' k := by
  have ⟨hsound, hin, hnative, hnames⟩ := hs
  have hnamed := (hh.1 i hi).2 hundefined
  have hplain := hnames _ hnamed
  have hresolved : s.Confined Named Own s' ∧ _ := Store.confined_resolve hsound hin
    (Store.qualified?_eq_none hplain.unqualified) hnamed hr
  obtain ⟨hconfined, hfound⟩ := hresolved
  have hnative' := Store.isNotNative_resolve hsound hnative hr
  refine ⟨trace_inv hs hconfined (hsound.resolve hr) hnative', hconfined, ?_⟩
  rcases hfound with ⟨hlookup, rfl⟩ | hnew
  · refine ⟨fun j hj => ⟨hplain.notLoads hlookup hj, fun _ => ?_⟩, fun j hj _ => .inl ?_⟩
    · obtain ⟨index, hb⟩ := Scopes.binds_of_lookup? hlookup
      rwa [(hsound.named hb hj).1]
    · obtain ⟨frame, hmem, hname⟩ := List.exists_of_findSome?_eq_some hlookup
      exact ⟨frame, hmem, _, hname⟩
  · refine ⟨fun j hj => ?_, fun j hj hvariable => ?_⟩
    · rw [hnew] at hj
      obtain rfl := Option.some.inj hj
      exact ⟨Identifier.not_loads_of_isFunction rfl, fun _ => hnamed⟩
    · rw [hnew] at hj
      obtain rfl := Option.some.inj hj
      contradiction

theorem trace_declare {s s' : Store} {k : Handle} {i : Identifier} (hs : (trace Named Own).Inv s)
    (hvariable : i.isVariable = true) (hd : s.declare i = .ok (some (k, s'))) :
    (trace Named Own).Inv s' ∧ s.Confined Named Own s' ∧ (trace Named Own).Fits s' k := by
  have ⟨hsound, hin, hnative, hnames⟩ := hs
  have hdeclared : s.Confined Named Own s' ∧ _ := Store.confined_declare hsound hin hvariable hd
  obtain ⟨hconfined, hk, hshows⟩ := hdeclared
  have hnative' := Store.isNotNative_declare hsound hnative
    (by simp_all [Identifier.isVariable]) hd
  refine ⟨trace_inv hs hconfined (hsound.declare hd) hnative', hconfined, fun j hj => ?_,
    fun j hj _ => .inl hshows⟩
  rw [hk] at hj
  obtain rfl := Option.some.inj hj
  refine ⟨Identifier.not_loads_of_isVariable hvariable, fun hundefined => ?_⟩
  change i.isUndefined = true at hundefined
  rw [Identifier.not_isUndefined_of_isVariable hvariable] at hundefined
  contradiction

theorem trace_leave {s s' : Store} {arrange : List Handle → List Handle}
    (harrange : ∀ hs, (arrange hs).Perm hs) (hs : (trace Named Own).Inv s)
    (h : s.enter.Confined Named Own s') (hs' : (trace Named Own).Inv s') :
    (trace Named Own).Inv (s'.leave arrange).2 ∧
      s.Confined Named Own (s'.leave arrange).2 ∧ s.TraceFree Own (s'.leave arrange).2 := by
  have hfree := Store.traceFree_leave hs.1 hs.2.1 h hs'.1 harrange
  have hsound := hs'.1.leave harrange
  have hconfined : s.Confined Named Own (s'.leave arrange).2 := hfree.confined hs.1 hsound hs.2.1
  exact ⟨trace_inv hs hconfined hsound (Store.all_leave hs'.1 hs'.2.2.1 arrange), hconfined, hfree⟩

/-- The contract is lawful for every host, since programs under it do not call on the host. -/
theorem lawful_trace (host : Host) : (trace Named Own).Lawful host where
  evaluates := trace_steady
  runs := trace_steady
  evaluates_runs := id
  blocks_runs := fun h => h.1
  fits_mono := fun h hk => ⟨h.harmless hk.1, h.near hk.2⟩
  lasts_mono := fun h hk => ⟨hk.1, h.harmless hk.2⟩
  lasts_fits := fun _ hk => ⟨hk.2, fun _ _ _ => .inr hk.1⟩
  missing := fun _ _ _ => trivial
  raises := fun _ => trivial
  calls := fun _ hk hi hfunction =>
    ⟨_, hi, hfunction, fun hloads => (hk.1 _ hi).1 ⟨hfunction, hloads⟩⟩
  resolve := fun hs hh hi hundefined hr => trace_resolve hs hh hi hundefined hr
  push := by
    intro s i hs hi
    have hrole := hi.role
    have ⟨hsound, hin, hnative, _⟩ := hs
    have hconfined : s.Confined Named Own (s.pushTemporary i).2 :=
      Store.confined_pushTemporary hsound hin hi
    have hnative' := hnative.push hsound.tidy hi.isNotNative
    refine ⟨trace_inv hs hconfined (hsound.pushTemporary i) hnative', hconfined, ?_⟩
    refine ⟨fun j hj => ?_, fun j hj hvariable => ?_⟩
    · rw [Arena.eq_of_get?_push hsound.tidy hj]
      refine ⟨Identifier.not_loads_of_isFunction ?_, fun hundefined => ?_⟩
      · simp [Identifier.isFunction, hrole]
      · simp [Identifier.isUndefined, hrole] at hundefined
    · rw [Arena.eq_of_get?_push hsound.tidy hj] at hvariable
      simp [Identifier.isVariable, hrole] at hvariable
  typeName := fun _ _ _ => trivial
  typeOf := fun _ _ _ => trivial
  declare := fun hs _ _ _ _ hd =>
    trace_declare hs (by simp [Identifier.isVariable, Identifier.asVariable]) hd
  declare_error := fun _ _ => trivial
  setValue := by
    intro s h i value hs hh hi hvariable _
    have ⟨hsound, hin, hnative, _⟩ := hs
    have hrole : i.role ≠ .invalid := Arena.role_ne_invalid hi
    have hvalid : Identifier.IsValid { i with value } := hrole
    have hbecomes : Store.Becomes Own s h i { i with value } :=
      .assigned hvariable (hh.2 i hi hvariable) value
    have hconfined : s.Confined Named Own
        { s with arena := s.arena.put h.index { i with value } } :=
      ⟨hin, hsound.visible, _, _, Store.fills_put hsound hin hi hvalid hbecomes⟩
    exact ⟨trace_inv hs hconfined (hsound.put hi rfl rfl)
      (Store.isNotNative_put hsound hnative hi hvariable), hconfined⟩
  enter := by
    intro s hs _
    obtain ⟨hsound, hin, hnative, hnames⟩ := hs
    refine ⟨hsound.enter, hin.enter, hnative, fun name hname => ?_⟩
    refine ⟨(hnames name hname).unqualified, fun {h i} hlookup hi => ?_⟩
    change s.scopes.enter.lookup? name = some h at hlookup
    rw [hin.lookup?_enter] at hlookup
    exact (hnames name hname).notLoads hlookup hi
  lasts_enter := fun _ hk => hk
  leave := by
    intro s s' arrange harrange hs _ h hs'
    obtain ⟨hinv, hblocks⟩ := trace_leave harrange hs h hs'
    exact ⟨hinv, hblocks, fun _ _ => trivial⟩
  readText := fun _ _ _ hreads _ => hreads.elim
  loads := by
    rintro s s' h i hs ⟨j, hj, -, hloads⟩ hi hi'
    rw [hi] at hj
    obtain rfl := Option.some.inj hj
    exact absurd hi' hloads
  callee := fun _ _ _ => trivial
  notCallable := fun _ _ _ _ => trivial
  native := by
    rintro s h i label args hs ⟨j, hj, hfunction, -⟩ hi hlabel _
    exact absurd hlabel (Store.not_native_of_calls hs.2.2.1 ⟨j, hj, hfunction⟩ hi)
  moduleError := fun _ => trivial
  entry := fun _ _ hadmits _ => hadmits.2.elim
  asked := fun _ _ _ _ _ hasks => hasks.elim
  permits := fun _ _ => trivial

end Contract

/-! ## Heads of loops -/

namespace Evaluation

/-- A leaf stands for something that is there already, or for a name that has just been bound. -/
theorem resolveLeaf_value {h k : Handle} {m m' : Machine} (htidy : m.store.arena.Tidy)
    (hr : resolveLeaf h m = .value k m') :
    m' = m ∨ ∃ name scope, m'.store.arena.get? k = some (.name name scope) := by
  rw [resolveLeaf, Action.bind_apply, Machine.identifier] at hr
  cases hi : m.store.arena.get? h with
  | none => simp [hi] at hr
  | some i =>
    simp only [hi] at hr
    split at hr
    · simp only [Machine.resolve, Action.tryStore] at hr
      split at hr
      · next k' s' hs' =>
        cases hr
        rcases Store.resolve_cases hs' with
          ⟨rfl, -⟩ | ⟨space, member, -, -, -, heq⟩ | ⟨-, -, heq⟩
        · exact .inl rfl
        · obtain ⟨rfl, rfl⟩ := Prod.mk.inj heq
          exact .inr ⟨_, _, Arena.get?_push_self htidy (by simp [Identifier.name])⟩
        · obtain ⟨rfl, rfl⟩ := Prod.mk.inj heq
          exact .inr ⟨_, _, Arena.get?_push_self htidy (by simp [Identifier.name])⟩
      · cases hr
    · cases hr
      exact .inl rfl

/-- A control word is bound already. -/
theorem controlWord?_value {e? : Option Expression} {op : Builtin} {m m' : Machine}
    (htidy : m.store.arena.Tidy) (hr : controlWord? e? m = .value (some op) m') : m' = m := by
  unfold controlWord? at hr
  split at hr
  · next h =>
    rw [Action.bind_apply] at hr
    split at hr
    · next k m₁ hk =>
      rw [Action.bind_apply, Machine.identifier] at hr
      cases hi : m₁.store.arena.get? k with
      | none => simp [hi] at hr
      | some i =>
        simp only [hi] at hr
        obtain ⟨hop, rfl⟩ := Outcome.value.inj hr
        rcases resolveLeaf_value htidy hk with rfl | ⟨name, scope, hname⟩
        · rfl
        · rw [hi] at hname
          obtain rfl := Option.some.inj hname
          contradiction
    · cases hr
    · cases hr
  · cases hr

/-- The head of a loop is told without changing anything. -/
theorem classify_loop {head : Expression} {condition : List Expression} {m m' : Machine}
    (htidy : m.store.arena.Tidy) (hr : classify head m = .value (.whileTrue condition) m') :
    m' = m := by
  rw [classify, Action.bind_apply] at hr
  split at hr
  · next op m₁ hword =>
    split at hr
    · cases hr
    · cases hr
      exact controlWord?_value htidy hword
    · rw [Action.bind_apply] at hr
      split at hr
      · split at hr <;> cases hr
      · cases hr
      · cases hr
    · cases hr
  · cases hr
  · cases hr

end Evaluation

/-! ## Blocks, conditions and loops -/

/-- The machine with more identifiers, as they are added by reading texts. -/
def Machine.adding (m : Machine) (is : List Identifier) : Machine :=
  { m with store := { m.store with arena := (m.store.arena.pushAll is).2 } }

/-- No block, condition or loop that names things plainly leaves a trace, however it ends. -/
structure LeavesNoTrace (host : Host) (m : Machine) : Prop where
  block : ∀ (steps : Nat) (body : List Statement),
    (∀ h ∈ Statement.leavesOf body, m.store.Plain h) →
    (perform host steps (.runBlock body) m).EndsIn
      fun m' => m.store.TraceFree (· ∈ Statement.leavesOf body) m'.store
  condition : ∀ (steps : Nat) (condition : List Expression),
    (∀ h ∈ Expression.leavesOf condition, m.store.Plain h) →
    (perform host steps (.decide condition) m).EndsIn
      fun m' => m.store.TraceFree (· ∈ Expression.leavesOf condition) m'.store
  loop : ∀ (steps : Nat) (s : Statement) (ladder : Option Bool) (condition : List Expression)
    (m₁ : Machine), Evaluation.classify s.head m = .value (.whileTrue condition) m₁ →
    (∀ h ∈ s.leaves, m.store.Plain h) →
    (perform host steps (.runStep s ladder) m).EndsIn
      fun m' => m.store.TraceFree (· ∈ s.leaves) m'.store

namespace Contract

/-- The contract for a program with the given leaves. -/
abbrev traceOf (m : Machine) (leaves : List Handle) : Contract :=
  trace m.store.NamesPlainly (· ∈ leaves)

variable {host : Host} {m : Machine} {leaves : List Handle}

theorem traceOf_inv (hs : m.store.Sound) (hin : m.store.scopes.AtInnermost)
    (hnative : m.store.arena.All Identifier.IsNotNative) : (traceOf m leaves).Inv m.store :=
  ⟨hs, hin, hnative, fun _ hname => hname⟩

theorem traceOf_lasts (hplain : ∀ h ∈ leaves, m.store.Plain h) :
    ∀ h ∈ leaves, (traceOf m leaves).Lasts m.store h :=
  fun h hh => ⟨hh, hplain h hh⟩

theorem trace_blocks_steady {Named : String → Prop} {Own : Handle → Prop} :
    (trace Named Own).Steady (trace Named Own).Blocks :=
  ⟨fun hs => ⟨.refl hs.1 hs.2.1, .refl _⟩, fun h h' => ⟨h.1.trans h'.1, h.2.trans h'.2⟩⟩

/-- A loop does what its condition and its body do, again and again. -/
theorem loop_meets (host : Host) (hs : m.store.Sound) (hin : m.store.scopes.AtInnermost)
    (hnative : m.store.arena.All Identifier.IsNotNative) {s : Statement}
    {condition : List Expression}
    (hclassify : Evaluation.classify s.head m = .value (.whileTrue condition) m)
    (hplain : ∀ h ∈ s.leaves, m.store.Plain h) (ladder : Option Bool) (steps : Nat) :
    (traceOf m s.leaves).Meets (traceOf m s.leaves).Blocks (fun _ _ => True) m.store
      (perform host (steps + 1) (.runStep s ladder) m) := by
  have hC : (traceOf m s.leaves).Lawful host := lawful_trace host
  have hinv : (traceOf m s.leaves).Inv m.store := traceOf_inv hs hin hnative
  have hlasts := traceOf_lasts hplain
  have hhead : ∀ h ∈ s.head.leaves, (traceOf m s.leaves).Lasts m.store h := fun h hh =>
    hlasts h (by rw [Statement.leaves_eq]; exact List.mem_append_left _ hh)
  have hbody : ∀ h ∈ Statement.leavesOf s.body, (traceOf m s.leaves).Lasts m.store h := fun h hh =>
    hlasts h (by rw [Statement.leaves_eq]; exact List.mem_append_right _ hh)
  have hfound := (hC.keeps_classify hinv hhead).meets
  rw [hclassify] at hfound
  have hcondition : ∀ h ∈ Expression.leavesOf condition, (traceOf m s.leaves).Lasts m.store h :=
    fun h hh => hhead h (hfound.2.2 h hh)
  have hloop : (traceOf m s.leaves).Keeps (traceOf m s.leaves).Blocks (fun _ _ => True)
      (Action.repeatWhile (perform host steps (.decide condition))
        (perform host steps (.runBlock s.body)) steps) _ m :=
    keeps_repeatWhile trace_blocks_steady hinv
      (fun m' hm' h' => (hC.perform steps (.decide condition) m' hm'
        (hC.lasts_mono_all h'.1 hcondition)).weaken fun _ _ _ => trivial)
      (fun m' hm' h' => (hC.perform steps (.runBlock s.body) m' hm'
        (hC.lasts_mono_all h'.1 hbody)).weaken fun _ _ _ => trivial) steps
  change (traceOf m s.leaves).Meets _ _ _ (Evaluation.runStep (perform host steps) steps s ladder m)
  unfold Evaluation.runStep
  split
  · exact ⟨hinv, trace_blocks_steady.refl hinv, trivial⟩
  · rw [Action.bind_apply, hclassify]
    exact (hloop.bind trace_blocks_steady fun _ m' hm' _ _ =>
      keeps_pure trace_blocks_steady hm' (P := fun _ _ => True) trivial).meets

/-- Where the current frame is the last one, programs leave no trace. -/
theorem leavesNoTrace (host : Host) (hs : m.store.Sound) (hin : m.store.scopes.AtInnermost)
    (hnative : m.store.arena.All Identifier.IsNotNative) : LeavesNoTrace host m where
  block := by
    intro steps body hplain
    have hC : (traceOf m (Statement.leavesOf body)).Lawful host := lawful_trace host
    have hmeets := hC.perform steps (.runBlock body) m (traceOf_inv hs hin hnative)
      (traceOf_lasts hplain)
    exact hmeets.meets.endsIn fun _ _ h => h.2
  condition := by
    intro steps condition hplain
    have hC : (traceOf m (Expression.leavesOf condition)).Lawful host := lawful_trace host
    have hmeets := hC.perform steps (.decide condition) m (traceOf_inv hs hin hnative)
      (traceOf_lasts hplain)
    exact hmeets.meets.endsIn fun _ _ h => h.2
  loop := by
    intro steps s ladder condition m₁ hclassify hplain
    obtain rfl := Evaluation.classify_loop hs.tidy hclassify
    cases steps with
    | zero => trivial
    | succ steps =>
      have hmeets := loop_meets host hs hin hnative hclassify hplain ladder steps
      exact hmeets.endsIn fun _ _ h => h.2

end Contract

/-! ## Elsewhere they do -/

namespace Evaluation

theorem resolveLeaf_of_resolve {m : Machine} {h k : Handle} {i : Identifier} {s : Store}
    (hi : m.store.arena.get? h = some i) (hundefined : i.isUndefined = true)
    (hr : m.store.resolve i.surface = .ok (k, s)) :
    resolveLeaf h m = .value k { m with store := s } := by
  rw [resolveLeaf, Action.bind_apply, Machine.identifier, hi]
  simp only [hundefined, if_true, Machine.resolve, Action.tryStore, hr]

theorem identifier_of_get? {m : Machine} {h : Handle} {i : Identifier}
    (hi : m.store.arena.get? h = some i) : Machine.identifier h m = .value i m := by
  rw [Machine.identifier, hi]

theorem holds_fresh (host : Host) {m : Machine} {h k : Handle} {i j : Identifier} {s : Store}
    (hi : m.store.arena.get? h = some i) (hundefined : i.isUndefined = true)
    (hr : m.store.resolve i.surface = .ok (k, s)) (hk : s.arena.get? k = some j)
    (hj : j.isFunction = false) :
    ∃ m', holds (perform host 1) [.leaf h] m = .value j.isTruthy m' ∧ m'.store = s := by
  let m₁ : Machine := { m with journal := m.journal.map ([.leaf h] :: ·) }
  let m₂ : Machine := { m₁ with store := s }
  have hleaf : resolveLeaf h m₁ = .value k m₂ := resolveLeaf_of_resolve (m := m₁) hi hundefined hr
  have hget : Machine.identifier k m₂ = .value j m₂ := identifier_of_get? (m := m₂) hk
  have hscan : scan (perform host 0) [.leaf h] [] m₁ = .value [.leaf k] m₂ := by
    rw [scan, Action.bind_apply, hleaf]
    simp only [Action.bind_apply, hget]
    rw [if_pos (by simp [hj]), scan]
    rfl
  have hgroup : perform host 1 (.evaluateGroup [.leaf h]) m = .value [k] m₂ := by
    change evaluateGroup (perform host 0) [.leaf h] m = _
    rw [evaluateGroup, Action.bind_apply]
    change (scan (perform host 0) [.leaf h] [] >>= fun waiting =>
      Action.concatMap (collect (perform host 0)) waiting) m₁ = _
    rw [Action.bind_apply, hscan]
    rfl
  refine ⟨m₂, ?_, rfl⟩
  rw [holds, Action.bind_apply, hgroup]
  simp only [Action.bind_apply, hget]
  rfl

/-- Where a condition that consists of a new name leaves the store: the name has been bound, and
then the frame of the condition has been left. -/
theorem decide_fresh (host : Host) {m : Machine} {h : Handle} {name : String} {scope : Nat}
    (hs : m.store.Sound) (hh : m.store.arena.get? h = some (.name name scope))
    (hpoint : '.' ∉ name.toList) (hlookup : m.store.enter.scopes.lookup? name = none)
    {P : Machine → Prop} (hends : (perform host 2 (.decide [.leaf h]) m).EndsIn P) :
    ∃ m' arrange, P m' ∧ m'.store =
      (Store.leave arrange (m.store.enter.define (.name name m.store.enter.depth)).2).2 := by
  have hresolve : m.store.enter.resolve name =
      .ok (m.store.enter.define (.name name m.store.enter.depth)) := by
    simp [Store.resolve, Store.qualified?_eq_none hpoint, hlookup]
  have hnew : (m.store.enter.define (.name name m.store.enter.depth)).2.arena.get?
      (m.store.enter.define (.name name m.store.enter.depth)).1 =
        some (.name name m.store.enter.depth) :=
    Arena.get?_push_self hs.tidy (by simp [Identifier.name])
  generalize m.store.enter.define (.name name m.store.enter.depth) = result at hresolve hnew ⊢
  obtain ⟨m', hholds, hstore⟩ := holds_fresh host
    (m := { m with store := m.store.enter }) hh rfl hresolve hnew rfl
  change (inFrame host (holds (perform host 1) [.leaf h]) m).EndsIn P at hends
  rw [← hstore]
  simp only [inFrame, hholds] at hends
  cases hleave : (m'.store.leave (host.arrange m'.blocksLeft)).1 with
  | ok u =>
    simp only [hleave] at hends
    exact ⟨_, host.arrange m'.blocksLeft, hends, rfl⟩
  | error e =>
    simp only [hleave] at hends
    exact ⟨_, host.arrange m'.blocksLeft, hends, rfl⟩

end Evaluation

/-- Where the current frame is not the last one, a condition that consists of a new name leaves that
name bound. -/
theorem not_leavesNoTrace (host : Host) {m : Machine} (hs : m.store.Sound)
    (hplaced : m.store.scopes.Placed) (hin : ¬ m.store.scopes.AtInnermost) :
    ∃ is, (∀ i ∈ is, Identifier.IsWritten i) ∧ ¬ LeavesNoTrace host (m.adding is) := by
  obtain ⟨name, hpoint, hfresh⟩ :=
    Frame.exists_fresh (m.store.scopes.frames m.store.scopes.place.name)
  have hunseen : m.store.scopes.lookup? name = none ∧ m.store.scopes.enter.lookup? name = none :=
    Scopes.lookup?_of_fresh hfresh
  have hget : (m.adding [.name name 0]).store.arena.get? (m.store.arena.push (.name name 0)).1 =
      some (.name name 0) := Arena.get?_push_self hs.tidy (by simp [Identifier.name])
  refine ⟨[.name name 0], by simpa using .name name, fun htrace => ?_⟩
  have hcondition := htrace.condition 2 [.leaf (m.store.arena.push (.name name 0)).1] ?_
  · obtain ⟨m', arrange, htrace, hstore⟩ :=
      Evaluation.decide_fresh host (hs.pushAll [.name name 0]) hget hpoint hunseen.2 hcondition
    have hscopes := htrace.scopes
    rw [hstore] at hscopes
    have hleave := Store.leave_cases arrange ((m.adding [.name name 0]).store.enter.define
      (.name name (m.adding [.name name 0]).store.enter.depth)).2
    rcases hleave with ⟨hzero, -⟩ | ⟨frame, scopes, hl, heq, -⟩
    · exact absurd hzero (Nat.succ_ne_zero _)
    · rw [heq] at hscopes
      exact Scopes.leave?_bind_enter hplaced hin hfresh hl hscopes
  · intro h hh i hi
    obtain rfl : h = (m.store.arena.push (.name name 0)).1 := by
      simpa [Expression.leavesOf, Expression.leaves] using hh
    rw [hget] at hi
    obtain rfl := Option.some.inj hi
    refine ⟨Identifier.not_loads_of_isFunction rfl, fun _ => ⟨hpoint, fun hlookup => ?_⟩⟩
    change m.store.scopes.lookup? name = some _ at hlookup
    rw [hunseen.1] at hlookup
    contradiction

/-- In every state that is reached while all functions are built-in ones, blocks, conditions and
loops leave no trace, whatever else has been read before, exactly when the current frame is the last
one of the current namespace. -/
theorem leavesNoTrace_iff {host : Host} {m : Machine} (hm : Reached host (fun _ => True) m)
    (hnative : m.store.arena.All Identifier.IsNotNative) :
    m.store.scopes.AtInnermost ↔
      ∀ is, (∀ i ∈ is, Identifier.IsWritten i) → LeavesNoTrace host (m.adding is) := by
  have hs := hm.sound
  constructor
  · intro hin is his
    refine Contract.leavesNoTrace host (hs.pushAll is) hin ?_
    exact Store.all_pushAll hs.tidy hnative fun i hi => (his i hi).isNotNative
  · intro htrace
    refine Classical.byContradiction fun hin => ?_
    obtain ⟨is, his, hnot⟩ := not_leavesNoTrace host hs hm.placed hin
    exact hnot (htrace is his)

theorem Store.atInnermost_initial : initial.scopes.AtInnermost :=
  initial_induction (P := fun s => s.scopes.AtInnermost) rfl fun s i _ _ _ hs => by
    change (s.scopes.modifyFrame s.scopes.place.name s.scopes.place.depth _).AtInnermost
    rw [hs.modifyFrame_eq]
    exact hs.setInnermost _

/-- Programs that are run on a new machine leave no trace. -/
theorem leavesNoTrace_initial :
    (Machine.initial {}).store.scopes.AtInnermost ∧
      ∀ is, (∀ i ∈ is, Identifier.IsWritten i) →
        LeavesNoTrace (Extension.Registry.host []) ((Machine.initial {}).adding is) := by
  have hin : (Machine.initial {}).store.scopes.AtInnermost := by
    rw [Machine.store_initial]
    exact Store.atInnermost_initial
  refine ⟨hin, (leavesNoTrace_iff (.initial {}) ?_).mp hin⟩
  rw [Machine.store_initial]
  exact Store.isNotNative_initial

set_option maxRecDepth 100000 in
/-- A module that is loaded in a block, into the namespace of that block, runs while the current
frame is not the last one, and there is a program that leaves a trace. So does the program of the
module here: the block of the module has been left when `y` is printed. -/
theorem block_of_module_leaves_trace :
    (∃ m is, Reached (Extension.Registry.host [("m", [.run "decas y :: int\ny = 5\n"])])
        (fun _ => True) m ∧
      m.store.arena.All Identifier.IsNotNative ∧ (∀ i ∈ is, Identifier.IsWritten i) ∧
      ¬ LeavesNoTrace (Extension.Registry.host [("m", [.run "decas y :: int\ny = 5\n"])])
        (m.adding is)) ∧
    (match perform (Extension.Registry.host [("m", [.run "decas y :: int\ny = 5\n"])]) 40
        (.runTextTopLevel "\x7b\ninclude m as \"\"\nprint y\n\x7d\n") (.initial {}) with
      | .value _ m => some m.sink.text
      | _ => none) = some "5" := by
  refine ⟨?_, by decide +kernel⟩
  have hblock : Reached (Extension.Registry.host [("m", [.run "decas y :: int\ny = 5\n"])])
      (fun _ => True) { Machine.initial {} with store := (Machine.initial {}).store.enter } :=
    .asked (.initial {}) trivial (.inside (inside_runBlock _ 0 _ .empty []) .here)
  have hfirst : Extension.entryPoint [.run "decas y :: int\ny = 5\n"] [] = .ask _ _ := rfl
  have hopen : (Extension.Registry.host [("m", [.run "decas y :: int\ny = 5\n"])]).openModule "m" =
      .ok (Extension.entryPoint [.run "decas y :: int\ny = 5\n"]) := rfl
  have hmodule := hblock.asked trivial (.inside (inside_loadModule hopen 0 _ "" hfirst) .here)
  have hin : ¬ (Store.initial.enter.scopes.goTo "").AtInnermost := by
    unfold Scopes.AtInnermost
    decide +kernel
  obtain ⟨is, his, hnot⟩ := not_leavesNoTrace _ hmodule.sound hmodule.placed hin
  exact ⟨_, is, hmodule, Store.isNotNative_initial, his, hnot⟩

end WordScript
