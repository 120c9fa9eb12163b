import Mathlib.Data.List.Perm.Subperm
import WordScript.Proofs.Involved
import WordScript.Proofs.LifeCycle
import WordScript.Proofs.Resolving

/-!
# How often groups are evaluated

Groups wait among the operands of functions, and are evaluated by whichever function takes them, or
at the end when none did. However that comes about, each group of an expression is evaluated once:
the journal of an evaluation holds the groups of the expression and no others, as often as they
occur in it. An evaluation that fails may have left some of them out.
-/

namespace WordScript

namespace Expression

mutual

/-- The groups of an expression, by their members. -/
def groups : Expression → List (List Expression)
  | leaf _ => []
  | group es => es :: groupsOf es

/-- The groups of expressions side by side. -/
def groupsOf : List Expression → List (List Expression)
  | [] => []
  | e :: es => e.groups ++ groupsOf es

end

theorem groupsOf_eq (es : List Expression) : groupsOf es = es.flatMap groups := by
  induction es with
  | nil => rfl
  | cons e es ih => rw [groupsOf, ih, List.flatMap_cons]

theorem groupsOf_append (es es' : List Expression) :
    groupsOf (es ++ es') = groupsOf es ++ groupsOf es' := by
  simp only [groupsOf_eq, List.flatMap_append]

@[simp] theorem groupsOf_map_leaf (hs : List Handle) : groupsOf (hs.map leaf) = [] := by
  simp [groupsOf_eq, groups]

theorem perm_groupsOf_reverse (es : List Expression) :
    (groupsOf es.reverse).Perm (groupsOf es) := by
  rw [groupsOf_eq, groupsOf_eq]
  exact (List.reverse_perm es).flatMap_right groups

end Expression

/-- Whether the operation evaluates its operands when it is called. -/
def Builtin.takesOperands : Builtin → Bool
  | .push | .loadModule | .ifWord | .elseWord | .loopWord => false
  | _ => true

/-- Whether whatever is called evaluates its operands. Functions of the host may do anything. -/
def Callable.takesOperands : Callable → Bool
  | .builtin op => op.takesOperands
  | .native _ => false

/-- If the identifier is a function, it is a built-in one that evaluates its operands. Functions of
the host are not, and neither are `push` and `include`; control words are no functions. -/
def Identifier.TakesOperands (i : Identifier) : Prop :=
  i.isFunction = true → ∀ c ∈ i.callable?, c.takesOperands = true

instance : DecidablePred Identifier.TakesOperands := fun i =>
  inferInstanceAs (Decidable (i.isFunction = true → ∀ c ∈ i.callable?, c.takesOperands = true))

/-- The leaves of a group resolve to functions that evaluate their operands, if to functions. -/
def Store.TakesOperands (s : Store) : Expression → Prop
  | .leaf _ => True
  | .group es => ∀ h ∈ Expression.leavesOf es, s.ResolvesTo Identifier.TakesOperands h

namespace Operation

/-- The groups that are still to be evaluated by an operation. -/
def groups : Operation → List (List Expression)
  | .evaluate e => e.groups
  | .evaluateGroup es => es :: Expression.groupsOf es
  | .call args _ => Expression.groupsOf args
  | _ => []

/-- The operation only calls functions that evaluate their operands. -/
def TakesOperands (s : Store) : Operation → Prop
  | .evaluate e => s.TakesOperands e
  | .evaluateGroup es => s.TakesOperands (.group es)
  | .call args _ => (∃ callee rest i, args = .leaf callee :: rest ∧
      s.arena.get? callee = some i ∧ i.isFunction = true ∧ i.TakesOperands) ∧
      ∀ e ∈ args, s.TakesOperands e
  | _ => False

end Operation

/-- These groups have been entered into the journal, the latest first, if one is kept. -/
def Machine.Enters (noted : List (List Expression)) (m m' : Machine) : Prop :=
  m'.journal = m.journal.map (noted ++ ·)

theorem Machine.enters_nil {m m' : Machine} (h : m'.journal = m.journal) : m.Enters [] m' := by
  rw [Enters, h]
  exact Option.map_id'.symm

theorem Machine.Enters.trans {noted noted' : List (List Expression)} {m m' m'' : Machine}
    (h : m.Enters noted m') (h' : m'.Enters noted' m'') : m.Enters (noted' ++ noted) m'' := by
  rw [Enters, h', h, Option.map_map]
  congr 1
  funext js
  exact (List.append_assoc noted' noted js).symm

namespace Evaluation

open WordScript.Action WordScript.Machine

/-- How an action ends that has to evaluate some groups: they are in the journal now, except for
those that the value leaves to be evaluated. When it fails, none of them is there too often. -/
def Tallies {α : Type} (groups : List (List Expression)) (left : α → List (List Expression))
    (P : Store → α → Prop) (m : Machine) : Outcome α → Prop
  | .value a m' => m.store.MakesNoFunction m'.store ∧ P m'.store a ∧
      ∃ noted, m.Enters noted m' ∧ (noted ++ left a).Perm groups
  | .failure _ m' => ∃ noted, m.Enters noted m' ∧ noted.Subperm groups
  | .cutOff => True

/-- The operation does not evaluate its groups as it should. -/
def Miscounts (self : Performer) (op : Operation) (m : Machine) : Prop :=
  m.store.Ready ∧ op.TakesOperands m.store ∧
    ¬ Tallies op.groups (fun _ => []) (fun _ _ => True) m (self op m)

/-- The action evaluates its groups as it should, unless an operation does not that it involves. -/
def Counts {α : Type} (self : Performer) (groups : List (List Expression))
    (left : α → List (List Expression)) (P : Store → α → Prop) (x : Performer → Action α)
    (m : Machine) : Prop :=
  m.store.Ready → Tallies groups left P m (x self m) ∨ Involves (Miscounts self) self x m

section Rules

variable {α β : Type} {self : Performer} {m : Machine} {groups groups' : List (List Expression)}
  {left : α → List (List Expression)} {left' : β → List (List Expression)}
  {P P' : Store → α → Prop} {Q : Store → β → Prop} {x : Performer → Action α}
  {f : α → Performer → Action β}

/-- The groups may be counted in another order. -/
theorem Counts.perm (h : Counts self groups left P x m) (hperm : groups.Perm groups') :
    Counts self groups' left P x m := by
  intro hs
  refine (h hs).imp (fun hx => ?_) id
  cases hxm : x self m with
  | value a m' =>
    rw [hxm] at hx
    obtain ⟨hmakes, ha, noted, hjournal, hnoted⟩ := hx
    exact ⟨hmakes, ha, noted, hjournal, hnoted.trans hperm⟩
  | failure e m' =>
    rw [hxm] at hx
    obtain ⟨noted, hjournal, hnoted⟩ := hx
    exact ⟨noted, hjournal, List.Subperm.trans hnoted hperm.subperm⟩
  | cutOff => trivial

/-- Other groups are left for later. -/
theorem Counts.leave (h : Counts self groups (fun _ => []) P x m) (rest : List (List Expression)) :
    Counts self (groups ++ rest) (fun _ => rest) P x m := by
  intro hs
  refine (h hs).imp (fun hx => ?_) id
  cases hxm : x self m with
  | value a m' =>
    rw [hxm] at hx
    obtain ⟨hmakes, ha, noted, hjournal, hnoted⟩ := hx
    rw [List.append_nil] at hnoted
    exact ⟨hmakes, ha, noted, hjournal, hnoted.append_right rest⟩
  | failure e m' =>
    rw [hxm] at hx
    obtain ⟨noted, hjournal, hnoted⟩ := hx
    have hmore : groups.Subperm (groups ++ rest) := (List.sublist_append_left groups rest).subperm
    exact ⟨noted, hjournal, List.Subperm.trans hnoted hmore⟩
  | cutOff => trivial

theorem Counts.bind (hseq : Sequential x) (hx : Counts self groups left P x m)
    (hf : ∀ a m₁, m.store.MakesNoFunction m₁.store → P m₁.store a →
      Counts self (left a) left' Q (f a) m₁) :
    Counts self groups left' Q (fun self => x self >>= fun a => f a self) m := by
  intro hs
  rcases hx hs with hx | hx
  · cases hxm : x self m with
    | value a m₁ =>
      rw [hxm] at hx
      obtain ⟨hmakes, ha, noted, hjournal, hnoted⟩ := hx
      rcases hf a m₁ hmakes ha hmakes.ready with hrest | hrest
      · refine .inl ?_
        simp only [Action.bind_apply, hxm]
        cases hfm : f a self m₁ with
        | value b m₂ =>
          rw [hfm] at hrest
          obtain ⟨hmakes', hb, noted', hjournal', hnoted'⟩ := hrest
          have hmoved : (noted' ++ noted ++ left' b).Perm (noted ++ (noted' ++ left' b)) := by
            rw [List.append_assoc]
            exact List.perm_append_comm_assoc noted' noted (left' b)
          exact ⟨hmakes.trans hmakes', hb, noted' ++ noted, hjournal.trans hjournal',
            (hmoved.trans (hnoted'.append_left noted)).trans hnoted⟩
        | failure e m₂ =>
          rw [hfm] at hrest
          obtain ⟨noted', hjournal', hnoted'⟩ := hrest
          have hmoved : (noted' ++ noted).Perm (noted ++ noted') := List.perm_append_comm
          have hmore : (noted ++ noted').Subperm (noted ++ left a) :=
            (List.subperm_append_left noted).mpr hnoted'
          exact ⟨noted' ++ noted, hjournal.trans hjournal',
            List.Subperm.trans (List.Subperm.trans hmoved.subperm hmore) hnoted.subperm⟩
        | cutOff => trivial
      · exact .inr (hrest.bind_value hseq hxm)
    | failure e m₁ =>
      rw [hxm] at hx
      refine .inl ?_
      simp only [Action.bind_apply, hxm]
      exact hx
    | cutOff =>
      refine .inl ?_
      simp only [Action.bind_apply, hxm]
      trivial
  · exact .inr hx.bind

/-- The action evaluates nothing. -/
abbrev CountsNone (self : Performer) (P : Store → α → Prop) (x : Performer → Action α)
    (m : Machine) : Prop :=
  Counts self [] (fun _ => []) P x m

/-- What comes first evaluates nothing. -/
theorem Counts.bind_none (hseq : Sequential x) (hx : CountsNone self P x m)
    (hf : ∀ a m₁, m.store.MakesNoFunction m₁.store → P m₁.store a →
      Counts self groups left' Q (f a) m₁) :
    Counts self groups left' Q (fun self => x self >>= fun a => f a self) m :=
  (hx.leave groups).bind hseq hf

theorem counts_of_ready (h : m.store.Ready → Counts self groups left P x m) :
    Counts self groups left P x m :=
  fun hs => h hs hs

theorem countsNone_const {y : Action α}
    (h : m.store.Ready → Tallies [] (fun _ => []) P m (y m)) :
    CountsNone self P (fun _ => y) m :=
  fun hs => .inl (h hs)

theorem counts_pure {a : α} (ha : P m.store a) : Counts self (left a) left P (fun _ => pure a) m :=
  fun hs => .inl ⟨.refl hs, ha, [], enters_nil rfl, .refl _⟩

theorem countsNone_pure {a : α} (ha : P m.store a) : CountsNone self P (fun _ => pure a) m :=
  fun hs => .inl ⟨.refl hs, ha, [], enters_nil rfl, .refl _⟩

theorem counts_fail {e : RuntimeError} : Counts self groups left P (fun _ => Action.fail e) m :=
  fun _ => .inl ⟨[], enters_nil rfl, List.nil_subperm⟩

theorem counts_ofExcept {result : Except RuntimeError α} :
    CountsNone self (fun _ _ => True) (fun _ => ofExcept result) m := by
  cases result with
  | ok a => exact countsNone_pure trivial
  | error e => exact counts_fail

theorem counts_bind_identifier {h : Handle} {g : Identifier → Performer → Action β}
    (hg : ∀ i, m.store.arena.get? h = some i → Counts self groups left' Q (g i) m) :
    Counts self groups left' Q (fun self => identifier h >>= fun i => g i self) m := by
  intro hs
  cases hi : m.store.arena.get? h with
  | none =>
    refine .inl ?_
    simp only [Action.bind_apply, identifier, hi]
    exact ⟨[], enters_nil rfl, List.nil_subperm⟩
  | some i => exact or_involves_of_get? hi (hg i hi hs)

theorem counts_ask (op : Operation) (hop : op.TakesOperands m.store) :
    Counts self op.groups (fun _ => []) (fun _ _ => True) (fun self => self op) m := by
  intro hs
  by_cases h : Tallies op.groups (fun _ => []) (fun _ _ => True) m (self op m)
  · exact .inl h
  · exact .inr (involves_ask ⟨hs, hop, h⟩)

theorem counts_concatMap {f : Performer → α → Action (List β)}
    {groupsOf : α → List (List Expression)} (hseq : ∀ a, Sequential fun self => f self a)
    (as : List α)
    (hf : ∀ a ∈ as, ∀ m₁, m.store.MakesNoFunction m₁.store →
      Counts self (groupsOf a) (fun _ => []) (fun _ _ => True) (fun self => f self a) m₁) :
    Counts self (as.flatMap groupsOf) (fun _ => []) (fun _ _ => True)
      (fun self => concatMap (f self) as) m := by
  induction as generalizing m with
  | nil => exact countsNone_pure trivial
  | cons a as ih =>
    apply counts_of_ready
    intro hs
    rw [List.flatMap_cons]
    apply ((hf a (List.mem_cons_self ..) m (.refl hs)).leave _).bind (hseq a)
    intro bs m₁ h₁ _
    have hrest := ih fun a' ha' m₂ h₂ => hf a' (List.mem_cons_of_mem a ha') m₂ (h₁.trans h₂)
    exact hrest.bind (sequential_concatMap hseq as) fun rest m₂ _ _ => countsNone_pure trivial

theorem counts_forEach {f : Performer → α → Action Unit}
    {groupsOf : α → List (List Expression)} (hseq : ∀ a, Sequential fun self => f self a)
    (as : List α)
    (hf : ∀ a ∈ as, ∀ m₁, m.store.MakesNoFunction m₁.store →
      Counts self (groupsOf a) (fun _ => []) (fun _ _ => True) (fun self => f self a) m₁) :
    Counts self (as.flatMap groupsOf) (fun _ => []) (fun _ _ => True)
      (fun self => forEach (f self) as) m := by
  induction as generalizing m with
  | nil => exact countsNone_pure trivial
  | cons a as ih =>
    apply counts_of_ready
    intro hs
    rw [List.flatMap_cons]
    apply ((hf a (List.mem_cons_self ..) m (.refl hs)).leave _).bind (hseq a)
    intro bs m₁ h₁ _
    exact ih fun a' ha' m₂ h₂ => hf a' (List.mem_cons_of_mem a ha') m₂ (h₁.trans h₂)

/-- What is done with each value evaluates nothing. -/
theorem countsNone_concatMap {f : α → Action (List β)} (as : List α)
    (hf : ∀ a ∈ as, ∀ m₁, m.store.MakesNoFunction m₁.store →
      CountsNone self (fun _ _ => True) (fun _ => f a) m₁) :
    CountsNone self (fun _ _ => True) (fun _ => concatMap f as) m := by
  have hcounts := counts_concatMap (fun a => sequential_const (f a)) as hf
  rwa [List.flatMap_eq_nil_iff.mpr fun _ _ => rfl] at hcounts

theorem countsNone_forEach {f : α → Action Unit} (as : List α)
    (hf : ∀ a ∈ as, ∀ m₁, m.store.MakesNoFunction m₁.store →
      CountsNone self (fun _ _ => True) (fun _ => f a) m₁) :
    CountsNone self (fun _ _ => True) (fun _ => forEach f as) m := by
  have hcounts := counts_forEach (fun a => sequential_const (f a)) as hf
  rwa [List.flatMap_eq_nil_iff.mpr fun _ _ => rfl] at hcounts

end Rules

/-! ## What evaluates nothing -/

section None

variable {self : Performer} {m : Machine}

theorem countsNone_write (text : String) :
    CountsNone self (fun _ _ => True) (fun _ => write text) m := by
  apply countsNone_const
  intro hs
  unfold write
  cases m.sink.write text with
  | ok sink => exact ⟨.refl hs, trivial, [], enters_nil rfl, .refl _⟩
  | error e => exact ⟨[], enters_nil rfl, List.nil_subperm⟩

theorem countsNone_flush : CountsNone self (fun _ _ => True) (fun _ => flush) m := by
  apply countsNone_const
  intro hs
  unfold flush
  cases m.sink.flush with
  | ok _ => exact ⟨.refl hs, trivial, [], enters_nil rfl, .refl _⟩
  | error e => exact ⟨[], enters_nil rfl, List.nil_subperm⟩

theorem countsNone_tryStore {α : Type} {P : Store → α → Prop}
    {f : Store → Except RuntimeError (α × Store)}
    (hok : m.store.Ready → ∀ a s, f m.store = .ok (a, s) → m.store.MakesNoFunction s ∧ P s a) :
    CountsNone self P (fun _ => tryStore f) m := by
  apply countsNone_const
  intro hs
  unfold tryStore
  cases hf : f m.store with
  | ok result =>
    obtain ⟨hmakes, ha⟩ := hok hs _ _ hf
    exact ⟨hmakes, ha, [], enters_nil rfl, .refl _⟩
  | error e => exact ⟨[], enters_nil rfl, List.nil_subperm⟩

theorem countsNone_pushTemporary (i : Identifier) :
    CountsNone self (fun _ _ => True) (fun _ => pushTemporary i) m :=
  countsNone_const fun hs =>
    ⟨Store.makesNoFunction_pushTemporary hs i, trivial, [], enters_nil rfl, .refl _⟩

/-- A leaf is resolved for what it stands for from then on. -/
theorem countsNone_resolveLeaf (h : Handle) :
    CountsNone self (fun s k => s.StandsFor h k) (fun _ => resolveLeaf h) m := by
  apply countsNone_const
  intro hs
  cases hr : resolveLeaf h m with
  | value k m' =>
    obtain ⟨hstands, rfl | ⟨i, s, rfl, -, -, -, hresolve⟩⟩ := resolveLeaf_cases hs hr
    · exact ⟨.refl hs, hstands, [], enters_nil rfl, .refl _⟩
    · exact ⟨Store.makesNoFunction_resolve hs hresolve, hstands, [], enters_nil rfl, .refl _⟩
  | failure e m' =>
    obtain rfl := resolveLeaf_failure hr
    exact ⟨[], enters_nil rfl, List.nil_subperm⟩
  | cutOff => trivial

/-- The handle refers to a variable. -/
def IsVariableHandle (s : Store) (h : Handle) : Prop :=
  ∃ i, s.arena.get? h = some i ∧ i.isVariable = true

theorem IsVariableHandle.mono {s s' : Store} {h : Handle} (hs : s.Ready)
    (hmakes : s.MakesNoFunction s') (hh : IsVariableHandle s h) : IsVariableHandle s' h := by
  obtain ⟨i, hi, hvariable⟩ := hh
  rcases hmakes.kept (Arena.handedOut_of_get? hs.sound.tidy hi) with heq | hvariable'
  · exact ⟨i, heq.trans hi, hvariable⟩
  · exact hvariable'

theorem countsNone_requireVariable {target : Identifier} :
    CountsNone self (fun _ _ => target.isVariable = true) (fun _ => requireVariable target) m := by
  unfold requireVariable
  split
  · next hvariable => exact countsNone_pure hvariable
  · exact counts_fail

theorem countsNone_setValue {h : Handle} {value : Value} (hh : IsVariableHandle m.store h) :
    CountsNone self (fun _ _ => True) (fun _ => setValue h value) m := by
  apply countsNone_tryStore
  intro hs _ s hok
  obtain ⟨i, hi, hvariable⟩ := hh
  have hset : m.store.arena.setValue? h value =
      some (m.store.arena.put h.index { i with value }) := by
    rw [Arena.setValue?, hi]
  rw [hset] at hok
  obtain ⟨-, rfl⟩ := Prod.mk.inj (Except.ok.inj hok)
  exact ⟨Store.makesNoFunction_put hs hi hvariable (hs.sound.put hi rfl rfl), trivial⟩

theorem countsNone_declare {i : Identifier} (hi : i.isVariable = true) :
    CountsNone self (fun _ _ => True) (fun _ => declare i) m := by
  refine countsNone_tryStore fun hs h s hok => ⟨?_, trivial⟩
  split at hok
  · next hd =>
    obtain rfl := Except.ok.inj hok
    exact Store.makesNoFunction_declare hs hi hd
  · cases hok
  · cases hok

theorem countsNone_declareAs (type : String) (h : Handle) :
    CountsNone self (fun _ _ => True) (fun _ => declareAs type h) m := by
  apply counts_bind_identifier
  intro i _
  split
  · exact countsNone_declare rfl
  · exact counts_fail

/-- Declaring the names one after the other. -/
theorem countsNone_declareEach (type : String) (hs : List Handle) :
    CountsNone self (fun _ _ => True)
      (fun _ => concatMap (fun h => do return [← declareAs type h]) hs) m := by
  refine countsNone_concatMap hs fun h _ m₁ _ => ?_
  exact (countsNone_declareAs type h).bind_none (sequential_const _)
    fun _ _ _ _ => countsNone_pure trivial

theorem countsNone_typeOfFirst? (depth : Nat) (hs : List Handle) :
    CountsNone self (fun _ _ => True) (fun _ => typeOfFirst? depth hs) m := by
  induction hs with
  | nil => exact countsNone_pure trivial
  | cons h hs ih =>
    apply counts_bind_identifier
    intro i _
    split
    · exact countsNone_pure trivial
    · exact ih

end None

/-! ## Groups -/

section Groups

open Expression

variable {self : Performer} {m : Machine}

theorem takesOperands_of_not_isFunction (i : Identifier) (hi : i.isFunction = false) :
    i.TakesOperands := by
  intro hfunction
  rw [hi] at hfunction
  cases hfunction

/-- What a group resolves to goes on to be a function that evaluates its operands, if any. -/
theorem takesOperands_mono {s s' : Store} (hs : s.Ready) (hmakes : s.MakesNoFunction s')
    {e : Expression} (he : s.TakesOperands e) : s'.TakesOperands e := by
  cases e with
  | leaf h => trivial
  | group es =>
    exact fun h hh => (he h hh).mono takesOperands_of_not_isFunction hs hmakes

theorem takesOperands_of_leaves {s : Store} {e : Expression}
    (he : ∀ h ∈ e.leaves, s.ResolvesTo Identifier.TakesOperands h) : s.TakesOperands e := by
  cases e with
  | leaf h => trivial
  | group es => exact he

theorem counts_evaluateEach (es : List Expression)
    (hes : ∀ e ∈ es, m.store.TakesOperands e) :
    Counts self (groupsOf es) (fun _ => []) (fun _ _ => True) (fun self => evaluateEach self es)
      m := by
  rw [groupsOf_eq]
  refine counts_of_ready fun hs => counts_concatMap (fun _ => sequential_ask _) es ?_
  intro e he m₁ hmakes
  exact counts_ask (.evaluate e) (takesOperands_mono hs hmakes (hes e he))

theorem counts_collect {e : Expression} (he : m.store.TakesOperands e) :
    Counts self e.groups (fun _ => []) (fun _ _ => True) (fun self => collect self e) m := by
  cases e with
  | leaf h => exact countsNone_pure trivial
  | group es => exact counts_ask (.evaluate (.group es)) he

/-- The leaves of the members resolve to functions that evaluate their operands, if to functions. -/
abbrev MembersTakeOperands (s : Store) (es : List Expression) : Prop :=
  ∀ h ∈ leavesOf es, s.ResolvesTo Identifier.TakesOperands h

/-- Going through the members, the groups of those that are left over are still to be evaluated. -/
abbrev CountsScan (self : Performer) (before waiting : List Expression) (m : Machine) : Prop :=
  Counts self (groupsOf before ++ groupsOf waiting) groupsOf
    (fun s result => ∀ e ∈ result, s.TakesOperands e) (fun self => scan self before waiting) m

/-- A call takes its operands, and what it gives has no groups. -/
theorem counts_call_scan {callee : Handle} {i : Identifier} {operands rest : List Expression}
    (isInfix : Bool) (hi : m.store.arena.get? callee = some i) (hfunction : i.isFunction = true)
    (htakes : i.TakesOperands) (hoperands : ∀ e ∈ operands, m.store.TakesOperands e)
    (hrest : ∀ (results : List Handle) m₁, m.store.MakesNoFunction m₁.store →
      (∀ e ∈ results.map Expression.leaf, m₁.store.TakesOperands e) →
      CountsScan self rest (results.map .leaf) m₁) :
    Counts self (groupsOf operands ++ groupsOf rest) groupsOf
      (fun s result => ∀ e ∈ result, s.TakesOperands e)
      (fun self => self (.call (.leaf callee :: operands) isInfix) >>= fun results =>
        scan self rest (results.map .leaf)) m := by
  have hop : (Operation.call (.leaf callee :: operands) isInfix).TakesOperands m.store :=
    ⟨⟨callee, operands, i, rfl, hi, hfunction, htakes⟩,
      List.forall_mem_cons.mpr ⟨trivial, hoperands⟩⟩
  refine ((counts_ask _ hop).leave (groupsOf rest)).bind (sequential_ask _)
    fun results m₁ hmakes _ => ?_
  have hleaves : ∀ e ∈ results.map Expression.leaf, m₁.store.TakesOperands e := by
    intro e he
    obtain ⟨h, -, rfl⟩ := List.mem_map.mp he
    trivial
  have hscan := hrest results m₁ hmakes hleaves
  rwa [CountsScan, groupsOf_map_leaf, List.append_nil] at hscan

/-- A leaf waits, or is called with what waits. -/
theorem counts_scan_leaf {h : Handle} {before waiting : List Expression}
    (hrec : ∀ rest waiting' m', rest.length ≤ before.length →
      MembersTakeOperands m'.store rest → (∀ e ∈ waiting', m'.store.TakesOperands e) →
      CountsScan self rest waiting' m')
    (hbefore : MembersTakeOperands m.store (.leaf h :: before))
    (hwaiting : ∀ e ∈ waiting, m.store.TakesOperands e) :
    CountsScan self (.leaf h :: before) waiting m := by
  rw [MembersTakeOperands, leavesOf] at hbefore
  rw [CountsScan]
  simp only [scan]
  apply counts_of_ready
  intro hs
  have hleaf := hbefore h (List.mem_append_left _ (List.mem_singleton_self h))
  refine (countsNone_resolveLeaf h).bind_none (sequential_const _)
    fun callee m₁ hmakes hcallee => ?_
  apply counts_bind_identifier
  intro i hi
  have hrest : MembersTakeOperands m₁.store before := fun k hk =>
    (hbefore k (List.mem_append_right _ hk)).mono takesOperands_of_not_isFunction hs hmakes
  have hwaiting₁ : ∀ e ∈ waiting, m₁.store.TakesOperands e :=
    fun e he => takesOperands_mono hs hmakes (hwaiting e he)
  have htakes : i.TakesOperands := (hleaf.mono takesOperands_of_not_isFunction hs
    hmakes).of_standsFor hmakes.ready hcallee hi
  -- what comes after the call goes through fewer members
  have hafter : ∀ rest : List Expression, rest.length ≤ before.length →
      MembersTakeOperands m₁.store rest → ∀ (results : List Handle) m₂,
      m₁.store.MakesNoFunction m₂.store →
      (∀ e ∈ results.map Expression.leaf, m₂.store.TakesOperands e) →
      CountsScan self rest (results.map .leaf) m₂ := by
    intro rest hlength hmembers results m₂ hmakes₂ hresults
    refine hrec rest _ m₂ hlength (fun k hk => ?_) hresults
    exact (hmembers k hk).mono takesOperands_of_not_isFunction hmakes.ready hmakes₂
  by_cases hfunction : i.isFunction = true
  · simp only [hfunction, Bool.not_true, Bool.false_eq_true, if_false]
    split
    · next right left rest _ =>
      rw [MembersTakeOperands, leavesOf] at hrest
      have hleft : m₁.store.TakesOperands left :=
        takesOperands_of_leaves fun k hk => hrest k (List.mem_append_left _ hk)
      have hright : m₁.store.TakesOperands right := hwaiting₁ right (List.mem_singleton_self _)
      have hoperands : ∀ e ∈ [left, right], m₁.store.TakesOperands e :=
        List.forall_mem_cons.mpr ⟨hleft, List.forall_mem_singleton.mpr hright⟩
      refine (counts_call_scan true hi hfunction htakes hoperands (hafter rest ?_ ?_)).perm ?_
      · simp
      · exact fun k hk => hrest k (List.mem_append_right _ hk)
      · simp only [groupsOf, groups, List.nil_append, List.append_nil, List.append_assoc]
        exact List.perm_append_comm.append_left _
    · next waiting before _ _ _ _ =>
      refine (counts_call_scan false hi hfunction htakes hwaiting₁
        (hafter before (Nat.le_refl _) hrest)).perm ?_
      rw [groupsOf, groups, List.nil_append]
      exact List.perm_append_comm
  · simp only [hfunction, Bool.not_false, if_true]
    exact hrec before (.leaf callee :: waiting) m₁ (Nat.le_refl _) hrest
      (List.forall_mem_cons.mpr ⟨trivial, hwaiting₁⟩)

theorem counts_scan {before waiting : List Expression}
    (hbefore : MembersTakeOperands m.store before)
    (hwaiting : ∀ e ∈ waiting, m.store.TakesOperands e) : CountsScan self before waiting m := by
  induction hn : before.length using Nat.strongRecOn generalizing before waiting m with
  | ind n ih =>
  have hrec : ∀ (rest waiting' : List Expression) (m' : Machine), rest.length < n →
      MembersTakeOperands m'.store rest → (∀ e ∈ waiting', m'.store.TakesOperands e) →
      CountsScan self rest waiting' m' :=
    fun rest waiting' m' hlt hrest hwaiting' => ih rest.length hlt hrest hwaiting' rfl
  cases before with
  | nil =>
    rw [CountsScan]
    simp only [scan]
    exact counts_pure hwaiting
  | cons e before =>
    rw [List.length_cons] at hn
    cases e with
    | group es =>
      rw [MembersTakeOperands, leavesOf] at hbefore
      have hes : m.store.TakesOperands (.group es) :=
        fun h hh => hbefore h (List.mem_append_left _ hh)
      have hrest : CountsScan self before (.group es :: waiting) m :=
        hrec before _ m (by omega) (fun h hh => hbefore h (List.mem_append_right _ hh))
          (List.forall_mem_cons.mpr ⟨hes, hwaiting⟩)
      rw [CountsScan]
      simp only [scan]
      refine hrest.perm ?_
      rw [groupsOf, groupsOf, List.append_assoc]
      exact List.perm_append_comm_assoc _ _ _
    | leaf h =>
      refine counts_scan_leaf (fun rest waiting' m' hlength => ?_) hbefore hwaiting
      exact hrec rest waiting' m' (by omega)

/-- Evaluating a group enters it into the journal, and then evaluates the groups in it. -/
theorem counts_evaluateGroup {es : List Expression}
    (hes : ∀ h ∈ leavesOf es, m.store.ResolvesTo Identifier.TakesOperands h) :
    Counts self (es :: groupsOf es) (fun _ => []) (fun _ _ => True)
      (fun self => evaluateGroup self es) m := by
  apply counts_of_ready
  intro hs
  have hnote : Counts self [es] (fun _ => []) (fun _ _ => True) (fun _ => note es) m :=
    fun hs => .inl ⟨.refl hs, trivial, [es], rfl, .refl _⟩
  apply (hnote.leave (groupsOf es)).bind (sequential_const _)
  intro _ m₁ hmakes _
  have hreverse : ∀ h ∈ leavesOf es.reverse,
      m₁.store.ResolvesTo Identifier.TakesOperands h := by
    intro h hh
    obtain ⟨e, he, hmem⟩ := mem_leavesOf.mp hh
    have hleaf := hes h (mem_leavesOf.mpr ⟨e, List.mem_reverse.mp he, hmem⟩)
    exact hleaf.mono takesOperands_of_not_isFunction hs hmakes
  have hperm : (groupsOf es.reverse ++ groupsOf []).Perm (groupsOf es) := by
    rw [groupsOf, List.append_nil]
    exact perm_groupsOf_reverse es
  refine ((counts_scan hreverse (List.forall_mem_nil _)).perm hperm).bind (sequential_scan _ _)
    fun waiting m₂ hmakes₂ hwaiting => ?_
  rw [groupsOf_eq]
  refine counts_concatMap sequential_collect waiting fun e he m₃ hmakes₃ => ?_
  exact counts_collect (takesOperands_mono hmakes₂.ready hmakes₃ (hwaiting e he))

theorem counts_evaluate {e : Expression} (he : m.store.TakesOperands e) :
    Counts self e.groups (fun _ => []) (fun _ _ => True) (fun self => evaluate self e) m := by
  cases e with
  | leaf h =>
    exact (countsNone_resolveLeaf h).bind_none (sequential_const _)
      fun _ _ _ _ => countsNone_pure trivial
  | group es => exact counts_ask (.evaluateGroup es) he

end Groups

/-! ## Built-in functions -/

section Builtins

open Expression

variable {self : Performer} {m : Machine} {operands : List Expression}

theorem counts_pairs (h : ∀ e ∈ operands, m.store.TakesOperands e) :
    Counts self (groupsOf operands) (fun _ => []) (fun _ _ => True)
      (fun self => pairs self operands) m := by
  apply counts_of_ready
  intro hs
  have hsplit : groupsOf operands = groupsOf (operands.take 1) ++ groupsOf (operands.drop 1) := by
    rw [← groupsOf_append, List.take_append_drop]
  rw [hsplit]
  have hleft : ∀ e ∈ operands.take 1, m.store.TakesOperands e :=
    fun e he => h e (List.mem_of_mem_take he)
  refine ((counts_evaluateEach _ hleft).leave _).bind (sequential_evaluateEach _)
    fun left m₁ hmakes _ => ?_
  have hright : ∀ e ∈ operands.drop 1, m₁.store.TakesOperands e :=
    fun e he => takesOperands_mono hs hmakes (h e (List.mem_of_mem_drop he))
  apply (counts_evaluateEach _ hright).bind (sequential_evaluateEach _)
  intro right m₂ _ _
  split
  · exact countsNone_pure trivial
  · exact counts_fail

/-- What is done with the pairs evaluates nothing. -/
theorem counts_pairs_bind {α : Type} {f : Handle × Handle → Action (List α)}
    (h : ∀ e ∈ operands, m.store.TakesOperands e)
    (hf : ∀ pair m₁, CountsNone self (fun _ _ => True) (fun _ => f pair) m₁) :
    Counts self (groupsOf operands) (fun _ => []) (fun _ _ => True)
      (fun self => pairs self operands >>= concatMap f) m :=
  (counts_pairs h).bind (sequential_pairs operands) fun ps _ _ _ =>
    countsNone_concatMap ps fun pair _ m₁ _ => hf pair m₁

theorem counts_pairwise (h : ∀ e ∈ operands, m.store.TakesOperands e)
    (result : Identifier → Identifier → Except RuntimeError Identifier) :
    Counts self (groupsOf operands) (fun _ => []) (fun _ _ => True)
      (fun self => pairwise self operands result) m := by
  refine counts_pairs_bind h fun pair m₁ => ?_
  refine counts_bind_identifier fun left _ => counts_bind_identifier fun right _ => ?_
  refine counts_ofExcept.bind_none (sequential_const _) fun i m₂ _ _ => ?_
  exact (countsNone_pushTemporary i).bind_none (sequential_const _)
    fun _ _ _ _ => countsNone_pure trivial

theorem counts_assign (h : ∀ e ∈ operands, m.store.TakesOperands e) :
    Counts self (groupsOf operands) (fun _ => []) (fun _ _ => True)
      (fun self => assign self operands) m := by
  refine counts_pairs_bind h fun pair m₁ => ?_
  refine counts_of_ready fun hs => counts_bind_identifier fun target htarget => ?_
  refine countsNone_requireVariable.bind_none (sequential_const _) fun _ m₂ hmakes hvariable => ?_
  split
  · exact countsNone_pure trivial
  · apply counts_bind_identifier
    intro right _
    refine counts_ofExcept.bind_none (sequential_const _) fun value m₃ hmakes₃ _ => ?_
    have hvar : IsVariableHandle m₃.store pair.1 :=
      IsVariableHandle.mono hs (hmakes.trans hmakes₃) ⟨target, htarget, hvariable⟩
    exact (countsNone_setValue hvar).bind_none (sequential_const _)
      fun _ _ _ _ => countsNone_pure trivial

theorem counts_update (h : ∀ e ∈ operands, m.store.TakesOperands e) (op : Arithmetic) :
    Counts self (groupsOf operands) (fun _ => []) (fun _ _ => True)
      (fun self => update self op operands) m := by
  refine counts_pairs_bind h fun pair m₁ => ?_
  refine counts_of_ready fun hs => counts_bind_identifier fun target htarget => ?_
  refine countsNone_requireVariable.bind_none (sequential_const _) fun _ m₂ hmakes hvariable => ?_
  apply counts_bind_identifier
  intro right _
  refine counts_ofExcept.bind_none (sequential_const _) fun result m₃ hmakes₃ _ => ?_
  refine counts_ofExcept.bind_none (sequential_const _) fun value m₄ hmakes₄ _ => ?_
  have hvar : IsVariableHandle m₄.store pair.1 :=
    IsVariableHandle.mono hs ((hmakes.trans hmakes₃).trans hmakes₄) ⟨target, htarget, hvariable⟩
  exact (countsNone_setValue hvar).bind_none (sequential_const _)
    fun _ _ _ _ => countsNone_pure trivial

theorem counts_negate (h : ∀ e ∈ operands, m.store.TakesOperands e) :
    Counts self (groupsOf operands) (fun _ => []) (fun _ _ => True)
      (fun self => negate self operands) m := by
  refine (counts_evaluateEach operands h).bind (sequential_evaluateEach _)
    fun handles m₁ _ _ => countsNone_concatMap handles fun k _ m₂ _ => ?_
  apply counts_bind_identifier
  intro i _
  exact (countsNone_pushTemporary _).bind_none (sequential_const _)
    fun _ _ _ _ => countsNone_pure trivial

/-- What is written for each value evaluates nothing. -/
theorem countsNone_writeEach (text : Handle → Identifier → String) (handles : List Handle) :
    CountsNone self (fun _ _ => True)
      (fun _ => forEach (fun h => do write (text h (← identifier h))) handles) m :=
  countsNone_forEach handles fun h _ _ _ =>
    counts_bind_identifier fun i _ => countsNone_write (text h i)

theorem counts_print (h : ∀ e ∈ operands, m.store.TakesOperands e) :
    Counts self (groupsOf operands) (fun _ => []) (fun _ _ => True)
      (fun self => print self operands) m := by
  rw [groupsOf_eq]
  refine counts_of_ready fun hs => counts_forEach
    (fun _ => (sequential_ask _).bind fun _ => sequential_const _) operands ?_
  intro e he m₁ hmakes
  refine (counts_ask (.evaluate e) (takesOperands_mono hs hmakes (h e he))).bind
    (sequential_ask _) fun handles m₂ _ _ => ?_
  exact countsNone_writeEach (fun _ i => i.toText) handles

theorem counts_dump (h : ∀ e ∈ operands, m.store.TakesOperands e) :
    Counts self (groupsOf operands) (fun _ => []) (fun _ _ => True)
      (fun self => dump self operands) m := by
  rw [groupsOf_eq]
  refine counts_of_ready fun hs => counts_forEach
    (fun _ => (sequential_ask _).bind fun _ => sequential_const _) operands ?_
  intro e he m₁ hmakes
  refine (counts_ask (.evaluate e) (takesOperands_mono hs hmakes (h e he))).bind
    (sequential_ask _) fun handles m₂ _ _ => ?_
  exact (countsNone_writeEach dumped handles).bind_none (sequential_const _)
    fun _ _ _ _ => countsNone_write "\n"

/-- A declaration between its operands evaluates the last one first. -/
theorem counts_declareBetween (h : ∀ e ∈ operands, m.store.TakesOperands e) :
    Counts self (groupsOf operands) (fun _ => []) (fun _ _ => True)
      (fun self => declareBetween self operands) m := by
  unfold declareBetween
  cases hlast : operands.getLast? with
  | none =>
    obtain rfl := List.getLast?_eq_none_iff.mp hlast
    exact countsNone_pure trivial
  | some last =>
    obtain ⟨before, rfl⟩ := List.getLast?_eq_some_iff.mp hlast
    have hperm : (last.groups ++ groupsOf before).Perm (groupsOf (before ++ [last])) := by
      rw [groupsOf_append, groupsOf, groupsOf, List.append_nil]
      exact List.perm_append_comm
    refine counts_of_ready fun hs => Counts.perm ?_ hperm
    have hlast : m.store.TakesOperands last := h last (by simp)
    refine ((counts_ask (.evaluate last) hlast).leave (groupsOf before)).bind (sequential_ask _)
      fun values m₁ hmakes _ => ?_
    split
    · apply counts_bind_identifier
      intro type _
      split
      · rw [List.dropLast_concat]
        have hbefore : ∀ e ∈ before, m₁.store.TakesOperands e := fun e he =>
          takesOperands_mono hs hmakes (h e (List.mem_append_left _ he))
        exact (counts_evaluateEach before hbefore).bind (sequential_evaluateEach _)
          fun targets _ _ _ => countsNone_declareEach _ targets
      · exact counts_fail
    · exact counts_fail

theorem counts_declareInFront (h : ∀ e ∈ operands, m.store.TakesOperands e) :
    Counts self (groupsOf operands) (fun _ => []) (fun _ _ => True)
      (fun self => declareInFront self operands) m := by
  refine (counts_evaluateEach operands h).bind (sequential_evaluateEach _)
    fun handles m₁ _ _ => ?_
  have hplace : CountsNone self (fun _ _ => True) (fun _ => place) m₁ :=
    countsNone_const fun hs => ⟨.refl hs, trivial, [], enters_nil rfl, .refl _⟩
  refine hplace.bind_none (sequential_const _) fun here m₂ _ _ => ?_
  refine (countsNone_typeOfFirst? here.depth handles.reverse).bind_none (sequential_const _)
    fun type? m₃ _ _ => countsNone_concatMap handles fun k _ m₄ _ => ?_
  apply counts_bind_identifier
  intro i _
  split
  · exact countsNone_pure trivial
  · split
    · exact (countsNone_declareAs _ k).bind_none (sequential_const _)
        fun _ _ _ _ => countsNone_pure trivial
    · exact counts_fail

theorem counts_callBuiltin {callee : Expression} {isInfix : Bool} {op : Builtin}
    (hop : op.takesOperands = true) (h : ∀ e ∈ operands, m.store.TakesOperands e) :
    Counts self (groupsOf operands) (fun _ => []) (fun _ _ => True)
      (fun self => callBuiltin self (callee :: operands) isInfix op) m := by
  cases op with
  | declare =>
    cases isInfix with
    | true => exact counts_declareBetween h
    | false => exact counts_declareInFront h
  | assign => exact counts_assign h
  | arithmetic op => exact counts_pairwise h _
  | update op => exact counts_update h op
  | compare op => exact counts_pairwise h _
  | connect op => exact counts_pairwise h _
  | negate => exact counts_negate h
  | index =>
    exact (counts_pairs h).bind (sequential_pairs _) fun _ _ _ _ => countsNone_pure trivial
  | print =>
    apply (counts_print h).bind (sequential_print _)
    intro _ _ _ _
    exact countsNone_flush.bind_none (sequential_const _) fun _ _ _ _ => countsNone_pure trivial
  | printLine =>
    apply (counts_print h).bind (sequential_print _)
    intro _ _ _ _
    apply (countsNone_write "\n").bind_none (sequential_const _)
    intro _ _ _ _
    exact countsNone_flush.bind_none (sequential_const _) fun _ _ _ _ => countsNone_pure trivial
  | dump =>
    apply (counts_dump h).bind (sequential_dump _)
    intro _ _ _ _
    exact countsNone_flush.bind_none (sequential_const _) fun _ _ _ _ => countsNone_pure trivial
  | _ => cases hop

theorem counts_call (host : Host) {args : List Expression} {isInfix : Bool}
    (h : (Operation.call args isInfix).TakesOperands m.store) :
    Counts self (groupsOf args) (fun _ => []) (fun _ _ => True)
      (fun self => call host self args isInfix) m := by
  obtain ⟨⟨callee, operands, i, rfl, hi, hfunction, htakes⟩, hargs⟩ := h
  apply counts_bind_identifier
  intro j hj
  obtain rfl := Option.some.inj (hj.symm.trans hi)
  cases hcallable : j.callable? with
  | none => exact counts_fail
  | some c =>
    have hc : c.takesOperands = true := htakes hfunction c hcallable
    cases c with
    | builtin op => exact counts_callBuiltin hc fun e he => hargs e (List.mem_cons_of_mem _ he)
    | native label => cases hc

end Builtins

/-! ## Operations -/

variable {m : Machine}

/-- By induction on the steps, the groups of an operation are evaluated as often as they occur. -/
theorem tallies_perform (host : Host) (steps : Nat) (op : Operation) (hs : m.store.Ready)
    (hop : op.TakesOperands m.store) :
    Tallies op.groups (fun _ => []) (fun _ _ => True) m (perform host steps op m) := by
  induction steps generalizing op m with
  | zero => trivial
  | succ steps ih =>
    have hnone : ¬ Involves (Miscounts (perform host steps)) (perform host steps)
        (fun self => Evaluation.step host self steps op) m := by
      rintro ⟨op', m', ⟨hs', hop', hfails⟩, -⟩
      exact hfails (ih op' hs' hop')
    cases op with
    | evaluate e => exact (counts_evaluate hop hs).resolve_right hnone
    | evaluateGroup es => exact (counts_evaluateGroup hop hs).resolve_right hnone
    | call args isInfix => exact (counts_call host hop hs).resolve_right hnone
    | _ => exact hop.elim

end Evaluation

/-- On a machine in any state that is reached, whatever the host does, an expression whose leaves
resolve to functions that evaluate their operands, if to functions at all, has each of its groups
evaluated once: the journal that is kept meanwhile comes to hold the groups of the expression, as
often as they occur in it. When the evaluation fails, none of them is in the journal too often. -/
theorem groups_evaluated_once {host : Host} {m : Machine} (hm : Reached host (fun _ => True) m)
    {e : Expression}
    (hleaves : ∀ h ∈ e.leaves, m.store.ResolvesTo Identifier.TakesOperands h) (steps : Nat) :
    (∀ handles m', perform host steps (.evaluate e) { m with journal := some [] } =
        .value handles m' → ∃ noted, m'.journal = some noted ∧ noted.Perm e.groups) ∧
      ∀ error m', perform host steps (.evaluate e) { m with journal := some [] } =
        .failure error m' → ∃ noted, m'.journal = some noted ∧ noted.Subperm e.groups := by
  have htallies := Evaluation.tallies_perform (m := { m with journal := some [] }) host steps
    (.evaluate e) hm.ready (Evaluation.takesOperands_of_leaves hleaves)
  constructor
  · intro handles m' hend
    rw [hend] at htallies
    obtain ⟨-, -, noted, hjournal, hnoted⟩ := htallies
    rw [List.append_nil] at hnoted
    rw [Machine.Enters, Option.map_some, List.append_nil] at hjournal
    exact ⟨noted, hjournal, hnoted⟩
  · intro error m' hend
    rw [hend] at htallies
    obtain ⟨noted, hjournal, hnoted⟩ := htallies
    rw [Machine.Enters, Option.map_some, List.append_nil] at hjournal
    exact ⟨noted, hjournal, hnoted⟩

/-- The groups of a line are evaluated by its function, by the operation in one of them, or by the
group around them. -/
theorem groups_evaluated_once_print :
    ∃ st e m₁ handles m₂, perform (Extension.Registry.host []) 1
        (.readText "print (1 + 2) ((3))\n") (.initial {}) = .value (.ok st) m₁ ∧
      st.body = [.line e] ∧ e.groups.length = 4 ∧
      perform (Extension.Registry.host []) 12 (.evaluate e) { m₁ with journal := some [] } =
        .value handles m₂ ∧
      ∃ noted, m₂.journal = some noted ∧ noted.Perm e.groups := by
  have hrun : (((Machine.initial {}).readLine? "print (1 + 2) ((3))\n").any fun line =>
      decide (line.1.groups.length = 4) &&
        (perform (Extension.Registry.host []) 12 (.evaluate line.1)
          { line.2 with journal := some [] }).test (fun _ _ => true)) = true := by decide +kernel
  obtain ⟨⟨e, m₁⟩, hline, hrun⟩ := (Option.any_eq_true _ _).mp hrun
  obtain ⟨hgroups, hends⟩ := Bool.and_eq_true_iff.mp hrun
  obtain ⟨handles, m₂, hend, -⟩ := Outcome.exists_of_test hends
  have hsound : (Machine.initial {}).store.Sound := by
    rw [Machine.store_initial]
    exact Store.sound_initial
  obtain ⟨⟨head, hread⟩, hleaves⟩ := Machine.of_readLine? Evaluation.takesOperands_of_not_isFunction
    hsound (by decide +kernel) hline (Extension.Registry.host [])
  have hreached : Reached (Extension.Registry.host []) (fun _ => True) m₁ :=
    .value (.initial {}) trivial .here hread
  exact ⟨_, e, m₁, handles, m₂, hread, rfl, of_decide_eq_true hgroups, hend,
    (groups_evaluated_once hreached hleaves 12).1 handles m₂ hend⟩

end WordScript
