import WordScript.Proofs.Involved
import WordScript.Proofs.LifeCycle
import WordScript.Proofs.Resolving

/-!
# Expressions of values

An expression in which no function is called comes to what its leaves stand for, one value for each
leaf and in their order, however its groups are nested. The leaves of a group are resolved from
right to left and the groups in it only afterwards, so names are bound in another order than the
values are given in; but whatever a name is bound to, it is bound once, and all of its leaves stand
for that.
-/

namespace WordScript

namespace Store

/-- The leaf resolves to nothing that is a function. -/
abbrev Inert (s : Store) (h : Handle) : Prop :=
  s.ResolvesTo (fun i => i.isFunction = false) h

/-- The store has become another one by resolving some names in turn, each of which was not bound
when its turn came. -/
inductive Introduces : List String → Store → Store → Prop where
  | nil (s : Store) : Introduces [] s s
  | cons {s s' s'' : Store} {name : String} {names : List String} {h : Handle}
      (hfree : s.scopes.bound? name = none) (hr : s.resolve name = .ok (h, s'))
      (hrest : Introduces names s' s'') : Introduces (name :: names) s s''

section Introduces

variable {s s' s'' : Store} {names names' : List String}

theorem Introduces.widens (hs : s.Ready) (h : Introduces names s s') : s.Widens s' := by
  induction h with
  | nil => exact .refl hs
  | cons _ hr _ ih =>
    have hw := widens_resolve hs hr
    exact hw.trans (ih hw.ready)

theorem Introduces.append (h : Introduces names s s') (h' : Introduces names' s' s'') :
    Introduces (names ++ names') s s'' := by
  induction h with
  | nil => exact h'
  | cons hfree hr _ ih => exact .cons hfree hr (ih h')

/-- Names that are introduced are bound by it, and were not bound before. -/
theorem Introduces.bound? (hs : s.Ready) (h : Introduces names s s') {name : String}
    (hname : name ∈ names) :
    s.scopes.bound? name = none ∧ ∃ k, s'.scopes.bound? name = some k := by
  induction h with
  | nil => cases hname
  | @cons s _ _ first _ k hfree hr hrest ih =>
    have hw := widens_resolve hs hr
    rcases List.mem_cons.mp hname with rfl | hmem
    · have hbound := bound?_of_resolve hs.placed hr
      exact ⟨hfree, k, (hrest.widens hw.ready).bound hbound⟩
    · obtain ⟨hnone, hsome⟩ := ih hw.ready hmem
      refine ⟨?_, hsome⟩
      cases hk : s.scopes.bound? name with
      | none => rfl
      | some k' =>
        rw [hw.bound hk] at hnone
        cases hnone

/-- No name is introduced twice. -/
theorem Introduces.nodup (hs : s.Ready) (h : Introduces names s s') : names.Nodup := by
  induction h with
  | nil => exact List.nodup_nil
  | cons _ hr hrest ih =>
    have hw := widens_resolve hs hr
    refine List.nodup_cons.mpr ⟨fun hmem => ?_, ih hw.ready⟩
    have hbound := bound?_of_resolve hs.placed hr
    rw [(hrest.bound? hw.ready hmem).1] at hbound
    cases hbound

/-- A leaf that resolves to no function goes on to do so. -/
theorem Introduces.inert (hs : s.Ready) (h : Introduces names s s') {k : Handle}
    (hk : s.Inert k) : s'.Inert k := by
  induction h with
  | nil => exact hk
  | cons _ hr _ ih =>
    exact ih (widens_resolve hs hr).ready
      (hk.mono (fun _ => id) hs (makesNoFunction_resolve hs hr))

end Introduces

/-- A leaf is a name that is not declared. -/
def Names (s : Store) (h : Handle) (name : String) : Prop :=
  ∃ i, s.arena.get? h = some i ∧ i.isUndefined = true ∧ i.surface = name

/-- All that has happened is that names of these leaves were introduced. -/
def BindsNamesOf (leaves : List Handle) (s s' : Store) : Prop :=
  ∃ names, Introduces names s s' ∧ ∀ name ∈ names, ∃ h ∈ leaves, s'.Names h name

section BindsNamesOf

variable {s s' s'' : Store} {leaves leaves' : List Handle}

theorem BindsNamesOf.refl (s : Store) (leaves : List Handle) : s.BindsNamesOf leaves s :=
  ⟨[], .nil s, nofun⟩

theorem BindsNamesOf.widens (hs : s.Ready) (h : s.BindsNamesOf leaves s') : s.Widens s' := by
  obtain ⟨names, hnames, -⟩ := h
  exact hnames.widens hs

theorem BindsNamesOf.mono (hsub : leaves ⊆ leaves') (h : s.BindsNamesOf leaves s') :
    s.BindsNamesOf leaves' s' := by
  obtain ⟨names, hnames, hof⟩ := h
  refine ⟨names, hnames, fun name hname => ?_⟩
  obtain ⟨k, hk, hnamed⟩ := hof name hname
  exact ⟨k, hsub hk, hnamed⟩

theorem BindsNamesOf.trans (hs : s.Ready) (h : s.BindsNamesOf leaves s')
    (h' : s'.BindsNamesOf leaves s'') : s.BindsNamesOf leaves s'' := by
  have hw' := h'.widens (h.widens hs).ready
  obtain ⟨names, hnames, hof⟩ := h
  obtain ⟨names', hnames', hof'⟩ := h'
  refine ⟨names ++ names', hnames.append hnames', fun name hname => ?_⟩
  rcases List.mem_append.mp hname with hname | hname
  · obtain ⟨k, hk, i, hi, hundefined, hsurface⟩ := hof name hname
    exact ⟨k, hk, i, hw'.kept hi, hundefined, hsurface⟩
  · exact hof' name hname

theorem BindsNamesOf.inert (hs : s.Ready) (h : s.BindsNamesOf leaves s') {k : Handle}
    (hk : s.Inert k) : s'.Inert k := by
  obtain ⟨names, hnames, -⟩ := h
  exact hnames.inert hs hk

end BindsNamesOf

end Store

namespace Evaluation

open WordScript.Action WordScript.Machine

/-- How an action ends that only resolves leaves: the output is as before, names of the leaves may
have been bound, and a value meets a condition. -/
def OnlyResolves {α : Type} (leaves : List Handle) (P : Store → α → Prop) (m : Machine) :
    Outcome α → Prop
  | .value a m' => m.store.BindsNamesOf leaves m'.store ∧ m'.sink = m.sink ∧
      m'.blocksLeft = m.blocksLeft ∧ P m'.store a
  | _ => True

/-- The operation, which evaluates something, gives what the leaves stand for then. -/
def GivesValues (m : Machine) : (op : Operation) → Outcome op.Answer → Prop
  | .evaluate e, o => OnlyResolves e.leaves
      (fun s handles => List.Forall₂ s.StandsFor e.leaves handles) m o
  | .evaluateGroup es, o => OnlyResolves (Expression.leavesOf es)
      (fun s handles => List.Forall₂ s.StandsFor (Expression.leavesOf es) handles) m o
  | _, _ => True

/-- None of the leaves of the operation resolves to a function, if it evaluates something. -/
def HasInertLeaves (s : Store) : Operation → Prop
  | .evaluate e => ∀ h ∈ e.leaves, s.Inert h
  | .evaluateGroup es => ∀ h ∈ Expression.leavesOf es, s.Inert h
  | _ => True

/-- The operation fails to give what its leaves stand for, none of which resolves to a function. -/
def GoesAstray (self : Performer) (op : Operation) (m : Machine) : Prop :=
  m.store.Ready ∧ HasInertLeaves m.store op ∧ ¬ GivesValues m op (self op m)

/-- When no leaf resolves to a function, the action only resolves leaves, unless an operation goes
astray that it involves. -/
def Resolves {α : Type} (self : Performer) (leaves : List Handle) (P : Store → α → Prop)
    (x : Performer → Action α) (m : Machine) : Prop :=
  m.store.Ready → (∀ h ∈ leaves, m.store.Inert h) →
    OnlyResolves leaves P m (x self m) ∨ Involves (GoesAstray self) self x m

section Rules

variable {α β : Type} {self : Performer} {leaves leaves' : List Handle} {m : Machine}
  {P P' : Store → α → Prop} {Q : Store → β → Prop} {x : Performer → Action α}
  {f : α → Performer → Action β}

theorem Resolves.imp (h : Resolves self leaves P x m)
    (hP : ∀ s a, m.store.Ready → m.store.Widens s → P s a → P' s a) :
    Resolves self leaves P' x m := by
  intro hs hleaves
  refine (h hs hleaves).imp (fun hx => ?_) id
  cases hxm : x self m with
  | value a m' =>
    rw [hxm] at hx
    obtain ⟨hbinds, hsink, hblocks, ha⟩ := hx
    exact ⟨hbinds, hsink, hblocks, hP _ _ hs (hbinds.widens hs) ha⟩
  | failure e m' => trivial
  | cutOff => trivial

/-- What is shown of some of the leaves holds among more of them. -/
theorem Resolves.among (h : Resolves self leaves P x m) (hsub : leaves ⊆ leaves') :
    Resolves self leaves' P x m := by
  intro hs hleaves
  refine (h hs fun k hk => hleaves k (hsub hk)).imp (fun hx => ?_) id
  cases hxm : x self m with
  | value a m' =>
    rw [hxm] at hx
    obtain ⟨hbinds, hrest⟩ := hx
    exact ⟨hbinds.mono hsub, hrest⟩
  | failure e m' => trivial
  | cutOff => trivial

/-- The leaves can be relied on to resolve to no function. -/
theorem resolves_of_inert
    (h : m.store.Ready → (∀ k ∈ leaves, m.store.Inert k) → Resolves self leaves P x m) :
    Resolves self leaves P x m :=
  fun hs hleaves => h hs hleaves hs hleaves

theorem resolves_const {y : Action α} (h : m.store.Ready → OnlyResolves leaves P m (y m)) :
    Resolves self leaves P (fun _ => y) m :=
  fun hs _ => .inl (h hs)

theorem resolves_pure {a : α} (ha : P m.store a) :
    Resolves self leaves P (fun _ => pure a) m :=
  resolves_const fun _ => ⟨.refl _ _, rfl, rfl, ha⟩

theorem resolves_evaluate (e : Expression) :
    Resolves self e.leaves (fun s handles => List.Forall₂ s.StandsFor e.leaves handles)
      (fun self => self (.evaluate e)) m := by
  intro hs hleaves
  by_cases h : GivesValues m (.evaluate e) (self (.evaluate e) m)
  · exact .inl h
  · exact .inr (involves_ask ⟨hs, hleaves, h⟩)

theorem resolves_evaluateGroup (es : List Expression) :
    Resolves self (Expression.leavesOf es)
      (fun s handles => List.Forall₂ s.StandsFor (Expression.leavesOf es) handles)
      (fun self => self (.evaluateGroup es)) m := by
  intro hs hleaves
  by_cases h : GivesValues m (.evaluateGroup es) (self (.evaluateGroup es) m)
  · exact .inl h
  · exact .inr (involves_ask ⟨hs, hleaves, h⟩)

theorem Resolves.bind (hseq : Sequential x) (hx : Resolves self leaves P x m)
    (hf : ∀ a m₁, m.store.Widens m₁.store → P m₁.store a → Resolves self leaves Q (f a) m₁) :
    Resolves self leaves Q (fun self => x self >>= fun a => f a self) m := by
  intro hs hleaves
  rcases hx hs hleaves with hx | hx
  · cases hxm : x self m with
    | value a m₁ =>
      rw [hxm] at hx
      obtain ⟨hbinds, hsink, hblocks, ha⟩ := hx
      have hw := hbinds.widens hs
      have hleaves₁ : ∀ h ∈ leaves, m₁.store.Inert h :=
        fun h hh => hbinds.inert hs (hleaves h hh)
      rcases hf a m₁ hw ha hw.ready hleaves₁ with hrest | hrest
      · refine .inl ?_
        simp only [Action.bind_apply, hxm]
        cases hfm : f a self m₁ with
        | value b m₂ =>
          rw [hfm] at hrest
          obtain ⟨hbinds', hsink', hblocks', hb⟩ := hrest
          exact ⟨hbinds.trans hs hbinds', hsink'.trans hsink, hblocks'.trans hblocks, hb⟩
        | failure e m₂ => trivial
        | cutOff => trivial
      · exact .inr (hrest.bind_value hseq hxm)
    | failure e m₁ =>
      refine .inl ?_
      simp only [Action.bind_apply, hxm]
      trivial
    | cutOff =>
      refine .inl ?_
      simp only [Action.bind_apply, hxm]
      trivial
  · exact .inr hx.bind

/-- Nothing is asked for when an identifier is read. -/
theorem resolves_bind_identifier {h : Handle} {g : Identifier → Performer → Action β}
    (hg : ∀ i, m.store.arena.get? h = some i → Resolves self leaves Q (g i) m) :
    Resolves self leaves Q (fun self => identifier h >>= fun i => g i self) m := by
  intro hs hleaves
  cases hi : m.store.arena.get? h with
  | none =>
    refine .inl ?_
    simp only [Action.bind_apply, identifier, hi]
    trivial
  | some i => exact or_involves_of_get? hi (hg i hi hs hleaves)

end Rules

/-! ## Groups -/

variable {self : Performer} {m : Machine}

/-- A leaf is resolved for what it stands for from then on. -/
theorem resolves_resolveLeaf (h : Handle) :
    Resolves self [h] (fun s k => s.StandsFor h k) (fun _ => resolveLeaf h) m := by
  apply resolves_const
  intro hs
  cases hr : resolveLeaf h m with
  | value k m' =>
    obtain ⟨hstands, rfl | ⟨i, s, rfl, hi, hundefined, hfree, hresolve⟩⟩ :=
      resolveLeaf_cases hs hr
    · exact ⟨.refl _ _, rfl, rfl, hstands⟩
    · refine ⟨⟨[i.surface], .cons hfree hresolve (.nil s), ?_⟩, rfl, rfl, hstands⟩
      intro name hname
      obtain rfl := List.mem_singleton.mp hname
      have hkept := (Store.widens_resolve hs hresolve).kept hi
      exact ⟨h, List.mem_singleton_self h, i, hkept, hundefined, rfl⟩
  | failure e m' => trivial
  | cutOff => trivial

/-- What waits in the place of a member of a group: a leaf has been resolved, and a group is still
to be evaluated. -/
inductive WaitsFor (s : Store) : Expression → Expression → Prop where
  | leaf {h k : Handle} (hk : s.StandsFor h k) : WaitsFor s (.leaf h) (.leaf k)
  | group (es : List Expression) : WaitsFor s (.group es) (.group es)

theorem WaitsFor.widen {s s' : Store} (hs : s.Ready) (hw : s.Widens s') {e waiting : Expression}
    (h : WaitsFor s e waiting) : WaitsFor s' e waiting := by
  cases h with
  | leaf hk => exact .leaf (hk.widen hs hw)
  | group es => exact .group es

/-- Going through the members from right to left, each of them waits where it stands. -/
theorem resolves_scan (before waiting : List Expression) :
    Resolves self (Expression.leavesOf before)
      (fun s result => ∃ new, result = new ++ waiting ∧
        List.Forall₂ (WaitsFor s) before.reverse new)
      (fun self => scan self before waiting) m := by
  induction before generalizing waiting m with
  | nil =>
    simp only [scan]
    exact resolves_pure ⟨[], rfl, .nil⟩
  | cons e before ih =>
    cases e with
    | group es =>
      simp only [scan]
      rw [Expression.leavesOf]
      refine ((ih (.group es :: waiting)).among (List.subset_append_right _ _)).imp ?_
      rintro s _ - - ⟨new, rfl, hnew⟩
      refine ⟨new ++ [.group es], by simp, ?_⟩
      rw [List.reverse_cons]
      exact List.rel_append hnew (.cons (.group es) .nil)
    | leaf h =>
      simp only [scan]
      rw [Expression.leavesOf, Expression.leaves, List.singleton_append]
      have hleaf : [h] ⊆ h :: Expression.leavesOf before := by simp
      refine ((resolves_resolveLeaf h).among hleaf).bind (sequential_const _)
        fun callee m₁ _ hcallee => resolves_of_inert fun hs₁ hleaves => ?_
      apply resolves_bind_identifier
      intro i hi
      have hvalue := (hleaves h (List.mem_cons_self ..)).of_standsFor hs₁ hcallee hi
      simp only [hvalue, Bool.not_false, if_true]
      refine ((ih (.leaf callee :: waiting)).among (List.subset_cons_self _ _)).imp ?_
      rintro s _ hs₁ hw ⟨new, rfl, hnew⟩
      refine ⟨new ++ [.leaf callee], by simp, ?_⟩
      rw [List.reverse_cons]
      exact List.rel_append hnew (.cons (.leaf (hcallee.widen hs₁ hw)) .nil)

/-- A leaf that waits gives what it stands for, and a group what its leaves stand for. -/
theorem resolves_collect {e waiting : Expression} (h : WaitsFor m.store e waiting) :
    Resolves self e.leaves (fun s handles => List.Forall₂ s.StandsFor e.leaves handles)
      (fun self => collect self waiting) m := by
  cases h with
  | leaf hk => exact resolves_pure (.cons hk .nil)
  | group es => exact resolves_evaluate (.group es)

/-- What is left over is collected from left to right. -/
theorem resolves_collectAll {s : Store} (hs : s.Ready) {es waiting : List Expression}
    (h : List.Forall₂ (WaitsFor s) es waiting) (hw : s.Widens m.store) :
    Resolves self (Expression.leavesOf es)
      (fun s handles => List.Forall₂ s.StandsFor (Expression.leavesOf es) handles)
      (fun self => concatMap (collect self) waiting) m := by
  induction h generalizing m with
  | nil => exact resolves_pure .nil
  | @cons e first es waiting hfirst hrest ih =>
    rw [Expression.leavesOf]
    have hleft : e.leaves ⊆ e.leaves ++ Expression.leavesOf es := List.subset_append_left _ _
    have hright := List.subset_append_right e.leaves (Expression.leavesOf es)
    refine ((resolves_collect (hfirst.widen hs hw)).among hleft).bind
      (sequential_collect first) fun handles m₁ hw₁ hhandles => ?_
    refine ((ih (hw.trans hw₁)).among hright).bind
      (sequential_concatMap sequential_collect waiting) fun rest m₂ hw₂ hrest => ?_
    refine resolves_pure (List.rel_append (hhandles.imp fun _ _ hk => ?_) hrest)
    exact hk.widen hw₁.ready hw₂

theorem resolves_evaluateGroup_step (es : List Expression) :
    Resolves self (Expression.leavesOf es)
      (fun s handles => List.Forall₂ s.StandsFor (Expression.leavesOf es) handles)
      (fun self => evaluateGroup self es) m := by
  have hreverse : Expression.leavesOf es.reverse ⊆ Expression.leavesOf es := by
    intro h hh
    obtain ⟨e, he, hmem⟩ := Expression.mem_leavesOf.mp hh
    exact Expression.mem_leavesOf.mpr ⟨e, List.mem_reverse.mp he, hmem⟩
  have hnote : Resolves self (Expression.leavesOf es) (fun _ _ => True) (fun _ => note es) m :=
    resolves_const fun _ => ⟨.refl _ _, rfl, rfl, trivial⟩
  refine hnote.bind (sequential_const _) fun _ m₁ hw₁ _ => ?_
  refine ((resolves_scan es.reverse []).among hreverse).bind
    (sequential_scan es.reverse []) fun waiting m₂ hw₂ hwaiting => ?_
  obtain ⟨new, rfl, hnew⟩ := hwaiting
  rw [List.reverse_reverse] at hnew
  rw [List.append_nil]
  exact resolves_collectAll hw₂.ready hnew (.refl hw₂.ready)

theorem resolves_evaluate_step (e : Expression) :
    Resolves self e.leaves (fun s handles => List.Forall₂ s.StandsFor e.leaves handles)
      (fun self => evaluate self e) m := by
  cases e with
  | leaf h =>
    apply (resolves_resolveLeaf h).bind (sequential_const _)
    intro k m₁ _ hk
    exact resolves_pure (.cons hk .nil)
  | group es => exact resolves_evaluateGroup es

/-- By induction on the steps, evaluating gives what the leaves stand for. -/
theorem givesValues_perform (host : Host) (steps : Nat) {op : Operation} (hs : m.store.Ready)
    (hleaves : HasInertLeaves m.store op) : GivesValues m op (perform host steps op m) := by
  induction steps generalizing op m with
  | zero => cases op <;> trivial
  | succ steps ih =>
    have hnone : ¬ Involves (GoesAstray (perform host steps)) (perform host steps)
        (fun self => Evaluation.step host self steps op) m := by
      rintro ⟨op', m', ⟨hs', hleaves', hfails⟩, -⟩
      exact hfails (ih hs' hleaves')
    cases op with
    | evaluate e => exact (resolves_evaluate_step e hs hleaves).resolve_right hnone
    | evaluateGroup es => exact (resolves_evaluateGroup_step es hs hleaves).resolve_right hnone
    | _ => trivial

end Evaluation

/-- On a machine in any state that is reached, whatever the host does, an expression none of whose
leaves resolves to a function gives one value for each of its leaves, in their order: what the leaf
stands for in the state after the evaluation, which is the leaf's own handle, or for a name that is
not declared what the name is resolved to there. All that has happened by then is that names of
leaves which were not bound have been bound, each of them once. -/
theorem values_in_order {host : Host} {m m' : Machine} (hm : Reached host (fun _ => True) m)
    {e : Expression} (hleaves : ∀ h ∈ e.leaves, m.store.Inert h) {steps : Nat}
    {handles : List Handle} (hend : perform host steps (.evaluate e) m = .value handles m') :
    List.Forall₂ m'.store.StandsFor e.leaves handles ∧
      (∃ names, Store.Introduces names m.store m'.store ∧ names.Nodup ∧
        ∀ name ∈ names, m.store.scopes.bound? name = none ∧
          ∃ h ∈ e.leaves, m'.store.Names h name) ∧
      m'.sink = m.sink ∧ m'.blocksLeft = m.blocksLeft := by
  have hs := hm.ready
  have hgives : Evaluation.GivesValues m (.evaluate e) (perform host steps (.evaluate e) m) :=
    Evaluation.givesValues_perform host steps hs hleaves
  rw [hend] at hgives
  obtain ⟨⟨names, hnames, hof⟩, hsink, hblocks, hvalues⟩ := hgives
  refine ⟨hvalues, ⟨names, hnames, hnames.nodup hs, fun name hname => ?_⟩, hsink, hblocks⟩
  exact ⟨(hnames.bound? hs hname).1, hof name hname⟩

/-- In a program that mentions two names for the first time, one of them twice: both of its leaves
stand for what was bound first. -/
theorem values_in_order_names :
    ∃ st e m₁ handles m₂, perform (Extension.Registry.host []) 1 (.readText "a (b (a)) 1\n")
        (.initial {}) = .value (.ok st) m₁ ∧ st.body = [.line e] ∧
      perform (Extension.Registry.host []) 7 (.evaluate e) m₁ = .value handles m₂ ∧
      e.leaves.map Handle.index = [38, 39, 40, 41] ∧
      handles.map Handle.index = [42, 43, 42, 41] ∧
      List.Forall₂ m₂.store.StandsFor e.leaves handles := by
  have hrun : (((Machine.initial {}).readLine? "a (b (a)) 1\n").any fun line =>
      (perform (Extension.Registry.host []) 7 (.evaluate line.1) line.2).test fun handles _ =>
        decide (line.1.leaves.map Handle.index = [38, 39, 40, 41] ∧
          handles.map Handle.index = [42, 43, 42, 41])) = true := by decide +kernel
  obtain ⟨⟨e, m₁⟩, hline, hrun⟩ := (Option.any_eq_true _ _).mp hrun
  obtain ⟨handles, m₂, hend, hrun⟩ := Outcome.exists_of_test hrun
  obtain ⟨hleaves, hhandles⟩ := of_decide_eq_true hrun
  have hsound : (Machine.initial {}).store.Sound := by
    rw [Machine.store_initial]
    exact Store.sound_initial
  obtain ⟨⟨head, hread⟩, hinert⟩ := Machine.of_readLine? (fun _ => id) hsound (by decide +kernel)
    hline (Extension.Registry.host [])
  have hreached : Reached (Extension.Registry.host []) (fun _ => True) m₁ :=
    .value (.initial {}) trivial .here hread
  exact ⟨_, e, m₁, handles, m₂, hread, rfl, hend, hleaves, hhandles,
    (values_in_order hreached hinert hend).1⟩

end WordScript
