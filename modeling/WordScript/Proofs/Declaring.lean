import WordScript.Proofs.Declarable
import WordScript.Proofs.Values

/-!
# Declaring lists of names

A list of names is declared either way: in `decas a b :: int`, the last name by the function between
it and the type, and the others by the function in front, which takes the type over from the last
one; in `decas (a b) :: int`, all of them by the function between the list and the type, and the one
in front lets them pass.
-/

namespace WordScript

namespace Store

/-- What a frame has bound a name to. -/
def under (s : Store) (space : String) (index : Nat) (name : String) : Option Identifier :=
  ((s.scopes.frameAt space index).names.find? name).bind s.arena.get?

/-- All frames have the same identifiers under the same names. -/
def BindsAlike (s s' : Store) : Prop :=
  ∀ space index name, s.under space index name = s'.under space index name

end Store

/-- Variables of the named type have been declared under the names, in order, and nothing else has
happened that is seen outside of the journal. -/
structure Machine.Declares (m : Machine) (type : String) (names : List String)
    (handles : List Handle) (m' : Machine) : Prop where
  resolved : List.Forall₂ (fun name h => m'.store.scopes.bound? name = some h) names handles
  declared : List.Forall₂ (m'.store.HasVariable type) names handles
  alters : m.store.Alters names m'.store
  rest : ∃ journal, m' = { m with store := m'.store, journal }

namespace Evaluation

open WordScript.Action WordScript.Machine

variable {self : Performer} {m m₁ : Machine} {k t d o : Handle} {names names' : List String}
  {ks xs : List Handle} {name type : String} {i : Identifier}

/-! ## Declaring one name after the other -/

theorem exists_declareAs (hs : m.store.Ready) (hd : m.store.Declarable name)
    (hk : m.store.scopes.bound? name = some k) (type : String) :
    ∃ h s, declareAs type k m = .value h { m with store := s } ∧ m.store.Alters [name] s ∧
      s.HasVariable type name h := by
  obtain ⟨i, hi, hrole⟩ := hd.bound hk
  obtain ⟨h, s, hdeclared, halters, hv⟩ := hd.exists_declared hs type
  refine ⟨h, s, ?_, halters, hv⟩
  have hrole' : (i.isUndefined || i.isVariable) = true := by simpa using hrole
  rw [declareAs, Action.bind_apply, identifier_of_get? hi]
  simp only [hrole', if_true, Store.surface_of_bound? hs.sound hd.plain hk hi]
  change tryStore (fun s => s.declared ((Identifier.name name 0).asVariable type 0)) m = _
  simp only [tryStore, hdeclared]

/-- By induction on the names, what declares each of them declares all of them. -/
theorem exists_declareEach {f : Handle → Action (List Handle)} {depth : Nat}
    (hf : ∀ {name k} {m : Machine}, m.store.Ready → m.store.Declarable name →
      m.store.scopes.bound? name = some k → m.store.depth = depth →
      f k m = (declareAs type k >>= fun h => pure [h]) m)
    (hs : m.store.Ready) (hdepth : m.store.depth = depth) (hnodup : names.Nodup)
    (hnames : ∀ name ∈ names, m.store.Declarable name)
    (hks : List.Forall₂ (fun name k => m.store.scopes.bound? name = some k) names ks) :
    ∃ handles s, concatMap f ks m = .value handles { m with store := s } ∧
      m.store.Alters names s ∧ List.Forall₂ (s.HasVariable type) names handles := by
  induction names generalizing ks m with
  | nil =>
    cases hks
    exact ⟨[], m.store, rfl, .refl hs _, .nil⟩
  | cons name names ih =>
    cases hks with
    | @cons _ k _ ks hk hks =>
    obtain ⟨hname, hnodup⟩ := List.nodup_cons.mp hnodup
    obtain ⟨hfirst, hrest⟩ := List.forall_mem_cons.mp hnames
    obtain ⟨h, s₁, hdeclare, ha₁, hv⟩ := exists_declareAs hs hfirst hk type
    have hother : ∀ name' ∈ names, name' ∉ [name] := by
      intro name' hmem hmem'
      obtain rfl := List.mem_singleton.mp hmem'
      exact hname hmem
    obtain ⟨handles, s, hend, ha, hvs⟩ := ih (m := { m with store := s₁ }) ha₁.ready
      (ha₁.depth_eq.trans hdepth) hnodup
      (fun name' hmem => (hrest name' hmem).alters hs ha₁ (hother name' hmem))
      (forall₂_imp_of_mem (fun name' hmem _ hb => ha₁.bound? hs (hother name' hmem) hb) hks)
    have hhead : f k m = .value [h] { m with store := s₁ } := by
      rw [hf hs hfirst hk hdepth, Action.bind_apply, hdeclare]
      rfl
    refine ⟨h :: handles, s, ?_, (ha₁.mono (by simp)).trans (ha.mono (List.subset_cons_self _ _)),
      .cons (hv.alters ha₁.ready ha) hvs⟩
    simp only [concatMap, Action.bind_apply, hhead, hend]
    rfl

/-! ## The function between the names and the type -/

/-- Each value on the left is declared, one after the other. -/
theorem declareBetween_of_type {left : Expression}
    (ht : self (.evaluate (.leaf t)) m = .value [t] m) (hi : m.store.arena.get? t = some i)
    (htype : i.role = .typeName) :
    declareBetween self [left, .leaf t] m = (self (.evaluate left) >>=
      concatMap fun h => do return [← declareAs i.surface h]) m := by
  change (self (.evaluate (.leaf t)) >>= _) m = _
  rw [Action.bind_apply, ht]
  change (identifier t >>= _) m = _
  rw [Action.bind_apply, identifier_of_get? hi]
  simp only [htype, if_true]
  change (evaluateEach self [left] >>= _) m = _
  rw [evaluateEach_singleton]

theorem exists_declareBetween {left : Expression}
    (ht : self (.evaluate (.leaf t)) m = .value [t] m) (hi : m.store.arena.get? t = some i)
    (htype : i.role = .typeName) (hleft : self (.evaluate left) m = .value ks m₁)
    (hs : m₁.store.Ready) (hnodup : names.Nodup)
    (hnames : ∀ name ∈ names, m₁.store.Declarable name)
    (hks : List.Forall₂ (fun name k => m₁.store.scopes.bound? name = some k) names ks) :
    ∃ handles s, declareBetween self [left, .leaf t] m = .value handles { m₁ with store := s } ∧
      m₁.store.Alters names s ∧ List.Forall₂ (s.HasVariable i.surface) names handles := by
  have hself : ∀ {name k} {m : Machine}, m.store.Ready → m.store.Declarable name →
      m.store.scopes.bound? name = some k → m.store.depth = m₁.store.depth →
      (do return [← declareAs i.surface k]) m = (declareAs i.surface k >>= fun h => pure [h]) m :=
    fun _ _ _ _ => rfl
  obtain ⟨handles, s, hend, ha, hvs⟩ := exists_declareEach hself hs rfl hnodup hnames hks
  refine ⟨handles, s, ?_, ha, hvs⟩
  rw [declareBetween_of_type ht hi htype, Action.bind_apply, hleft]
  exact hend

/-! ## The function in front -/

/-- Leaves that stand for themselves are their own values. -/
theorem evaluateEach_of_standsFor (host : Host) (steps : Nat)
    (hks : ∀ k ∈ ks, m.store.StandsFor k k) :
    evaluateEach (perform host (steps + 1)) (ks.map .leaf) m = .value ks m := by
  induction ks with
  | nil => rfl
  | cons k ks ih =>
    obtain ⟨hk, hks⟩ := List.forall_mem_cons.mp hks
    have hhead := perform_evaluate_leaf host steps (resolveLeaf_of_standsFor hk)
    have hrest := ih hks
    rw [evaluateEach] at hrest ⊢
    simp only [List.map_cons, concatMap, Action.bind_apply, hhead, hrest]
    rfl

theorem concatMap_append {α β : Type} (f : α → Action (List β)) (as bs : List α) :
    concatMap f (as ++ bs) =
      concatMap f as >>= fun l => concatMap f bs >>= fun r => pure (l ++ r) := by
  induction as with
  | nil => simp [concatMap]
  | cons a as ih =>
    simp only [List.cons_append, concatMap, ih, bind_assoc, pure_bind, List.append_assoc]

/-- Values that pass through are all there is to come. -/
theorem concatMap_of_passes {f : Handle → Action (List Handle)}
    (hf : ∀ x ∈ xs, f x m = .value [x] m) : concatMap f xs m = .value xs m := by
  induction xs with
  | nil => rfl
  | cons x xs ih =>
    obtain ⟨hx, hxs⟩ := List.forall_mem_cons.mp hf
    simp only [concatMap, Action.bind_apply, hx, ih hxs]
    rfl

/-- What the function in front does with one of its values when it has found a type. -/
def passOrDeclare (depth : Nat) (type : String) (h : Handle) : Action (List Handle) := do
  let i ← identifier h
  if isVariableAt depth i then return [h] else return [← declareAs type h]

theorem declareInFront_of_type {operands : List Expression}
    (hvalues : evaluateEach self operands m = .value ks m)
    (htype : typeOfFirst? m.store.depth ks.reverse m = .value (some type) m) :
    declareInFront self operands m = concatMap (passOrDeclare m.store.depth type) ks m := by
  rw [declareInFront, Action.bind_apply, hvalues]
  change (typeOfFirst? m.store.depth ks.reverse >>= _) m = _
  rw [Action.bind_apply, htype]
  rfl

theorem passOrDeclare_of_hasVariable (hv : m.store.HasVariable type name k) :
    passOrDeclare m.store.depth type k m = .value [k] m := by
  obtain ⟨i, hi, hat, -⟩ := hv.exists_isVariableAt
  simp only [passOrDeclare, Action.bind_apply, identifier_of_get? hi, hat, if_true]
  rfl

theorem passOrDeclare_of_declarable (hs : m.store.Ready) (hd : m.store.Declarable name)
    (hk : m.store.scopes.bound? name = some k) (type : String) :
    passOrDeclare m.store.depth type k m = (declareAs type k >>= fun h => pure [h]) m := by
  obtain ⟨i, hi, -⟩ := hd.bound hk
  have hat := hd.not_isVariableAt hs hk hi
  simp only [passOrDeclare, Action.bind_apply, identifier_of_get? hi, hat, Bool.false_eq_true,
    if_false]

/-- The type that is found is that of the last value, when that is a variable already. -/
theorem typeOfFirst?_of_hasVariable (hv : m.store.HasVariable type name k) (ks : List Handle) :
    typeOfFirst? m.store.depth (ks ++ [k]).reverse m = .value (some type) m := by
  obtain ⟨i, hi, hat, rfl, -⟩ := hv.exists_isVariableAt
  rw [List.reverse_append, List.reverse_singleton, List.singleton_append]
  simp only [typeOfFirst?, Action.bind_apply, identifier_of_get? hi, hat, if_true]
  rfl

/-- The values in front are declared, and those at the end, which are variables already, pass. -/
theorem exists_declareInFront (host : Host) (steps : Nat) (hs : m.store.Ready)
    (hnodup : names.Nodup) (hnames : ∀ name ∈ names, m.store.Declarable name)
    (hks : List.Forall₂ (fun name k => m.store.scopes.bound? name = some k) names ks)
    (hne : xs ≠ []) (hxs : List.Forall₂ (m.store.HasVariable type) names' xs) :
    ∃ handles s, declareInFront (perform host (steps + 1)) ((ks ++ xs).map .leaf) m =
        .value (handles ++ xs) { m with store := s } ∧
      m.store.Alters names s ∧ List.Forall₂ (s.HasVariable type) names handles := by
  have hvariable : ∀ x ∈ xs, ∃ name, m.store.HasVariable type name x := fun _ hx =>
    (exists_of_forall₂ hxs.flip hx).imp fun _ hv => hv.2
  have hvalues : evaluateEach (perform host (steps + 1)) ((ks ++ xs).map .leaf) m =
      .value (ks ++ xs) m := by
    refine evaluateEach_of_standsFor host steps fun k hk => ?_
    rcases List.mem_append.mp hk with hk | hx
    · obtain ⟨name, hmem, hbound⟩ := exists_of_forall₂ hks.flip hk
      exact (hnames name hmem).standsFor hs hbound
    · obtain ⟨name, hv⟩ := hvariable k hx
      obtain ⟨i, hi, -, -, hdefined⟩ := hv.exists_isVariableAt
      exact Store.standsFor_self hi hdefined
  have htype : typeOfFirst? m.store.depth (ks ++ xs).reverse m = .value (some type) m := by
    obtain ⟨ys, y, rfl⟩ := (List.eq_nil_or_concat' xs).resolve_left hne
    obtain ⟨name, hv⟩ := hvariable y (by simp)
    rw [← List.append_assoc]
    exact typeOfFirst?_of_hasVariable hv _
  have hdeclares : ∀ {name k} {m' : Machine}, m'.store.Ready → m'.store.Declarable name →
      m'.store.scopes.bound? name = some k → m'.store.depth = m.store.depth →
      passOrDeclare m.store.depth type k m' = (declareAs type k >>= fun h => pure [h]) m' := by
    intro name k m' hs' hd hk hdepth
    rw [← hdepth, passOrDeclare_of_declarable hs' hd hk]
  obtain ⟨handles, s, hend, ha, hvs⟩ :=
    exists_declareEach hdeclares hs rfl hnodup hnames hks
  have hpass : concatMap (passOrDeclare m.store.depth type) xs { m with store := s } =
      .value xs { m with store := s } := by
    refine concatMap_of_passes fun x hx => ?_
    obtain ⟨name, hv⟩ := hvariable x hx
    rw [← ha.depth_eq]
    exact passOrDeclare_of_hasVariable (m := { m with store := s }) (hv.alters hs ha)
  refine ⟨handles, s, ?_, ha, hvs⟩
  rw [declareInFront_of_type hvalues htype, concatMap_append, Action.bind_apply, hend]
  simp only [Action.bind_apply, hpass]
  rfl

/-! ## Both in one group -/

/-- A function that nothing stands in front of takes all that waits. -/
theorem scan_front {op : Builtin} (self : Performer) (hd : m.store.Between d op)
    (waiting : List Expression) :
    ∃ k f, m.store.arena.get? k = some f ∧ f.callable? = some (.builtin op) ∧
      scan self [.leaf d] waiting m = (self (.call (.leaf k :: waiting) false) >>= fun results =>
        scan self [] (results.map .leaf)) m := by
  obtain ⟨k, f, hk, hf, hfunction, -, hcallable⟩ := hd
  exact ⟨k, f, hf, hcallable, scan_first self ⟨hk, f, hf, hfunction, hcallable⟩ waiting⟩

/-- The function between the names and the type comes first: it declares the names to its left. -/
theorem exists_scan_between (host : Host) (steps : Nat) {left : Expression}
    (ho : m.store.Between o .declare) (ht : m.store.StandsFor t k)
    (hi : m.store.arena.get? k = some i) (htype : i.role = .typeName)
    (hleft : perform host (steps + 1) (.evaluate left) m = .value ks m₁)
    (hs : m₁.store.Ready) (hnodup : names.Nodup)
    (hnames : ∀ name ∈ names, m₁.store.Declarable name)
    (hks : List.Forall₂ (fun name k => m₁.store.scopes.bound? name = some k) names ks) :
    ∃ handles s, (∀ before,
        scan (perform host (steps + 2)) (.leaf t :: .leaf o :: left :: before) [] m =
          scan (perform host (steps + 2)) before (handles.map .leaf) { m₁ with store := s }) ∧
      m₁.store.Alters names s ∧ List.Forall₂ (s.HasVariable i.surface) names handles := by
  have hdefined : i.isUndefined = false := by simp [Identifier.isUndefined, htype]
  have hvalue : i.isFunction = false := by simp [Identifier.isFunction, htype]
  have hk : m.store.StandsFor k k := Store.standsFor_self hi hdefined
  obtain ⟨f, j, hf, hcallable, hscan⟩ := scan_infix (perform host (steps + 2)) ho left (.leaf k)
  obtain ⟨handles, s, hend, ha, hvs⟩ := exists_declareBetween
    (perform_evaluate_leaf host steps (resolveLeaf_of_standsFor hk)) hi htype hleft hs hnodup hnames
    hks
  have hcall : perform host (steps + 2) (.call [.leaf f, left, .leaf k] true) m =
      .value handles { m₁ with store := s } := (perform_call hf hcallable _ _).trans hend
  refine ⟨handles, s, fun before => ?_, ha, hvs⟩
  rw [scan_value (resolveLeaf_of_standsFor ht) hi hvalue, hscan, Action.bind_apply, hcall]

/-- The function in front comes last: it declares what has not been declared yet. -/
theorem exists_scan_front (host : Host) (steps : Nat) (hs : m.store.Ready)
    (hd : m.store.Between d .declare) (hnodup : names.Nodup)
    (hnames : ∀ name ∈ names, m.store.Declarable name)
    (hks : List.Forall₂ (fun name k => m.store.scopes.bound? name = some k) names ks)
    (hne : xs ≠ []) (hxs : List.Forall₂ (m.store.HasVariable type) names' xs) :
    ∃ handles s, (scan (perform host (steps + 2)) [.leaf d] ((ks ++ xs).map .leaf) >>=
          concatMap (collect (perform host (steps + 2)))) m =
        .value (handles ++ xs) { m with store := s } ∧
      m.store.Alters names s ∧ List.Forall₂ (s.HasVariable type) names handles := by
  obtain ⟨k, f, hf, hcallable, hscan⟩ :=
    scan_front (perform host (steps + 2)) hd ((ks ++ xs).map .leaf)
  obtain ⟨handles, s, hend, ha, hvs⟩ :=
    exists_declareInFront host steps hs hnodup hnames hks hne hxs
  refine ⟨handles, s, ?_, ha, hvs⟩
  rw [Action.bind_apply, hscan, ← Action.bind_apply, collect_results, perform_call hf hcallable]
  exact hend

/-- What has been declared is what the names are bound to. -/
theorem declares_of_hasVariable {m' : Machine} {handles : List Handle}
    (hnames : ∀ name ∈ names, m.store.Declarable name) (ha : m.store.Alters names m'.store)
    (hvs : List.Forall₂ (m'.store.HasVariable type) names handles)
    (hrest : ∃ journal, m' = { m with store := m'.store, journal }) :
    m.Declares type names handles m' where
  resolved := by
    refine forall₂_imp_of_mem (fun name hmem h hv => ?_) hvs
    rw [Scopes.bound?_plain (hnames name hmem).plain]
    exact ha.ready.placed.lookup?_of_currentFrame hv.1
  declared := hvs
  alters := ha
  rest := hrest

section Forms

variable (host : Host) (steps : Nat) (hs : m.store.Ready) (hd : m.store.Between d .declare)
  (ho : m.store.Between o .declare) (ht : m.store.StandsFor t k)
  (hi : m.store.arena.get? k = some i) (htype : i.role = .typeName)

include hs hd ho ht hi htype

/-- In `decas (a b) :: int` the function in front finds nothing but variables. -/
theorem exists_declare_grouped {leaves : List Handle}
    (hleaves : List.Forall₂ m.store.Names leaves names) (hnodup : names.Nodup)
    (hnames : ∀ name ∈ names, m.store.Declarable name) (hne : names ≠ []) :
    ∃ handles m', perform host (steps + 5) (.evaluate (.group
        [.leaf d, .group (leaves.map .leaf), .leaf o, .leaf t])) m = .value handles m' ∧
      m.Declares i.surface names handles m' := by
  obtain ⟨es, hes⟩ : ∃ es : List Expression,
    es = [.leaf d, .group (leaves.map .leaf), .leaf o, .leaf t] := ⟨_, rfl⟩
  obtain ⟨ks, s₁, hleft, hbinds, hstands⟩ := exists_evaluate_leaves host steps (m := m.noted es) hs
    (Store.valueLeaf_of_names hleaves hnames)
  obtain ⟨ha₁, hnames₁, hks⟩ := hbinds.declarable hs hleaves hnames hstands
  obtain ⟨handles, s₂, hscan, ha₂, hvs⟩ := exists_scan_between host (steps + 1) (m := m.noted es)
    ho ht hi htype hleft ha₁.ready hnodup hnames₁ hks
  have ha := ha₁.trans ha₂
  have hne' : handles ≠ [] := by
    rintro rfl
    exact hne (List.forall₂_nil_right_iff.mp hvs)
  obtain ⟨_, s, hend, ha', hnone⟩ := exists_scan_front host (steps + 1)
    (m := { (m.noted es).noted (leaves.map .leaf) with store := s₂ }) ha.ready
    (hd.alters hs ha hnames) List.nodup_nil nofun .nil hne' hvs
  cases hnone
  have hreverse : es.reverse = [.leaf t, .leaf o, .group (leaves.map .leaf), .leaf d] := by
    rw [hes]
    rfl
  refine ⟨handles, { (m.noted es).noted (leaves.map .leaf) with store := s }, ?_,
    declares_of_hasVariable hnames (ha.trans (ha'.mono (List.nil_subset _)))
      (hvs.imp fun _ _ hv => hv.alters ha.ready ha') ⟨_, rfl⟩⟩
  rw [← hes, perform_evaluate_group, Action.bind_apply, hreverse, hscan, ← Action.bind_apply]
  exact hend

/-- In `decas a b :: int` the function in front takes the type over from the last name, which has
been declared by then. -/
theorem exists_declare_listed {leaves : List Handle} {leaf : Handle} {last : String}
    (hleaves : List.Forall₂ m.store.Names leaves names) (hleaf : m.store.Names leaf last)
    (hnodup : (names ++ [last]).Nodup)
    (hnames : ∀ name ∈ names ++ [last], m.store.Declarable name) :
    ∃ handles m', perform host (steps + 5) (.evaluate (.group
        (.leaf d :: ((leaves ++ [leaf]).map .leaf ++ [.leaf o, .leaf t])))) m = .value handles m' ∧
      m.Declares i.surface (names ++ [last]) handles m' := by
  obtain ⟨es, hes⟩ : ∃ es : List Expression,
    es = .leaf d :: ((leaves ++ [leaf]).map .leaf ++ [.leaf o, .leaf t]) := ⟨_, rfl⟩
  have hreverse : es.reverse =
      .leaf t :: .leaf o :: .leaf leaf :: ((leaves.map .leaf).reverse ++ [.leaf d]) := by
    rw [hes]
    simp
  have hlast := hnames last (by simp)
  have hothers : ∀ name ∈ names, name ∉ [last] := by
    intro name hmem hmem'
    exact (List.nodup_append.mp hnodup).2.2 name hmem name hmem' rfl
  -- the last name is resolved and declared
  obtain ⟨k₁, s₁, hr, hbinds₁, hstands₁⟩ :=
    exists_resolveLeaf (m := m.noted es) hs (hlast.valueLeaf hleaf)
  obtain ⟨ha₁, hlast₁, hks₁⟩ := hbinds₁.declarable hs (.cons hleaf .nil)
    (List.forall_mem_singleton.mpr hlast) (.cons hstands₁ .nil)
  obtain ⟨xs, s₂, hscan, ha₂, hxs⟩ := exists_scan_between host (steps + 1) (m := m.noted es)
    ho ht hi htype (perform_evaluate_leaf host (steps + 1) hr) ha₁.ready (by simp) hlast₁ hks₁
  have hfirst := ha₁.trans ha₂
  -- the other names are resolved from right to left, and wait
  have hnames₂ : ∀ name ∈ names, s₂.Declarable name := fun name hmem =>
    (hnames name (List.mem_append_left _ hmem)).alters hs hfirst (hothers name hmem)
  have hleaves₂ : List.Forall₂ s₂.Names leaves names :=
    (forall₂_imp_of_mem (fun name hmem _ hname =>
      Store.Names.alters hs hfirst (hothers name hmem) hname) hleaves.flip).flip
  obtain ⟨ks, s₃, hwait, hbinds₃, hstands⟩ := exists_scan_leaves (perform host (steps + 3))
    (m := { m.noted es with store := s₂ }) ha₂.ready (Store.valueLeaf_of_names hleaves₂ hnames₂)
    (xs.map .leaf)
  obtain ⟨ha₃, hnames₃, hks⟩ := hbinds₃.declarable ha₂.ready hleaves₂ hnames₂ hstands
  -- and they are declared by the function in front
  have hall : m.store.Alters (names ++ [last]) s₃ :=
    (hfirst.mono (by simp)).trans (ha₃.mono (by simp))
  have hne : xs ≠ [] := by
    rintro rfl
    cases hxs
  have hxs₃ : List.Forall₂ (s₃.HasVariable i.surface) [last] xs :=
    hxs.imp fun _ _ hv => hv.alters ha₂.ready ha₃
  obtain ⟨handles, s, hend, ha, hvs⟩ := exists_scan_front host (steps + 1)
    (m := { m.noted es with store := s₃ }) hall.ready (hd.alters hs hall hnames)
    (List.nodup_append.mp hnodup).1 hnames₃ hks hne hxs₃
  refine ⟨handles ++ xs, { m.noted es with store := s }, ?_,
    declares_of_hasVariable hnames (hall.trans (ha.mono (by simp)))
      (List.rel_append hvs (hxs₃.imp fun _ _ hv => hv.alters hall.ready ha)) ⟨_, rfl⟩⟩
  rw [← hes, perform_evaluate_group, Action.bind_apply, hreverse, hscan, hwait,
    ← Action.bind_apply, ← List.map_append]
  exact hend

end Forms

end Evaluation

/-! ## Both ways -/

namespace Store

variable {s s₁ s₂ : Store} {names : List String} {type : String}

/-- A frame binds a name to the same as before, unless it is the current frame and one of the
names. -/
theorem Alters.find?_frameAt (ha : s.Alters names s₁) {space name : String} {index : Nat}
    (hother : ¬ ((space = s.scopes.place.name ∧ index = s.depth) ∧ name ∈ names)) :
    (s₁.scopes.frameAt space index).names.find? name =
      (s.scopes.frameAt space index).names.find? name := by
  by_cases hplace : space = s.scopes.place.name ∧ index = s.depth
  · obtain ⟨rfl, rfl⟩ := hplace
    have hcurrent := ha.find?_of_not_mem fun hmem => hother ⟨⟨rfl, rfl⟩, hmem⟩
    rw [Scopes.currentFrame, ha.balanced.place] at hcurrent
    exact hcurrent
  · rw [ha.elsewhere hplace]

/-- What was in use before is the same in the end, whichever way the names have become variables. -/
theorem Alters.get?_eq (ha₁ : s.Alters names s₁) (ha₂ : s.Alters names s₂)
    (hv₁ : ∀ name ∈ names, ∃ h, s₁.HasVariable type name h)
    (hv₂ : ∀ name ∈ names, ∃ h, s₂.HasVariable type name h) {k : Handle}
    (hk : s.arena.InUse k) : s₁.arena.get? k = s₂.arena.get? k := by
  have hvariable : ∀ {s' : Store}, s.Alters names s' →
      (∀ name ∈ names, ∃ h, s'.HasVariable type name h) → ∀ name ∈ names,
      s.scopes.currentFrame.names.find? name = some k →
      s'.arena.get? k = some ((Identifier.name name 0).asVariable type s.depth) := by
    intro s' ha hv name hmem hfind
    obtain ⟨h, hfind', hget⟩ := hv name hmem
    obtain rfl := Option.some.inj ((ha.find? hfind).symm.trans hfind')
    rw [hget, ha.depth_eq]
  rcases ha₁.kept hk with heq₁ | ⟨-, -, -, name, hmem, hfind⟩
  · rcases ha₂.kept hk with heq₂ | ⟨-, -, -, name, hmem, hfind⟩
    · rw [heq₁, heq₂]
    · rw [hvariable ha₁ hv₁ name hmem hfind, hvariable ha₂ hv₂ name hmem hfind]
  · rw [hvariable ha₁ hv₁ name hmem hfind, hvariable ha₂ hv₂ name hmem hfind]

end Store

/-- Two ways of declaring the same names bind the same identifiers to names. -/
theorem Machine.Declares.bindsAlike {m m₁ m₂ : Machine} {type : String} {names : List String}
    {handles handles' : List Handle} (hs : m.store.Ready) (h₁ : m.Declares type names handles m₁)
    (h₂ : m.Declares type names handles' m₂) : m₁.store.BindsAlike m₂.store := by
  have hvariable : ∀ {m' : Machine} {handles : List Handle}, m.Declares type names handles m' →
      ∀ name ∈ names, ∃ h, m'.store.HasVariable type name h := by
    intro m' handles hdeclares name hmem
    obtain ⟨h, -, hv⟩ := exists_of_forall₂ hdeclares.declared hmem
    exact ⟨h, hv⟩
  intro space index name
  by_cases hcurrent : (space = m.store.scopes.place.name ∧ index = m.store.depth) ∧ name ∈ names
  · obtain ⟨⟨rfl, rfl⟩, hmem⟩ := hcurrent
    have hunder : ∀ {m' : Machine} {handles : List Handle}, m.Declares type names handles m' →
        m'.store.under m.store.scopes.place.name m.store.depth name =
          some ((Identifier.name name 0).asVariable type m.store.depth) := by
      intro m' handles hdeclares
      obtain ⟨h, hfind, hget⟩ := hvariable hdeclares name hmem
      rw [Scopes.currentFrame, hdeclares.alters.balanced.place] at hfind
      rw [hdeclares.alters.depth_eq] at hget
      exact (congrArg (Option.bind · m'.store.arena.get?) hfind).trans hget
    rw [hunder h₁, hunder h₂]
  · rw [Store.under, Store.under, h₁.alters.find?_frameAt hcurrent,
      h₂.alters.find?_frameAt hcurrent]
    cases hfind : (m.store.scopes.frameAt space index).names.find? name with
    | none => rfl
    | some k =>
      have hheld : m.store.arena.InUse k := hs.sound.inUse k
        (Scopes.mem_held_of_binds (Scopes.binds_of_frameAt (Bindings.mem_of_find? hfind)))
      exact h₁.alters.get?_eq h₂.alters (hvariable h₁) (hvariable h₂) hheld

/-- In any state that is reached, a list of distinct names that may be declared is declared by
`decas a b :: int` and by `decas (a b) :: int`: the values are the handles that the names are bound
to afterwards, in order, and behind each is a variable of the current frame, of the named type and
with the value that the type starts with. Whatever else was there is as before. Both ways bind the
same identifiers to names, although they may come by new handles in another order. -/
theorem lists_declared_either_way {host : Host} {m : Machine}
    (hm : Reached host (fun _ => True) m) {d o t k : Handle} (hd : m.store.Between d .declare)
    (ho : m.store.Between o .declare) (ht : m.store.StandsFor t k) {i : Identifier}
    (hi : m.store.arena.get? k = some i) (htype : i.role = .typeName) {leaves : List Handle}
    {names : List String} (hleaves : List.Forall₂ m.store.Names leaves names) (hne : names ≠ [])
    (hnodup : names.Nodup) (hnames : ∀ name ∈ names, m.store.Declarable name) {steps : Nat}
    (hsteps : 5 ≤ steps) :
    ∃ handles m₁ handles' m₂,
      perform host steps (.evaluate (.group
          (.leaf d :: (leaves.map .leaf ++ [.leaf o, .leaf t])))) m = .value handles m₁ ∧
        m.Declares i.surface names handles m₁ ∧
      perform host steps (.evaluate (.group
          [.leaf d, .group (leaves.map .leaf), .leaf o, .leaf t])) m = .value handles' m₂ ∧
        m.Declares i.surface names handles' m₂ ∧
      m₁.store.BindsAlike m₂.store := by
  obtain ⟨n, rfl⟩ : ∃ n, steps = n + 5 := ⟨steps - 5, by omega⟩
  have hs := hm.ready
  obtain ⟨handles', m₂, hend₂, hdeclares₂⟩ := Evaluation.exists_declare_grouped host n hs hd ho ht hi
    htype hleaves hnodup hnames hne
  obtain ⟨init, last, rfl⟩ := (List.eq_nil_or_concat' names).resolve_left hne
  have hinit := List.forall₂_take_append leaves init [last] hleaves
  obtain ⟨leaf, hdrop, hlast⟩ : ∃ leaf, leaves.drop init.length = [leaf] ∧
      m.store.Names leaf last := by
    have hrest := List.forall₂_drop_append leaves init [last] hleaves
    obtain ⟨leaf, rest, hleaf, hnil, heq⟩ := List.forall₂_cons_right_iff.mp hrest
    obtain rfl := List.forall₂_nil_right_iff.mp hnil
    exact ⟨leaf, heq, hleaf⟩
  obtain ⟨handles, m₁, hend₁, hdeclares₁⟩ := Evaluation.exists_declare_listed host n hs hd ho ht hi
    htype hinit hlast hnodup hnames
  rw [← hdrop, List.take_append_drop] at hend₁
  exact ⟨handles, m₁, handles', m₂, hend₁, hdeclares₁, hend₂, hdeclares₂,
    hdeclares₁.bindsAlike hs hdeclares₂⟩

/-- In a block, `decas b a :: double` makes variables of a new name and of one that is a variable
outside: the first way, the new variable `a` comes before `b`; the other way, after it. -/
theorem lists_declared_either_way_shadowing :
    let host := Extension.Registry.host []
    let leaves : List Handle := [⟨46, 0⟩, ⟨47, 0⟩]
    let listed : Operation := .evaluate (.group
      (.leaf ⟨45, 0⟩ :: (leaves.map .leaf ++ [.leaf ⟨48, 0⟩, .leaf ⟨49, 0⟩])))
    let grouped : Operation := .evaluate (.group
      [.leaf ⟨45, 0⟩, .group (leaves.map .leaf), .leaf ⟨48, 0⟩, .leaf ⟨49, 0⟩])
    ∃ m, Reached host (fun _ => True) m ∧ m.store.depth = 1 ∧
      m.store.arena.get? ⟨44, 0⟩ =
        some { surface := "a", role := .var, type := "int", value := .int 7 } ∧
      ∃ m₁ m₂, perform host 5 listed m = .value [⟨51, 0⟩, ⟨50, 0⟩] m₁ ∧
        m.Declares "double" ["b", "a"] [⟨51, 0⟩, ⟨50, 0⟩] m₁ ∧
        perform host 5 grouped m = .value [⟨50, 0⟩, ⟨51, 0⟩] m₂ ∧
        m.Declares "double" ["b", "a"] [⟨50, 0⟩, ⟨51, 0⟩] m₂ ∧ m₁.store.BindsAlike m₂.store := by
  intro host leaves listed grouped
  have hrun : (perform host 14 (.runTextTopLevel "a :: int\na = 7\n") (.initial {})).test
      (fun _ m => (perform host 2 (.readText "decas b a :: double\n") m).test fun _ m =>
          decide ([44, 45, 46, 47, 48, 49, 12, 13, 2].map
              (fun index => m.store.enter.arena.get? ⟨index, 0⟩) =
              [some { surface := "a", role := .var, type := "int", value := .int 7 },
                some (.name "decas" 0), some (.name "b" 0), some (.name "a" 0),
                some (.name "::" 0), some (.name "double" 0), some (between "decas" .declare),
                some (between "::" .declare), some (.typeName "double")] ∧
            ["decas", "::", "double", "a", "b"].map m.store.enter.scopes.bound? =
              [some ⟨12, 0⟩, some ⟨13, 0⟩, some ⟨2, 0⟩, some ⟨44, 0⟩, none] ∧
            ["a", "b"].map m.store.enter.scopes.currentFrame.names.find? = [none, none] ∧
            m.store.enter.depth = 1 ∧
            (perform host 5 listed { m with store := m.store.enter }).answer? =
              some ([⟨51, 0⟩, ⟨50, 0⟩] : List Handle) ∧
            (perform host 5 grouped { m with store := m.store.enter }).answer? =
              some ([⟨50, 0⟩, ⟨51, 0⟩] : List Handle))) = true := by
    decide +kernel
  obtain ⟨_, m₀, hend₀, hrun⟩ := Outcome.exists_of_test hrun
  obtain ⟨_, m, hread, hrun⟩ := Outcome.exists_of_test hrun
  obtain ⟨hget, hbound, hfree, hdepth, hlisted, hgrouped⟩ := of_decide_eq_true hrun
  simp only [List.map_cons, List.map_nil, List.cons.injEq, and_true] at hget hbound hfree
  obtain ⟨hi, hd, hb, ha, ho, ht, hdecas, hcolons, hdouble⟩ := hget
  obtain ⟨hboundd, hboundo, hboundt, hbounda, hboundb⟩ := hbound
  obtain ⟨hfreea, hfreeb⟩ := hfree
  have hreached₀ : Reached host (fun _ => True) m₀ :=
    .value (.initial {}) trivial .here hend₀
  have hreached₁ : Reached host (fun _ => True) m :=
    .value hreached₀ trivial .here hread
  have hreached : Reached host (fun _ => True) { m with store := m.store.enter } :=
    .asked hreached₁ trivial (.inside (inside_runBlock _ 0 _ .empty []) .here)
  have hfront : m.store.enter.Between ⟨45, 0⟩ .declare :=
    ⟨⟨12, 0⟩, _, ⟨_, hd, Store.resolve_of_bound? hboundd⟩, hdecas, rfl, rfl, rfl⟩
  have hbetween : m.store.enter.Between ⟨48, 0⟩ .declare :=
    ⟨⟨13, 0⟩, _, ⟨_, ho, Store.resolve_of_bound? hboundo⟩, hcolons, rfl, rfl, rfl⟩
  have hleaves : List.Forall₂ m.store.enter.Names leaves ["b", "a"] :=
    .cons ⟨_, hb, rfl, rfl⟩ (.cons ⟨_, ha, rfl, rfl⟩ .nil)
  have hnames : ∀ name ∈ ["b", "a"], m.store.enter.Declarable name := by
    refine List.forall_mem_cons.mpr ⟨⟨by decide, fun hk => ?_, fun hfind _ => ?_⟩,
      List.forall_mem_singleton.mpr ⟨by decide, fun hk => ?_, fun hfind _ => ?_⟩⟩
    · cases hboundb.symm.trans hk
    · cases hfreeb.symm.trans hfind
    · obtain rfl := Option.some.inj (hbounda.symm.trans hk)
      exact ⟨_, hi, .inr rfl⟩
    · cases hfreea.symm.trans hfind
  obtain ⟨handles, m₁, handles', m₂, hend₁, hdeclares₁, hend₂, hdeclares₂, halike⟩ :=
    lists_declared_either_way hreached hfront hbetween ⟨_, ht, Store.resolve_of_bound? hboundt⟩
      hdouble rfl hleaves (by simp) (by decide) hnames (Nat.le_refl 5)
  obtain rfl := Option.some.inj ((congrArg Outcome.answer? hend₁).symm.trans hlisted)
  obtain rfl := Option.some.inj ((congrArg Outcome.answer? hend₂).symm.trans hgrouped)
  exact ⟨_, hreached, hdepth, hi, m₁, m₂, hend₁, hdeclares₁, hend₂, hdeclares₂, halike⟩

end WordScript
