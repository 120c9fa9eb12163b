import WordScript.Proofs.Assignments
import WordScript.Proofs.Declaring
import WordScript.Proofs.Isolation

/-!
# What the target of a declaration stands for afterwards

A declaration resolves its target first, and then declares what it has found under its own name in
the current frame. A name without a namespace in front stands for the new variable from then on. A
name with a namespace in front goes on to stand for the member of that namespace, which is what has
been declared only where the current frame is the global frame of that namespace.
-/

namespace WordScript

/-- A name without the namespace in front of it. -/
def unqualified (name : String) : String :=
  ((qualified? name).map Prod.snd).getD name

theorem unqualified_plain {name : String} (h : qualified? name = none) :
    unqualified name = name := by
  rw [unqualified, h]
  rfl

theorem unqualified_member {name space member : String}
    (h : qualified? name = some (space, member)) : unqualified name = member := by
  rw [unqualified, h]
  rfl

theorem qualified?_of_unqualified {name : String} (h : unqualified name = name) :
    qualified? name = none := by
  cases hq : qualified? name with
  | none => rfl
  | some p =>
    obtain ⟨space, member⟩ := p
    have hlength := (suffix_of_qualified? hq).length_le
    rw [← unqualified_member hq, h, List.length_cons] at hlength
    omega

/-- A name is looked up where it would be declared: it has no namespace in front, or the current
frame is the global frame of that namespace. -/
def Scopes.LooksWhereItDeclares (s : Scopes) (name : String) : Prop :=
  ∀ space member, qualified? name = some (space, member) →
    space = s.place.name ∧ s.place.depth = 0

theorem Scopes.looksWhereItDeclares_plain {s : Scopes} {name : String}
    (h : qualified? name = none) : s.LooksWhereItDeclares name := by
  intro space member hq
  rw [h] at hq
  cases hq

namespace Store

variable {s s' : Store} {name type : String} {w x h k : Handle} {i : Identifier}

/-- What a name is bound to has that name, without the namespace in front. -/
theorem surface_eq_unqualified (hs : s.Sound) (hk : s.scopes.bound? name = some k)
    (hi : s.arena.get? k = some i) : i.surface = unqualified name := by
  cases hq : qualified? name with
  | none =>
    rw [unqualified_plain hq]
    exact surface_of_bound? hs hq hk hi
  | some p =>
    obtain ⟨space, member⟩ := p
    rw [unqualified_member hq]
    rw [Scopes.bound?_member hq, Scopes.global?_eq] at hk
    exact (hs.named (Scopes.binds_of_frameAt (Bindings.mem_of_find? hk)) hi).1

theorem Names.standsFor (hname : s.Names w name) (hk : s.scopes.bound? name = some k) :
    s.StandsFor w k := by
  obtain ⟨i, hi, hundefined, rfl⟩ := hname
  refine ⟨i, hi, ?_⟩
  rw [if_pos hundefined]
  exact resolve_of_bound? hk

/-- A handle that is held in the current frame is held in no global frame, unless that is the
current frame. -/
theorem global?_ne_currentFrame (hs : s.Sound) (hi : s.arena.get? h = some i) {space key : String}
    (hcurrent : s.scopes.currentFrame.names.find? key = some h)
    (hplace : ¬ (space = s.scopes.place.name ∧ s.depth = 0)) :
    s.scopes.global? space name ≠ some h := by
  intro hglobal
  rw [Scopes.global?_eq] at hglobal
  have hhere := Bindings.mem_of_find? hcurrent
  have hthere := Bindings.mem_of_find? hglobal
  -- an identifier knows the depth at which it is bound
  have hdepth : s.depth = 0 := by
    rw [← (hs.named (Scopes.binds_of_frameAt hthere) hi).2]
    exact (hs.named (Scopes.binds_of_frameAt hhere) hi).2.symm
  have hspace : space ≠ s.scopes.place.name := fun hspace => hplace ⟨hspace, hdepth⟩
  exact Scopes.not_mem_frameAt_of_ne hs.nodup hspace (Frame.mem_handles.mpr (.inl ⟨_, hthere⟩))
    (Frame.mem_handles.mpr (.inl ⟨_, hhere⟩))

/-- After the declaration, the target is bound to the new variable exactly if it is looked up where
it has been declared. -/
theorem exists_bound?_of_declared (ha : s.Alters [unqualified name] s')
    (hx : s.scopes.bound? name = some x) (hv : s'.HasVariable type (unqualified name) h) :
    ∃ k, s'.scopes.bound? name = some k ∧ (k = h ↔ s.scopes.LooksWhereItDeclares name) := by
  obtain ⟨hfind, hget⟩ := hv
  cases hq : qualified? name with
  | none =>
    rw [unqualified_plain hq] at hfind
    refine ⟨h, ?_, iff_of_true rfl (Scopes.looksWhereItDeclares_plain hq)⟩
    rw [Scopes.bound?_plain hq]
    exact ha.ready.placed.lookup?_of_currentFrame hfind
  | some p =>
    obtain ⟨space, member⟩ := p
    rw [unqualified_member hq] at hfind
    rw [Scopes.bound?_member hq] at hx ⊢
    by_cases hplace : space = s.scopes.place.name ∧ s.depth = 0
    · refine ⟨h, ?_, iff_of_true rfl ?_⟩
      · rw [Scopes.currentFrame, ha.balanced.place, ← hplace.1] at hfind
        rw [Scopes.global?_eq, ← hplace.2]
        exact hfind
      · intro space' member' hq'
        obtain ⟨rfl, -⟩ := Prod.mk.inj (Option.some.inj (hq.symm.trans hq'))
        exact hplace
    · have hplace' : ¬ (space = s'.scopes.place.name ∧ s'.depth = 0) := by
        rwa [ha.balanced.place, ha.depth_eq]
      have hkept : s'.scopes.global? space member = some x := by
        rw [Scopes.global?_eq] at hx ⊢
        rwa [ha.elsewhere fun hcurrent => hplace ⟨hcurrent.1, hcurrent.2.symm⟩]
      refine ⟨x, hkept, iff_of_false ?_ fun hlooks => hplace (hlooks space member hq)⟩
      rintro rfl
      exact global?_ne_currentFrame ha.ready.sound hget hfind hplace' hkept

/-- So does the leaf that has been the target, even where it is bound itself and has become the
variable. -/
theorem Names.standsFor_declared (hs : s.Ready) (hname : s.Names w name)
    (ha : s.Alters [unqualified name] s') (hv : s'.HasVariable type (unqualified name) h)
    (hk : s'.scopes.bound? name = some k) : s'.StandsFor w k := by
  obtain ⟨i, hi, hundefined, rfl⟩ := hname
  rcases ha.kept (hs.sound.tidy.inUse (Arena.isLive_of_get? hi)) with
    heq | ⟨j, hj, -, key, hkey, hfind⟩
  · exact Names.standsFor ⟨i, heq.trans hi, hundefined, rfl⟩ hk
  · obtain rfl := Option.some.inj (hi.symm.trans hj)
    obtain rfl := List.mem_singleton.mp hkey
    have hsurface := (hs.sound.named (Scopes.binds_of_frameAt (Bindings.mem_of_find? hfind)) hi).1
    have hplain := qualified?_of_unqualified hsurface.symm
    have hfind' := ha.find? hfind
    obtain rfl : w = h := Option.some.inj (hfind'.symm.trans hv.1)
    rw [← hsurface] at hfind'
    rw [Scopes.bound?_plain hplain, ha.ready.placed.lookup?_of_currentFrame hfind'] at hk
    obtain rfl := Option.some.inj hk
    exact standsFor_self hv.2 rfl

end Store

namespace Evaluation

open WordScript.Action WordScript.Machine

variable {host : Host} {steps : Nat} {m m' m₁ m₂ : Machine} {w o t x h k r : Handle}
  {type name : String} {i : Identifier}

/-! ## The declaration -/

theorem declareAs_cases (hr : declareAs type x m = .value h m') :
    ∃ i s, m.store.arena.get? x = some i ∧ m' = { m with store := s } ∧
      m.store.declared ((Identifier.name i.surface 0).asVariable type 0) = .ok (h, s) := by
  cases hi : m.store.arena.get? x with
  | none => simp [declareAs, Action.bind_apply, identifier, hi] at hr
  | some i =>
    rw [declareAs, bind_identifier_apply hi] at hr
    by_cases htarget : (i.isUndefined || i.isVariable) = true
    · simp only [htarget, if_true] at hr
      change tryStore (fun s => s.declared _) m = _ at hr
      cases hd : m.store.declared ((Identifier.name i.surface 0).asVariable type 0) with
      | error e => simp [tryStore, hd] at hr
      | ok result =>
        obtain ⟨h', s⟩ := result
        simp only [tryStore, hd, Outcome.value.injEq] at hr
        obtain ⟨rfl, rfl⟩ := hr
        exact ⟨i, s, rfl, rfl, hd⟩
    · simp only [htarget] at hr
      cases hr

/-- A declaration evaluates its left side and declares each value. -/
theorem perform_declaration (host : Host) (steps : Nat) (left : Expression)
    (ho : m.store.Between o .declare) (ht : m.store.StandsFor t k)
    (hi : m.store.arena.get? k = some i) (htype : i.role = .typeName) :
    perform host (steps + 4) (.evaluate (.group [left, .leaf o, .leaf t])) m =
      (perform host (steps + 1) (.evaluate left) >>= concatMap fun h => do
        return [← declareAs i.surface h]) (m.noted [left, .leaf o, .leaf t]) := by
  have hvalue : i.isFunction = false := by simp [Identifier.isFunction, htype]
  have hdefined : i.isUndefined = false := by simp [Identifier.isUndefined, htype]
  have hk : m.store.StandsFor k k := Store.standsFor_self hi hdefined
  have hwaits : Waits (m.noted [left, .leaf o, .leaf t]) (m.noted [left, .leaf o, .leaf t])
      (.leaf t) (.leaf k) :=
    .leaf (resolveLeaf_of_standsFor (m := m.noted _) ht) hi hvalue
  obtain ⟨c, hend⟩ := perform_between host (steps + 1) hwaits ho
  have hright : perform host (steps + 1) (.evaluate (.leaf k)) (m.noted _) =
      .value [k] (m.noted _) :=
    perform_evaluate_leaf host steps
      (resolveLeaf_of_standsFor (m := m.noted [left, .leaf o, .leaf t]) hk)
  rw [hend]
  exact declareBetween_of_type hright hi htype

/-- To declare a single leaf is to resolve it and to declare what has been found. -/
theorem perform_declaration_leaf (host : Host) (steps : Nat) (ho : m.store.Between o .declare)
    (ht : m.store.StandsFor t k) (hi : m.store.arena.get? k = some i) (htype : i.role = .typeName) :
    perform host (steps + 4) (.evaluate (.group [.leaf w, .leaf o, .leaf t])) m =
      (resolveLeaf w >>= fun x => declareAs i.surface x >>= fun h => pure [h])
        (m.noted [.leaf w, .leaf o, .leaf t]) := by
  rw [perform_declaration host steps _ ho ht hi htype]
  change ((resolveLeaf w >>= fun x => pure [x]) >>= concatMap _) _ = _
  simp only [bind_assoc, pure_bind, concatMap_singleton]

/-- When it succeeds, the name that the target has been found under is a variable of the current
frame. -/
theorem exists_of_declaration (hs : m.store.Ready) (ho : m.store.Between o .declare)
    (ht : m.store.StandsFor t k) (hi : m.store.arena.get? k = some i) (htype : i.role = .typeName)
    (hname : m.store.Names w name) {handles : List Handle}
    (hr : perform host steps (.evaluate (.group [.leaf w, .leaf o, .leaf t])) m =
      .value handles m') :
    ∃ (h : Handle) (s : Store) (x : Handle), handles = [h] ∧ s.Ready ∧
      s.scopes.place = m.store.scopes.place ∧ s.Names w name ∧
      s.scopes.bound? name = some x ∧ s.Alters [unqualified name] m'.store ∧
      m'.store.HasVariable i.surface (unqualified name) h := by
  have hmore : perform host (steps + 4) (.evaluate (.group [.leaf w, .leaf o, .leaf t])) m =
      .value handles m' := by
    rw [← hr]
    apply completes_perform host (Nat.le_add_right steps 4)
    rw [hr]
    simp
  rw [perform_declaration_leaf host steps ho ht hi htype] at hmore
  obtain ⟨x, m₁, hx, hmore⟩ := Action.exists_of_bind_value hmore
  obtain ⟨h, m₂, hh, hend⟩ := Action.exists_of_bind_value hmore
  obtain ⟨rfl, rfl⟩ := Outcome.value.inj hend
  -- the target has been resolved
  obtain ⟨j, hj, hundefined, rfl⟩ := hname
  rw [resolveLeaf, bind_identifier_apply (m := m.noted _) hj, if_pos hundefined] at hx
  cases hresolve : m.store.resolve j.surface with
  | error e => simp [Machine.resolve, tryStore, hresolve] at hx
  | ok result =>
    obtain ⟨x', s⟩ := result
    simp only [Machine.resolve, tryStore, Machine.store_noted, hresolve, Outcome.value.injEq] at hx
    obtain ⟨rfl, rfl⟩ := hx
    have hw := Store.widens_resolve hs hresolve
    have hbound := Store.bound?_of_resolve hs.placed hresolve
    -- and what has been found has been declared
    obtain ⟨i', s', hi', rfl, hdeclared⟩ := declareAs_cases hh
    rw [Store.surface_eq_unqualified hw.ready.sound hbound hi'] at hdeclared
    obtain ⟨halters, hv⟩ := Store.hasVariable_of_declared hw.ready hdeclared
    exact ⟨h, s, x', rfl, hw.ready, (Store.balanced_resolve hs.placed hresolve).place,
      ⟨j, hw.kept hj, hundefined, rfl⟩, hbound, halters, hv⟩

/-! ## The leaf afterwards -/

/-- What waits has been resolved at the most. -/
theorem Waits.widens {right waiting : Expression} (hs : m.store.Ready)
    (h : Waits m m' right waiting) : m.store.Widens m'.store := by
  cases h with
  | group es hm =>
    rw [hm]
    exact .refl hs
  | leaf hk _ _ =>
    obtain ⟨-, rfl | ⟨i, s, rfl, -, -, -, hresolve⟩⟩ := resolveLeaf_cases hs hk
    · exact .refl hs
    · exact Store.widens_resolve hs hresolve

/-- A leaf refers to a handle: the handle is its value, and an assignment to the leaf, once the
right side has come to a single value, assigns that to the handle. -/
structure RefersTo (host : Host) (m : Machine) (leaf k : Handle) : Prop where
  evaluates : ∀ steps, perform host (steps + 1) (.evaluate (.leaf leaf)) m = .value [k] m
  assigns : ∀ {steps : Nat} {a r : Handle} {right waiting : Expression} {m₁ m₂ : Machine},
    Waits (m.noted [.leaf leaf, .leaf a, right]) m₁ right waiting →
    m₁.store.Between a .assign →
    perform host (steps + 1) (.evaluate waiting) m₁ = .value [r] m₂ →
    perform host (steps + 4) (.evaluate (.group [.leaf leaf, .leaf a, right])) m =
      assignPair (k, r) m₂

theorem refersTo_of_standsFor {leaf : Handle} (hs : m.store.Ready)
    (hk : m.store.StandsFor leaf k) : RefersTo host m leaf k where
  evaluates := fun steps => perform_evaluate_leaf host steps (resolveLeaf_of_standsFor hk)
  assigns := by
    intro steps a r right waiting m₁ m₂ hwaits ha hright
    have hk₁ : m₁.store.StandsFor leaf k := hk.widen hs (hwaits.widens (m := m.noted _) hs)
    have hleft : perform host (steps + 1) (.evaluate (.leaf leaf)) m₁ = .value [k] m₁ :=
      perform_evaluate_leaf host steps (resolveLeaf_of_standsFor hk₁)
    obtain ⟨c, hend⟩ := perform_between host (steps + 1) hwaits ha
    rw [hend]
    change (pairs (perform host (steps + 1)) [.leaf leaf, waiting] >>= concatMap assignPair) m₁ = _
    rw [Action.bind_apply, pairs_of_value hleft hright]
    change concatMap assignPair [(k, r)] m₂ = _
    rw [concatMap_singleton]

end Evaluation

/-- In any state that is reached, when a leaf that is a name, with a namespace in front or not, has
been declared with the named type, the value is a variable of the current frame: of that type, with
the value that the type starts with, and under the name without the namespace. From then on,
whatever is added or assigned, the leaf and all others of the same name refer to one and the same
handle. It is that of the variable exactly if the name is looked up where it has been declared: if
it has no namespace in front, or the current frame is the global frame of that namespace. -/
theorem declared_target_iff {host : Host} {m m' : Machine}
    (hm : Reached host (fun _ => True) m) {w o t k : Handle} {name : String} {i : Identifier}
    (hname : m.store.Names w name) (ho : m.store.Between o .declare)
    (ht : m.store.StandsFor t k) (hi : m.store.arena.get? k = some i) (htype : i.role = .typeName)
    {steps : Nat} {handles : List Handle}
    (hr : perform host steps (.evaluate (.group [.leaf w, .leaf o, .leaf t])) m =
      .value handles m') :
    ∃ h target, handles = [h] ∧ m'.store.HasVariable i.surface (unqualified name) h ∧
      (∀ m'' : Machine, m'.store.Reassigns m''.store → ∀ leaf,
        leaf = w ∨ m''.store.Names leaf name → Evaluation.RefersTo host m'' leaf target) ∧
      (target = h ↔ m.store.scopes.LooksWhereItDeclares name) := by
  obtain ⟨h, s, x, rfl, hs, hplace, hw, hx, ha, hv⟩ :=
    Evaluation.exists_of_declaration hm.ready ho ht hi htype hname hr
  obtain ⟨target, htarget, hiff⟩ := Store.exists_bound?_of_declared ha hx hv
  refine ⟨h, target, rfl, hv, ?_, ?_⟩
  · intro m'' hlater leaf hleaf
    apply Evaluation.refersTo_of_standsFor hlater.ready
    rcases hleaf with rfl | hleaf
    · exact hlater.standsFor ha.ready (hw.standsFor_declared hs ha hv htarget)
    · exact hleaf.standsFor (hlater.bound htarget)
  · rw [hiff, Scopes.LooksWhereItDeclares, Scopes.LooksWhereItDeclares, hplace]

/-- In a block, a name that is a variable outside of it is found as the variable that has just been
declared. -/
theorem declared_target_shadowing :
    let host := Extension.Registry.host []
    let declaration : Operation := .evaluate (.group [.leaf ⟨45, 0⟩, .leaf ⟨46, 0⟩, .leaf ⟨47, 0⟩])
    ∃ m m', Reached host (fun _ => True) m ∧ m.store.depth = 1 ∧
      m.store.scopes.bound? "x" = some ⟨44, 0⟩ ∧
      perform host 4 declaration m = .value [⟨48, 0⟩] m' ∧
      m'.store.HasVariable "double" "x" ⟨48, 0⟩ ∧
      ∀ m'' : Machine, m'.store.Reassigns m''.store → ∀ leaf,
        leaf = ⟨45, 0⟩ ∨ m''.store.Names leaf "x" → Evaluation.RefersTo host m'' leaf ⟨48, 0⟩ := by
  intro host declaration
  have hrun : (perform host 14 (.runTextTopLevel "x :: int\nx = 7\n") (.initial {})).test
      (fun _ m => (perform host 2 (.readText "x :: double\n") m).test fun _ m =>
          decide ([45, 46, 47, 13, 2].map (fun index => m.store.enter.arena.get? ⟨index, 0⟩) =
              [some (.name "x" 0), some (.name "::" 0), some (.name "double" 0),
                some (between "::" .declare), some (.typeName "double")] ∧
            ["x", "::", "double"].map m.store.enter.scopes.bound? =
              [some ⟨44, 0⟩, some ⟨13, 0⟩, some ⟨2, 0⟩] ∧
            m.store.enter.depth = 1 ∧
            (perform host 4 declaration { m with store := m.store.enter }).answer? =
              some ([⟨48, 0⟩] : List Handle))) = true := by
    decide +kernel
  obtain ⟨_, m₀, hend₀, hrun⟩ := Outcome.exists_of_test hrun
  obtain ⟨_, m, hread, hrun⟩ := Outcome.exists_of_test hrun
  obtain ⟨hget, hbound, hdepth, hdeclared⟩ := of_decide_eq_true hrun
  simp only [List.map_cons, List.map_nil, List.cons.injEq, and_true] at hget hbound
  obtain ⟨hx, ho, ht, hcolons, hdouble⟩ := hget
  obtain ⟨hboundx, hboundo, hboundt⟩ := hbound
  have hreached₀ : Reached host (fun _ => True) m₀ :=
    .value (.initial {}) trivial .here hend₀
  have hreached₁ : Reached host (fun _ => True) m :=
    .value hreached₀ trivial .here hread
  have hreached : Reached host (fun _ => True) { m with store := m.store.enter } :=
    .asked hreached₁ trivial (.inside (inside_runBlock _ 0 _ .empty []) .here)
  have hbetween : m.store.enter.Between ⟨46, 0⟩ .declare :=
    ⟨⟨13, 0⟩, _, ⟨_, ho, Store.resolve_of_bound? hboundo⟩, hcolons, rfl, rfl, rfl⟩
  obtain ⟨m', hend⟩ := Outcome.exists_of_answer? hdeclared
  obtain ⟨h, target, hhandles, hv, hrefers, hiff⟩ := declared_target_iff hreached
    ⟨_, hx, rfl, rfl⟩ hbetween ⟨_, ht, Store.resolve_of_bound? hboundt⟩ hdouble rfl hend
  obtain rfl := (List.cons.inj hhandles).1
  obtain rfl : target = ⟨48, 0⟩ := hiff.mpr (Scopes.looksWhereItDeclares_plain (by decide))
  exact ⟨_, m', hreached, hdepth, hboundx, hend, hv, hrefers⟩

/-- After the module `m` has been loaded, `m.x :: int` makes a variable of `x` in the current frame,
and `m.x` still stands for the member of that module, which is not declared. -/
theorem declared_member_is_not_found :
    let host := Extension.Registry.host [("m", [])]
    let declaration : Operation := .evaluate (.group [.leaf ⟨41, 0⟩, .leaf ⟨42, 0⟩, .leaf ⟨43, 0⟩])
    ∃ m m', Reached host (fun _ => True) m ∧ m.store.Names ⟨41, 0⟩ "m.x" ∧
      m.store.Between ⟨42, 0⟩ .declare ∧ m.store.StandsFor ⟨43, 0⟩ ⟨1, 0⟩ ∧
      m.store.arena.get? ⟨1, 0⟩ = some (.typeName "int") ∧
      perform host 4 declaration m = .value [⟨45, 0⟩] m' ∧
      perform host 1 (.evaluate (.leaf ⟨41, 0⟩)) m' = .value [⟨44, 0⟩] m' ∧
      m'.store.arena.get? ⟨44, 0⟩ = some (.name "x" 0) := by
  intro host declaration
  have hrun : (perform host 14 (.runTextTopLevel "include m\n") (.initial {})).test
      (fun _ m => (perform host 2 (.readText "m.x :: int\n") m).test fun _ m =>
          decide ([41, 42, 43, 13, 1].map (fun index => m.store.arena.get? ⟨index, 0⟩) =
              [some (.name "m.x" 0), some (.name "::" 0), some (.name "int" 0),
                some (between "::" .declare), some (.typeName "int")] ∧
            ["::", "int"].map m.store.scopes.bound? = [some ⟨13, 0⟩, some ⟨1, 0⟩] ∧
            (perform host 4 declaration m).answer? = some ([⟨45, 0⟩] : List Handle)) &&
          (perform host 4 declaration m).machine?.any fun m' =>
            decide (m'.store.arena.get? ⟨41, 0⟩ = some (.name "m.x" 0) ∧
              m'.store.scopes.bound? "m.x" = some ⟨44, 0⟩ ∧
              m'.store.arena.get? ⟨44, 0⟩ = some (.name "x" 0))) = true := by
    decide +kernel
  obtain ⟨_, m₀, hend₀, hrun⟩ := Outcome.exists_of_test hrun
  obtain ⟨_, m, hread, hrun⟩ := Outcome.exists_of_test hrun
  obtain ⟨hbefore, hrun⟩ := Bool.and_eq_true_iff.mp hrun
  obtain ⟨hget, hbound, hdeclared⟩ := of_decide_eq_true hbefore
  obtain ⟨m', hmachine'', hrun⟩ := (Option.any_eq_true _ _).mp hrun
  obtain ⟨hleaf, htarget, hundefined⟩ := of_decide_eq_true hrun
  simp only [List.map_cons, List.map_nil, List.cons.injEq, and_true] at hget hbound
  obtain ⟨hx, ho, ht, hcolons, hint⟩ := hget
  obtain ⟨hboundo, hboundt⟩ := hbound
  have hreached₀ : Reached host (fun _ => True) m₀ :=
    .value (.initial {}) trivial .here hend₀
  have hreached : Reached host (fun _ => True) m :=
    .value hreached₀ trivial .here hread
  have hbetween : m.store.Between ⟨42, 0⟩ .declare :=
    ⟨⟨13, 0⟩, _, ⟨_, ho, Store.resolve_of_bound? hboundo⟩, hcolons, rfl, rfl, rfl⟩
  have hstands : m'.store.StandsFor ⟨41, 0⟩ ⟨44, 0⟩ :=
    ⟨_, hleaf, Store.resolve_of_bound? htarget⟩
  exact ⟨m, m', hreached, ⟨_, hx, rfl, rfl⟩, hbetween, ⟨_, ht, Store.resolve_of_bound? hboundt⟩,
    hint, Outcome.eq_value hdeclared hmachine'',
    Evaluation.perform_evaluate_leaf host 0 (Evaluation.resolveLeaf_of_standsFor hstands),
    hundefined⟩

end WordScript
