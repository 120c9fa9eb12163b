import WordScript.Proofs.Coupling
import WordScript.Proofs.ValueLeaves

/-!
# What a declaration changes

Resolving a name and declaring it change nothing but what the current frame binds the name to: what
is bound anew is a new identifier, and what is overwritten is an identifier that was not declared. A
name that may be declared is one that stands for nothing but a name or a variable from further out.
-/

namespace WordScript

namespace Store

/-! ## Changes to some names of the current frame -/

/-- Nothing has changed but what some names stand for in the current frame: new identifiers are bound
to names that were not bound there, and what is overwritten was bound there and not declared. -/
structure Alters (names : List String) (s s' : Store) : Prop where
  ready : s'.Ready
  balanced : s.scopes.Balanced s'.scopes
  elsewhere : ∀ {space : String} {index : Nat}, ¬ (space = s.scopes.place.name ∧ index = s.depth) →
    s'.scopes.frameAt space index = s.scopes.frameAt space index
  temporaries : s'.scopes.currentFrame.temporaries = s.scopes.currentFrame.temporaries
  bindings : ∀ name,
    s'.scopes.currentFrame.names.find? name = s.scopes.currentFrame.names.find? name ∨
      name ∈ names ∧ s.scopes.currentFrame.names.find? name = none ∧
        ∃ h, s'.scopes.currentFrame.names.find? name = some h ∧ ¬ s.arena.InUse h
  inUse : ∀ {h : Handle}, s.arena.InUse h → s'.arena.InUse h
  made : ∀ {h : Handle}, s'.arena.InUse h → s.arena.InUse h ∨
    ∃ name ∈ names, s'.scopes.currentFrame.names.find? name = some h
  kept : ∀ {h : Handle}, s.arena.InUse h → s'.arena.get? h = s.arena.get? h ∨
    ∃ i, s.arena.get? h = some i ∧ i.isUndefined = true ∧
      ∃ name ∈ names, s.scopes.currentFrame.names.find? name = some h

variable {s s' s'' : Store} {names names' : List String} {name : String} {h k : Handle}
  {i : Identifier}

namespace Alters

theorem depth_eq (h : s.Alters names s') : s'.depth = s.depth :=
  congrArg Place.depth h.balanced.place

/-- What was bound in the current frame still is. -/
theorem find? (ha : s.Alters names s')
    (hfind : s.scopes.currentFrame.names.find? name = some h) :
    s'.scopes.currentFrame.names.find? name = some h := by
  rcases ha.bindings name with heq | ⟨-, hnone, -⟩
  · rw [heq, hfind]
  · rw [hfind] at hnone
    cases hnone

/-- What is bound in the current frame now is new, or was bound already. -/
theorem find?_of_inUse (ha : s.Alters names s') (hh : s.arena.InUse h)
    (hfind : s'.scopes.currentFrame.names.find? name = some h) :
    s.scopes.currentFrame.names.find? name = some h := by
  rcases ha.bindings name with heq | ⟨-, -, k, hk, hnew⟩
  · rw [← heq, hfind]
  · obtain rfl := Option.some.inj (hfind.symm.trans hk)
    exact absurd hh hnew

theorem find?_of_not_mem (ha : s.Alters names s') (hname : name ∉ names) :
    s'.scopes.currentFrame.names.find? name = s.scopes.currentFrame.names.find? name := by
  rcases ha.bindings name with heq | ⟨hmem, -, -⟩
  · exact heq
  · exact absurd hmem hname

theorem refl (hs : s.Ready) (names : List String) : s.Alters names s where
  ready := hs
  balanced := .refl _
  elsewhere := fun _ => rfl
  temporaries := rfl
  bindings := fun _ => .inl rfl
  inUse := id
  made := .inl
  kept := fun _ => .inl rfl

theorem mono (ha : s.Alters names s') (hsub : names ⊆ names') : s.Alters names' s' where
  ready := ha.ready
  balanced := ha.balanced
  elsewhere := ha.elsewhere
  temporaries := ha.temporaries
  bindings := fun name => (ha.bindings name).imp_right fun ⟨hmem, hrest⟩ => ⟨hsub hmem, hrest⟩
  inUse := ha.inUse
  made := fun hh => (ha.made hh).imp_right fun ⟨name, hmem, hfind⟩ => ⟨name, hsub hmem, hfind⟩
  kept := fun hh => (ha.kept hh).imp_right fun ⟨i, hi, hundefined, name, hmem, hfind⟩ =>
    ⟨i, hi, hundefined, name, hsub hmem, hfind⟩

theorem trans (ha : s.Alters names s') (ha' : s'.Alters names s'') : s.Alters names s'' where
  ready := ha'.ready
  balanced := ha.balanced.trans ha'.balanced
  elsewhere := by
    intro space index hplace
    have hplace' : ¬ (space = s'.scopes.place.name ∧ index = s'.depth) := by
      rwa [ha.depth_eq, ha.balanced.place]
    rw [ha'.elsewhere hplace', ha.elsewhere hplace]
  temporaries := ha'.temporaries.trans ha.temporaries
  bindings := by
    intro name
    rcases ha.bindings name with heq | ⟨hmem, hnone, k, hk, hnew⟩
    · rcases ha'.bindings name with heq' | ⟨hmem, hnone, k, hk, hnew⟩
      · exact .inl (heq'.trans heq)
      · exact .inr ⟨hmem, heq ▸ hnone, k, hk, fun hh => hnew (ha.inUse hh)⟩
    · exact .inr ⟨hmem, hnone, k, ha'.find? hk, hnew⟩
  inUse := fun hh => ha'.inUse (ha.inUse hh)
  made := by
    intro k hk
    rcases ha'.made hk with hk' | hbound
    · rcases ha.made hk' with hk'' | ⟨name, hmem, hfind⟩
      · exact .inl hk''
      · exact .inr ⟨name, hmem, ha'.find? hfind⟩
    · exact .inr hbound
  kept := by
    intro k hk
    rcases ha'.kept (ha.inUse hk) with heq | ⟨i, hi, hundefined, name, hmem, hfind⟩
    · rw [heq]
      exact ha.kept hk
    · rcases ha.kept hk with heq' | hchanged
      · exact .inr ⟨i, heq' ▸ hi, hundefined, name, hmem, ha.find?_of_inUse hk hfind⟩
      · exact .inr hchanged

/-- An identifier that is declared, or of another name, stays. -/
theorem get? (hs : s.Sound) (ha : s.Alters names s') (hi : s.arena.get? h = some i)
    (hstays : i.isUndefined = false ∨ i.surface ∉ names) : s'.arena.get? h = some i := by
  rcases ha.kept (hs.tidy.inUse (Arena.isLive_of_get? hi)) with
    heq | ⟨j, hj, hundefined, name, hmem, hfind⟩
  · rw [heq, hi]
  · obtain rfl := Option.some.inj (hi.symm.trans hj)
    obtain ⟨rfl, -⟩ := hs.named (Scopes.binds_of_frameAt (Bindings.mem_of_find? hfind)) hi
    rcases hstays with hdefined | hother
    · rw [hundefined] at hdefined
      cases hdefined
    · exact absurd hmem hother

/-- Other plain names stay bound to the same. -/
theorem lookup? (hs : s.Ready) (ha : s.Alters names s') (hname : name ∉ names) :
    s'.scopes.lookup? name = s.scopes.lookup? name := by
  refine hs.placed.lookup?_congr ha.ready.placed ha.balanced.place fun index => ?_
  by_cases hindex : index = s.depth
  · subst hindex
    have hcurrent := ha.find?_of_not_mem hname
    rw [Scopes.currentFrame, ha.balanced.place] at hcurrent
    exact hcurrent
  · rw [ha.elsewhere fun hplace => hindex hplace.2]

/-- What any other name is bound to, it is still bound to. -/
theorem bound? (hs : s.Ready) (ha : s.Alters names s') (hname : name ∉ names)
    (hk : s.scopes.bound? name = some k) : s'.scopes.bound? name = some k := by
  cases hq : qualified? name with
  | none =>
    rw [Scopes.bound?_plain hq] at hk ⊢
    rwa [ha.lookup? hs hname]
  | some p =>
    obtain ⟨space, member⟩ := p
    rw [Scopes.bound?_member hq, Scopes.global?_eq] at hk ⊢
    by_cases hplace : space = s.scopes.place.name ∧ 0 = s.depth
    · -- the member may be one of the names, under which it stays bound
      obtain ⟨rfl, hdepth⟩ := hplace
      have hcurrent : s.scopes.currentFrame.names.find? member = some k := by
        rwa [hdepth] at hk
      have hfind := ha.find? hcurrent
      rw [Scopes.currentFrame, ha.balanced.place] at hfind
      rw [hdepth]
      exact hfind
    · rwa [ha.elsewhere hplace]

end Alters

/-! ## Resolving and declaring -/

theorem currentFrame_define (s : Store) (i : Identifier) :
    (s.define i).2.scopes.currentFrame = { s.scopes.currentFrame with
      names := s.scopes.currentFrame.names.insert i.surface (s.arena.push i).1 } :=
  Scopes.currentFrame_bind s.scopes i.surface _

/-- A name that the current frame does not bind is bound to a new identifier. -/
theorem alters_define (hs : s.Ready)
    (hfree : s.scopes.currentFrame.names.find? i.surface = none) (hscope : i.scope = s.depth) :
    s.Alters [i.surface] (s.define i).2 where
  ready := ⟨hs.sound.bindNew hfree hscope, hs.placed.of_balanced (hs.placed.balanced_current _)⟩
  balanced := hs.placed.balanced_current _
  elsewhere := fun hplace => Scopes.frameAt_modifyFrame_of_ne (by tauto) _
  temporaries := by rw [currentFrame_define]
  bindings := by
    intro name
    rw [currentFrame_define]
    by_cases hname : name = i.surface
    · subst hname
      exact .inr ⟨List.mem_singleton_self _, hfree, _, Bindings.find?_insert_self _ _ _,
        Arena.not_inUse_push hs.sound.tidy i⟩
    · exact .inl (Bindings.find?_insert_of_ne hname _ _)
  inUse := fun hh => (Arena.inUse_push hs.sound.tidy i).mpr (.inr hh)
  made := by
    intro h hh
    rcases (Arena.inUse_push hs.sound.tidy i).mp hh with rfl | hold
    · refine .inr ⟨i.surface, List.mem_singleton_self _, ?_⟩
      rw [currentFrame_define]
      exact Bindings.find?_insert_self _ _ _
    · exact .inl hold
  kept := by
    intro h hh
    refine .inl (Arena.get?_push_of_ne hs.sound.tidy i ?_)
    rintro rfl
    exact Arena.not_inUse_push hs.sound.tidy i hh

/-- Resolving a plain name binds it at the most. -/
theorem alters_resolve (hs : s.Ready) (hplain : qualified? name = none)
    (hr : s.resolve name = .ok (k, s')) : s.Alters [name] s' := by
  rcases resolve_bound?_cases hr with ⟨-, rfl⟩ | ⟨hfree, ⟨space, member, hq, -⟩ | ⟨-, heq⟩⟩
  · exact .refl hs _
  · rw [hplain] at hq
    cases hq
  · obtain ⟨-, rfl⟩ := Prod.mk.inj heq
    rw [Scopes.bound?_plain hplain] at hfree
    exact alters_define hs (i := .name name s.depth)
      (Scopes.find?_currentFrame_of_lookup? hs.placed.visible hfree) rfl

/-- What a name of the current frame is bound to is overwritten, when it was not declared. -/
theorem alters_put {old : Identifier} (hs : s.Ready)
    (hfind : s.scopes.currentFrame.names.find? i.surface = some h)
    (hold : s.arena.get? h = some old) (hundefined : old.isUndefined = true)
    (hscope : i.scope = s.depth) :
    s.Alters [i.surface] { s with arena := s.arena.put h.index i } := by
  obtain ⟨hsurface, hdepth⟩ :=
    hs.sound.named (Scopes.binds_of_frameAt (Bindings.mem_of_find? hfind)) hold
  exact
    { ready := ⟨hs.sound.put hold hsurface.symm (hscope.trans hdepth.symm), hs.placed⟩
      balanced := .refl _
      elsewhere := fun _ => rfl
      temporaries := rfl
      bindings := fun _ => .inl rfl
      inUse := Arena.inUse_put.mpr
      made := fun hh => .inl (Arena.inUse_put.mp hh)
      kept := by
        intro k hk
        by_cases heq : k = h
        · subst heq
          exact .inr ⟨old, hold, hundefined, i.surface, List.mem_singleton_self _, hfind⟩
        · exact .inl (Arena.get?_put_of_ne_handle hs.sound.tidy (Arena.isLive_of_get? hold) heq) }

/-! ## Variables of the current frame -/

/-- The current frame binds the name to a variable of the named type, with the value that the type
starts with. -/
def HasVariable (s : Store) (type name : String) (h : Handle) : Prop :=
  s.scopes.currentFrame.names.find? name = some h ∧
    s.arena.get? h = some ((Identifier.name name 0).asVariable type s.depth)

theorem HasVariable.alters {type : String} (hs : s.Ready) (ha : s.Alters names s')
    (hv : s.HasVariable type name h) : s'.HasVariable type name h := by
  refine ⟨ha.find? hv.1, ?_⟩
  rw [ha.depth_eq]
  exact ha.get? hs.sound hv.2 (.inl rfl)

theorem HasVariable.exists_isVariableAt {type : String} (hv : s.HasVariable type name h) :
    ∃ i, s.arena.get? h = some i ∧ Evaluation.isVariableAt s.depth i = true ∧ i.type = type ∧
      i.isUndefined = false :=
  ⟨_, hv.2, by simp [Evaluation.isVariableAt, Identifier.isVariable, Identifier.asVariable],
    rfl, rfl⟩

/-- A name that has been declared is a variable of the current frame, and nothing else has changed. -/
theorem hasVariable_of_declared {type : String} (hs : s.Ready)
    (hd : s.declared ((Identifier.name name 0).asVariable type 0) = .ok (h, s')) :
    s.Alters [name] s' ∧ s'.HasVariable type name h := by
  obtain ⟨i, hi⟩ : ∃ i, i = (Identifier.name name 0).asVariable type s.depth := ⟨_, rfl⟩
  have hsurface : i.surface = name := by rw [hi]; rfl
  have hscope : i.scope = s.depth := by rw [hi]; rfl
  have hvalid : i.role ≠ .invalid := by simp [hi, Identifier.asVariable]
  have hscoped : { (Identifier.name name 0).asVariable type 0 with scope := s.depth } = i := by
    rw [hi]; rfl
  cases hfind : s.scopes.currentFrame.names.find? name with
  | none =>
    have hfree : s.scopes.currentFrame.names.find? i.surface = none := by rw [hsurface, hfind]
    rw [declared_new hfind, hscoped] at hd
    obtain rfl : (s.define i).1 = h := congrArg Prod.fst (Except.ok.inj hd)
    obtain rfl : (s.define i).2 = s' := congrArg Prod.snd (Except.ok.inj hd)
    refine ⟨hsurface ▸ alters_define hs hfree hscope, ?_, ?_⟩
    · rw [currentFrame_define, hsurface]
      exact Bindings.find?_insert_self _ _ _
    · exact (Arena.get?_push_self hs.sound.tidy hvalid).trans (by rw [hi]; rfl)
  | some k =>
    have hfind' : s.scopes.currentFrame.names.find? i.surface = some k := by rw [hsurface, hfind]
    rw [declared_bound hfind, hscoped] at hd
    cases hold : s.arena.get? k with
    | none => simp [hold] at hd
    | some old =>
      by_cases hundefined : old.isUndefined = true
      · simp only [hold, hundefined, if_true] at hd
        obtain ⟨rfl, rfl⟩ := Prod.mk.inj (Except.ok.inj hd)
        refine ⟨hsurface ▸ alters_put hs hfind' hold hundefined hscope, hfind, ?_⟩
        exact (Arena.get?_put_self (Arena.isLive_of_get? hold) hvalid).trans (by rw [hi]; rfl)
      · simp [hold, hundefined] at hd

/-! ## Names that may be declared -/

/-- The name has no namespace in front; it is bound to nothing but a name that is not declared or a
variable, and to no variable in the current frame. -/
structure Declarable (s : Store) (name : String) : Prop where
  plain : qualified? name = none
  bound : ∀ {k : Handle}, s.scopes.bound? name = some k →
    ∃ i, s.arena.get? k = some i ∧ (i.isUndefined = true ∨ i.isVariable = true)
  free : ∀ {k : Handle} {i : Identifier}, s.scopes.currentFrame.names.find? name = some k →
    s.arena.get? k = some i → i.isVariable = false

/-- What a plain name is bound to has that name. -/
theorem surface_of_bound? (hs : s.Sound) (hplain : qualified? name = none)
    (hk : s.scopes.bound? name = some k) (hi : s.arena.get? k = some i) : i.surface = name := by
  rw [Scopes.bound?_plain hplain] at hk
  obtain ⟨index, hbinds⟩ := Scopes.binds_of_lookup? hk
  exact (hs.named hbinds hi).1

namespace Declarable

/-- What the current frame binds the name to is not declared. -/
theorem isUndefined (hs : s.Ready) (hd : s.Declarable name)
    (hfind : s.scopes.currentFrame.names.find? name = some k) :
    ∃ i, s.arena.get? k = some i ∧ i.isUndefined = true := by
  have hbound : s.scopes.bound? name = some k := by
    rw [Scopes.bound?_plain hd.plain]
    exact hs.placed.lookup?_of_currentFrame hfind
  obtain ⟨i, hi, hundefined | hvariable⟩ := hd.bound hbound
  · exact ⟨i, hi, hundefined⟩
  · rw [hd.free hfind hi] at hvariable
    cases hvariable

/-- What the name is bound to is no variable of the current frame. -/
theorem not_isVariableAt (hs : s.Ready) (hd : s.Declarable name)
    (hk : s.scopes.bound? name = some k) (hi : s.arena.get? k = some i) :
    Evaluation.isVariableAt s.depth i = false := by
  rw [Scopes.bound?_plain hd.plain] at hk
  obtain ⟨index, -, frame, hframe, hfind⟩ := Scopes.exists_of_lookup? hk
  have hbinds := Scopes.binds_of_frames _ hframe (Bindings.mem_of_find? hfind)
  obtain ⟨-, hscope⟩ := hs.sound.named hbinds hi
  by_cases hdepth : index = s.depth
  · subst hdepth
    have hcurrent : s.scopes.currentFrame.names.find? name = some k := by
      rw [Scopes.currentFrame, show s.scopes.place.depth = s.depth from rfl, hframe]
      exact hfind
    simp [Evaluation.isVariableAt, hd.free hcurrent hi]
  · simp [Evaluation.isVariableAt, hscope, hdepth]

/-- What the name is bound to stands for itself. -/
theorem standsFor (hs : s.Ready) (hd : s.Declarable name) (hk : s.scopes.bound? name = some k) :
    s.StandsFor k k := by
  obtain ⟨i, hi, -⟩ := hd.bound hk
  refine ⟨i, hi, ?_⟩
  split
  · rw [surface_of_bound? hs.sound hd.plain hk hi]
    exact resolve_of_bound? hk
  · rfl

/-- What the name is bound to is no function. -/
theorem isFunction_eq_false (hd : s.Declarable name) (hk : s.scopes.bound? name = some k)
    (hi : s.arena.get? k = some i) : i.isFunction = false := by
  obtain ⟨j, hj, hrole⟩ := hd.bound hk
  obtain rfl := Option.some.inj (hi.symm.trans hj)
  simp only [Identifier.isUndefined, Identifier.isVariable, decide_eq_true_eq] at hrole
  rcases hrole with hrole | hrole <;> simp [Identifier.isFunction, hrole]

/-- A leaf with the name can be resolved. -/
theorem valueLeaf (hd : s.Declarable name) (hname : s.Names h name) : s.ValueLeaf h := by
  obtain ⟨i, hi, hundefined, rfl⟩ := hname
  refine ⟨i, hi, ?_⟩
  rw [if_pos hundefined]
  refine ⟨hd.plain, fun k hk => ?_⟩
  obtain ⟨j, hj, -⟩ := hd.bound hk
  exact ⟨j, hj, hd.isFunction_eq_false hk hj⟩

/-- Changes to other names make no difference. -/
theorem alters (hs : s.Ready) (ha : s.Alters names s') (hname : name ∉ names)
    (hd : s.Declarable name) : s'.Declarable name := by
  have hbound : s'.scopes.bound? name = s.scopes.bound? name := by
    rw [Scopes.bound?_plain hd.plain, Scopes.bound?_plain hd.plain, ha.lookup? hs hname]
  have hkept : ∀ {k i}, s.scopes.bound? name = some k → s.arena.get? k = some i →
      s'.arena.get? k = some i := by
    intro k i hk hi
    refine ha.get? hs.sound hi (.inr ?_)
    rwa [surface_of_bound? hs.sound hd.plain hk hi]
  refine ⟨hd.plain, ?_, ?_⟩
  · intro k hk
    rw [hbound] at hk
    obtain ⟨i, hi, hrole⟩ := hd.bound hk
    exact ⟨i, hkept hk hi, hrole⟩
  · intro k i hfind hi
    rw [ha.find?_of_not_mem hname] at hfind
    obtain ⟨j, hj, hundefined⟩ := hd.isUndefined hs hfind
    have hk : s.scopes.bound? name = some k := by
      rw [Scopes.bound?_plain hd.plain]
      exact hs.placed.lookup?_of_currentFrame hfind
    obtain rfl := Option.some.inj ((hkept hk hj).symm.trans hi)
    exact hd.free hfind hj

/-- A name that is resolved may still be declared. -/
theorem resolve (hs : s.Ready) {other : String} (hplain : qualified? other = none)
    (hr : s.resolve other = .ok (k, s')) (hd : s.Declarable name) : s'.Declarable name := by
  by_cases hname : name = other
  · subst hname
    rcases resolve_bound?_cases hr with ⟨-, rfl⟩ | ⟨hfree, ⟨space, member, hq, -⟩ | ⟨-, heq⟩⟩
    · exact hd
    · rw [hplain] at hq
      cases hq
    · have hk := bound?_of_resolve hs.placed hr
      have hnew : s'.arena.get? k = some (.name name s.depth) := by
        obtain ⟨rfl, rfl⟩ := Prod.mk.inj heq
        exact Arena.get?_push_self hs.sound.tidy (by simp [Identifier.name])
      have hs' := (alters_resolve hs hplain hr).ready
      refine ⟨hplain, ?_, ?_⟩
      · intro k' hk'
        obtain rfl := Option.some.inj (hk.symm.trans hk')
        exact ⟨_, hnew, .inl rfl⟩
      · intro k' i hfind hi
        rw [Scopes.bound?_plain hplain] at hk
        obtain rfl := Option.some.inj (hk.symm.trans (hs'.placed.lookup?_of_currentFrame hfind))
        obtain rfl := Option.some.inj (hnew.symm.trans hi)
        rfl
  · exact hd.alters hs (alters_resolve hs hplain hr) (by simpa using hname)

/-- The name can be declared, under the handle that the current frame binds it to or a new one. -/
theorem exists_declared (hs : s.Ready) (hd : s.Declarable name) (type : String) :
    ∃ h s', s.declared ((Identifier.name name 0).asVariable type 0) = .ok (h, s') ∧
      s.Alters [name] s' ∧ s'.HasVariable type name h := by
  have hresult : ∃ result, s.declared ((Identifier.name name 0).asVariable type 0) = .ok result := by
    cases hfind : s.scopes.currentFrame.names.find? name with
    | none => exact ⟨_, declared_new hfind⟩
    | some h =>
      obtain ⟨old, hold, hundefined⟩ := hd.isUndefined hs hfind
      apply Exists.intro
      rw [declared_bound hfind]
      simp only [hold, hundefined, if_true]
      rfl
  obtain ⟨⟨h, s'⟩, hdeclared⟩ := hresult
  exact ⟨h, s', hdeclared, hasVariable_of_declared hs hdeclared⟩

end Declarable

/-- Leaves with names that may be declared can be resolved. -/
theorem valueLeaf_of_names {leaves : List Handle} (hleaves : List.Forall₂ s.Names leaves names)
    (hnames : ∀ name ∈ names, s.Declarable name) : ∀ h ∈ leaves, s.ValueLeaf h := by
  intro h hh
  obtain ⟨name, hmem, hname⟩ := exists_of_forall₂ hleaves hh
  exact (hnames name hmem).valueLeaf hname

theorem Names.alters (hs : s.Ready) (ha : s.Alters names s') (hname : name ∉ names)
    (hh : s.Names h name) : s'.Names h name := by
  obtain ⟨i, hi, hundefined, rfl⟩ := hh
  exact ⟨i, ha.get? hs.sound hi (.inr hname), hundefined, rfl⟩

/-- What a leaf stands for is what its name is bound to. -/
theorem Names.bound?_of_standsFor (hs : s.Ready) (hname : s.Names h name)
    (hk : s.StandsFor h k) : s.scopes.bound? name = some k := by
  obtain ⟨i, hi, hundefined, rfl⟩ := hname
  obtain ⟨j, hj, hstands⟩ := hk
  obtain rfl := Option.some.inj (hi.symm.trans hj)
  rw [if_pos hundefined] at hstands
  exact (resolve_eq_iff hs).mp hstands

/-- A function stays between its operands when names are declared. -/
theorem Between.alters {o : Handle} {op : Builtin} (hs : s.Ready) (ha : s.Alters names s')
    (hnames : ∀ name ∈ names, s.Declarable name) (ho : s.Between o op) : s'.Between o op := by
  obtain ⟨k, f, ⟨i, hi, hstands⟩, hf, hfunction, hrest⟩ := ho
  have hdefined : f.isUndefined = false := by
    simp only [Identifier.isFunction, decide_eq_true_eq] at hfunction
    simp [Identifier.isUndefined, hfunction]
  have hf' := ha.get? hs.sound hf (.inl hdefined)
  refine ⟨k, f, ?_, hf', hfunction, hrest⟩
  by_cases hundefined : i.isUndefined
  · rw [if_pos hundefined, resolve_eq_iff hs] at hstands
    have hother : i.surface ∉ names := by
      intro hmem
      rw [(hnames _ hmem).isFunction_eq_false hstands hf] at hfunction
      cases hfunction
    refine ⟨i, ha.get? hs.sound hi (.inr hother), ?_⟩
    rw [if_pos hundefined]
    exact resolve_of_bound? (ha.bound? hs hother hstands)
  · rw [if_neg hundefined] at hstands
    subst hstands
    exact standsFor_self hf' hdefined

/-! ## Lists of names -/

theorem Introduces.alters (hs : s.Ready) (h : Introduces names s s')
    (hplain : ∀ name ∈ names, qualified? name = none) : s.Alters names s' := by
  induction h with
  | nil => exact .refl hs _
  | cons _ hr _ ih =>
    have ha := alters_resolve hs (hplain _ (List.mem_cons_self ..)) hr
    refine (ha.mono (by simp)).trans ?_
    exact (ih ha.ready fun name hname => hplain name (List.mem_cons_of_mem _ hname)).mono
      (List.subset_cons_self _ _)

theorem Introduces.declarable (hs : s.Ready) (h : Introduces names s s')
    (hplain : ∀ name ∈ names, qualified? name = none) (hd : s.Declarable name) :
    s'.Declarable name := by
  induction h with
  | nil => exact hd
  | cons _ hr _ ih =>
    have hfirst := hplain _ (List.mem_cons_self ..)
    refine ih (alters_resolve hs hfirst hr).ready ?_ (hd.resolve hs hfirst hr)
    exact fun name hname => hplain name (List.mem_cons_of_mem _ hname)

/-- When leaves with names that may be declared have been resolved, nothing has changed but for those
names, and they may still be declared. -/
theorem BindsNamesOf.declarable {leaves ks : List Handle} (hs : s.Ready)
    (hleaves : List.Forall₂ s.Names leaves names) (hnames : ∀ name ∈ names, s.Declarable name)
    (h : s.BindsNamesOf leaves s') (hks : List.Forall₂ s'.StandsFor leaves ks) :
    s.Alters names s' ∧ (∀ name ∈ names, s'.Declarable name) ∧
      List.Forall₂ (fun name k => s'.scopes.bound? name = some k) names ks := by
  have hw := h.widens hs
  have hkept : ∀ {leaf name}, s.Names leaf name → s'.Names leaf name :=
    fun ⟨i, hi, hnamed⟩ => ⟨i, hw.kept hi, hnamed⟩
  obtain ⟨introduced, hintroduces, hof⟩ := h
  have hsub : introduced ⊆ names := by
    intro name hname
    obtain ⟨leaf, hleaf, hnamed⟩ := hof name hname
    obtain ⟨name', hname', hnamed'⟩ := exists_of_forall₂ hleaves hleaf
    rwa [hnamed.eq (hkept hnamed')]
  have hplain : ∀ name ∈ introduced, qualified? name = none :=
    fun name hname => (hnames name (hsub hname)).plain
  refine ⟨(hintroduces.alters hs hplain).mono hsub,
    fun name hname => hintroduces.declarable hs hplain (hnames name hname), ?_⟩
  refine forall₂_of_common ?_ hleaves hks
  exact fun leaf _ name k hname hk => (hkept hname).bound?_of_standsFor hw.ready hk

end Store

end WordScript
