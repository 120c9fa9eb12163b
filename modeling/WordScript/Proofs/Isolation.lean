import WordScript.Proofs.Closure
import WordScript.Proofs.Trace

/-!
# Isolation of modules

A module is carried out at the global frame of a namespace, on the same arena and among the same
scopes as whoever includes it. As long as it uses plain names only, and none of them stands for a
function that includes modules, all that it does stays in that namespace: its names stand for
nothing that another namespace owns, and so nothing of the others is ever changed.
-/

namespace WordScript

/-- What a program uses: the plain names that it mentions, and the functions of the host that it
registers or calls. -/
structure Usage where
  Name : String → Prop
  Label : Native → Prop
  plain : ∀ name, Name name → '.' ∉ name.toList

/-- If it is a function, calling it loads no modules, and calls no function of the host but those in
use. -/
def Identifier.CallsOnly (u : Usage) (i : Identifier) : Prop :=
  i.isFunction = true →
    ¬ i.LoadsModules ∧ ∀ label, i.callable? = some (.native label) → u.Label label

/-- The identifier stands for nothing but what is used. -/
structure Identifier.KeepsTo (u : Usage) (i : Identifier) : Prop where
  name : i.isUndefined = true → u.Name i.surface
  calls : i.CallsOnly u

/-- What a module may ask for: to resolve names, to declare and add identifiers and to run texts, in
all of which nothing stands but what is used. -/
def Operation.KeepsTo (u : Usage) : Operation → Prop
  | .resolve name => u.Name name
  | .declare i => i.KeepsTo u
  | .registerFunction name isInfix label =>
    (Identifier.function name "any" isInfix (.native label)).KeepsTo u
  | .registerConstant name i => Identifier.KeepsTo u { i with surface := name }
  | .push i => i.KeepsTo u
  | .runText text | .runTextTopLevel text =>
    ∀ i ∈ Statement.written text, i.isUndefined = true → u.Name i.surface
  | _ => False

/-- The handle that an operation on names or identifiers answers with. -/
def Operation.handlesIn : (op : Operation) → op.Answer → List Handle
  | .resolve _, h => [h]
  | .declare _, h => [h]
  | .registerFunction _ _ _, h => [h]
  | .registerConstant _ _, h => [h]
  | .push _, h => [h]
  | _, _ => []

/-- A script asks only operations that are allowed, whatever it is answered, and what it gives meets
a condition on the handles that it has been answered with. -/
def Script.Confined {α : Type} (allowed : Operation → Prop) (within : List Handle → α → Prop) :
    Script α → List Handle → Prop
  | .finish (.ok a), known => within known a
  | .finish (.error _), _ => True
  | .ask op next, known => allowed op ∧ (∀ e, (next (.error e)).Confined allowed within known) ∧
      ∀ a, (next (.ok a)).Confined allowed within (op.handlesIn a ++ known)

namespace Scopes

theorem frameAt_of_find?_eq {s s' : Scopes} {space : String}
    (h : s'.namespaces.find? space = s.namespaces.find? space) (index : Nat) :
    s'.frameAt space index = s.frameAt space index := by
  simp only [frameAt, frames, h]

theorem find?_modifyFrame_of_ne {s : Scopes} {space other : String} (hne : other ≠ space)
    (index : Nat) (f : Frame → Frame) :
    (s.modifyFrame space index f).namespaces.find? other = s.namespaces.find? other := by
  rw [modifyFrame_eq, find?_setFrames, if_neg hne]

theorem find?_leave?_of_ne {s s' : Scopes} {frame : Frame} (hl : s.leave? = some (frame, s'))
    {other : String} (hne : other ≠ s.place.name) :
    s'.namespaces.find? other = s.namespaces.find? other := by
  unfold leave? at hl
  split at hl
  · contradiction
  · cases hl
    exact (find?_setFrames s _ other _).trans (if_neg hne)

theorem name_leave? {s s' : Scopes} {frame : Frame} (hl : s.leave? = some (frame, s')) :
    s'.place.name = s.place.name := by
  unfold leave? at hl
  split at hl
  · contradiction
  · cases hl
    rfl

theorem mem_held_of_frameAt {s : Scopes} {space : String} {index : Nat} {h : Handle}
    (hh : h ∈ (s.frameAt space index).handles) : h ∈ s.held := by
  unfold frameAt frames at hh
  cases hfs : s.namespaces.find? space with
  | none => simp [hfs] at hh
  | some fs =>
    cases hframe : fs[index]? with
    | none => simp [hfs, hframe] at hh
    | some frame =>
      simp only [hfs, hframe, Option.getD_some] at hh
      exact List.mem_flatMap.mpr ⟨_, Bindings.mem_of_find? hfs,
        List.mem_flatMap.mpr ⟨frame, List.mem_of_getElem? hframe, hh⟩⟩

/-- When nothing is held twice, two namespaces hold nothing in common. -/
theorem not_mem_frameAt_of_ne {s : Scopes} (hs : s.held.Nodup) {space other : String}
    (hne : other ≠ space) {index k : Nat} {h : Handle}
    (hother : h ∈ (s.frameAt other k).handles) : h ∉ (s.frameAt space index).handles := by
  obtain ⟨rest, hheld, hset⟩ := s.held_setFrames space
  have hdisjoint := (List.nodup_append.mp (hheld.nodup_iff.mp hs)).2.2
  -- without the frames of the namespace, its handles are gone, and those of the others are not
  have hrest : h ∈ rest := by
    have hmem : h ∈ ((s.setFrames space []).frameAt other k).handles := by
      rwa [frameAt_of_find?_eq ((find?_setFrames s space other []).trans (if_neg hne))]
    simpa using (hset []).mem_iff.mp (mem_held_of_frameAt hmem)
  intro hspace
  refine hdisjoint h ?_ h hrest rfl
  unfold frameAt at hspace
  cases hframe : (s.frames space)[index]? with
  | none => simp [hframe] at hspace
  | some frame =>
    rw [hframe, Option.getD_some] at hspace
    exact List.mem_flatMap.mpr ⟨frame, List.mem_of_getElem? hframe, hspace⟩

end Scopes

namespace Store

/-- A frame of another namespace holds the handle. -/
def HeldElsewhere (s : Store) (space : String) (h : Handle) : Prop :=
  ∃ other, other ≠ space ∧ ∃ index, h ∈ (s.scopes.frameAt other index).handles

/-- Nothing but what is used has been added, and nothing has been changed that belongs to other
namespaces. -/
structure Isolated (u : Usage) (space : String) (s s' : Store) : Prop where
  others : ∀ other, other ≠ space →
    s'.scopes.namespaces.find? other = s.scopes.namespaces.find? other
  owned : ∀ h, s.HeldElsewhere space h → s'.arena.get? h = s.arena.get? h
  adds : s.arena.Adds (Identifier.KeepsTo u) s'.arena

/-- Execution is in a namespace in which the names that are used stand for nothing but what is
used. -/
structure Within (u : Usage) (space : String) (s : Store) : Prop where
  sound : s.Sound
  place : s.scopes.place.name = space
  names : ∀ index name h, (name, h) ∈ (s.scopes.frameAt space index).names → u.Name name →
    ∀ i, s.arena.get? h = some i → i.KeepsTo u

/-- The handle belongs to no other namespace, and refers to nothing but what is used. -/
structure Safe (u : Usage) (space : String) (s : Store) (h : Handle) : Prop where
  own : ¬ s.HeldElsewhere space h
  keepsTo : ∀ i, s.arena.get? h = some i → i.KeepsTo u

variable {u : Usage} {space : String} {s s' s'' : Store}

theorem HeldElsewhere.inUse (hs : s.Sound) {h : Handle} (hh : s.HeldElsewhere space h) :
    s.arena.InUse h := by
  obtain ⟨other, -, index, hmem⟩ := hh
  exact hs.inUse h (Scopes.mem_held_of_frameAt hmem)

theorem Isolated.heldElsewhere (h : s.Isolated u space s') {k : Handle} :
    s'.HeldElsewhere space k ↔ s.HeldElsewhere space k := by
  have hframe : ∀ other, other ≠ space → ∀ index, s'.scopes.frameAt other index =
      s.scopes.frameAt other index :=
    fun other hne index => Scopes.frameAt_of_find?_eq (h.others other hne) index
  constructor
  · rintro ⟨other, hne, index, hmem⟩
    exact ⟨other, hne, index, by rwa [hframe other hne] at hmem⟩
  · rintro ⟨other, hne, index, hmem⟩
    exact ⟨other, hne, index, by rwa [hframe other hne]⟩

theorem Isolated.refl (s : Store) : s.Isolated u space s :=
  ⟨fun _ _ => rfl, fun _ _ => rfl, .refl _ _⟩

theorem Isolated.trans (h : s.Isolated u space s') (h' : s'.Isolated u space s'') :
    s.Isolated u space s'' where
  others := fun other hne => (h'.others other hne).trans (h.others other hne)
  owned := fun k hk => (h'.owned k (h.heldElsewhere.mpr hk)).trans (h.owned k hk)
  adds := h.adds.trans h'.adds

theorem Safe.mono (hstep : s.Isolated u space s') {h : Handle} (hh : s.Safe u space h) :
    s'.Safe u space h where
  own := fun helse => hh.own (hstep.heldElsewhere.mp helse)
  keepsTo := fun i hi => (hstep.adds h i hi).elim (hh.keepsTo i) id

/-- What is bound in the namespace is safe, as far as the names are used. -/
theorem Within.safe (hs : s.Within u space) {name : String} (hname : u.Name name) {index : Nat}
    {h : Handle} (hmem : (name, h) ∈ (s.scopes.frameAt space index).names) : s.Safe u space h where
  own := by
    rintro ⟨other, hne, k, hother⟩
    exact Scopes.not_mem_frameAt_of_ne hs.sound.nodup hne hother
      (Frame.mem_handles.mpr (.inl ⟨name, hmem⟩))
  keepsTo := hs.names index name h hmem hname

/-- Execution stays within the namespace when nothing but what is used gets bound there. -/
theorem Within.of_isolated (hs : s.Within u space) (hstep : s.Isolated u space s')
    (hsound : s'.Sound) (hplace : s'.scopes.place.name = s.scopes.place.name)
    (hnames : ∀ index name h, (name, h) ∈ (s'.scopes.frameAt space index).names →
      (name, h) ∈ (s.scopes.frameAt space index).names ∨
        ∀ i, s'.arena.get? h = some i → i.KeepsTo u) : s'.Within u space where
  sound := hsound
  place := hplace.trans hs.place
  names := by
    intro index name h hmem hname i hi
    rcases hnames index name h hmem with hmem | hnew
    · exact (hstep.adds h i hi).elim (hs.names index name h hmem hname i) id
    · exact hnew i hi

/-! ## Adding and overwriting identifiers -/

/-- A frame of the namespace takes the handle of a new identifier. -/
theorem Within.hold (hs : s.Within u space) {i : Identifier} (hi : i.KeepsTo u) {index : Nat}
    {f : Frame → Frame}
    (hsound : Sound ⟨(s.arena.push i).2, s.scopes.modifyFrame space index f⟩)
    (hnames : ∀ b ∈ (f (s.scopes.frameAt space index)).names,
      b ∈ (s.scopes.frameAt space index).names ∨ b.2 = (s.arena.push i).1) :
    Within u space ⟨(s.arena.push i).2, s.scopes.modifyFrame space index f⟩ ∧
      s.Isolated u space ⟨(s.arena.push i).2, s.scopes.modifyFrame space index f⟩ ∧
      Safe u space ⟨(s.arena.push i).2, s.scopes.modifyFrame space index f⟩ (s.arena.push i).1 := by
  have htidy := hs.sound.tidy
  have hnew := Arena.not_inUse_push htidy i
  have hkeeps : ∀ j, (s.arena.push i).2.get? (s.arena.push i).1 = some j → j.KeepsTo u := by
    intro j hj
    obtain rfl := Arena.eq_of_get?_push htidy hj
    exact hi
  have hstep : s.Isolated u space ⟨(s.arena.push i).2, s.scopes.modifyFrame space index f⟩ := by
    refine ⟨fun other hne => Scopes.find?_modifyFrame_of_ne hne index f, fun h hh => ?_,
      Arena.adds_push htidy hi⟩
    exact Arena.get?_push_of_ne htidy i fun heq => hnew (heq ▸ hh.inUse hs.sound)
  refine ⟨hs.of_isolated hstep hsound rfl fun k name h hmem => ?_, hstep, ?_, hkeeps⟩
  · change (name, h) ∈ ((s.scopes.modifyFrame space index f).frameAt space k).names at hmem
    by_cases hk : k = index
    · subst hk
      rw [Scopes.frameAt_modifyFrame_self] at hmem
      rcases hnames _ hmem with hmem | rfl
      · exact .inl hmem
      · exact .inr hkeeps
    · rw [Scopes.frameAt_modifyFrame_of_ne (.inr hk)] at hmem
      exact .inl hmem
  · intro helse
    exact hnew ((hstep.heldElsewhere.mp helse).inUse hs.sound)

/-- A name that is not bound in a frame of the namespace is bound there to a new identifier. -/
theorem Within.bindNew (hs : s.Within u space) {i : Identifier} (hi : i.KeepsTo u) {index : Nat}
    (hname : (s.scopes.frameAt space index).names.find? i.surface = none)
    (hscope : i.scope = index) :
    let s' : Store := ⟨(s.arena.push i).2, s.scopes.modifyFrame space index fun f =>
      { f with names := f.names.insert i.surface (s.arena.push i).1 }⟩
    s'.Within u space ∧ s.Isolated u space s' ∧ s'.Safe u space (s.arena.push i).1 := by
  refine hs.hold hi (hs.sound.bindNew hname hscope) ?_
  rintro ⟨name, h⟩ hb
  rcases Bindings.mem_insert hb with hb | ⟨-, rfl⟩
  · exact .inl hb
  · exact .inr rfl

/-- An identifier that belongs to no other namespace is overwritten by one of its name and depth. -/
theorem Within.put (hs : s.Within u space) {h : Handle} {old i : Identifier}
    (hown : ¬ s.HeldElsewhere space h) (hold : s.arena.get? h = some old) (hi : i.KeepsTo u)
    (hsurface : i.surface = old.surface) (hscope : i.scope = old.scope) :
    Within u space { s with arena := s.arena.put h.index i } ∧
      s.Isolated u space { s with arena := s.arena.put h.index i } := by
  have hl := Arena.isLive_of_get? hold
  have hstep : s.Isolated u space { s with arena := s.arena.put h.index i } := by
    refine ⟨fun _ _ => rfl, fun k hk => ?_, Arena.adds_put hs.sound.tidy hl hi⟩
    exact Arena.get?_put_of_ne_handle hs.sound.tidy hl (by rintro rfl; exact hown hk)
  exact ⟨hs.of_isolated hstep (hs.sound.put hold hsurface hscope) rfl fun _ _ _ => .inl, hstep⟩

/-! ## Operations on the store -/

/-- A plain name stands for something that no other namespace owns. -/
theorem Within.resolve (hs : s.Within u space) {name : String} (hname : u.Name name) {h : Handle}
    (hr : s.resolve name = .ok (h, s')) :
    s'.Within u space ∧ s.Isolated u space s' ∧ s'.Safe u space h := by
  simp only [Store.resolve, qualified?_eq_none (u.plain name hname)] at hr
  split at hr
  · next k hk =>
    cases hr
    obtain ⟨index, -, frame, hframe, hfind⟩ := Scopes.exists_of_lookup? hk
    have hmem : (name, h) ∈ (s.scopes.frameAt space index).names := by
      rw [hs.place] at hframe
      rw [Scopes.frameAt, hframe]
      exact Bindings.mem_of_find? hfind
    exact ⟨hs, .refl s, hs.safe hname hmem⟩
  · next hk =>
    cases hr
    obtain rfl := hs.place
    refine hs.bindNew (i := .name name s.depth) ⟨fun _ => hname, ?_⟩
      (Scopes.find?_currentFrame_of_lookup? hs.sound.visible hk) rfl
    simp [Identifier.CallsOnly, Identifier.isFunction, Identifier.name]

theorem Within.declare (hs : s.Within u space) {i : Identifier}
    (hi : Identifier.KeepsTo u { i with scope := s.depth }) {h : Handle}
    (hd : s.declare i = .ok (some (h, s'))) :
    s'.Within u space ∧ s.Isolated u space s' ∧ s'.Safe u space h := by
  obtain rfl := hs.place
  have hsound := hs.sound.declare hd
  rcases declare_cases hd with ⟨hfind, heq⟩ | ⟨old, hfind, hold, -, rfl⟩
  · obtain ⟨rfl, rfl⟩ := Prod.mk.inj heq
    exact hs.bindNew hi hfind rfl
  · have hmem := Bindings.mem_of_find? hfind
    have hown : ¬ s.HeldElsewhere s.scopes.place.name h := by
      rintro ⟨other, hne, k, hother⟩
      exact Scopes.not_mem_frameAt_of_ne hs.sound.nodup hne hother
        (Frame.mem_handles.mpr (.inl ⟨i.surface, hmem⟩))
    obtain ⟨hsurface, hscope⟩ := hs.sound.named (Scopes.binds_of_frameAt hmem) hold
    obtain ⟨hwithin, hstep⟩ := hs.put hown hold hi hsurface.symm hscope.symm
    refine ⟨hwithin, hstep, fun helse => hown (hstep.heldElsewhere.mp helse), fun j hj => ?_⟩
    obtain rfl := Arena.eq_of_get?_put (Arena.isLive_of_get? hold) hj
    exact hi

theorem Within.pushTemporary (hs : s.Within u space) {i : Identifier} (hi : i.KeepsTo u) :
    (s.pushTemporary i).2.Within u space ∧ s.Isolated u space (s.pushTemporary i).2 ∧
      (s.pushTemporary i).2.Safe u space (s.pushTemporary i).1 := by
  obtain rfl := hs.place
  exact hs.hold hi (hs.sound.pushTemporary i) fun _ => .inl

theorem Within.pushAll (hs : s.Within u space) {is : List Identifier}
    (his : ∀ i ∈ is, i.KeepsTo u) :
    Within u space { s with arena := (s.arena.pushAll is).2 } ∧
      s.Isolated u space { s with arena := (s.arena.pushAll is).2 } ∧
      ∀ h ∈ (s.arena.pushAll is).1, Safe u space { s with arena := (s.arena.pushAll is).2 } h := by
  induction is generalizing s with
  | nil => exact ⟨hs, .refl s, by simp [Arena.pushAll]⟩
  | cons i is ih =>
    have hi := his i (by simp)
    have htidy := hs.sound.tidy
    have hnew := Arena.not_inUse_push htidy i
    have hstep : s.Isolated u space (s.push i).2 := by
      refine ⟨fun _ _ => rfl, fun h hh => ?_, Arena.adds_push htidy hi⟩
      exact Arena.get?_push_of_ne htidy i fun heq => hnew (heq ▸ hh.inUse hs.sound)
    have hsafe : (s.push i).2.Safe u space (s.push i).1 := by
      refine ⟨fun helse => hnew ((hstep.heldElsewhere.mp helse).inUse hs.sound), fun j hj => ?_⟩
      obtain rfl := Arena.eq_of_get?_push htidy hj
      exact hi
    obtain ⟨hwithin, hrest, hall⟩ := ih
      (hs.of_isolated hstep (hs.sound.push i) rfl fun _ _ _ => .inl)
      fun j hj => his j (List.mem_cons_of_mem i hj)
    refine ⟨hwithin, hstep.trans hrest, fun h hmem => ?_⟩
    rcases List.mem_cons.mp hmem with rfl | hmem
    · exact hsafe.mono hrest
    · exact hall h hmem

theorem Within.enter (hs : s.Within u space) : s.enter.Within u space where
  sound := hs.sound.enter
  place := hs.place
  names := by
    intro index name h hmem
    exact hs.names index name h (by rwa [Store.enter, Scopes.frameAt_enter] at hmem)

theorem Isolated.of_enter (hs : s.Within u space) (h : s.enter.Isolated u space s') :
    s.Isolated u space s' where
  others := by
    intro other hne
    rw [h.others other hne]
    exact (Scopes.find?_setFrames _ _ other _).trans (if_neg (by rwa [hs.place]))
  owned := by
    rintro k ⟨other, hne, index, hmem⟩
    exact h.owned k ⟨other, hne, index, by rwa [Store.enter, Scopes.frameAt_enter]⟩
  adds := h.adds

/-- Leaving a block destroys what its frame holds, which is a frame of the namespace. -/
theorem Within.leave (hs : s.Within u space) {arrange : List Handle → List Handle}
    (harrange : ∀ hs, (arrange hs).Perm hs) :
    (s.leave arrange).2.Within u space ∧ s.Isolated u space (s.leave arrange).2 := by
  have hsound := hs.sound.leave harrange
  rcases leave_cases arrange s with ⟨-, heq⟩ | ⟨frame, scopes, hl, heq, -⟩
  · rw [heq]
    exact ⟨hs, .refl s⟩
  · rw [heq] at hsound ⊢
    have hothers : ∀ other, other ≠ space →
        scopes.namespaces.find? other = s.scopes.namespaces.find? other :=
      fun other hne => Scopes.find?_leave?_of_ne hl (by rwa [hs.place])
    have hdisjoint := (List.nodup_append.mp
      ((Scopes.held_leave? hl).nodup_iff.mp hs.sound.nodup)).2.2
    have hstep : s.Isolated u space ⟨(s.arena.destroyAll (arrange frame.handles)).2, scopes⟩ := by
      refine ⟨hothers, ?_, Arena.adds_destroyAll hs.sound.tidy _⟩
      rintro h ⟨other, hne, index, hmem⟩
      change (s.arena.destroyAll (arrange frame.handles)).2.get? h = _
      rw [Arena.get?_destroyAll hs.sound.tidy, if_neg]
      intro hframe
      refine hdisjoint h ((harrange _).mem_iff.mp hframe) h ?_ rfl
      rw [← Scopes.frameAt_of_find?_eq (hothers other hne)] at hmem
      exact Scopes.mem_held_of_frameAt hmem
    refine ⟨hs.of_isolated hstep hsound (Scopes.name_leave? hl) fun index name h hmem => ?_, hstep⟩
    refine .inl ?_
    change (name, h) ∈ (scopes.frameAt space index).names at hmem
    rw [Scopes.frameAt, ← hs.place, Scopes.frames_leave? hl, List.getElem?_dropLast] at hmem
    split at hmem
    · rw [← hs.place]
      exact hmem
    · simp [Frame.empty] at hmem

theorem Within.goTo (hs : s.Sound)
    (hnames : ∀ index name h, (name, h) ∈ (s.scopes.frameAt space index).names → u.Name name →
      ∀ i, s.arena.get? h = some i → i.CallsOnly u) :
    Within u space { s with scopes := s.scopes.goTo space } where
  sound := hs.goTo space
  place := rfl
  names := by
    intro index name h hmem hname i hi
    change (name, h) ∈ ((s.scopes.goTo space).frameAt space index).names at hmem
    rw [Scopes.frameAt_goTo] at hmem
    refine ⟨fun _ => ?_, hnames index name h hmem hname i hi⟩
    rw [(hs.named (Scopes.binds_of_frameAt hmem) hi).1]
    exact hname

theorem Isolated.of_goTo (h : Isolated u space { s with scopes := s.scopes.goTo space } s') :
    s.Isolated u space s' where
  others := by
    intro other hne
    rw [h.others other hne, Scopes.find?_goTo, if_neg fun hother => hne hother.1]
  owned := by
    rintro k ⟨other, hne, index, hmem⟩
    exact h.owned k ⟨other, hne, index, by rwa [Scopes.frameAt_goTo]⟩
  adds := h.adds

end Store

/-! ## Programs that keep to what is used -/

/-- The functions of the host that are in use keep to it themselves: they ask for nothing else, and
give nothing but what they have been answered with. -/
def Host.KeepsTo (host : Host) (u : Usage) : Prop :=
  ∀ label args, u.Label label →
    (host.native label args).Confined (·.KeepsTo u) (fun known handles => handles ⊆ known) []

namespace Contract

/-- The contract of what is carried out in a namespace and keeps to what is used. -/
def isolation (u : Usage) (space : String) : Contract where
  Inv s := s.Within u space
  Fits s h := s.Safe u space h
  Lasts s h := s.Safe u space h
  Calls s h := ∃ i, s.arena.get? h = some i ∧ i.isFunction = true ∧ i.CallsOnly u
  Evaluates s s' := s.Isolated u space s'
  Blocks s s' := s.Isolated u space s'
  Runs s s' := s.Isolated u space s'
  Raises _ := True
  Reads text := ∀ i ∈ Statement.written text, i.isUndefined = true → u.Name i.surface
  Asks _ op := op.KeepsTo u

variable {u : Usage} {space : String}

/-- What is neither a function nor undefined. -/
theorem keepsTo_of_role {i : Identifier} (hi : i.role = .var ∨ i.role = .constant) :
    i.KeepsTo u where
  name := by
    intro hundefined
    rcases hi with hi | hi <;> simp [Identifier.isUndefined, hi] at hundefined
  calls := by
    intro hfunction
    rcases hi with hi | hi <;> simp [Identifier.isFunction, hi] at hfunction

theorem keepsTo_of_isWritten {i : Identifier} (hi : i.IsWritten)
    (hname : i.isUndefined = true → u.Name i.surface) : i.KeepsTo u where
  name := hname
  calls := by
    intro hfunction
    rcases hi.role with hi | hi <;> simp [Identifier.isFunction, hi] at hfunction

theorem admits_isolation {s : Store} {op : Operation} (hop : op.KeepsTo u) :
    (isolation u space).Admits s op := by
  cases op with
  | resolve | declare | registerFunction | registerConstant | push | runText | runTextTopLevel =>
    exact hop
  | _ => exact hop.elim

/-- What an operation that is allowed answers with is safe. -/
theorem safe_handlesIn {s : Store} {op : Operation} {a : op.Answer} (hop : op.KeepsTo u)
    (ha : (isolation u space).Gives s op a) : ∀ h ∈ op.handlesIn a, s.Safe u space h := by
  intro h hh
  cases op with
  | resolve | declare | registerFunction | registerConstant | push =>
    rw [List.mem_singleton.mp hh]
    exact ha
  | runText | runTextTopLevel => cases hh
  | _ => exact hop.elim

theorem effect_isolation {op : Operation} {s s' : Store}
    (h : (isolation u space).effect op s s') : s.Isolated u space s' := by
  cases op <;> exact h

/-- A script that keeps to what is used stays within the namespace. -/
theorem obeys_isolation {α : Type} {within : List Handle → α → Prop} {script : Script α}
    {known : List Handle} (hscript : script.Confined (·.KeepsTo u) within known) {s₀ s : Store}
    (hstep : s₀.Isolated u space s) (hknown : ∀ h ∈ known, s.Safe u space h)
    {post : Store → Except RuntimeError α → Prop}
    (herror : ∀ s e, s₀.Isolated u space s → post s (.error e))
    (hok : ∀ s known a, s₀.Isolated u space s → (∀ h ∈ known, s.Safe u space h) →
      within known a → post s (.ok a)) : (isolation u space).Obeys post script s := by
  induction script generalizing s known with
  | finish result =>
    cases result with
    | ok a => exact hok s known a hstep hknown hscript
    | error e => exact herror s e hstep
  | ask op next ih =>
    obtain ⟨hop, hfailed, hanswered⟩ := hscript
    refine ⟨admits_isolation hop, fun answer s' _ heffect hanswer => ?_⟩
    have hstep' := effect_isolation heffect
    have hknown' : ∀ h ∈ known, s'.Safe u space h := fun h hh => (hknown h hh).mono hstep'
    cases answer with
    | error e => exact ih (.error e) (hfailed e) (hstep.trans hstep') hknown'
    | ok a =>
      refine ih (.ok a) (hanswered a) (hstep.trans hstep') fun h hh => ?_
      rcases List.mem_append.mp hh with hh | hh
      · exact safe_handlesIn hop hanswer h hh
      · exact hknown' h hh

theorem steady_isolation : (isolation u space).Steady (Store.Isolated u space) :=
  ⟨fun _ => .refl _, .trans⟩

theorem meets_declare_isolation {m : Machine} (hm : m.store.Within u space) {i : Identifier}
    (hi : i.KeepsTo u) :
    (isolation u space).Meets (isolation u space).Evaluates (fun s h => s.Safe u space h) m.store
      (Machine.declare i m) := by
  refine (keeps_tryStore (C := isolation u space) hm steady_isolation ?_ fun _ _ => trivial).meets
  intro h s hs
  split at hs
  · next result hresult =>
    cases hs
    exact hm.declare ⟨hi.name, hi.calls⟩ hresult
  · cases hs
  · cases hs

theorem lawful_isolation {host : Host} (hhost : host.KeepsTo u) :
    (isolation u space).Lawful host where
  evaluates := steady_isolation
  runs := steady_isolation
  evaluates_runs := id
  blocks_runs := id
  fits_mono := fun hstep hh => hh.mono hstep
  lasts_mono := fun hstep hh => hh.mono hstep
  lasts_fits := fun _ hh => hh
  missing := fun _ _ _ => trivial
  raises := fun _ => trivial
  calls := fun _ hh hi hfunction => ⟨_, hi, hfunction, (hh.keepsTo _ hi).calls⟩
  resolve := fun hs hh hi hundefined hr => hs.resolve ((hh.keepsTo _ hi).name hundefined) hr
  push := fun hs hi => hs.pushTemporary (keepsTo_of_role (.inr hi.role))
  typeName := fun _ _ _ => trivial
  typeOf := fun _ _ _ => trivial
  declare := fun hs _ _ _ _ hd => hs.declare (keepsTo_of_role (.inl rfl)) hd
  declare_error := fun _ _ => trivial
  setValue := by
    intro s h i value hs hh hi hvariable _
    refine hs.put hh.own hi (keepsTo_of_role (.inl ?_)) rfl rfl
    simpa [Identifier.isVariable] using hvariable
  enter := fun hs _ => hs.enter
  lasts_enter := by
    rintro s h - ⟨hown, hkeeps⟩
    refine ⟨?_, hkeeps⟩
    rintro ⟨other, hne, index, hmem⟩
    exact hown ⟨other, hne, index, by rwa [Store.enter, Scopes.frameAt_enter] at hmem⟩
  leave := by
    intro s s' arrange harrange hs _ hruns hs'
    obtain ⟨hwithin, hstep⟩ := hs'.leave harrange
    exact ⟨hwithin, .of_enter hs (hruns.trans hstep), fun _ _ => trivial⟩
  readText := by
    intro s op text _ _ hreads hs
    have hkeeps : ∀ i ∈ Statement.written text, i.KeepsTo u := fun i hi =>
      keepsTo_of_isWritten (Statement.isWritten_of_mem_written hi) (hreads i hi)
    obtain ⟨hwithin, hstep, hsafe⟩ := hs.pushAll hkeeps
    rw [← Statement.arena_ofText] at hwithin hstep hsafe
    refine ⟨hwithin, hstep, fun st hst h hh => hsafe h ?_⟩
    rwa [← Statement.leaves_of_ofText hst]
  loads := by
    rintro s s' h i - ⟨j, hj, hfunction, hcalls⟩ hi hloads
    rw [hi] at hj
    cases hj
    exact absurd hloads (hcalls hfunction).1
  callee := fun _ _ _ => trivial
  notCallable := fun _ _ _ _ => trivial
  native := by
    rintro s h i label args - ⟨j, hj, hfunction, hcalls⟩ hi hlabel -
    rw [hi] at hj
    cases hj
    refine obeys_isolation (hhost label args ((hcalls hfunction).2 label hlabel)) (.refl s)
      (by simp) (fun s' e hstep => ⟨hstep, fun _ heq => (by cases heq), fun _ _ => trivial⟩) ?_
    intro s' known handles hstep hknown hhandles
    refine ⟨hstep, fun _ heq k hk => ?_, fun _ heq => by cases heq⟩
    cases heq
    exact hknown k (hhandles hk)
  moduleError := fun _ => trivial
  entry := fun _ _ hadmits _ => absurd hadmits.2 id
  asked := by
    intro m op self steps hprimitive hm _ hop
    cases op with
    | resolve name =>
      exact (keeps_tryStore (C := isolation u space) (f := fun s => s.resolve name) hm
        steady_isolation (fun _ _ hr => hm.resolve hop hr) fun _ _ => trivial).meets
    | declare i => exact meets_declare_isolation hm hop
    | registerFunction name isInfix label => exact meets_declare_isolation hm hop
    | registerConstant name i => exact meets_declare_isolation hm hop
    | push i => exact hm.pushTemporary hop
    | identifier | setValue | place => exact hop.elim
    | _ => exact hprimitive.elim
  permits := fun _ _ => trivial

end Contract

/-! ## Modules of directives that keep to what is used -/

namespace Script

variable {α β : Type} {allowed : Operation → Prop}

theorem Confined.bind {x : Script α} {f : α → Script β} {known : List Handle}
    {within : List Handle → β → Prop} (hx : x.Confined allowed (fun _ _ => True) known)
    (hf : ∀ a known, (f a).Confined allowed within known) :
    (x >>= f).Confined allowed within known := by
  change (x.bind f).Confined allowed within known
  induction x generalizing known with
  | finish result =>
    cases result with
    | ok a => exact hf a known
    | error e => trivial
  | ask op next ih =>
    obtain ⟨hop, hfailed, hanswered⟩ := hx
    exact ⟨hop, fun e => ih (.error e) (hfailed e), fun a => ih (.ok a) (hanswered a)⟩

theorem confined_request {op : Operation} (hop : allowed op) (known : List Handle) :
    (request op).Confined allowed (fun _ _ => True) known :=
  ⟨hop, fun _ => trivial, fun _ => trivial⟩

theorem confined_requireRead (result : Except SyntaxError Unit) (known : List Handle) :
    (requireRead result).Confined allowed (fun _ _ => True) known := by
  cases result <;> trivial

end Script

namespace Extension

/-- A directive that asks for nothing but what keeps to what is used. -/
def Directive.KeepsTo (u : Usage) : Directive → Prop
  | .constant name i => Operation.KeepsTo u (.registerConstant name i)
  | .declare i => Operation.KeepsTo u (.declare i)
  | .function name isInfix label => Operation.KeepsTo u (.registerFunction name isInfix label)
  | .mention name => Operation.KeepsTo u (.resolve name)
  | .fail _ | .argumentCount _ => True
  | .run text => Operation.KeepsTo u (.runText text)
  | .runTopLevel text => Operation.KeepsTo u (.runTextTopLevel text)
  | .loadModule _ _ | .place _ => False

theorem confined_directive {u : Usage} {d : Directive} (hd : d.KeepsTo u) (args : List Expression)
    (known : List Handle) :
    (d.script args).Confined (·.KeepsTo u) (fun _ _ => True) known := by
  cases d with
  | constant | declare | function | mention =>
    exact (Script.confined_request hd known).bind fun _ _ => trivial
  | argumentCount name =>
    have hop : (Operation.registerConstant name (.int (Int64.ofInt args.length))).KeepsTo u :=
      Contract.keepsTo_of_role (.inr rfl)
    exact (Script.confined_request hop known).bind fun _ _ => trivial
  | fail text => trivial
  | run | runTopLevel =>
    exact (Script.confined_request hd known).bind fun result known =>
      Script.confined_requireRead result known
  | loadModule | place => exact hd.elim

theorem confined_entryPoint {u : Usage} {ds : List Directive} (hds : ∀ d ∈ ds, d.KeepsTo u)
    (args : List Expression) (known : List Handle) :
    (entryPoint ds args).Confined (·.KeepsTo u) (fun _ _ => True) known := by
  induction ds generalizing known with
  | nil => trivial
  | cons d ds ih =>
    exact (confined_directive (hds d (by simp)) args known).bind fun _ known =>
      ih (fun d hd => hds d (List.mem_cons_of_mem _ hd)) known

end Extension

/-! ## Including a module -/

/-- A name that is used stands for nothing that another namespace owns. -/
def Store.ResolvesWithin (u : Usage) (space : String) (s : Store) : Prop :=
  ∀ name, u.Name name → ∀ h s', s.resolve name = .ok (h, s') → ¬ s'.HeldElsewhere space h

/-- The entry point of a module that keeps to what is used asks for nothing but what keeps to it, in
the namespace that the module is loaded into. -/
theorem within_of_inside {host : Host} {u : Usage} (hhost : host.KeepsTo u) {path space : String}
    {args : List Expression} {m : Machine}
    (hentered : Store.Within u space { m.store with scopes := m.store.scopes.goTo space })
    (hentry : ∀ entry, host.openModule path = .ok entry →
      (entry args).Confined (·.KeepsTo u) (fun _ _ => True) [])
    {steps : Nat} {op : Operation} {m₁ : Machine}
    (h : Inside host steps (.loadModule path space args) m op m₁) :
    (Contract.isolation u space).Inv m₁.store ∧
      (Contract.isolation u space).Admits m₁.store op := by
  have hC : (Contract.isolation u space).Lawful host := Contract.lawful_isolation hhost
  have hobeys : ∀ entry, host.openModule path = .ok entry →
      (Contract.isolation u space).Obeys (fun _ _ => True) (entry args)
        { m.store with scopes := m.store.scopes.goTo space } := fun entry hopen =>
    Contract.obeys_isolation (hentry entry hopen) (.refl _) (by simp) (fun _ _ _ => trivial)
      fun _ _ _ _ _ _ => trivial
  cases h with
  | evaluation h =>
    refine hC.asks_of_same (fun self' hself => ?_) h
    simp only [Evaluation.step, Evaluation.loadModule]
    cases hopen : host.openModule path with
    | error e => rfl
    | ok entry =>
      have hsame := (Contract.Upheld.run_script hself
        (m := { m with store := { m.store with scopes := m.store.scopes.goTo space } })
        hentered (hobeys entry hopen)).1
      simp only [Evaluation.inNamespace, hsame]
  | entry hopen h =>
    exact hC.reaches
      (m := { m with store := { m.store with scopes := m.store.scopes.goTo space } }) hentered
      (hobeys _ hopen) h

/-- In every state that is reached, loading a module leaves the frames of all other namespaces and
what they own as they were, whether it succeeds or fails; and no name that is used while it is
carried out stands for anything that another namespace owns. The entry point of the module keeps to
plain names, which stand for no function that loads modules in its own namespace. -/
theorem module_isolated {host : Host} {u : Usage} (hhost : host.KeepsTo u) {m : Machine}
    (hm : Reached host (fun _ => True) m) {path space : String} {args : List Expression}
    (hnames : ∀ index name h, (name, h) ∈ (m.store.scopes.frameAt space index).names →
      u.Name name → ∀ i, m.store.arena.get? h = some i → i.CallsOnly u)
    (hentry : ∀ entry, host.openModule path = .ok entry →
      (entry args).Confined (·.KeepsTo u) (fun _ _ => True) []) (steps : Nat) :
    (perform host steps (.loadModule path space args) m).EndsIn (fun m' =>
      ∀ other, other ≠ space →
        m'.store.scopes.namespaces.find? other = m.store.scopes.namespaces.find? other ∧
        ∀ index, ∀ h ∈ (m.store.scopes.frameAt other index).handles,
          m'.store.arena.get? h = m.store.arena.get? h) ∧
    ∀ steps' op m₁ op' m', Inside host steps (.loadModule path space args) m op m₁ →
      During host steps op m₁ steps' op' m' →
      m'.store.ResolvesWithin u space ∧
        (perform host steps' op' m').EndsIn fun m'' => m''.store.ResolvesWithin u space := by
  have hC : (Contract.isolation u space).Lawful host := Contract.lawful_isolation hhost
  have hentered := Store.Within.goTo hm.sound hnames
  refine ⟨?_, fun steps' op m₁ op' m' hinside hduring => ?_⟩
  · cases steps with
    | zero => trivial
    | succ steps =>
      simp only [perform, Evaluation.step, Evaluation.loadModule]
      cases hopen : host.openModule path with
      | error e => exact fun other _ => ⟨rfl, fun _ _ _ => rfl⟩
      | ok entry =>
        have hobeys : (Contract.isolation u space).Obeys
            (fun s' _ => Store.Isolated u space
              { m.store with scopes := m.store.scopes.goTo space } s')
            (entry args) { m.store with scopes := m.store.scopes.goTo space } :=
          Contract.obeys_isolation (hentry entry hopen) (.refl _) (by simp) (fun _ _ h => h)
            fun _ _ _ h _ _ => h
        have hends := (Contract.Upheld.run_script (hC.perform steps)
          (m := { m with store := { m.store with scopes := m.store.scopes.goTo space } })
          hentered hobeys).2
        have hkept : ∀ m' : Machine, Store.Isolated u space
              { m.store with scopes := m.store.scopes.goTo space } m'.store →
            ∀ other, other ≠ space →
              m'.store.scopes.namespaces.find? other = m.store.scopes.namespaces.find? other ∧
              ∀ index, ∀ h ∈ (m.store.scopes.frameAt other index).handles,
                m'.store.arena.get? h = m.store.arena.get? h := by
          intro m' hstep other hne
          have hstep := hstep.of_goTo
          exact ⟨hstep.others other hne, fun index h hh => hstep.owned h ⟨other, hne, index, hh⟩⟩
        simp only [Evaluation.inNamespace]
        cases hrun : (entry args).run (perform host steps)
            { m with store := { m.store with scopes := m.store.scopes.goTo space } } with
        | value a m' => rw [hrun] at hends; exact hkept m' hends.2
        | failure e m' => rw [hrun] at hends; exact hkept m' hends.2
        | cutOff => trivial
  · obtain ⟨hinv, hadmits⟩ := within_of_inside hhost hentered hentry hinside
    obtain ⟨hinv', hadmits'⟩ := hC.during hinv hadmits hduring
    have hresolves : ∀ s : Store, s.Within u space → s.ResolvesWithin u space :=
      fun s hs name hname h s' hr => (hs.resolve hname hr).2.2.own
    exact ⟨hresolves _ hinv', (hC.perform_meets steps' hinv' hadmits').endsIn
      fun m'' hm'' _ => hresolves _ hm''⟩

/-- A new machine at the global frame of a namespace. -/
def Machine.initialIn (space : String) : Machine :=
  { Machine.initial {} with store :=
    { (Machine.initial {}).store with scopes := (Machine.initial {}).store.scopes.goTo space } }

theorem Machine.arena_initialIn (space : String) :
    (Machine.initialIn space).store.arena = Store.initial.arena := by
  rw [Machine.initialIn, Machine.store_initial]

/-- It is reached in the middle of a module that loads another one into the default namespace. -/
theorem Extension.Registry.reached_initialIn {r : Extension.Registry}
    (hr : r.find? "m" = some [.loadModule "n" ""]) :
    Reached r.host (fun _ => True) (.initialIn "m") := by
  have hopen : r.host.openModule "m" = .ok (Extension.entryPoint [.loadModule "n" ""]) := by
    simp only [Extension.Registry.host, Extension.Registry.openModule, hr]
  have hinside : Inside r.host 0 (.loadModule "m" "m" []) (.initial {}) (.loadModule "n" "" [])
      (.initialIn "m") := inside_loadModule hopen 0 _ "m" rfl
  exact .asked (.initial {}) trivial (.inside hinside .here)

/-- The module `n` binds names of its own and calls a function of the host that declares one more;
the module `m` loads it into the default namespace. -/
def Extension.Registry.declaringModule : Registry :=
  [("m", [.loadModule "n" ""]),
   ("n", [.function "f" false ⟨"declare", "y"⟩, .constant "c" (.int 1),
     .runTopLevel "decas x :: int\nx = c\nf x\n"])]

/-- What that module uses. -/
def Usage.declaring : Usage where
  Name name := name ∈ ["decas", "x", "::", "int", "=", "c", "f", "y"]
  Label label := label = ⟨"declare", "y"⟩
  plain := by decide

theorem Usage.keepsTo_declaring :
    (Extension.Registry.host .declaringModule).KeepsTo .declaring := by
  rintro label args rfl
  refine ⟨⟨by simp [Identifier.isUndefined, Identifier.asVariable],
    by simp [Identifier.CallsOnly, Identifier.isFunction, Identifier.asVariable]⟩, ?_, ?_⟩
  · exact fun _ => trivial
  · exact fun h => List.cons_subset.mpr ⟨List.mem_cons_self, List.nil_subset _⟩

/-- Of the words of the vocabulary, only one loads modules. -/
theorem Identifier.callsOnly_of_mem_vocabulary {u : Usage} (hu : ¬ u.Name "include")
    {i : Identifier} (hi : i ∈ vocabulary) (hname : u.Name i.surface) : i.CallsOnly u := by
  have hloads : ∀ i ∈ vocabulary, i.callable? = some (.builtin .loadModule) →
      i.surface = "include" := by decide
  intro hfunction
  obtain ⟨op, hop, -⟩ := builtin_of_mem_vocabulary hi hfunction
  refine ⟨fun h => hu (hloads i hi h ▸ hname), fun label hlabel => ?_⟩
  rw [hop] at hlabel
  cases hlabel

set_option maxRecDepth 100000 in
theorem module_isolated_declaring :
    (perform (Extension.Registry.host .declaringModule) 60 (.loadModule "n" "" [])
      (.initialIn "m")).EndsIn fun m' => ∀ other, other ≠ "" →
        m'.store.scopes.namespaces.find? other =
          (Machine.initialIn "m").store.scopes.namespaces.find? other ∧
        ∀ index, ∀ h ∈ ((Machine.initialIn "m").store.scopes.frameAt other index).handles,
          m'.store.arena.get? h = (Machine.initialIn "m").store.arena.get? h := by
  have hreached := Extension.Registry.reached_initialIn (r := .declaringModule) rfl
  refine (module_isolated Usage.keepsTo_declaring hreached ?_ ?_ 60).1
  · -- the names that are bound there are those of the vocabulary
    intro index name h hmem hname i hi
    have hsurface := (hreached.sound.named (Scopes.binds_of_frameAt hmem) hi).1
    have hall : (Machine.initialIn "m").store.arena.All
        fun i => Usage.declaring.Name i.surface → i.CallsOnly .declaring := by
      rw [Machine.arena_initialIn]
      have hinclude : ¬ Usage.declaring.Name "include" := by simp [Usage.declaring]
      exact Store.all_initial fun i => Identifier.callsOnly_of_mem_vocabulary hinclude
    exact hall h i hi (hsurface ▸ hname)
  · intro entry hopen
    obtain rfl := Except.ok.inj hopen
    refine Extension.confined_entryPoint (fun d hd => ?_) _ _
    simp only [List.mem_cons, List.not_mem_nil, or_false] at hd
    rcases hd with rfl | rfl | rfl
    · refine ⟨nofun, fun _ => ⟨nofun, fun label hlabel => ?_⟩⟩
      cases hlabel
      rfl
    · exact Contract.keepsTo_of_role (.inr rfl)
    · change ∀ i ∈ Statement.written _, i.isUndefined = true → i.surface ∈ _
      decide +kernel

/-- The module `n` runs a plain text that includes the module `k`, under the name of the namespace
that includes `n`. -/
def Extension.Registry.includingModule : Registry :=
  [("m", [.loadModule "n" ""]), ("n", [.runTopLevel "include k as m\n"]),
   ("k", [.constant "leak" (.int 5)])]

/-- All plain names, and no function of the host. -/
def Usage.plainNames : Usage where
  Name name := '.' ∉ name.toList
  Label _ := False
  plain _ h := h

set_option maxRecDepth 100000 in
/-- Plain names alone do not isolate a module: among them may be one for the function that loads
modules, which binds names in whichever namespace it is told to. -/
theorem include_not_isolated :
    (Extension.Registry.host .includingModule).KeepsTo .plainNames ∧
    Reached (Extension.Registry.host .includingModule) (fun _ => True) (.initialIn "m") ∧
    (Machine.initialIn "m").store.scopes.place.name ≠ "" ∧
    (∀ entry, (Extension.Registry.host .includingModule).openModule "n" = .ok entry →
      (entry []).Confined (·.KeepsTo .plainNames) (fun _ _ => True) []) ∧
    (match perform (Extension.Registry.host .includingModule) 12 (.loadModule "n" "" [])
        (.initialIn "m") with
      | .value _ m' =>
        some (((Machine.initialIn "m").store.scopes.global? "m" "leak").isSome,
          (m'.store.scopes.global? "m" "leak").isSome)
      | _ => none) = some (false, true) := by
  refine ⟨nofun, Extension.Registry.reached_initialIn rfl, by decide +kernel, ?_, ?_⟩
  · intro entry hopen
    obtain rfl := Except.ok.inj hopen
    refine Extension.confined_entryPoint (fun d hd => ?_) _ _
    obtain rfl := List.mem_singleton.mp hd
    change ∀ i ∈ Statement.written _, i.isUndefined = true → '.' ∉ i.surface.toList
    decide +kernel
  · decide +kernel

end WordScript
