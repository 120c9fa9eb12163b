import WordScript.Proofs.Reading
import WordScript.Proofs.Scopes
import WordScript.Vocabulary

/-!
# Who owns what

In a sound store every handle that a frame holds is in use and is held only once, and an identifier
that is bound has the name and the depth that it is bound under. Every operation on the store keeps
it sound, whatever identifiers the host stores. When none of them is an invalid one, the slots in
use all hold identifiers, so that everything that is held is live.
-/

namespace WordScript

namespace Store

/-- Nothing is held twice or held after it was freed, and names are where they say they are. -/
structure Sound (s : Store) : Prop where
  tidy : s.arena.Tidy
  inUse : ∀ h ∈ s.scopes.held, s.arena.InUse h
  nodup : s.scopes.held.Nodup
  named : ∀ {index : Nat} {name : String} {h : Handle} {i : Identifier},
    s.scopes.Binds index name h → s.arena.get? h = some i → i.surface = name ∧ i.scope = index
  visible : 0 < s.scopes.place.visible

/-- Every handle that a frame holds is live, none is held twice, and an identifier bound to a name
in the frame of some index has that name as its surface and that index as its scope. -/
structure Owned (s : Store) : Prop where
  live : ∀ h ∈ s.scopes.held, s.arena.IsLive h
  nodup : s.scopes.held.Nodup
  named : ∀ {index : Nat} {name : String} {h : Handle}, s.scopes.Binds index name h →
    ∃ i, s.arena.get? h = some i ∧ i.surface = name ∧ i.scope = index

theorem Sound.owned {s : Store} (hs : s.Sound) (hf : s.arena.Full) : s.Owned where
  live := fun h hheld => hf h (hs.inUse h hheld)
  nodup := hs.nodup
  named := by
    intro index name h hb
    obtain ⟨i, hi⟩ := Arena.isLive_iff.mp (hf h (hs.inUse h (Scopes.mem_held_of_binds hb)))
    exact ⟨i, hi, hs.named hb hi⟩

/-! ## Adding identifiers -/

/-- The store with an identifier more that no frame holds. -/
theorem Sound.push {s : Store} (hs : s.Sound) (i : Identifier) : (s.push i).2.Sound where
  tidy := hs.tidy.push i
  inUse := fun h hheld => (Arena.inUse_push hs.tidy i).mpr (.inr (hs.inUse h hheld))
  nodup := hs.nodup
  named := by
    intro index name h j hb hj
    have hu := hs.inUse h (Scopes.mem_held_of_binds hb)
    have hne : h ≠ (s.arena.push i).1 := fun heq => Arena.not_inUse_push hs.tidy i (heq ▸ hu)
    change (s.arena.push i).2.get? h = some j at hj
    rw [Arena.get?_push_of_ne hs.tidy i hne] at hj
    exact hs.named hb hj
  visible := hs.visible

/-- A frame takes the handle of a new identifier: as a temporary one, or under a name that was not
bound in it. -/
theorem Sound.hold {s : Store} (hs : s.Sound) {i : Identifier} {space : String} {index : Nat}
    {f : Frame → Frame} {old : Frame} (hold : s.scopes.frameAt space index = old)
    (hf : (f old).handles.Perm ((s.arena.push i).1 :: old.handles))
    (hnames : ∀ b ∈ (f old).names, b ∈ old.names ∨
      (b = (i.surface, (s.arena.push i).1) ∧ i.scope = index)) :
    Sound ⟨(s.arena.push i).2, s.scopes.modifyFrame space index f⟩ := by
  subst hold
  have hpush := hs.push i
  have hheld : (s.scopes.modifyFrame space index f).held.Perm
      ([(s.arena.push i).1] ++ s.scopes.held) := Scopes.held_modifyFrame hf
  have hnew := Arena.not_inUse_push hs.tidy i
  refine ⟨hpush.tidy, ?_, ?_, ?_, hs.visible⟩
  · intro h hmem
    rcases List.mem_cons.mp (hheld.mem_iff.mp hmem) with rfl | hmem
    · exact (Arena.inUse_push hs.tidy i).mpr (.inl rfl)
    · exact hpush.inUse h hmem
  · rw [hheld.nodup_iff]
    exact List.nodup_cons.mpr ⟨fun hmem => hnew (hs.inUse _ hmem), hs.nodup⟩
  · intro k name h j hb hj
    rcases Scopes.binds_modifyFrame hb with hb | ⟨rfl, hmem⟩
    · exact hpush.named hb hj
    · rcases hnames _ hmem with hmem | ⟨heq, hscope⟩
      · exact hpush.named (Scopes.binds_of_frameAt hmem) hj
      · obtain ⟨rfl, rfl⟩ := Prod.mk.inj heq
        obtain rfl := Arena.eq_of_get?_push hs.tidy hj
        exact ⟨rfl, hscope⟩

theorem Sound.pushAll {s : Store} (hs : s.Sound) (is : List Identifier) :
    Sound { s with arena := (s.arena.pushAll is).2 } := by
  induction is generalizing s with
  | nil => exact hs
  | cons i is ih => exact ih (hs.push i)

theorem Sound.ofText {s : Store} (hs : s.Sound) (text : String) :
    Sound { s with arena := (Statement.ofText text s.arena).2 } := by
  rw [Statement.arena_ofText]
  exact hs.pushAll _

theorem Sound.pushTemporary {s : Store} (hs : s.Sound) (i : Identifier) :
    (s.pushTemporary i).2.Sound :=
  hs.hold rfl (Frame.handles_adopt _ _) fun _ hb => .inl hb

theorem Sound.bindNew {s : Store} (hs : s.Sound) {i : Identifier} {space : String} {index : Nat}
    (hname : (s.scopes.frameAt space index).names.find? i.surface = none)
    (hscope : i.scope = index) :
    Sound ⟨(s.arena.push i).2, s.scopes.modifyFrame space index fun f =>
      { f with names := f.names.insert i.surface (s.arena.push i).1 }⟩ := by
  refine hs.hold rfl (Frame.handles_bind hname _) ?_
  rintro ⟨name, h⟩ hb
  rcases Bindings.mem_insert hb with hb | ⟨rfl, rfl⟩
  · exact .inl hb
  · exact .inr ⟨rfl, hscope⟩

/-! ## Overwriting identifiers -/

/-- An identifier is overwritten by one of the same name and depth. -/
theorem Sound.put {s : Store} (hs : s.Sound) {h : Handle} {old i : Identifier}
    (hold : s.arena.get? h = some old) (hsurface : i.surface = old.surface)
    (hscope : i.scope = old.scope) : Sound { s with arena := s.arena.put h.index i } := by
  have hl := Arena.isLive_of_get? hold
  refine ⟨hs.tidy.put hl i, ?_, hs.nodup, ?_, hs.visible⟩
  · intro k hk
    exact Arena.inUse_put.mpr (hs.inUse k hk)
  · intro index name k j hb hj
    by_cases heq : k = h
    · subst heq
      obtain rfl := Arena.eq_of_get?_put hl hj
      rw [hsurface, hscope]
      exact hs.named hb hold
    · change (s.arena.put h.index i).get? k = some j at hj
      rw [Arena.get?_put_of_ne_handle hs.tidy hl heq] at hj
      exact hs.named hb hj

/-! ## Names -/

/-- The three ways in which a name is resolved: it is bound already, or it gets bound in the global
frame of a namespace, or in the current frame. -/
theorem resolve_cases {s s' : Store} {name : String} {h : Handle}
    (hr : s.resolve name = .ok (h, s')) :
    (s' = s ∧ ∃ index key, s.scopes.Binds index key h ∧
        (key = name ∨ ∃ space, qualified? name = some (space, key))) ∨
      (∃ space member, qualified? name = some (space, member) ∧
        (s.scopes.namespaces.find? space).isSome ∧ s.scopes.global? space member = none ∧
        (h, s') = s.defineGlobal space member) ∨
      (qualified? name = none ∧ s.scopes.lookup? name = none ∧
        (h, s') = s.define (.name name s.depth)) := by
  unfold resolve at hr
  split at hr
  · next space member hq =>
    split at hr
    · contradiction
    · next fs hspace =>
      split at hr
      · next k hk =>
        cases hr
        rw [Scopes.global?_eq] at hk
        refine .inl ⟨rfl, 0, member, ?_, .inr ⟨space, hq⟩⟩
        exact Scopes.binds_of_frameAt (Bindings.mem_of_find? hk)
      · next hk =>
        exact .inr (.inl ⟨space, member, hq, by simp [hspace], hk, (Except.ok.inj hr).symm⟩)
  · next hq =>
    split at hr
    · next k hk =>
      cases hr
      obtain ⟨index, hb⟩ := Scopes.binds_of_lookup? hk
      exact .inl ⟨rfl, index, name, hb, .inl rfl⟩
    · next hk => exact .inr (.inr ⟨hq, hk, (Except.ok.inj hr).symm⟩)

/-- A name is resolved unless its namespace is missing. -/
theorem resolve_error {s : Store} {name : String} {e : RuntimeError}
    (hr : s.resolve name = .error e) : ∃ space, e = .unknownNamespace space := by
  unfold resolve at hr
  split at hr
  · split at hr
    · exact ⟨_, (Except.error.inj hr).symm⟩
    · split at hr <;> cases hr
  · split at hr <;> cases hr

theorem Sound.resolve {s s' : Store} (hs : s.Sound) {name : String} {h : Handle}
    (hr : s.resolve name = .ok (h, s')) : s'.Sound := by
  rcases resolve_cases hr with ⟨rfl, -⟩ | ⟨space, member, -, -, hglobal, heq⟩ | ⟨-, hlookup, heq⟩
  · exact hs
  · obtain ⟨-, rfl⟩ := Prod.mk.inj heq
    exact hs.bindNew (by rwa [← Scopes.global?_eq]) rfl
  · obtain ⟨-, rfl⟩ := Prod.mk.inj heq
    exact hs.bindNew (Scopes.find?_currentFrame_of_lookup? hs.visible hlookup) rfl

/-- What a name stands for has that name, or the name of the member that it stands for. -/
theorem surface_of_resolve {s s' : Store} (hs : s.Sound) {name : String} {h : Handle}
    (hr : s.resolve name = .ok (h, s')) {i : Identifier} (hi : s'.arena.get? h = some i) :
    i.surface = name ∨ ∃ space, qualified? name = some (space, i.surface) := by
  rcases resolve_cases hr with
    ⟨rfl, index, key, hb, hkey⟩ | ⟨space, member, hq, -, -, heq⟩ | ⟨-, -, heq⟩
  · rw [(hs.named hb hi).1]
    exact hkey
  · obtain ⟨rfl, rfl⟩ := Prod.mk.inj heq
    obtain rfl := Arena.eq_of_get?_push hs.tidy hi
    exact .inr ⟨space, hq⟩
  · obtain ⟨rfl, rfl⟩ := Prod.mk.inj heq
    obtain rfl := Arena.eq_of_get?_push hs.tidy hi
    exact .inl rfl

/-- The two ways in which an identifier is declared: its name gets bound in the current frame, or
it takes the place of an undefined identifier that is bound there. -/
theorem declare_cases {s s' : Store} {i : Identifier} {h : Handle}
    (hd : s.declare i = .ok (some (h, s'))) :
    (s.scopes.currentFrame.names.find? i.surface = none ∧
        (h, s') = s.define { i with scope := s.depth }) ∨
      (∃ old, s.scopes.currentFrame.names.find? i.surface = some h ∧
        s.arena.get? h = some old ∧ old.isUndefined ∧
        s' = { s with arena := s.arena.put h.index { i with scope := s.depth } }) := by
  unfold declare at hd
  simp only at hd
  split at hd
  · next hfind => exact .inl ⟨hfind, (Option.some.inj (Except.ok.inj hd)).symm⟩
  · next k hfind =>
    split at hd
    · contradiction
    · next old hold =>
      split at hd
      · next hundefined =>
        cases hd
        exact .inr ⟨old, hfind, hold, hundefined, rfl⟩
      · cases hd

/-- A declaration gives a handle of what is declared. -/
theorem eq_of_declare {s s' : Store} (hs : s.Sound) {i j : Identifier} {h : Handle}
    (hd : s.declare i = .ok (some (h, s'))) (hj : s'.arena.get? h = some j) :
    j = { i with scope := s.depth } := by
  rcases declare_cases hd with ⟨-, heq⟩ | ⟨old, -, hold, -, rfl⟩
  · obtain ⟨rfl, rfl⟩ := Prod.mk.inj heq
    exact Arena.eq_of_get?_push hs.tidy hj
  · exact Arena.eq_of_get?_put (Arena.isLive_of_get? hold) hj

/-- A declaration fails only when the name is bound to a handle that refers to nothing. -/
theorem declare_error {s : Store} {i : Identifier} {e : RuntimeError}
    (hd : s.declare i = .error e) :
    ∃ h, s.scopes.currentFrame.names.find? i.surface = some h ∧ s.arena.get? h = none ∧
      e = .invalidReference h := by
  unfold declare at hd
  simp only at hd
  split at hd
  · cases hd
  · next k hfind =>
    split at hd
    · next hnone => exact ⟨k, hfind, hnone, (Except.error.inj hd).symm⟩
    · split at hd <;> cases hd

theorem Sound.declare {s s' : Store} (hs : s.Sound) {i : Identifier} {h : Handle}
    (hd : s.declare i = .ok (some (h, s'))) : s'.Sound := by
  rcases declare_cases hd with ⟨hfind, heq⟩ | ⟨old, hfind, hold, -, rfl⟩
  · obtain ⟨-, rfl⟩ := Prod.mk.inj heq
    exact hs.bindNew (i := { i with scope := s.depth }) hfind rfl
  · have hb : s.scopes.Binds s.depth i.surface h :=
      Scopes.binds_of_frameAt (Bindings.mem_of_find? hfind)
    obtain ⟨hsurface, hscope⟩ := hs.named hb hold
    exact hs.put hold hsurface.symm hscope.symm

/-! ## Blocks and namespaces -/

theorem Sound.enter {s : Store} (hs : s.Sound) : s.enter.Sound where
  tidy := hs.tidy
  inUse := fun h hmem => hs.inUse h (s.scopes.held_enter.mem_iff.mp hmem)
  nodup := s.scopes.held_enter.nodup_iff.mpr hs.nodup
  named := fun hb hi => hs.named (Scopes.binds_enter hb) hi
  visible := Nat.succ_pos _

/-- Leaving a block destroys what its frame holds, in some order. -/
theorem leave_cases (arrange : List Handle → List Handle) (s : Store) :
    (s.scopes.place.depth = 0 ∧ s.leave arrange = (.ok (), s)) ∨
      ∃ frame scopes, s.scopes.leave? = some (frame, scopes) ∧
        (s.leave arrange).2 = ⟨(s.arena.destroyAll (arrange frame.handles)).2, scopes⟩ ∧
        ((s.arena.destroyAll (arrange frame.handles)).1 = none → (s.leave arrange).1 = .ok ()) := by
  unfold leave
  cases hl : s.scopes.leave? with
  | none =>
    left
    unfold Scopes.leave? at hl
    split at hl
    · next hzero => exact ⟨hzero, rfl⟩
    · contradiction
  | some result =>
    obtain ⟨frame, scopes⟩ := result
    refine .inr ⟨frame, scopes, rfl, ?_⟩
    rcases hd : s.arena.destroyAll (arrange frame.handles) with ⟨_ | h, arena⟩
    · simp [hd]
    · simp [hd]

theorem Sound.leave {s : Store} (hs : s.Sound) {arrange : List Handle → List Handle}
    (harrange : ∀ hs, (arrange hs).Perm hs) : (s.leave arrange).2.Sound := by
  rcases leave_cases arrange s with ⟨-, heq⟩ | ⟨frame, scopes, hl, heq, -⟩
  · rw [heq]
    exact hs
  · rw [heq]
    have hheld := Scopes.held_leave? hl
    have hnodup := hheld.nodup_iff.mp hs.nodup
    obtain ⟨-, hnodup, hdisjoint⟩ := List.nodup_append.mp hnodup
    refine ⟨hs.tidy.destroyAll _, ?_, hnodup, ?_, ?_⟩
    · intro h hmem
      refine (Arena.inUse_destroyAll hs.tidy _).mpr ⟨?_, ?_⟩
      · exact hs.inUse h (hheld.mem_iff.mpr (List.mem_append_right _ hmem))
      · rintro ⟨hframe, -⟩
        exact hdisjoint h ((harrange _).mem_iff.mp hframe) h hmem rfl
    · intro index name h i hb hi
      change (s.arena.destroyAll (arrange frame.handles)).2.get? h = some i at hi
      rw [Arena.get?_destroyAll hs.tidy] at hi
      split at hi
      · contradiction
      · exact hs.named (Scopes.binds_leave? hl hb) hi
    · unfold Scopes.leave? at hl
      split at hl
      · contradiction
      · cases hl
        exact Nat.lt_of_lt_of_le Nat.zero_lt_one (Nat.le_max_right _ _)

/-- In a store where everything that is held is live, a block is left without an error. -/
theorem Sound.leave_ok {s : Store} (hs : s.Sound) (hlive : ∀ h ∈ s.scopes.held, s.arena.IsLive h)
    {arrange : List Handle → List Handle} (harrange : ∀ hs, (arrange hs).Perm hs) :
    (s.leave arrange).1 = .ok () := by
  rcases leave_cases arrange s with ⟨-, heq⟩ | ⟨frame, scopes, hl, -, hok⟩
  · rw [heq]
  · have hheld := Scopes.held_leave? hl
    have hnodup := (List.nodup_append.mp (hheld.nodup_iff.mp hs.nodup)).1
    refine hok (Arena.destroyAll_of_isLive hs.tidy ((harrange _).nodup_iff.mpr hnodup) ?_).1
    intro h hmem
    exact hlive h (hheld.mem_iff.mpr (List.mem_append_left _ ((harrange _).mem_iff.mp hmem)))

theorem Sound.goTo {s : Store} (hs : s.Sound) (space : String) :
    Sound { s with scopes := s.scopes.goTo space } where
  tidy := hs.tidy
  inUse := fun h hmem => hs.inUse h (by rwa [Scopes.held_goTo] at hmem)
  nodup := by
    change (s.scopes.goTo space).held.Nodup
    rw [Scopes.held_goTo]
    exact hs.nodup
  named := fun hb hi => hs.named (Scopes.binds_goTo hb) hi
  visible := Nat.zero_lt_one

theorem Sound.restore {s : Store} (hs : s.Sound) {place : Place} (hv : 0 < place.visible) :
    Sound { s with scopes := s.scopes.restore place } where
  tidy := hs.tidy
  inUse := hs.inUse
  nodup := hs.nodup
  named := hs.named
  visible := hv

/-! ## Slots in use hold identifiers -/

theorem full_pushAll {a : Arena} (ha : a.Tidy) (hf : a.Full)
    {is : List Identifier} (his : ∀ i ∈ is, i.IsValid) : (a.pushAll is).2.Full := by
  induction is generalizing a with
  | nil => exact hf
  | cons i is ih =>
    exact ih (ha.push i) (Arena.Full.push ha hf (his i (by simp)))
      fun j hj => his j (List.mem_cons_of_mem i hj)

theorem full_ofText {s : Store} (hs : s.Sound) (hf : s.arena.Full) (text : String) :
    (Statement.ofText text s.arena).2.Full := by
  rw [Statement.arena_ofText]
  exact full_pushAll hs.tidy hf fun i hi => (Statement.isWritten_of_mem_written hi).isValid

theorem full_resolve {s s' : Store} (hs : s.Sound) (hf : s.arena.Full) {name : String} {h : Handle}
    (hr : s.resolve name = .ok (h, s')) : s'.arena.Full := by
  rcases resolve_cases hr with ⟨rfl, -⟩ | ⟨space, member, -, -, -, heq⟩ | ⟨-, -, heq⟩
  · exact hf
  · obtain ⟨-, rfl⟩ := Prod.mk.inj heq
    exact Arena.Full.push hs.tidy hf (by simp [Identifier.name])
  · obtain ⟨-, rfl⟩ := Prod.mk.inj heq
    exact Arena.Full.push hs.tidy hf (by simp [Identifier.name])

theorem full_declare {s s' : Store} (hs : s.Sound) (hf : s.arena.Full) {i : Identifier}
    (hi : i.IsValid) {h : Handle} (hd : s.declare i = .ok (some (h, s'))) : s'.arena.Full := by
  rcases declare_cases hd with ⟨-, heq⟩ | ⟨old, -, hold, -, rfl⟩
  · obtain ⟨-, rfl⟩ := Prod.mk.inj heq
    exact Arena.Full.push hs.tidy hf hi
  · exact Arena.Full.put hs.tidy hf (Arena.isLive_of_get? hold) hi

theorem full_leave {s : Store} (hs : s.Sound) (hf : s.arena.Full)
    (arrange : List Handle → List Handle) : (s.leave arrange).2.arena.Full := by
  rcases leave_cases arrange s with ⟨-, heq⟩ | ⟨frame, scopes, -, heq, -⟩
  · rw [heq]
    exact hf
  · rw [heq]
    exact Arena.Full.destroyAll hs.tidy hf _

/-! ## What is added -/

section Adds

variable {P : Identifier → Prop}

/-- Resolving a name adds no more than a name without a definition: that name, or the member that it
stands for. -/
theorem adds_resolve {s s' : Store} (hs : s.Sound) {name : String}
    (hname : ∀ scope, P (.name name scope))
    (hmember : ∀ space member, qualified? name = some (space, member) → P (.name member 0))
    {h : Handle} (hr : s.resolve name = .ok (h, s')) : s.arena.Adds P s'.arena := by
  rcases resolve_cases hr with ⟨rfl, -⟩ | ⟨space, member, hq, -, -, heq⟩ | ⟨-, -, heq⟩
  · exact .refl P _
  · obtain ⟨-, rfl⟩ := Prod.mk.inj heq
    exact Arena.adds_push hs.tidy (hmember space member hq)
  · obtain ⟨-, rfl⟩ := Prod.mk.inj heq
    exact Arena.adds_push hs.tidy (hname _)

theorem adds_declare {s s' : Store} (hs : s.Sound) {i : Identifier}
    (hi : P { i with scope := s.depth }) {h : Handle} (hd : s.declare i = .ok (some (h, s'))) :
    s.arena.Adds P s'.arena := by
  rcases declare_cases hd with ⟨-, heq⟩ | ⟨old, -, hold, -, rfl⟩
  · obtain ⟨-, rfl⟩ := Prod.mk.inj heq
    exact Arena.adds_push hs.tidy hi
  · exact Arena.adds_put hs.tidy (Arena.isLive_of_get? hold) hi

theorem adds_pushAll {a : Arena} (ha : a.Tidy) {is : List Identifier} (his : ∀ i ∈ is, P i) :
    a.Adds P (a.pushAll is).2 := by
  induction is generalizing a with
  | nil => exact .refl P a
  | cons i is ih =>
    exact (Arena.adds_push ha (his i (by simp))).trans
      (ih (ha.push i) fun j hj => his j (List.mem_cons_of_mem i hj))

theorem adds_leave {s : Store} (hs : s.Sound) (arrange : List Handle → List Handle) :
    s.arena.Adds P (s.leave arrange).2.arena := by
  rcases leave_cases arrange s with ⟨-, heq⟩ | ⟨frame, scopes, -, heq, -⟩
  · rw [heq]
    exact .refl P _
  · rw [heq]
    exact Arena.adds_destroyAll hs.tidy _

theorem all_resolve {s s' : Store} (hs : s.Sound) (hall : s.arena.All P)
    (hname : ∀ name scope, P (.name name scope)) {name : String} {h : Handle}
    (hr : s.resolve name = .ok (h, s')) : s'.arena.All P :=
  hall.of_adds (adds_resolve hs (hname name) (fun _ member _ => hname member 0) hr)

theorem all_declare {s s' : Store} (hs : s.Sound) (hall : s.arena.All P) {i : Identifier}
    (hi : P { i with scope := s.depth }) {h : Handle} (hd : s.declare i = .ok (some (h, s'))) :
    s'.arena.All P :=
  hall.of_adds (adds_declare hs hi hd)

theorem all_pushAll {a : Arena} (ha : a.Tidy) (hall : a.All P) {is : List Identifier}
    (his : ∀ i ∈ is, P i) : (a.pushAll is).2.All P :=
  hall.of_adds (adds_pushAll ha his)

theorem all_ofText {a : Arena} (ha : a.Tidy) (hall : a.All P)
    (hwritten : ∀ i, Identifier.IsWritten i → P i) (text : String) :
    (Statement.ofText text a).2.All P := by
  rw [Statement.arena_ofText]
  exact all_pushAll ha hall fun i hi => hwritten i (Statement.isWritten_of_mem_written hi)

theorem all_leave {s : Store} (hs : s.Sound) (hall : s.arena.All P)
    (arrange : List Handle → List Handle) : (s.leave arrange).2.arena.All P :=
  hall.of_adds (adds_leave hs arrange)

end Adds

/-! ## The store before the first program -/

theorem sound_empty : empty.Sound where
  tidy := Arena.tidy_empty
  inUse := by simp [empty, Scopes.empty, Scopes.held]
  nodup := by simp [empty, Scopes.empty, Scopes.held]
  named := by
    rintro index name h i ⟨space, hspace, frame, hframe, hmem⟩
    obtain rfl := List.mem_singleton.mp hspace
    obtain rfl := List.mem_singleton.mp (List.mem_of_getElem? hframe)
    simp [Frame.empty] at hmem
  visible := Nat.zero_lt_one

/-- The store with the vocabulary comes about by binding one word after the other at the global
frame, each of which was not bound there before. -/
theorem initial_induction {P : Store → Prop} (hempty : P empty)
    (hdefine : ∀ s i, i ∈ vocabulary → s.scopes.place = .top Scopes.defaultName →
      s.scopes.currentFrame.names.find? i.surface = none → P s → P (s.define i).2) :
    P initial := by
  have words : ∀ (is : List Identifier) (s : Store), (∀ i ∈ is, i ∈ vocabulary) →
      (is.map Identifier.surface).Nodup → s.scopes.place = .top Scopes.defaultName →
      (∀ i ∈ is, s.scopes.currentFrame.names.find? i.surface = none) → P s →
      P (is.foldl (fun s i => (s.define i).2) s) := by
    intro is
    induction is with
    | nil => exact fun s _ _ _ _ hs => hs
    | cons i is ih =>
      intro s hmem hnodup hplace hnew hs
      obtain ⟨hi, hnodup⟩ := List.nodup_cons.mp hnodup
      refine ih _ (fun j hj => hmem j (List.mem_cons_of_mem i hj)) hnodup ?_ ?_
        (hdefine s i (hmem i (by simp)) hplace (hnew i (by simp)) hs)
      · exact hplace
      · intro j hj
        have hne : j.surface ≠ i.surface := fun heq =>
          hi (List.mem_map.mpr ⟨j, hj, heq⟩)
        change (Scopes.currentFrame (s.scopes.bind i.surface _)).names.find? j.surface = none
        rw [Scopes.currentFrame_bind, Bindings.find?_insert_of_ne hne]
        exact hnew j (List.mem_cons_of_mem i hj)
  refine words vocabulary empty (fun _ h => h) vocabulary_nodup rfl (fun i _ => ?_) hempty
  rfl

theorem scope_of_mem_vocabulary {i : Identifier} (hi : i ∈ vocabulary) : i.scope = 0 := by
  have hall : ∀ i ∈ vocabulary, i.scope = 0 := by decide
  exact hall i hi

theorem isValid_of_mem_vocabulary {i : Identifier} (hi : i ∈ vocabulary) : i.IsValid := by
  have hall : ∀ i ∈ vocabulary, i.role ≠ .invalid := by decide
  exact hall i hi

theorem sound_initial : initial.Sound := by
  refine initial_induction sound_empty fun s i hi hplace hnew hs => hs.bindNew hnew ?_
  rw [scope_of_mem_vocabulary hi, hplace]
  rfl

theorem all_initial {P : Identifier → Prop} (hP : ∀ i ∈ vocabulary, P i) : initial.arena.All P := by
  have both : initial.Sound ∧ initial.arena.All P := by
    refine initial_induction (P := fun s => s.Sound ∧ s.arena.All P)
      ⟨sound_empty, Arena.all_empty P⟩ ?_
    intro s i hi hplace hnew hs
    refine ⟨hs.1.bindNew hnew ?_, hs.2.push hs.1.tidy (hP i hi)⟩
    rw [scope_of_mem_vocabulary hi, hplace]
    rfl
  exact both.2

theorem full_initial : initial.arena.Full := by
  have both : initial.Sound ∧ initial.arena.Full := by
    refine initial_induction (P := fun s => s.Sound ∧ s.arena.Full)
      ⟨sound_empty, Arena.full_empty⟩ ?_
    intro s i hi hplace hnew hs
    refine ⟨hs.1.bindNew hnew ?_, Arena.Full.push hs.1.tidy hs.2 (isValid_of_mem_vocabulary hi)⟩
    rw [scope_of_mem_vocabulary hi, hplace]
    rfl
  exact both.2

end Store

end WordScript
