import WordScript.Proofs.Closure

/-!
# What names are bound to

A name stands for what it is bound to: a plain one in the innermost of the visible frames, one with
a namespace in front in the global frame of the namespace. To resolve a name that is bound changes
nothing; one that is not bound is bound then, and all that was bound before stays bound to the same
handle. So it does when a temporary identifier is added.
-/

namespace WordScript

namespace Scopes

/-- The indices of the frames that plain names are looked up in, the innermost first. -/
def reach (s : Scopes) : List Nat :=
  ((List.range (s.place.depth + 1)).reverse).take s.place.visible

/-- What a name is bound to. -/
def bound? (s : Scopes) (name : String) : Option Handle :=
  match qualified? name with
  | some (space, member) => s.global? space member
  | none => s.lookup? name

theorem bound?_plain {s : Scopes} {name : String} (h : qualified? name = none) :
    s.bound? name = s.lookup? name := by
  rw [bound?, h]

theorem bound?_member {s : Scopes} {name space member : String}
    (h : qualified? name = some (space, member)) : s.bound? name = s.global? space member := by
  rw [bound?, h]

/-! ## Looking up frame by frame -/

theorem Placed.visibleFrames_eq {s : Scopes} (hs : s.Placed) :
    s.visibleFrames = s.reach.map (s.frameAt s.place.name) := by
  obtain ⟨fs, hfs, hdepth⟩ := hs.current
  have hframes := frames_of_find? hfs
  have htake : fs.take (s.place.depth + 1) =
      (List.range (s.place.depth + 1)).map (s.frameAt s.place.name) := by
    refine List.ext_getElem? fun index => ?_
    rw [List.getElem?_take, List.getElem?_map]
    by_cases hindex : index < s.place.depth + 1
    · have hlt : index < fs.length := by omega
      simp [hindex, frameAt, hframes, hlt]
    · simp [hindex]
  rw [visibleFrames, hframes, htake, reach, List.map_take, List.map_reverse]

theorem Placed.lookup?_eq {s : Scopes} (hs : s.Placed) (name : String) :
    s.lookup? name =
      s.reach.findSome? fun index => (s.frameAt s.place.name index).names.find? name := by
  rw [lookup?, hs.visibleFrames_eq, List.findSome?_map]
  rfl

/-- A plain name stays bound to the same when no frame binds it to anything else. -/
theorem Placed.lookup?_congr {s s' : Scopes} (hs : s.Placed) (hs' : s'.Placed)
    (hplace : s'.place = s.place) {name : String}
    (h : ∀ index, (s'.frameAt s.place.name index).names.find? name =
      (s.frameAt s.place.name index).names.find? name) : s'.lookup? name = s.lookup? name := by
  simp only [hs.lookup?_eq, hs'.lookup?_eq, reach, hplace, h]

/-- What a name is bound to is held. -/
theorem mem_held_of_bound? {s : Scopes} {name : String} {h : Handle}
    (hb : s.bound? name = some h) : h ∈ s.held := by
  cases hq : qualified? name with
  | some p =>
    obtain ⟨space, member⟩ := p
    rw [bound?_member hq, global?_eq] at hb
    exact mem_held_of_binds (binds_of_frameAt (Bindings.mem_of_find? hb))
  | none =>
    rw [bound?_plain hq] at hb
    obtain ⟨index, hbinds⟩ := binds_of_lookup? hb
    exact mem_held_of_binds hbinds

/-- A name that was not bound can only be bound to what some frame binds it to now. -/
theorem Placed.eq_of_bound? {s s' : Scopes} (hs : s.Placed) (hs' : s'.Placed)
    (hplace : s'.place = s.place) {name : String} {h k : Handle} (hfree : s.bound? name = none)
    (hbound : s'.bound? name = some k)
    (hnew : ∀ space index key, (s'.frameAt space index).names.find? key = some k →
      k = h ∨ (s.frameAt space index).names.find? key = some k) : k = h := by
  cases hq : qualified? name with
  | some p =>
    obtain ⟨space, member⟩ := p
    rw [bound?_member hq, global?_eq] at hfree hbound
    rcases hnew space 0 member hbound with rfl | hold
    · rfl
    · rw [hold] at hfree
      cases hfree
  | none =>
    rw [bound?_plain hq, hs'.lookup?_eq] at hbound
    rw [bound?_plain hq, hs.lookup?_eq] at hfree
    obtain ⟨index, hindex, hfind⟩ := List.exists_of_findSome?_eq_some hbound
    rw [hplace] at hfind
    rcases hnew _ index name hfind with rfl | hold
    · rfl
    · have hnone := List.findSome?_eq_none_iff.mp hfree index (by rwa [reach, ← hplace])
      rw [hold] at hnone
      cases hnone

/-! ## One binding more -/

/-- What a frame binds a name to when some frame has been given a binding. -/
theorem find?_frameAt_insert (s : Scopes) (space other name key : String) (index k : Nat)
    (h : Handle) :
    ((s.modifyFrame space index fun f => { f with names := f.names.insert name h }).frameAt
        other k).names.find? key =
      if other = space ∧ k = index ∧ key = name then some h
      else (s.frameAt other k).names.find? key := by
  by_cases hframe : other = space ∧ k = index
  · obtain ⟨rfl, rfl⟩ := hframe
    rw [frameAt_modifyFrame_self]
    by_cases hkey : key = name
    · subst hkey
      simp
    · simp [hkey, Bindings.find?_insert_of_ne hkey]
  · rw [frameAt_modifyFrame_of_ne (by tauto), if_neg (by tauto)]

/-- What a frame binds a name to then is the new handle, or what it was bound to before. -/
theorem find?_frameAt_of_insert {s : Scopes} {space other name key : String} {index k : Nat}
    {h h' : Handle}
    (hfind : ((s.modifyFrame space index fun f => { f with names := f.names.insert name h }).frameAt
      other k).names.find? key = some h') :
    h' = h ∨ (s.frameAt other k).names.find? key = some h' := by
  rw [find?_frameAt_insert] at hfind
  split at hfind
  · exact .inl (Option.some.inj hfind).symm
  · exact .inr hfind

/-- What the current frame binds a name to is found first. -/
theorem Placed.lookup?_of_currentFrame {s : Scopes} (hs : s.Placed) {name : String} {h : Handle}
    (hfind : s.currentFrame.names.find? name = some h) : s.lookup? name = some h := by
  change (s.frameAt s.place.name s.place.depth).names.find? name = some h at hfind
  obtain ⟨n, hn⟩ : ∃ n, s.place.visible = n + 1 := ⟨_, (Nat.succ_pred_eq_of_pos hs.visible).symm⟩
  rw [hs.lookup?_eq, reach, List.range_succ, List.reverse_append, List.reverse_singleton,
    List.singleton_append, hn, List.take_succ_cons, List.findSome?_cons, hfind]

/-- A name that has just been bound in the current frame is found there. -/
theorem Placed.lookup?_bind_self {s : Scopes} (hs : s.Placed) (name : String) (h : Handle) :
    (s.bind name h).lookup? name = some h := by
  have hplaced : (s.bind name h).Placed := hs.of_balanced (hs.balanced_current _)
  refine hplaced.lookup?_of_currentFrame ?_
  rw [currentFrame_bind]
  exact Bindings.find?_insert_self _ name h

/-- Other plain names stay bound to the same. -/
theorem Placed.lookup?_bind_of_ne {s : Scopes} (hs : s.Placed) {name other : String}
    (hne : other ≠ name) (h : Handle) : (s.bind name h).lookup? other = s.lookup? other := by
  have hbalanced : s.Balanced (s.bind name h) := hs.balanced_current _
  apply hs.lookup?_congr (hs.of_balanced hbalanced) hbalanced.place
  intro index
  rw [Scopes.bind, find?_frameAt_insert, if_neg]
  rintro ⟨-, -, rfl⟩
  exact hne rfl

/-- After a name has been bound in the current frame, every name is bound to the new handle or to
what it was bound to before. -/
theorem Placed.bound?_bind {s : Scopes} (hs : s.Placed) {name other : String} {h k : Handle}
    (hk : (s.bind name h).bound? other = some k) : k = h ∨ s.bound? other = some k := by
  cases hq : qualified? other with
  | some p =>
    obtain ⟨space, member⟩ := p
    rw [bound?_member hq, global?_eq] at hk ⊢
    exact find?_frameAt_of_insert hk
  | none =>
    rw [bound?_plain hq] at hk ⊢
    by_cases hname : other = name
    · subst hname
      rw [hs.lookup?_bind_self] at hk
      exact .inl (Option.some.inj hk).symm
    · rw [hs.lookup?_bind_of_ne hname] at hk
      exact .inr hk

/-- A new name in a global frame takes no binding away. -/
theorem closed_bindGlobal {s : Scopes} {space name : String} {h : Handle}
    (hbalanced : s.Balanced (s.bindGlobal space name h)) (hnew : s.global? space name = none) :
    s.Closed (s.bindGlobal space name h) where
  balanced := hbalanced
  kept := fun hindex => frameAt_modifyFrame_of_ne (.inr hindex) _
  grows := by
    intro other
    by_cases hother : other = space
    · subst hother
      rw [bindGlobal, frameAt_modifyFrame_self]
      exact Frame.extends_bind (by rw [← global?_eq, hnew]) h
    · rw [bindGlobal, frameAt_modifyFrame_of_ne (.inl hother)]
      exact .refl _

end Scopes

namespace Store

variable {s s' : Store} {name other : String} {h k : Handle}

/-! ## Resolving names -/

/-- To resolve a name that is bound changes nothing. -/
theorem resolve_of_bound? (hk : s.scopes.bound? name = some k) : s.resolve name = .ok (k, s) := by
  unfold resolve
  cases hq : qualified? name with
  | some p =>
    obtain ⟨space, member⟩ := p
    rw [Scopes.bound?_member hq] at hk
    have hspace : (s.scopes.namespaces.find? space).isSome := by
      by_contra hnone
      simp only [Bool.not_eq_true, Option.isSome_eq_false_iff, Option.isNone_iff_eq_none] at hnone
      simp [Scopes.global?, Scopes.frames, hnone] at hk
    obtain ⟨fs, hfs⟩ := Option.isSome_iff_exists.mp hspace
    simp only [hfs, hk]
  | none =>
    rw [Scopes.bound?_plain hq] at hk
    simp only [hk]

/-- A name is bound already when it is resolved, or it is bound then, where it was not bound. -/
theorem resolve_bound?_cases (hr : s.resolve name = .ok (h, s')) :
    (s.scopes.bound? name = some h ∧ s' = s) ∨ s.scopes.bound? name = none ∧
      ((∃ space member, qualified? name = some (space, member) ∧
        (h, s') = s.defineGlobal space member) ∨
      (qualified? name = none ∧ (h, s') = s.define (.name name s.depth))) := by
  cases hbound : s.scopes.bound? name with
  | some k =>
    rw [resolve_of_bound? hbound] at hr
    cases hr
    exact .inl ⟨rfl, rfl⟩
  | none =>
    refine .inr ⟨rfl, ?_⟩
    unfold resolve at hr
    split at hr
    · next space member hq =>
      rw [Scopes.bound?_member hq] at hbound
      split at hr
      · cases hr
      · rw [hbound] at hr
        exact .inl ⟨space, member, hq, (Except.ok.inj hr).symm⟩
    · next hq =>
      rw [Scopes.bound?_plain hq] at hbound
      rw [hbound] at hr
      exact .inr ⟨hq, (Except.ok.inj hr).symm⟩

/-- A name that has been resolved is bound to the answer. -/
theorem bound?_of_resolve (hs : s.scopes.Placed) (hr : s.resolve name = .ok (h, s')) :
    s'.scopes.bound? name = some h := by
  rcases resolve_bound?_cases hr with
    ⟨hbound, rfl⟩ | ⟨-, ⟨space, member, hq, heq⟩ | ⟨hq, heq⟩⟩
  · exact hbound
  · obtain ⟨rfl, rfl⟩ := Prod.mk.inj heq
    rw [Scopes.bound?_member hq, Scopes.global?_eq]
    simp only [Scopes.bindGlobal, Scopes.find?_frameAt_insert, and_self, if_true]
  · obtain ⟨rfl, rfl⟩ := Prod.mk.inj heq
    rw [Scopes.bound?_plain hq]
    exact hs.lookup?_bind_self name _

/-- Whatever was bound before a name was resolved still is. -/
theorem bound?_resolve (hs : s.scopes.Placed) (hr : s.resolve name = .ok (h, s'))
    (hk : s.scopes.bound? other = some k) : s'.scopes.bound? other = some k := by
  have hbalanced := balanced_resolve hs hr
  rcases resolve_bound?_cases hr with
    ⟨-, rfl⟩ | ⟨hnone, ⟨space, member, hq, heq⟩ | ⟨hq, heq⟩⟩
  · exact hk
  · obtain rfl : s' = (s.defineGlobal space member).2 := congrArg Prod.snd heq
    have hnew : s.scopes.global? space member = none := by
      rwa [Scopes.bound?_member hq] at hnone
    have hclosed : s.scopes.Closed (s.defineGlobal space member).2.scopes :=
      Scopes.closed_bindGlobal hbalanced hnew
    cases hother : qualified? other with
    | some p =>
      obtain ⟨space', member'⟩ := p
      rw [Scopes.bound?_member hother, Scopes.global?_eq] at hk ⊢
      exact (hclosed.grows space').names hk
    | none =>
      rw [Scopes.bound?_plain hother] at hk ⊢
      rcases hclosed.lookup? hs other with heq | ⟨hfree, -⟩
      · rw [heq, hk]
      · rw [hk] at hfree
        cases hfree
  · obtain rfl : s' = (s.define (.name name s.depth)).2 := congrArg Prod.snd heq
    rw [Scopes.bound?_plain hq] at hnone
    cases hother : qualified? other with
    | some p =>
      obtain ⟨space', member'⟩ := p
      rw [Scopes.bound?_member hother, Scopes.global?_eq] at hk ⊢
      exact ((contained_resolve hs hr).grows space' 0).names hk
    | none =>
      rw [Scopes.bound?_plain hother] at hk ⊢
      rw [← hk]
      apply hs.lookup?_bind_of_ne
      rintro rfl
      rw [hnone] at hk
      cases hk

/-- A name that was not bound before another one was resolved, and is bound then, is bound to the
new identifier: a name that is not declared. -/
theorem isUndefined_of_bound?_resolve (hs : s.Sound) (hplaced : s.scopes.Placed)
    (hr : s.resolve name = .ok (h, s')) (hfree : s.scopes.bound? other = none)
    (hk : s'.scopes.bound? other = some k) :
    ∃ i, s'.arena.get? k = some i ∧ i.isUndefined = true := by
  have hbalanced := balanced_resolve hplaced hr
  have hplaced' := hplaced.of_balanced hbalanced
  rcases resolve_bound?_cases hr with
    ⟨-, rfl⟩ | ⟨-, ⟨space, member, -, heq⟩ | ⟨-, heq⟩⟩
  · rw [hfree] at hk
    cases hk
  · obtain ⟨rfl, rfl⟩ := Prod.mk.inj heq
    obtain rfl := hplaced.eq_of_bound? hplaced' hbalanced.place hfree hk fun _ _ _ hfind =>
      Scopes.find?_frameAt_of_insert hfind
    exact ⟨.name member 0, Arena.get?_push_self hs.tidy (by simp [Identifier.name]), rfl⟩
  · obtain ⟨rfl, rfl⟩ := Prod.mk.inj heq
    obtain rfl := hplaced.eq_of_bound? hplaced' hbalanced.place hfree hk fun _ _ _ hfind =>
      Scopes.find?_frameAt_of_insert hfind
    exact ⟨.name name s.depth, Arena.get?_push_self hs.tidy (by simp [Identifier.name]), rfl⟩

/-! ## Adding temporary identifiers -/

/-- A temporary identifier changes nothing about names. -/
theorem bound?_pushTemporary (hs : s.scopes.Placed) (i : Identifier) (name : String) :
    (s.pushTemporary i).2.scopes.bound? name = s.scopes.bound? name := by
  have hbalanced : s.scopes.Balanced (s.pushTemporary i).2.scopes := hs.balanced_current _
  have hnames : ∀ space index, ((s.pushTemporary i).2.scopes.frameAt space index).names =
      (s.scopes.frameAt space index).names := by
    intro space index
    change ((s.scopes.modifyFrame _ _ _).frameAt space index).names = _
    by_cases hframe : space = s.scopes.place.name ∧ index = s.scopes.place.depth
    · obtain ⟨rfl, rfl⟩ := hframe
      rw [Scopes.frameAt_modifyFrame_self]
    · rw [Scopes.frameAt_modifyFrame_of_ne (by tauto)]
  cases hq : qualified? name with
  | some p =>
    obtain ⟨space, member⟩ := p
    rw [Scopes.bound?_member hq, Scopes.bound?_member hq, Scopes.global?_eq, Scopes.global?_eq,
      hnames]
  | none =>
    rw [Scopes.bound?_plain hq, Scopes.bound?_plain hq]
    exact hs.lookup?_congr (hs.of_balanced hbalanced) hbalanced.place fun index => by rw [hnames]

end Store

end WordScript
