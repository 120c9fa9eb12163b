import WordScript.Proofs.Innermost

/-!
# Frames that grow

As long as the frames of a namespace only come to hold more, names stay bound to what they are bound
to. What runs at a place lets the current frame grow, and global frames; when a block that has been
opened in the last frame is left, nothing has grown but global frames, and a name that stood for
something stands for the same as before.
-/

namespace WordScript

namespace Frame

/-- The frame holds all that another one holds: its names stay bound, and its temporary identifiers
stay. -/
structure Extends (f g : Frame) : Prop where
  names : ∀ {name : String} {h : Handle}, f.names.find? name = some h → g.names.find? name = some h
  temporaries : f.temporaries <:+ g.temporaries

theorem Extends.refl (f : Frame) : f.Extends f := ⟨id, List.suffix_refl _⟩

theorem Extends.trans {f g k : Frame} (h : f.Extends g) (h' : g.Extends k) : f.Extends k :=
  ⟨fun hname => h'.names (h.names hname), h.temporaries.trans h'.temporaries⟩

theorem extends_bind {f : Frame} {name : String} (hname : f.names.find? name = none) (h : Handle) :
    f.Extends { f with names := f.names.insert name h } := by
  refine ⟨fun {other k} hother => ?_, List.suffix_refl _⟩
  have hne : other ≠ name := by
    rintro rfl
    rw [hname] at hother
    contradiction
  change (f.names.insert name h).find? other = some k
  rw [Bindings.find?_insert_of_ne hne]
  exact hother

theorem extends_adopt (f : Frame) (h : Handle) :
    f.Extends { f with temporaries := h :: f.temporaries } :=
  ⟨id, List.suffix_cons h f.temporaries⟩

end Frame

namespace Scopes

/-! ## Single frames -/

theorem frames_setFrames_of_ne {space other : String} (h : other ≠ space) (s : Scopes)
    (fs : List Frame) : (s.setFrames space fs).frames other = s.frames other := by
  simp [frames, setFrames, Bindings.find?_insert_of_ne h]

theorem frameAt_modifyFrame_of_ne {s : Scopes} {space other : String} {index k : Nat}
    (h : other ≠ space ∨ k ≠ index) (f : Frame → Frame) :
    (s.modifyFrame space index f).frameAt other k = s.frameAt other k := by
  rw [modifyFrame_eq]
  by_cases hother : other = space
  · subst hother
    have hk : index ≠ k := fun heq => h.elim (fun hne => hne rfl) fun hne => hne heq.symm
    rw [frameAt, frames_setFrames_self, List.getElem?_modify]
    simp only [hk, if_false, Option.map_eq_map, Option.map_id', frameAt, opened]
    by_cases hlt : k < (s.frames other).length
    · rw [List.getElem?_append_left hlt]
    · rw [List.getElem?_append_right (by omega), List.getElem?_replicate,
        List.getElem?_eq_none (l := s.frames other) (by omega)]
      split <;> rfl
  · rw [frameAt, frames_setFrames_of_ne hother, frameAt]

theorem frameAt_enter (s : Scopes) (space : String) (index : Nat) :
    s.enter.frameAt space index = s.frameAt space index := by
  by_cases hspace : space = s.place.name
  · subst hspace
    rw [frameAt, frames_enter, frameAt, List.getElem?_append]
    split
    · rfl
    · next hlt =>
      rw [List.getElem?_eq_none (l := s.frames s.place.name) (by omega)]
      cases index - (s.frames s.place.name).length <;> rfl
  · change ((s.setFrames s.place.name _).frames space)[index]?.getD .empty = _
    rw [frames_setFrames_of_ne hspace, frameAt]

theorem frameAt_goTo (s : Scopes) (space other : String) (index : Nat) :
    (s.goTo space).frameAt other index = s.frameAt other index := by
  simp only [frameAt, frames, find?_goTo]
  split
  · next h =>
    obtain ⟨rfl, hnone⟩ := h
    rw [hnone]
    cases index <;> rfl
  · rfl

/-- Leaving takes away the last frame of the current namespace, and nothing else. -/
theorem frameAt_leave? {s s' : Scopes} {frame : Frame} (hl : s.leave? = some (frame, s'))
    {space : String} {index : Nat}
    (h : space ≠ s.place.name ∨ index + 1 ≠ (s.frames s.place.name).length) :
    s'.frameAt space index = s.frameAt space index := by
  by_cases hspace : space = s.place.name
  · subst hspace
    have hlast : index + 1 ≠ (s.frames s.place.name).length := h.resolve_left fun hne => hne rfl
    rw [frameAt, frames_leave? hl, List.getElem?_dropLast, frameAt]
    by_cases hlt : index < (s.frames s.place.name).length - 1
    · rw [if_pos hlt]
    · rw [if_neg hlt, List.getElem?_eq_none (l := s.frames s.place.name) (by omega)]
  · unfold leave? at hl
    split at hl
    · contradiction
    · simp only [Option.some.injEq, Prod.mk.injEq] at hl
      obtain ⟨-, rfl⟩ := hl
      change ((s.setFrames s.place.name _).frames space)[index]?.getD .empty = _
      rw [frames_setFrames_of_ne hspace, frameAt]

/-- The last frame of the current namespace is gone when it has been left. -/
theorem frameAt_leave?_last {s s' : Scopes} {frame : Frame} (hl : s.leave? = some (frame, s'))
    {index : Nat} (h : index + 1 = (s.frames s.place.name).length) :
    s'.frameAt s.place.name index = .empty := by
  rw [frameAt, frames_leave? hl, List.getElem?_eq_none]
  · rfl
  · rw [List.length_dropLast]
    omega

/-! ## What runs at a place -/

/-- All that has happened is that the current frame and global frames hold more. -/
structure Contained (s s' : Scopes) : Prop where
  balanced : s.Balanced s'
  kept : ∀ {space : String} {index : Nat}, index ≠ 0 →
    (space ≠ s.place.name ∨ index ≠ s.place.depth) →
    s'.frameAt space index = s.frameAt space index
  grows : ∀ (space : String) (index : Nat), (s.frameAt space index).Extends (s'.frameAt space index)

/-- All that has happened is that global frames hold more. -/
structure Closed (s s' : Scopes) : Prop where
  balanced : s.Balanced s'
  kept : ∀ {space : String} {index : Nat}, index ≠ 0 →
    s'.frameAt space index = s.frameAt space index
  grows : ∀ space : String, (s.frameAt space 0).Extends (s'.frameAt space 0)

theorem Contained.refl (s : Scopes) : s.Contained s :=
  ⟨.refl s, fun _ _ => rfl, fun _ _ => .refl _⟩

theorem Contained.trans {s s' s'' : Scopes} (h : s.Contained s') (h' : s'.Contained s'') :
    s.Contained s'' where
  balanced := h.balanced.trans h'.balanced
  kept := by
    intro space index hindex hother
    have hother' := hother
    rw [← h.balanced.place] at hother'
    rw [h'.kept hindex hother', h.kept hindex hother]
  grows := fun space index => (h.grows space index).trans (h'.grows space index)

theorem Closed.contained {s s' : Scopes} (h : s.Closed s') : s.Contained s' where
  balanced := h.balanced
  kept := fun hindex _ => h.kept hindex
  grows := by
    intro space index
    cases index with
    | zero => exact h.grows space
    | succ index =>
      rw [h.kept (Nat.succ_ne_zero index)]
      exact .refl _

/-- The current frame, or a global one, comes to hold more. -/
theorem contained_modifyFrame {s : Scopes} {space : String} {index : Nat} {f : Frame → Frame}
    (hbalanced : s.Balanced (s.modifyFrame space index f))
    (hplace : index = 0 ∨ (space = s.place.name ∧ index = s.place.depth))
    (hf : (s.frameAt space index).Extends (f (s.frameAt space index))) :
    s.Contained (s.modifyFrame space index f) where
  balanced := hbalanced
  kept := by
    intro other k hk hother
    refine frameAt_modifyFrame_of_ne ?_ f
    rcases hplace with rfl | ⟨rfl, rfl⟩
    · exact .inr hk
    · exact hother
  grows := by
    intro other k
    by_cases hsame : other = space ∧ k = index
    · obtain ⟨rfl, rfl⟩ := hsame
      rw [frameAt_modifyFrame_self]
      exact hf
    · rw [frameAt_modifyFrame_of_ne (by by_cases other = space <;> simp_all)]
      exact .refl _

/-- What is contained in a namespace is contained around it, once execution is back at its place. -/
theorem contained_restore {s s' : Scopes} {space : String} (h : (s.goTo space).Contained s') :
    s.Contained (s'.restore s.place) where
  balanced := balanced_restore h.balanced
  kept := by
    intro other index hindex _
    have hkept : s'.frameAt other index = (s.goTo space).frameAt other index :=
      h.kept hindex (.inr hindex)
    rw [frameAt_goTo] at hkept
    exact hkept
  grows := by
    intro other index
    have hgrows := h.grows other index
    rw [frameAt_goTo] at hgrows
    exact hgrows

theorem Contained.atInnermost {s s' : Scopes} (h : s.Contained s') (hs : s.Placed)
    (hin : s.AtInnermost) : s'.AtInnermost := by
  obtain ⟨fs, hfs, -⟩ := hs.current
  obtain ⟨fs', hfs', hlength⟩ := h.balanced.frames hfs
  have hold : fs.length = s.place.depth + 1 := by rwa [AtInnermost, frames_of_find? hfs] at hin
  rw [AtInnermost, h.balanced.place, frames_of_find? hfs', hlength, hold]

/-- What is contained in a block closes with it, if the block has been opened in the last frame. -/
theorem closed_leave? {s s' s'' : Scopes} {frame : Frame} (hs : s.Placed) (hin : s.AtInnermost)
    (h : s.enter.Contained s') (hl : s'.leave? = some (frame, s'')) : s.Closed s'' := by
  have hname : s'.place.name = s.place.name := by rw [h.balanced.place]; rfl
  have hdepth : s'.place.depth = s.place.depth + 1 := by rw [h.balanced.place]; rfl
  have hlength : (s'.frames s'.place.name).length = s.place.depth + 1 + 1 := by
    rw [← hdepth]
    exact h.atInnermost hs.enter hin.enter
  have hold : (s.frames s.place.name).length = s.place.depth + 1 := hin
  have hframe : ∀ {space index}, ¬ (space = s.place.name ∧ index = s.place.depth + 1) →
      s''.frameAt space index = s'.frameAt space index := by
    intro space index hother
    rw [not_and_or] at hother
    refine frameAt_leave? hl ?_
    rw [hlength, hname]
    exact hother.imp_right fun hne heq => hne (Nat.succ.inj heq)
  refine ⟨balanced_leave? hs h.balanced hl, fun {space index} hindex => ?_, fun space => ?_⟩
  · by_cases hother : space = s.place.name ∧ index = s.place.depth + 1
    · -- the frame of the block was not there before, and is not there any more
      obtain ⟨rfl, rfl⟩ := hother
      rw [← hname, frameAt_leave?_last hl hlength.symm, hname, frameAt,
        List.getElem?_eq_none (by omega)]
      rfl
    · rw [hframe hother, h.kept hindex (not_and_or.mp hother), frameAt_enter]
  · have hgrows := h.grows space 0
    rw [frameAt_enter] at hgrows
    rw [hframe (by omega)]
    exact hgrows

/-! ## Names after a block -/

/-- The global frame is the last one to be looked through. -/
theorem visibleFrames_eq_of_frames {s : Scopes} {f : Frame} {fs : List Frame}
    (h : s.frames s.place.name = f :: fs) :
    s.visibleFrames = ((fs.take s.place.depth).reverse ++ [f]).take s.place.visible := by
  rw [visibleFrames, h, List.take_succ_cons, List.reverse_cons]

/-- The frames of the current namespace differ at most in the global one. -/
theorem Closed.exists_frames {s s' : Scopes} (hs : s.Placed) (h : s.Closed s') :
    ∃ f f' fs, s.frames s.place.name = f :: fs ∧ s'.frames s.place.name = f' :: fs := by
  obtain ⟨fs, hfs, hdepth⟩ := hs.current
  obtain ⟨fs', hfs', hlength⟩ := h.balanced.frames hfs
  have hat : ∀ index, fs'[index + 1]? = fs[index + 1]? := by
    intro index
    have hkept : s'.frameAt s.place.name (index + 1) = s.frameAt s.place.name (index + 1) :=
      h.kept (Nat.succ_ne_zero index)
    simp only [frameAt, frames_of_find? hfs, frames_of_find? hfs'] at hkept
    by_cases hlt : index + 1 < fs.length
    · rw [List.getElem?_eq_getElem hlt, List.getElem?_eq_getElem (hlength ▸ hlt)] at hkept ⊢
      exact congrArg some hkept
    · rw [List.getElem?_eq_none (by omega), List.getElem?_eq_none (by omega)]
  rw [frames_of_find? hfs, frames_of_find? hfs']
  cases fs with
  | nil => exact absurd hdepth (Nat.not_lt_zero _)
  | cons f fs =>
    cases fs' with
    | nil => cases hlength
    | cons f' fs' => exact ⟨f, f', fs, rfl, by rw [List.ext_getElem? hat]⟩

/-- Every name stands for what it stood for before, except that one which stood for nothing may now
be bound in the global frame. -/
theorem Closed.lookup? {s s' : Scopes} (hs : s.Placed) (h : s.Closed s') (name : String) :
    s'.lookup? name = s.lookup? name ∨
      (s.lookup? name = none ∧ s.global? s.place.name name = none ∧
        s'.lookup? name = s'.global? s.place.name name) := by
  obtain ⟨f, f', fs, hfs, hfs'⟩ := h.exists_frames hs
  have hvisible := visibleFrames_eq_of_frames hfs
  have hvisible' : s'.visibleFrames =
      ((fs.take s.place.depth).reverse ++ [f']).take s.place.visible := by
    have hplace := h.balanced.place
    have hframes : s'.frames s'.place.name = f' :: fs := by rw [hplace, hfs']
    rw [visibleFrames_eq_of_frames hframes, hplace]
  have hgrows := h.grows s.place.name
  simp only [frameAt, hfs, hfs', List.getElem?_cons_zero, Option.getD_some] at hgrows
  simp only [Scopes.lookup?, Scopes.global?, hvisible, hvisible', hfs, hfs', List.take_append,
    List.findSome?_append]
  cases (((fs.take s.place.depth).reverse).take s.place.visible).findSome?
    fun frame => frame.names.find? name with
  | some k => exact .inl rfl
  | none =>
    cases s.place.visible - (fs.take s.place.depth).reverse.length with
    | zero => exact .inl rfl
    | succ n =>
      cases hname : f.names.find? name with
      | some k => simp [hname, hgrows.names hname]
      | none => simp [hname]

end Scopes

namespace Store

theorem contained_resolve {s s' : Store} (hs : s.scopes.Placed) {name : String} {h : Handle}
    (hr : s.resolve name = .ok (h, s')) : s.scopes.Contained s'.scopes := by
  have hbalanced := balanced_resolve hs hr
  rcases resolve_cases hr with
    ⟨rfl, -⟩ | ⟨space, member, -, -, hglobal, heq⟩ | ⟨-, hlookup, heq⟩
  · exact .refl _
  · obtain ⟨-, rfl⟩ := Prod.mk.inj heq
    rw [Scopes.global?_eq] at hglobal
    exact Scopes.contained_modifyFrame hbalanced (.inl rfl) (Frame.extends_bind hglobal _)
  · obtain ⟨-, rfl⟩ := Prod.mk.inj heq
    have hname := Scopes.find?_currentFrame_of_lookup? hs.visible hlookup
    exact Scopes.contained_modifyFrame hbalanced (.inr ⟨rfl, rfl⟩) (Frame.extends_bind hname _)

theorem contained_declare {s s' : Store} (hs : s.scopes.Placed) {i : Identifier} {h : Handle}
    (hd : s.declare i = .ok (some (h, s'))) : s.scopes.Contained s'.scopes := by
  have hbalanced := balanced_declare hs hd
  rcases declare_cases hd with ⟨hname, heq⟩ | ⟨old, -, -, -, rfl⟩
  · obtain ⟨-, rfl⟩ := Prod.mk.inj heq
    exact Scopes.contained_modifyFrame hbalanced (.inr ⟨rfl, rfl⟩) (Frame.extends_bind hname _)
  · exact .refl _

theorem contained_pushTemporary {s : Store} (hs : s.scopes.Placed) (i : Identifier) :
    s.scopes.Contained (s.pushTemporary i).2.scopes :=
  Scopes.contained_modifyFrame (hs.balanced_current _) (.inr ⟨rfl, rfl⟩) (Frame.extends_adopt _ _)

end Store

end WordScript
