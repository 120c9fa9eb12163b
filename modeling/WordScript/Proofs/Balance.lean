import WordScript.Proofs.Teardown

/-!
# Balance

Every operation comes back to the place where it was asked: the same namespace, depth and number of
visible frames, with as many frames open in every namespace as before. That holds however the
operation ends, for all hosts and all handles; only the place has to be a frame that is there.
-/

namespace WordScript

namespace Scopes

/-- The place is the same, and so is the number of frames of every namespace that was there;
namespaces that were not there have one frame. -/
structure Balanced (s s' : Scopes) : Prop where
  place : s'.place = s.place
  frames : ∀ {name : String} {fs : List Frame}, s.namespaces.find? name = some fs →
    ∃ fs', s'.namespaces.find? name = some fs' ∧ fs'.length = fs.length
  created : ∀ {name : String} {fs : List Frame}, s.namespaces.find? name = none →
    s'.namespaces.find? name = some fs → fs.length = 1

/-- The place of execution is a frame that is there, and every namespace has a global frame. -/
structure Placed (s : Scopes) : Prop where
  current : ∃ fs, s.namespaces.find? s.place.name = some fs ∧ s.place.depth < fs.length
  nonempty : ∀ {name : String} {fs : List Frame}, s.namespaces.find? name = some fs → fs ≠ []
  visible : 0 < s.place.visible

theorem Balanced.refl (s : Scopes) : s.Balanced s where
  place := rfl
  frames := fun h => ⟨_, h, rfl⟩
  created := by
    intro name fs hnone hsome
    rw [hnone] at hsome
    contradiction

theorem Balanced.trans {s s' s'' : Scopes} (h : s.Balanced s') (h' : s'.Balanced s'') :
    s.Balanced s'' where
  place := h'.place.trans h.place
  frames := by
    intro name fs hfs
    obtain ⟨fs', hfs', hlength⟩ := h.frames hfs
    obtain ⟨fs'', hfs'', hlength'⟩ := h'.frames hfs'
    exact ⟨fs'', hfs'', hlength'.trans hlength⟩
  created := by
    intro name fs'' hnone hsome
    cases hfs' : s'.namespaces.find? name with
    | none => exact h'.created hfs' hsome
    | some fs' =>
      obtain ⟨fs, hfs, hlength⟩ := h'.frames hfs'
      rw [hsome] at hfs
      obtain rfl := Option.some.inj hfs
      exact hlength.trans (h.created hnone hfs')

/-- Where the frames are as many as before, the place is still a frame that is there. -/
theorem Placed.of_balanced {s s' : Scopes} (hs : s.Placed) (h : s.Balanced s') : s'.Placed where
  current := by
    obtain ⟨fs, hfs, hdepth⟩ := hs.current
    obtain ⟨fs', hfs', hlength⟩ := h.frames hfs
    rw [h.place]
    exact ⟨fs', hfs', hlength ▸ hdepth⟩
  nonempty := by
    intro name fs' hfs'
    cases hfs : s.namespaces.find? name with
    | none =>
      intro hnil
      have hone := h.created hfs hfs'
      simp [hnil] at hone
    | some fs =>
      obtain ⟨fs'', hfs'', hlength⟩ := h.frames hfs
      rw [hfs'] at hfs''
      obtain rfl := Option.some.inj hfs''
      intro hnil
      have hfsnil : fs = [] := List.length_eq_zero_iff.mp (by rw [← hlength, hnil]; rfl)
      exact hs.nonempty hfs hfsnil
  visible := by
    rw [h.place]
    exact hs.visible

theorem frames_of_find? {s : Scopes} {name : String} {fs : List Frame}
    (h : s.namespaces.find? name = some fs) : s.frames name = fs := by
  simp [frames, h]

theorem find?_setFrames (s : Scopes) (name other : String) (fs : List Frame) :
    (s.setFrames name fs).namespaces.find? other =
      if other = name then some fs else s.namespaces.find? other := by
  by_cases h : other = name
  · simp [setFrames, h]
  · simp [setFrames, h, Bindings.find?_insert_of_ne h]

/-- Setting as many frames as were there is balanced. -/
theorem balanced_setFrames {s : Scopes} {name : String} {fs fs' : List Frame}
    (hfs : s.namespaces.find? name = some fs) (hlength : fs'.length = fs.length) :
    s.Balanced (s.setFrames name fs') where
  place := rfl
  frames := by
    intro other gs hgs
    rw [find?_setFrames]
    by_cases hother : other = name
    · rw [hother, hfs] at hgs
      obtain rfl := Option.some.inj hgs
      exact ⟨fs', by rw [if_pos hother], hlength⟩
    · exact ⟨gs, by rw [if_neg hother, hgs], rfl⟩
  created := by
    intro other gs hnone hsome
    rw [find?_setFrames] at hsome
    by_cases hother : other = name
    · rw [hother, hfs] at hnone
      contradiction
    · rw [if_neg hother, hnone] at hsome
      contradiction

/-- Changing a frame that is there is balanced. -/
theorem balanced_modifyFrame {s : Scopes} {name : String} {fs : List Frame} {index : Nat}
    (hfs : s.namespaces.find? name = some fs) (hindex : index < fs.length) (f : Frame → Frame) :
    s.Balanced (s.modifyFrame name index f) := by
  rw [modifyFrame_eq, opened_eq_self (by rwa [frames_of_find? hfs]), frames_of_find? hfs]
  exact balanced_setFrames hfs (List.length_modify f fs index)

theorem Placed.balanced_current {s : Scopes} (hs : s.Placed) (f : Frame → Frame) :
    s.Balanced (s.modifyFrame s.place.name s.place.depth f) := by
  obtain ⟨fs, hfs, hdepth⟩ := hs.current
  exact balanced_modifyFrame hfs hdepth f

theorem Placed.enter {s : Scopes} (hs : s.Placed) : s.enter.Placed := by
  obtain ⟨fs, hfs, hdepth⟩ := hs.current
  refine ⟨⟨fs ++ [.empty], ?_, ?_⟩, ?_, Nat.succ_pos _⟩
  · change (s.setFrames s.place.name _).namespaces.find? s.place.name = _
    rw [find?_setFrames, if_pos rfl, frames_of_find? hfs]
  · rw [List.length_append]
    exact Nat.succ_lt_succ hdepth
  · intro name gs hgs
    change (s.setFrames s.place.name _).namespaces.find? name = _ at hgs
    rw [find?_setFrames] at hgs
    split at hgs
    · obtain rfl := Option.some.inj hgs
      simp
    · exact hs.nonempty hgs

/-- What is balanced inside a block is balanced around it. -/
theorem balanced_leave? {s s' s'' : Scopes} {frame : Frame} (hs : s.Placed)
    (h : s.enter.Balanced s') (hl : s'.leave? = some (frame, s'')) : s.Balanced s'' := by
  obtain ⟨fs, hfs, hdepth⟩ := hs.current
  have hentered : ∀ other, s.enter.namespaces.find? other =
      if other = s.place.name then some (fs ++ [.empty]) else s.namespaces.find? other := by
    intro other
    change (s.setFrames s.place.name _).namespaces.find? other = _
    rw [find?_setFrames, frames_of_find? hfs]
  have hplace := h.place
  obtain ⟨fs', hfs', hlength⟩ := h.frames ((hentered s.place.name).trans (if_pos rfl))
  unfold leave? at hl
  split at hl
  · contradiction
  · simp only [Option.some.injEq, Prod.mk.injEq] at hl
    obtain ⟨-, rfl⟩ := hl
    have hname : s'.place.name = s.place.name := by rw [hplace]; rfl
    have hleft : ∀ other, (s'.setFrames s'.place.name
          (s'.frames s'.place.name).dropLast).namespaces.find? other =
        if other = s.place.name then some fs'.dropLast else s'.namespaces.find? other := by
      intro other
      rw [find?_setFrames, hname, frames_of_find? hfs']
    refine ⟨?_, ?_, ?_⟩
    · have hvisible := hs.visible
      rw [hplace]
      simp only [Scopes.enter, Nat.add_sub_cancel]
      rw [Nat.max_eq_left hvisible]
    · intro name gs hgs
      change ∃ gs', (s'.setFrames _ _).namespaces.find? name = some gs' ∧ _
      rw [hleft]
      by_cases hother : name = s.place.name
      · rw [hother, hfs] at hgs
        obtain rfl := Option.some.inj hgs
        refine ⟨fs'.dropLast, if_pos hother, ?_⟩
        rw [List.length_dropLast, hlength, List.length_append]
        rfl
      · rw [if_neg hother]
        exact h.frames (by rw [hentered, if_neg hother, hgs])
    · intro name gs hnone hsome
      change (s'.setFrames _ _).namespaces.find? name = some gs at hsome
      rw [hleft] at hsome
      by_cases hother : name = s.place.name
      · rw [hother, hfs] at hnone
        contradiction
      · rw [if_neg hother] at hsome
        exact h.created (by rw [hentered, if_neg hother, hnone]) hsome

theorem find?_goTo (s : Scopes) (space other : String) :
    (s.goTo space).namespaces.find? other =
      if other = space ∧ s.namespaces.find? space = none then some [.empty]
      else s.namespaces.find? other := by
  unfold goTo
  cases hfind : s.namespaces.find? space with
  | some fs => simp
  | none =>
    change (s.setFrames space [.empty]).namespaces.find? other = _
    rw [find?_setFrames]
    simp

theorem Placed.goTo {s : Scopes} (hs : s.Placed) (space : String) : (s.goTo space).Placed := by
  have hplace : (s.goTo space).place = .top space := rfl
  refine ⟨?_, ?_, Nat.zero_lt_one⟩
  · rw [hplace]
    cases hfind : s.namespaces.find? space with
    | none => exact ⟨[.empty], by rw [find?_goTo]; simp [Place.top, hfind], Nat.zero_lt_one⟩
    | some fs =>
      refine ⟨fs, by rw [find?_goTo]; simp [Place.top, hfind], ?_⟩
      exact List.length_pos_iff.mpr (hs.nonempty hfind)
  · intro name fs hfs
    rw [find?_goTo] at hfs
    split at hfs
    · obtain rfl := Option.some.inj hfs
      simp
    · exact hs.nonempty hfs

/-- What is balanced in a namespace is balanced around it, once execution is back at its place. -/
theorem balanced_restore {s s' : Scopes} {space : String} (h : (s.goTo space).Balanced s') :
    s.Balanced (s'.restore s.place) where
  place := rfl
  frames := by
    intro name fs hfs
    refine h.frames ?_
    rw [find?_goTo, if_neg, hfs]
    rintro ⟨rfl, hnone⟩
    rw [hfs] at hnone
    contradiction
  created := by
    intro name fs hnone hsome
    by_cases hname : name = space
    · subst hname
      obtain ⟨fs', hfs', hlength⟩ := h.frames (by rw [find?_goTo, if_pos ⟨rfl, hnone⟩])
      change s'.namespaces.find? name = some fs at hsome
      rw [hsome] at hfs'
      obtain rfl := Option.some.inj hfs'
      exact hlength
    · exact h.created (by rw [find?_goTo, if_neg (fun h => hname h.1), hnone]) hsome

theorem placed_empty : empty.Placed where
  current := ⟨[.empty], rfl, Nat.zero_lt_one⟩
  nonempty := by
    intro name fs hfs
    simp only [empty, Bindings.find?] at hfs
    split at hfs
    · obtain rfl := Option.some.inj hfs
      simp
    · contradiction
  visible := Nat.zero_lt_one

end Scopes

namespace Store

theorem balanced_resolve {s s' : Store} (hs : s.scopes.Placed) {name : String} {h : Handle}
    (hr : s.resolve name = .ok (h, s')) : s.scopes.Balanced s'.scopes := by
  rcases resolve_cases hr with ⟨rfl, -⟩ | ⟨space, member, -, hspace, -, heq⟩ | ⟨-, -, heq⟩
  · exact .refl _
  · obtain ⟨-, rfl⟩ := Prod.mk.inj heq
    obtain ⟨fs, hfs⟩ := Option.isSome_iff_exists.mp hspace
    exact Scopes.balanced_modifyFrame hfs (List.length_pos_iff.mpr (hs.nonempty hfs)) _
  · obtain ⟨-, rfl⟩ := Prod.mk.inj heq
    exact hs.balanced_current _

theorem balanced_declare {s s' : Store} (hs : s.scopes.Placed) {i : Identifier} {h : Handle}
    (hd : s.declare i = .ok (some (h, s'))) : s.scopes.Balanced s'.scopes := by
  rcases declare_cases hd with ⟨-, heq⟩ | ⟨old, -, -, -, rfl⟩
  · obtain ⟨-, rfl⟩ := Prod.mk.inj heq
    exact hs.balanced_current _
  · exact .refl _

theorem balanced_leave {s s' : Store} (hs : s.scopes.Placed)
    (h : s.enter.scopes.Balanced s'.scopes) (arrange : List Handle → List Handle) :
    s.scopes.Balanced (s'.leave arrange).2.scopes := by
  rcases leave_cases arrange s' with ⟨hzero, -⟩ | ⟨frame, scopes, hl, heq, -⟩
  · -- the depth of a block is never zero
    have hdepth : s'.scopes.place.depth = s.scopes.place.depth + 1 := by rw [h.place]; rfl
    omega
  · rw [heq]
    exact Scopes.balanced_leave? hs h hl

theorem placed_initial : initial.scopes.Placed :=
  initial_induction (P := fun s => s.scopes.Placed) Scopes.placed_empty
    fun _ _ _ _ _ hs => hs.of_balanced (hs.balanced_current _)

end Store

namespace Contract

/-- Every operation is balanced, for whatever identifiers the host stores. -/
theorem kept_balanced :
    Kept (fun s => s.scopes.Placed) (fun s s' => s.scopes.Balanced s'.scopes)
      (fun s s' => s.scopes.Balanced s'.scopes) (fun _ _ => True) (fun _ => True) where
  refl := fun _ => .refl _
  trans := fun h h' => h.trans h'
  blocks := id
  literal := fun _ => trivial
  declared := fun _ _ => trivial
  read := fun _ _ _ hs => ⟨hs, .refl _⟩
  resolve := fun hs _ hr =>
    ⟨hs.of_balanced (Store.balanced_resolve hs hr), Store.balanced_resolve hs hr⟩
  declare := fun hs _ hd =>
    ⟨hs.of_balanced (Store.balanced_declare hs hd), Store.balanced_declare hs hd⟩
  push := fun hs _ => ⟨hs.of_balanced (hs.balanced_current _), hs.balanced_current _⟩
  setValue := fun hs _ _ => ⟨hs, .refl _⟩
  enter := fun hs _ => hs.enter
  leave := fun _ hs _ h _ =>
    ⟨hs.of_balanced (Store.balanced_leave hs h _), Store.balanced_leave hs h _⟩
  goTo := fun space hs => hs.goTo space
  restore := fun _ _ _ hs _ h _ =>
    ⟨hs.of_balanced (Scopes.balanced_restore h), Scopes.balanced_restore h⟩

end Contract

theorem Operation.stores_true (op : Operation) : op.Stores fun _ => True := by
  cases op <;> trivial

theorem Script.asksOnly_of_forall {α : Type} {allowed : Operation → Prop} (h : ∀ op, allowed op)
    (script : Script α) : script.AsksOnly allowed := by
  induction script with
  | finish result => cases result <;> trivial
  | ask op next ih => exact ⟨h op, fun answer _ => ih answer⟩

/-- No restriction at all is one that every host meets. -/
theorem Host.asksOnly_stores_true (host : Host) : host.AsksOnly (·.Stores fun _ => True) where
  native := fun _ _ => Script.asksOnly_of_forall Operation.stores_true _
  entry := fun _ _ => Script.asksOnly_of_forall Operation.stores_true _

/-- The store is sound in every state that is reached, whatever the host does. -/
theorem Reached.sound {host : Host} {m : Machine} (hm : Reached host (fun _ => True) m) :
    m.store.Sound :=
  (Contract.kept_sound.lawful host.asksOnly_stores_true).reached Store.sound_initial
    (fun _ op _ _ => Contract.admits_uniform op.stores_true) hm

/-- The place of execution is there in every state that is reached, whatever the host does. -/
theorem Reached.placed {host : Host} {m : Machine} (hm : Reached host (fun _ => True) m) :
    m.store.scopes.Placed :=
  (Contract.kept_balanced.lawful host.asksOnly_stores_true).reached Store.placed_initial
    (fun _ op _ _ => Contract.admits_uniform op.stores_true) hm

/-- In every state that is reached, whatever the host does, every operation comes back to the same
place with the same number of open frames, whether it gives an answer or fails. -/
theorem scopes_balanced {host : Host} {m : Machine} (hm : Reached host (fun _ => True) m)
    (steps : Nat) (op : Operation) :
    (perform host steps op m).EndsIn fun m' => m.store.scopes.Balanced m'.store.scopes := by
  have hC := Contract.kept_balanced.lawful host.asksOnly_stores_true
  have hmeets := hC.perform_meets steps hm.placed (Contract.admits_uniform op.stores_true)
  exact hmeets.endsIn fun _ _ heffect => Contract.kept_balanced.effect heffect

/-- A block that loads a module, which fails in a block of its own. -/
theorem scopes_balanced_include :
    (perform (Extension.Registry.host [("m", [.run "\x7b\ndecas x :: int\nx = 1 / 0\n\x7d\n"])]) 99
      (.runTextTopLevel "\x7b\ninclude m as n\n\x7d\n") (.initial {})).EndsIn
      fun m' => (Machine.initial {}).store.scopes.Balanced m'.store.scopes :=
  scopes_balanced (.initial {}) 99 _

end WordScript
