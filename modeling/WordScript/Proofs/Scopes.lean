import WordScript.Scopes

/-!
# What scopes hold

Which handles are held anywhere in the scopes, counted as often as they are held, and which names
they are held under. Opening a frame, going to a namespace and going back hold the same handles as
before; a binding or an adoption holds one more; leaving gives back those of the last frame.
-/

namespace WordScript

namespace Bindings

variable {α : Type}

theorem mem_of_find? {bs : Bindings α} {name : String} {value : α}
    (h : bs.find? name = some value) : (name, value) ∈ bs := by
  induction bs with
  | nil => simp [find?] at h
  | cons b bs ih =>
    obtain ⟨key, old⟩ := b
    by_cases hkey : key = name
    · simp_all [find?]
    · simp_all [find?]

theorem mem_insert {bs : Bindings α} {name key : String} {value v : α}
    (h : (key, v) ∈ bs.insert name value) : (key, v) ∈ bs ∨ (key = name ∧ v = value) := by
  induction bs with
  | nil => simpa [insert] using h
  | cons b bs ih =>
    simp only [insert] at h
    split at h
    · grind
    · rcases List.mem_cons.mp h with h | h
      · exact .inl (List.mem_cons.mpr (.inl h))
      · rcases ih h with h | h
        · exact .inl (List.mem_cons_of_mem b h)
        · exact .inr h

/-- A name that is not bound yet is bound after all others. -/
theorem insert_of_find?_eq_none {bs : Bindings α} {name : String} (h : bs.find? name = none)
    (value : α) : bs.insert name value = bs ++ [(name, value)] := by
  induction bs with
  | nil => rfl
  | cons b bs ih =>
    obtain ⟨key, old⟩ := b
    by_cases hkey : key = name
    · simp [find?, hkey] at h
    · simp only [find?, hkey, if_false] at h
      simp [insert, hkey, ih h]

/-- A name that is bound is bound again in its place. -/
theorem exists_insert_of_find? {bs : Bindings α} {name : String} {old : α}
    (h : bs.find? name = some old) :
    ∃ before after, bs = before ++ (name, old) :: after ∧
      ∀ value, bs.insert name value = before ++ (name, value) :: after := by
  induction bs with
  | nil => simp [find?] at h
  | cons b bs ih =>
    obtain ⟨key, current⟩ := b
    by_cases hkey : key = name
    · simp only [find?, hkey, if_true, Option.some.injEq] at h
      subst h
      exact ⟨[], bs, by simp [hkey], fun value => by simp [insert, hkey]⟩
    · simp only [find?, hkey, if_false] at h
      obtain ⟨before, after, hbs, hinsert⟩ := ih h
      exact ⟨(key, current) :: before, after, by simp [hbs],
        fun value => by simp [insert, hkey, hinsert]⟩

theorem insert_insert (bs : Bindings α) (name : String) (value value' : α) :
    (bs.insert name value).insert name value' = bs.insert name value' := by
  induction bs with
  | nil => simp [insert]
  | cons b bs ih =>
    obtain ⟨key, old⟩ := b
    by_cases hkey : key = name
    · simp [insert, hkey]
    · simp [insert, hkey, ih]

end Bindings

namespace Frame

@[simp] theorem handles_empty : Frame.empty.handles = [] := rfl

theorem mem_handles {f : Frame} {h : Handle} :
    h ∈ f.handles ↔ (∃ name, (name, h) ∈ f.names) ∨ h ∈ f.temporaries := by
  simp [handles, Bindings.values]

/-- Binding a name that is not bound yet holds one handle more. -/
theorem handles_bind {f : Frame} {name : String} (hname : f.names.find? name = none) (h : Handle) :
    ({ f with names := f.names.insert name h } : Frame).handles.Perm (h :: f.handles) := by
  simp only [handles, Bindings.values, Bindings.insert_of_find?_eq_none hname, List.map_append,
    List.map_cons, List.map_nil, List.append_assoc, List.singleton_append]
  exact List.perm_middle

theorem handles_adopt (f : Frame) (h : Handle) :
    ({ f with temporaries := h :: f.temporaries } : Frame).handles.Perm (h :: f.handles) := by
  simp only [handles, List.reverse_cons, ← List.append_assoc]
  exact List.perm_append_comm

end Frame

namespace Scopes

/-- All handles that frames hold, as often as they are held. -/
def held (s : Scopes) : List Handle :=
  s.namespaces.flatMap fun space => space.2.flatMap Frame.handles

/-- Whether the frame of an index in some namespace binds a name to a handle. -/
def Binds (s : Scopes) (index : Nat) (name : String) (h : Handle) : Prop :=
  ∃ space ∈ s.namespaces, ∃ frame, space.2[index]? = some frame ∧ (name, h) ∈ frame.names

/-- The frame of an index in a namespace; one that is not there counts as empty. -/
def frameAt (s : Scopes) (space : String) (index : Nat) : Frame :=
  ((s.frames space)[index]?).getD .empty

theorem mem_held_of_binds {s : Scopes} {index : Nat} {name : String} {h : Handle}
    (hb : s.Binds index name h) : h ∈ s.held := by
  obtain ⟨space, hspace, frame, hframe, hmem⟩ := hb
  refine List.mem_flatMap.mpr ⟨space, hspace, List.mem_flatMap.mpr ⟨frame, ?_, ?_⟩⟩
  · exact List.mem_of_getElem? hframe
  · exact Frame.mem_handles.mpr (.inl ⟨name, hmem⟩)

theorem binds_of_frames {s : Scopes} (space : String) {name : String} {index : Nat}
    {frame : Frame} {h : Handle} (hframe : (s.frames space)[index]? = some frame)
    (hmem : (name, h) ∈ frame.names) : s.Binds index name h := by
  unfold frames at hframe
  cases hfind : s.namespaces.find? space with
  | none => simp [hfind] at hframe
  | some fs =>
    rw [hfind] at hframe
    exact ⟨_, Bindings.mem_of_find? hfind, frame, hframe, hmem⟩

theorem binds_of_frameAt {s : Scopes} {space name : String} {index : Nat} {h : Handle}
    (hmem : (name, h) ∈ (s.frameAt space index).names) : s.Binds index name h := by
  unfold frameAt at hmem
  cases hframe : (s.frames space)[index]? with
  | none => simp [hframe, Frame.empty] at hmem
  | some frame => exact binds_of_frames _ hframe (by simpa [hframe] using hmem)

/-! ## The frames of namespaces -/

@[simp] theorem place_setFrames (s : Scopes) (name : String) (fs : List Frame) :
    (s.setFrames name fs).place = s.place := rfl

@[simp] theorem frames_setFrames_self (s : Scopes) (name : String) (fs : List Frame) :
    (s.setFrames name fs).frames name = fs := by
  simp [frames, setFrames]

/-- Setting the frames of a namespace touches what that namespace holds and nothing else. -/
theorem held_setFrames (s : Scopes) (name : String) :
    ∃ rest, s.held.Perm ((s.frames name).flatMap Frame.handles ++ rest) ∧
      ∀ fs, (s.setFrames name fs).held.Perm (fs.flatMap Frame.handles ++ rest) := by
  unfold frames setFrames held
  cases hfind : s.namespaces.find? name with
  | none =>
    refine ⟨s.namespaces.flatMap fun space => space.2.flatMap Frame.handles, by simp, ?_⟩
    intro fs
    rw [Bindings.insert_of_find?_eq_none hfind]
    simpa using List.perm_append_comm
  | some old =>
    obtain ⟨before, after, hbs, hinsert⟩ := Bindings.exists_insert_of_find? hfind
    refine ⟨before.flatMap (fun space => space.2.flatMap Frame.handles) ++
      after.flatMap (fun space => space.2.flatMap Frame.handles), ?_, ?_⟩
    · rw [hbs]
      simpa using List.perm_append_comm_assoc _ _ _
    · intro fs
      rw [hinsert]
      simpa using List.perm_append_comm_assoc _ _ _

theorem binds_setFrames {s : Scopes} {space name : String} {fs : List Frame} {index : Nat}
    {h : Handle} (hb : (s.setFrames space fs).Binds index name h) :
    s.Binds index name h ∨ ∃ frame, fs[index]? = some frame ∧ (name, h) ∈ frame.names := by
  obtain ⟨⟨key, fs'⟩, hmem, frame, hframe, hname⟩ := hb
  rcases Bindings.mem_insert hmem with hmem | ⟨-, rfl⟩
  · exact .inl ⟨_, hmem, frame, hframe, hname⟩
  · exact .inr ⟨frame, hframe, hname⟩

/-! ## Changing one frame -/

/-- The frames of a namespace, opened up to an index. -/
def opened (s : Scopes) (space : String) (index : Nat) : List Frame :=
  s.frames space ++ List.replicate (index + 1 - (s.frames space).length) .empty

theorem modifyFrame_eq (s : Scopes) (space : String) (index : Nat) (f : Frame → Frame) :
    s.modifyFrame space index f = s.setFrames space ((s.opened space index).modify index f) := rfl

theorem opened_getElem? (s : Scopes) (space : String) (index : Nat) :
    (s.opened space index)[index]? = some (s.frameAt space index) := by
  unfold opened frameAt
  by_cases hlt : index < (s.frames space).length
  · rw [List.getElem?_append_left hlt, List.getElem?_eq_getElem hlt]
    rfl
  · rw [List.getElem?_append_right (by omega), List.getElem?_replicate, if_pos (by omega),
      List.getElem?_eq_none (by omega)]
    rfl

theorem opened_eq_self {s : Scopes} {space : String} {index : Nat}
    (hlt : index < (s.frames space).length) : s.opened space index = s.frames space := by
  simp [opened, Nat.sub_eq_zero_of_le (Nat.succ_le_of_lt hlt)]

theorem flatMap_handles_opened (s : Scopes) (space : String) (index : Nat) :
    (s.opened space index).flatMap Frame.handles = (s.frames space).flatMap Frame.handles := by
  simp [opened]

theorem flatMap_modify {fs : List Frame} {index : Nat} {frame : Frame} {f : Frame → Frame}
    {new : List Handle} (hframe : fs[index]? = some frame)
    (hf : (f frame).handles.Perm (new ++ frame.handles)) :
    ((fs.modify index f).flatMap Frame.handles).Perm (new ++ fs.flatMap Frame.handles) := by
  induction fs generalizing index with
  | nil => simp at hframe
  | cons g fs ih =>
    cases index with
    | zero =>
      simp only [List.getElem?_cons_zero, Option.some.injEq] at hframe
      subst hframe
      simpa using hf.append_right (fs.flatMap Frame.handles)
    | succ index =>
      simp only [List.getElem?_cons_succ] at hframe
      simp only [List.modify_succ_cons, List.flatMap_cons]
      exact ((ih hframe).append_left g.handles).trans (List.perm_append_comm_assoc _ _ _)

/-- A change of one frame that holds new handles holds them beside all others. -/
theorem held_modifyFrame {s : Scopes} {space : String} {index : Nat} {f : Frame → Frame}
    {new : List Handle}
    (hf : (f (s.frameAt space index)).handles.Perm (new ++ (s.frameAt space index).handles)) :
    (s.modifyFrame space index f).held.Perm (new ++ s.held) := by
  obtain ⟨rest, hheld, hset⟩ := s.held_setFrames space
  have hopened := flatMap_modify (s.opened_getElem? space index) hf
  rw [flatMap_handles_opened] at hopened
  refine (hset _).trans ((hopened.append_right rest).trans ?_)
  rw [List.append_assoc]
  exact hheld.symm.append_left new

theorem binds_modifyFrame {s : Scopes} {space name : String} {index k : Nat} {f : Frame → Frame}
    {h : Handle} (hb : (s.modifyFrame space index f).Binds k name h) :
    s.Binds k name h ∨ (k = index ∧ (name, h) ∈ (f (s.frameAt space index)).names) := by
  rcases binds_setFrames hb with hb | ⟨frame, hframe, hmem⟩
  · exact .inl hb
  · change ((s.opened space index).modify index f)[k]? = some frame at hframe
    rw [List.getElem?_modify] at hframe
    by_cases hk : index = k
    · subst hk
      rw [opened_getElem?] at hframe
      simp only [if_true, Option.map_eq_map, Option.map_some, Option.some.injEq] at hframe
      exact .inr ⟨rfl, by rwa [hframe]⟩
    · simp only [hk, if_false, Option.map_eq_map, Option.map_id'] at hframe
      unfold opened at hframe
      rw [List.getElem?_append] at hframe
      split at hframe
      · exact .inl (binds_of_frames _ hframe hmem)
      · obtain rfl := List.eq_of_mem_replicate (List.mem_of_getElem? hframe)
        simp [Frame.empty] at hmem

theorem frameAt_modifyFrame_self (s : Scopes) (space : String) (index : Nat) (f : Frame → Frame) :
    (s.modifyFrame space index f).frameAt space index = f (s.frameAt space index) := by
  rw [frameAt, modifyFrame_eq, frames_setFrames_self, List.getElem?_modify, opened_getElem?]
  simp

theorem currentFrame_bind (s : Scopes) (name : String) (h : Handle) :
    (s.bind name h).currentFrame =
      { s.currentFrame with names := s.currentFrame.names.insert name h } :=
  s.frameAt_modifyFrame_self s.place.name s.place.depth _

/-! ## Blocks and namespaces -/

theorem held_enter (s : Scopes) : s.enter.held.Perm s.held := by
  obtain ⟨rest, hheld, hset⟩ := s.held_setFrames s.place.name
  refine (hset _).trans ?_
  simpa using hheld.symm

theorem binds_enter {s : Scopes} {index : Nat} {name : String} {h : Handle}
    (hb : s.enter.Binds index name h) : s.Binds index name h := by
  rcases binds_setFrames hb with hb | ⟨frame, hframe, hmem⟩
  · exact hb
  · rw [List.getElem?_append] at hframe
    split at hframe
    · exact binds_of_frames _ hframe hmem
    · obtain rfl := List.mem_singleton.mp (List.mem_of_getElem? hframe)
      simp [Frame.empty] at hmem

/-- Leaving takes away exactly what the last frame holds. -/
theorem held_leave? {s s' : Scopes} {frame : Frame} (h : s.leave? = some (frame, s')) :
    s.held.Perm (frame.handles ++ s'.held) := by
  unfold leave? at h
  split at h
  · contradiction
  · simp only [Option.some.injEq, Prod.mk.injEq] at h
    obtain ⟨rfl, rfl⟩ := h
    obtain ⟨rest, hheld, hset⟩ := s.held_setFrames s.place.name
    refine hheld.trans (List.Perm.trans ?_ ((hset _).symm.append_left _))
    rw [← List.append_assoc]
    refine List.Perm.append_right rest ?_
    cases hlast : (s.frames s.place.name).getLast? with
    | none => simp [List.getLast?_eq_none_iff.mp hlast]
    | some last =>
      obtain ⟨before, hfs⟩ := List.getLast?_eq_some_iff.mp hlast
      simpa [hfs] using List.perm_append_comm

theorem binds_leave? {s s' : Scopes} {frame : Frame} (h : s.leave? = some (frame, s'))
    {index : Nat} {name : String} {k : Handle} (hb : s'.Binds index name k) :
    s.Binds index name k := by
  unfold leave? at h
  split at h
  · contradiction
  · simp only [Option.some.injEq, Prod.mk.injEq] at h
    obtain ⟨rfl, rfl⟩ := h
    rcases binds_setFrames hb with hb | ⟨frame, hframe, hmem⟩
    · exact hb
    · refine binds_of_frames s.place.name ?_ hmem
      rw [List.getElem?_dropLast] at hframe
      split at hframe
      · exact hframe
      · contradiction

theorem held_goTo (s : Scopes) (space : String) : (s.goTo space).held = s.held := by
  unfold goTo
  cases hfind : s.namespaces.find? space with
  | some fs => rfl
  | none => simp [held, setFrames, Bindings.insert_of_find?_eq_none hfind]

theorem binds_goTo {s : Scopes} {space : String} {index : Nat} {name : String} {h : Handle}
    (hb : (s.goTo space).Binds index name h) : s.Binds index name h := by
  unfold goTo at hb
  cases hfind : s.namespaces.find? space with
  | some fs =>
    rw [hfind] at hb
    exact hb
  | none =>
    rw [hfind] at hb
    rcases binds_setFrames hb with hb | ⟨frame, hframe, hmem⟩
    · exact hb
    · obtain rfl := List.mem_singleton.mp (List.mem_of_getElem? hframe)
      simp [Frame.empty] at hmem

/-! ## Looking names up -/

/-- A name that is found is bound in some frame no deeper than the current one. -/
theorem exists_of_lookup? {s : Scopes} {name : String} {h : Handle} (hl : s.lookup? name = some h) :
    ∃ index ≤ s.place.depth, ∃ frame, (s.frames s.place.name)[index]? = some frame ∧
      frame.names.find? name = some h := by
  unfold lookup? at hl
  obtain ⟨frame, hmem, hfind⟩ := List.exists_of_findSome?_eq_some hl
  have htake := List.mem_reverse.mp (List.mem_of_mem_take hmem)
  obtain ⟨index, hindex⟩ := List.mem_iff_getElem?.mp htake
  rw [List.getElem?_take] at hindex
  split at hindex
  · exact ⟨index, by omega, frame, hindex, hfind⟩
  · contradiction

theorem binds_of_lookup? {s : Scopes} {name : String} {h : Handle} (hl : s.lookup? name = some h) :
    ∃ index, s.Binds index name h := by
  obtain ⟨index, -, frame, hframe, hfind⟩ := exists_of_lookup? hl
  exact ⟨index, binds_of_frames _ hframe (Bindings.mem_of_find? hfind)⟩

/-- A name that is not found is not bound in the current frame either. -/
theorem find?_currentFrame_of_lookup? {s : Scopes} (hv : 0 < s.place.visible) {name : String}
    (hl : s.lookup? name = none) : s.currentFrame.names.find? name = none := by
  unfold currentFrame
  cases hframe : (s.frames s.place.name)[s.place.depth]? with
  | none => rfl
  | some frame =>
    refine List.findSome?_eq_none_iff.mp hl frame ?_
    obtain ⟨hlt, hat⟩ := List.getElem?_eq_some_iff.mp hframe
    have hvisible : s.visibleFrames[0]? = some frame := by
      rw [visibleFrames, List.getElem?_take, if_pos hv, List.getElem?_reverse (by simp; omega)]
      simpa [Nat.min_eq_left (Nat.succ_le_of_lt hlt)] using hat
    exact List.mem_of_getElem? hvisible

theorem global?_eq (s : Scopes) (space name : String) :
    s.global? space name = (s.frameAt space 0).names.find? name := by
  unfold global? frameAt
  cases s.frames space <;> rfl

end Scopes

/-! ## Names with a namespace in front -/

/-- A member is what stands behind the first point of a name. -/
theorem suffix_of_qualified? {name space member : String}
    (hq : qualified? name = some (space, member)) : '.' :: member.toList <:+ name.toList := by
  unfold qualified? at hq
  split at hq
  · contradiction
  · next c cs hdrop =>
    obtain ⟨-, rfl⟩ := Prod.mk.inj (Option.some.inj hq)
    have hpoint : c = '.' := by
      have hhead := List.head?_dropWhile_not (· ≠ '.') name.toList
      rw [hdrop] at hhead
      simpa using hhead
    rw [String.toList_ofList, ← hpoint, ← hdrop]
    exact List.dropWhile_suffix _

/-- With a word, the member that it stands for when it has a namespace in front is of the same
kind. -/
def ClosedUnderMembers (Word : String → Prop) : Prop :=
  ∀ word space member, Word word → qualified? word = some (space, member) → Word member

/-- Words that do not end in some word. -/
theorem closedUnderMembers_of_suffix (ending : String) :
    ClosedUnderMembers fun word => ¬ ending.toList <:+ word.toList := by
  intro word space member hword hq hmember
  have hsuffix := (List.suffix_cons '.' member.toList).trans (suffix_of_qualified? hq)
  exact hword (hmember.trans hsuffix)

/-- The name is the word, or that of such a member in some namespace. -/
def IsCalled (word name : String) : Prop :=
  name = word ∨ '.' :: word.toList <:+ name.toList

instance (word name : String) : Decidable (IsCalled word name) :=
  inferInstanceAs (Decidable (_ ∨ _))

/-- Names other than some word, with a namespace in front or not. -/
theorem closedUnderMembers_of_isCalled (word : String) :
    ClosedUnderMembers fun name => ¬ IsCalled word name := by
  intro name space member hname hq hmember
  have hsuffix := suffix_of_qualified? hq
  refine hname (.inr ?_)
  rcases hmember with rfl | hmember
  · exact hsuffix
  · exact hmember.trans ((List.suffix_cons '.' member.toList).trans hsuffix)

theorem ClosedUnderMembers.and {Word Word' : String → Prop} (h : ClosedUnderMembers Word)
    (h' : ClosedUnderMembers Word') : ClosedUnderMembers fun name => Word name ∧ Word' name :=
  fun name space member hname hq =>
    ⟨h name space member hname.1 hq, h' name space member hname.2 hq⟩

end WordScript
