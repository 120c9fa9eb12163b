import WordScript.Proofs.Balance

/-!
# The innermost frame

As long as the current frame is the last one of its namespace, running changes nothing but that
frame: whatever comes up is held there, and leaving the block takes it all away again. Beyond the
current frame only the payloads of variables change. A module that is loaded into a namespace with
open blocks starts at the global frame, which is not the last one, and there none of this holds.
-/

namespace WordScript

namespace Frame

/-- Some name without a point is bound in none of the frames. -/
theorem exists_fresh (fs : List Frame) :
    ∃ name : String, '.' ∉ name.toList ∧ ∀ f ∈ fs, f.names.find? name = none := by
  have hbound : ∀ names : List String, ∃ n, ∀ name ∈ names, name.length ≤ n := by
    intro names
    induction names with
    | nil => exact ⟨0, by simp⟩
    | cons name names ih =>
      obtain ⟨n, hn⟩ := ih
      refine ⟨max name.length n, fun other hother => ?_⟩
      rcases List.mem_cons.mp hother with rfl | hother
      · exact Nat.le_max_left _ _
      · exact Nat.le_trans (hn other hother) (Nat.le_max_right _ _)
  obtain ⟨n, hn⟩ := hbound (fs.flatMap fun f => f.names.map Prod.fst)
  refine ⟨String.ofList (List.replicate (n + 1) 'a'), by simp, fun f hf => ?_⟩
  cases hfind : f.names.find? (String.ofList (List.replicate (n + 1) 'a')) with
  | none => rfl
  | some h =>
    have hmem := List.mem_map_of_mem (f := Prod.fst) (Bindings.mem_of_find? hfind)
    have hle := hn _ (List.mem_flatMap.mpr ⟨f, hf, hmem⟩)
    rw [String.length_ofList, List.length_replicate] at hle
    omega

end Frame

namespace Scopes

/-- The current frame is the last one of the current namespace. -/
def AtInnermost (s : Scopes) : Prop :=
  (s.frames s.place.name).length = s.place.depth + 1

instance decidableAtInnermost : DecidablePred AtInnermost := fun s =>
  inferInstanceAs (Decidable ((s.frames s.place.name).length = s.place.depth + 1))

/-- The scopes with another last frame in the current namespace. -/
def setInnermost (s : Scopes) (f : Frame) : Scopes :=
  s.setFrames s.place.name ((s.frames s.place.name).dropLast ++ [f])

/-- The frames that can be seen beyond the last one of the current namespace. -/
def outerFrames (s : Scopes) : List Frame :=
  (s.frames s.place.name).dropLast.reverse.take (s.place.visible - 1)

/-- Some name that can be seen stands for the handle. -/
def Shows (s : Scopes) (h : Handle) : Prop :=
  ∃ frame ∈ s.visibleFrames, ∃ name, frame.names.find? name = some h

@[simp] theorem place_setInnermost (s : Scopes) (f : Frame) : (s.setInnermost f).place = s.place :=
  rfl

@[simp] theorem frames_setInnermost (s : Scopes) (f : Frame) :
    (s.setInnermost f).frames s.place.name = (s.frames s.place.name).dropLast ++ [f] :=
  frames_setFrames_self _ _ _

theorem setInnermost_setInnermost (s : Scopes) (f g : Frame) :
    (s.setInnermost f).setInnermost g = s.setInnermost g := by
  have hlast : (s.setInnermost f).setInnermost g =
      (s.setInnermost f).setFrames s.place.name ((s.frames s.place.name).dropLast ++ [g]) := by
    simp [setInnermost]
  rw [hlast]
  simp [setInnermost, setFrames, Bindings.insert_insert]

@[simp] theorem outerFrames_setInnermost (s : Scopes) (f : Frame) :
    (s.setInnermost f).outerFrames = s.outerFrames := by
  simp [outerFrames]

section AtInnermost

variable {s : Scopes}

theorem AtInnermost.frames_eq (hs : s.AtInnermost) :
    s.frames s.place.name = (s.frames s.place.name).dropLast ++ [s.currentFrame] := by
  have hne : s.frames s.place.name ≠ [] := List.length_pos_iff.mp (by rw [hs]; omega)
  have hlast : s.currentFrame = (s.frames s.place.name).getLast hne := by
    have hindex : (s.frames s.place.name)[s.place.depth]? =
        some ((s.frames s.place.name).getLast hne) := by
      rw [← List.getLast?_eq_some_getLast hne, List.getLast?_eq_getElem?, hs]
      rfl
    rw [currentFrame, hindex]
    rfl
  rw [hlast, List.dropLast_concat_getLast]

theorem AtInnermost.setInnermost (hs : s.AtInnermost) (f : Frame) :
    (s.setInnermost f).AtInnermost := by
  have hlength : (s.frames s.place.name).length = s.place.depth + 1 := hs
  rw [AtInnermost, place_setInnermost, frames_setInnermost]
  simp [hlength]

theorem AtInnermost.currentFrame_setInnermost (hs : s.AtInnermost) (f : Frame) :
    (s.setInnermost f).currentFrame = f := by
  have hlength : (s.frames s.place.name).length = s.place.depth + 1 := hs
  rw [currentFrame, place_setInnermost, frames_setInnermost,
    List.getElem?_append_right (by simp [hlength])]
  simp [hlength]

/-- The scopes are those with the frames that they have. -/
theorem AtInnermost.setInnermost_currentFrame (hs : s.AtInnermost) :
    s.setInnermost s.currentFrame = s := by
  have hne : s.frames s.place.name ≠ [] := List.length_pos_iff.mp (by rw [hs]; omega)
  rw [Scopes.setInnermost, ← hs.frames_eq]
  unfold frames at hne ⊢
  cases hfind : s.namespaces.find? s.place.name with
  | none => simp [hfind] at hne
  | some fs => simp [setFrames, Bindings.insert_eq_self hfind]

/-- Changing the current frame changes the last one. -/
theorem AtInnermost.modifyFrame_eq (hs : s.AtInnermost) (g : Frame → Frame) :
    s.modifyFrame s.place.name s.place.depth g = s.setInnermost (g s.currentFrame) := by
  have hlength : (s.frames s.place.name).length = s.place.depth + 1 := hs
  have hbefore : (s.frames s.place.name).dropLast.length = s.place.depth := by simp [hlength]
  have hmodify : (s.frames s.place.name).modify s.place.depth g =
      (s.frames s.place.name).dropLast ++ [g s.currentFrame] := by
    calc (s.frames s.place.name).modify s.place.depth g
      _ = ((s.frames s.place.name).dropLast ++ [s.currentFrame]).modify s.place.depth g :=
        congrArg (·.modify s.place.depth g) hs.frames_eq
      _ = (s.frames s.place.name).dropLast ++ [g s.currentFrame] := by
        rw [List.modify_eq_take_drop, List.take_left' hbefore, List.drop_left' hbefore]
        rfl
  rw [Scopes.modifyFrame_eq, opened_eq_self (by omega), hmodify, Scopes.setInnermost]

theorem AtInnermost.visibleFrames_eq (hs : s.AtInnermost) (hv : 0 < s.place.visible) :
    s.visibleFrames = s.currentFrame :: s.outerFrames := by
  have hlength : (s.frames s.place.name).length = s.place.depth + 1 := hs
  obtain ⟨n, hn⟩ : ∃ n, s.place.visible = n + 1 := ⟨s.place.visible - 1, by omega⟩
  have hall : (s.frames s.place.name).take (s.place.depth + 1) = s.frames s.place.name :=
    List.take_of_length_le (by omega)
  rw [visibleFrames, hall, hs.frames_eq, List.reverse_concat, hn, List.take_succ_cons, outerFrames,
    hn]
  rfl

theorem AtInnermost.shows_of_currentFrame (hs : s.AtInnermost) (hv : 0 < s.place.visible)
    {name : String} {h : Handle} (hname : s.currentFrame.names.find? name = some h) : s.Shows h :=
  ⟨s.currentFrame, by rw [hs.visibleFrames_eq hv]; exact List.mem_cons_self, name, hname⟩

/-! ## Blocks -/

theorem frames_enter (s : Scopes) :
    s.enter.frames s.place.name = s.frames s.place.name ++ [.empty] :=
  frames_setFrames_self _ _ _

theorem AtInnermost.enter (hs : s.AtInnermost) : s.enter.AtInnermost := by
  have hlength : (s.frames s.place.name).length = s.place.depth + 1 := hs
  change (s.enter.frames s.place.name).length = s.place.depth + 1 + 1
  rw [frames_enter, List.length_append, hlength]
  rfl

theorem AtInnermost.currentFrame_enter (hs : s.AtInnermost) : s.enter.currentFrame = .empty := by
  have hlength : (s.frames s.place.name).length = s.place.depth + 1 := hs
  change ((s.enter.frames s.place.name)[s.place.depth + 1]?).getD .empty = .empty
  rw [frames_enter, List.getElem?_append_right (by omega), hlength]
  simp

/-- From a new block one sees what could be seen before. -/
theorem AtInnermost.outerFrames_enter (hs : s.AtInnermost) :
    s.enter.outerFrames = s.visibleFrames := by
  have hlength : (s.frames s.place.name).length = s.place.depth + 1 := hs
  have hall : (s.frames s.place.name).take (s.place.depth + 1) = s.frames s.place.name :=
    List.take_of_length_le (by omega)
  change (s.enter.frames s.place.name).dropLast.reverse.take (s.place.visible + 1 - 1) = _
  rw [frames_enter, List.dropLast_concat, visibleFrames, hall]
  rfl

theorem AtInnermost.visibleFrames_enter (hs : s.AtInnermost) :
    s.enter.visibleFrames = .empty :: s.visibleFrames := by
  rw [hs.enter.visibleFrames_eq (Nat.succ_pos _), hs.currentFrame_enter, hs.outerFrames_enter]

theorem AtInnermost.lookup?_enter (hs : s.AtInnermost) (name : String) :
    s.enter.lookup? name = s.lookup? name := by
  rw [lookup?, lookup?, hs.visibleFrames_enter]
  rfl

theorem AtInnermost.shows_enter (hs : s.AtInnermost) {h : Handle} :
    s.enter.Shows h ↔ s.Shows h := by
  rw [Shows, hs.visibleFrames_enter]
  simp [Shows, Frame.empty, Bindings.find?]

/-- Leaving a block gives what its frame has become, and the scopes from before the block. -/
theorem AtInnermost.leave?_enter (hs : s.AtInnermost) (hv : 0 < s.place.visible) (f : Frame) :
    (s.enter.setInnermost f).leave? = some (f, s) := by
  have hname : (s.enter.setInnermost f).place.name = s.place.name := rfl
  have hframes : (s.enter.setInnermost f).frames s.place.name =
      s.frames s.place.name ++ [f] := by
    have henter : s.enter.place.name = s.place.name := rfl
    rw [← henter, frames_setInnermost, henter, frames_enter, List.dropLast_concat]
  have hback : (s.enter.setInnermost f).setFrames s.place.name (s.frames s.place.name) =
      { s with place := s.enter.place } := by
    have hself := congrArg Scopes.namespaces hs.setInnermost_currentFrame
    rw [Scopes.setInnermost, ← hs.frames_eq] at hself
    change Scopes.mk _ s.enter.place = _
    rw [← hself]
    simp [Scopes.setInnermost, Scopes.enter, setFrames, Bindings.insert_insert]
  have hdepth : (s.enter.setInnermost f).place.depth ≠ 0 := Nat.succ_ne_zero _
  rw [leave?, if_neg hdepth]
  simp only [hname, hframes, hback, List.getLast?_concat, List.dropLast_concat]
  simp [Scopes.enter, Nat.max_eq_left hv]

end AtInnermost

/-! ## Elsewhere -/

theorem frames_leave? {s s' : Scopes} {frame : Frame} (h : s.leave? = some (frame, s')) :
    s'.frames s.place.name = (s.frames s.place.name).dropLast := by
  unfold leave? at h
  split at h
  · contradiction
  · simp only [Option.some.injEq, Prod.mk.injEq] at h
    obtain ⟨-, rfl⟩ := h
    exact frames_setFrames_self s s.place.name _

/-- A name that is bound in no frame of the current namespace is not found, nor in a new block. -/
theorem lookup?_of_fresh {s : Scopes} {name : String}
    (hname : ∀ f ∈ s.frames s.place.name, f.names.find? name = none) :
    s.lookup? name = none ∧ s.enter.lookup? name = none := by
  have hvisible : ∀ {s : Scopes} {f : Frame}, f ∈ s.visibleFrames → f ∈ s.frames s.place.name :=
    fun hf => List.mem_of_mem_take (List.mem_reverse.mp (List.mem_of_mem_take hf))
  refine ⟨List.findSome?_eq_none_iff.mpr fun f hf => hname f (hvisible hf),
    List.findSome?_eq_none_iff.mpr fun f hf => ?_⟩
  have hmem : f ∈ s.enter.frames s.place.name := hvisible hf
  rw [frames_enter] at hmem
  rcases List.mem_append.mp hmem with hmem | hmem
  · exact hname f hmem
  · rw [List.mem_singleton.mp hmem]
    rfl

/-- Where the current frame is not the last one, a name that is bound in a block stays bound. -/
theorem leave?_bind_enter {s s' : Scopes} (hs : s.Placed) (hin : ¬ s.AtInnermost)
    {name : String} (hname : ∀ f ∈ s.frames s.place.name, f.names.find? name = none) {h : Handle}
    {frame : Frame} (hl : (s.enter.bind name h).leave? = some (frame, s')) : s' ≠ s := by
  obtain ⟨fs, hfs, hdepth⟩ := hs.current
  have hframes := frames_of_find? hfs
  have hlength : s.place.depth + 1 < fs.length := by
    rw [AtInnermost, hframes] at hin
    omega
  have henter : s.enter.frames s.place.name = fs ++ [.empty] := by rw [frames_enter, hframes]
  have hbind : (s.enter.bind name h).frames s.place.name =
      (fs ++ [Frame.empty]).modify (s.place.depth + 1) fun f =>
        { f with names := f.names.insert name h } := by
    change (s.enter.modifyFrame s.place.name (s.place.depth + 1) _).frames s.place.name = _
    rw [modifyFrame_eq, frames_setFrames_self, opened_eq_self (by rw [henter]; simp; omega), henter]
  have hnew : (s'.frames s.place.name)[s.place.depth + 1]? =
      some { fs[s.place.depth + 1] with names := (fs[s.place.depth + 1]).names.insert name h } := by
    have hleft := frames_leave? hl
    change s'.frames s.place.name = ((s.enter.bind name h).frames s.place.name).dropLast at hleft
    rw [hleft, hbind, List.getElem?_dropLast, if_pos (by simp; omega), List.getElem?_modify_eq,
      List.getElem?_append_left hlength, List.getElem?_eq_getElem hlength]
    rfl
  have hnone := hname fs[s.place.depth + 1] (by rw [hframes]; exact List.getElem_mem hlength)
  rintro rfl
  rw [hframes, List.getElem?_eq_getElem hlength] at hnew
  have hsome := congrArg (fun f : Frame => f.names.find? name) (Option.some.inj hnew)
  simp only [Bindings.find?_insert_self, hnone] at hsome
  contradiction

end Scopes

/-- A function that loads modules. -/
def Identifier.Loads (i : Identifier) : Prop :=
  i.isFunction = true ∧ i.LoadsModules

theorem Identifier.not_isFunction_of_isVariable {i : Identifier} (hi : i.isVariable = true) :
    i.isFunction = false := by
  simp_all [Identifier.isVariable, Identifier.isFunction]

theorem Identifier.not_isUndefined_of_isVariable {i : Identifier} (hi : i.isVariable = true) :
    i.isUndefined = false := by
  simp_all [Identifier.isVariable, Identifier.isUndefined]

namespace Store

/-- What may become of the identifier behind a handle: a variable that can be seen, or that is one
of the program's own handles, is assigned to, and a name of the current frame is declared. -/
inductive Becomes (Own : Handle → Prop) (s : Store) (h : Handle) (i : Identifier) :
    Identifier → Prop where
  | same : Becomes Own s h i i
  | assigned (hvariable : i.isVariable = true) (hnear : s.scopes.Shows h ∨ Own h) (value : Value) :
      Becomes Own s h i { i with value }
  | declared {name : String} {i' : Identifier} (hundefined : i.isUndefined = true)
      (hname : s.scopes.currentFrame.names.find? name = some h) (hvariable : i'.isVariable = true) :
      Becomes Own s h i i'

/-- What may come up in a frame: no function, only names of a kind, and variables under a name. -/
structure Added (Named : String → Prop) (f : Frame) (h : Handle) (i : Identifier) : Prop where
  notFunction : i.isFunction = false
  named : i.isUndefined = true → Named i.surface
  bound : i.isVariable = true → ∃ name, f.names.find? name = some h

/-- All that has happened to the scopes is that the current frame has become `f`, which holds the
`new` handles besides the old ones. -/
structure Fills (Named : String → Prop) (Own : Handle → Prop) (new : List Handle) (f : Frame)
    (s s' : Store) : Prop where
  scopes : s'.scopes = s.scopes.setInnermost f
  handles : f.handles.Perm (new ++ s.scopes.currentFrame.handles)
  bound : ∀ {name h}, s.scopes.currentFrame.names.find? name = some h →
    f.names.find? name = some h
  named : ∀ {name h}, f.names.find? name = some h →
    s.scopes.currentFrame.names.find? name = some h ∨ h ∈ new
  fresh : ∀ h ∈ new, ¬ s.arena.IsLive h
  live : ∀ h, s'.arena.IsLive h ↔ h ∈ new ∨ s.arena.IsLive h
  size : s'.arena.slots.size + s.arena.free.length =
    s.arena.slots.size + s'.arena.free.length + new.length
  added : ∀ {h i}, h ∈ new → s'.arena.get? h = some i → Added Named f h i
  kept : ∀ {h i}, s.arena.get? h = some i → ∃ i', s'.arena.get? h = some i' ∧ Becomes Own s h i i'

section Fills

variable {Named : String → Prop} {Own : Handle → Prop} {new new' : List Handle} {f g : Frame}
variable {s s' s'' : Store}

theorem Fills.atInnermost (hs : s.scopes.AtInnermost) (h : Fills Named Own new f s s') :
    s'.scopes.AtInnermost := by
  rw [h.scopes]
  exact hs.setInnermost f

theorem Fills.currentFrame (hs : s.scopes.AtInnermost) (h : Fills Named Own new f s s') :
    s'.scopes.currentFrame = f := by
  rw [h.scopes]
  exact hs.currentFrame_setInnermost f

theorem Fills.visibleFrames (hs : s.scopes.AtInnermost) (hv : 0 < s.scopes.place.visible)
    (h : Fills Named Own new f s s') : s'.scopes.visibleFrames = f :: s.scopes.outerFrames := by
  have hs' := h.atInnermost hs
  have hv' : 0 < s'.scopes.place.visible := by rwa [h.scopes]
  rw [hs'.visibleFrames_eq hv', h.currentFrame hs, h.scopes, Scopes.outerFrames_setInnermost]

/-- What could be seen can still be seen. -/
theorem Fills.shows (hs : s.scopes.AtInnermost) (hv : 0 < s.scopes.place.visible)
    (h : Fills Named Own new f s s') {k : Handle} (hk : s.scopes.Shows k) : s'.scopes.Shows k := by
  obtain ⟨frame, hmem, name, hname⟩ := hk
  rw [hs.visibleFrames_eq hv] at hmem
  rw [Scopes.Shows, h.visibleFrames hs hv]
  rcases List.mem_cons.mp hmem with rfl | hmem
  · exact ⟨f, List.mem_cons_self, name, h.bound hname⟩
  · exact ⟨frame, List.mem_cons_of_mem f hmem, name, hname⟩

/-- What can be seen and was live already could be seen already. -/
theorem Fills.shows_of_isLive (hs : s.scopes.AtInnermost) (hv : 0 < s.scopes.place.visible)
    (h : Fills Named Own new f s s') {k : Handle} (hl : s.arena.IsLive k)
    (hk : s'.scopes.Shows k) : s.scopes.Shows k := by
  obtain ⟨frame, hmem, name, hname⟩ := hk
  rw [h.visibleFrames hs hv] at hmem
  rw [Scopes.Shows, hs.visibleFrames_eq hv]
  rcases List.mem_cons.mp hmem with rfl | hmem
  · rcases h.named hname with hname | hnew
    · exact ⟨_, List.mem_cons_self, name, hname⟩
    · exact absurd hl (h.fresh k hnew)
  · exact ⟨frame, List.mem_cons_of_mem _ hmem, name, hname⟩

/-- What a name stands for now and was live already is what it stood for. -/
theorem Fills.lookup?_of_isLive (hs : s.scopes.AtInnermost) (hv : 0 < s.scopes.place.visible)
    (h : Fills Named Own new f s s') {name : String} {k : Handle} (hl : s.arena.IsLive k)
    (hk : s'.scopes.lookup? name = some k) : s.scopes.lookup? name = some k := by
  rw [Scopes.lookup?, h.visibleFrames hs hv, List.findSome?_cons] at hk
  rw [Scopes.lookup?, hs.visibleFrames_eq hv, List.findSome?_cons]
  cases hf : f.names.find? name with
  | some k' =>
    rw [hf] at hk
    obtain rfl := Option.some.inj hk
    rcases h.named hf with hcurrent | hnew
    · rw [hcurrent]
    · exact absurd hl (h.fresh _ hnew)
  | none =>
    rw [hf] at hk
    cases hcurrent : s.scopes.currentFrame.names.find? name with
    | some k' =>
      rw [h.bound hcurrent] at hf
      contradiction
    | none => exact hk

theorem Becomes.trans (hs : s.scopes.AtInnermost) (hv : 0 < s.scopes.place.visible)
    (h : Fills Named Own new f s s') {k : Handle} (hl : s.arena.IsLive k) {i i' i'' : Identifier}
    (hi : Becomes Own s k i i') (hi' : Becomes Own s' k i' i'') : Becomes Own s k i i'' := by
  cases hi with
  | same =>
    cases hi' with
    | same => exact .same
    | assigned hvariable hnear value =>
      exact .assigned hvariable (hnear.imp_left (h.shows_of_isLive hs hv hl)) value
    | declared hundefined hname hvariable =>
      rw [h.currentFrame hs] at hname
      rcases h.named hname with hname | hnew
      · exact .declared hundefined hname hvariable
      · exact absurd hl (h.fresh k hnew)
  | assigned hvariable hnear value =>
    cases hi' with
    | same => exact .assigned hvariable hnear value
    | assigned _ _ value' => exact .assigned hvariable hnear value'
    | declared hundefined =>
      change i.isUndefined = true at hundefined
      rw [Identifier.not_isUndefined_of_isVariable hvariable] at hundefined
      contradiction
  | declared hundefined hname hvariable =>
    cases hi' with
    | same => exact .declared hundefined hname hvariable
    | assigned _ _ value => exact .declared hundefined hname hvariable
    | declared _ _ hvariable' => exact .declared hundefined hname hvariable'

/-- What came up in a frame and then became something else still is such a thing. -/
theorem Added.becomes {k : Handle} {i i' : Identifier} (ha : Added Named f k i)
    (hbound : ∀ {name}, f.names.find? name = some k → g.names.find? name = some k)
    (hcurrent : s.scopes.currentFrame = f) (hi : Becomes Own s k i i') : Added Named g k i' := by
  cases hi with
  | same => exact ⟨ha.notFunction, ha.named, fun hi => (ha.bound hi).imp fun _ => hbound⟩
  | assigned hvariable _ value =>
    exact ⟨ha.notFunction, ha.named, fun hi => (ha.bound hi).imp fun _ => hbound⟩
  | @declared name i' _ hname hvariable =>
    rw [hcurrent] at hname
    refine ⟨Identifier.not_isFunction_of_isVariable hvariable, fun hundefined => ?_,
      fun _ => ⟨name, hbound hname⟩⟩
    rw [Identifier.not_isUndefined_of_isVariable hvariable] at hundefined
    contradiction

theorem Fills.refl (hs : s.scopes.AtInnermost) :
    Fills Named Own [] s.scopes.currentFrame s s where
  scopes := hs.setInnermost_currentFrame.symm
  handles := .refl _
  bound := id
  named := .inl
  fresh := by simp
  live := by simp
  size := rfl
  added := by simp
  kept := fun hi => ⟨_, hi, .same⟩

theorem Fills.trans (hs : s.scopes.AtInnermost) (hv : 0 < s.scopes.place.visible)
    (h : Fills Named Own new f s s') (h' : Fills Named Own new' g s' s'') :
    Fills Named Own (new' ++ new) g s s'' where
  scopes := by rw [h'.scopes, h.scopes, Scopes.setInnermost_setInnermost]
  handles := by
    have hhandles := h'.handles
    rw [h.currentFrame hs] at hhandles
    rw [List.append_assoc]
    exact hhandles.trans (h.handles.append_left new')
  bound := fun hname => h'.bound (by rw [h.currentFrame hs]; exact h.bound hname)
  named := by
    intro name k hname
    rcases h'.named hname with hname | hnew
    · rw [h.currentFrame hs] at hname
      exact (h.named hname).imp_right (List.mem_append_right new')
    · exact .inr (List.mem_append_left new hnew)
  fresh := by
    intro k hk hl
    rcases List.mem_append.mp hk with hk | hk
    · exact h'.fresh k hk ((h.live k).mpr (.inr hl))
    · exact h.fresh k hk hl
  live := by
    intro k
    rw [h'.live, h.live, List.mem_append, or_assoc]
  size := by
    have hsize := h.size
    have hsize' := h'.size
    rw [List.length_append]
    omega
  added := by
    intro k i hk hi
    rcases List.mem_append.mp hk with hk | hk
    · exact h'.added hk hi
    · obtain ⟨j, hj⟩ := Arena.isLive_iff.mp ((h.live k).mpr (.inl hk))
      obtain ⟨i', hi', hbecomes⟩ := h'.kept hj
      rw [hi] at hi'
      obtain rfl := Option.some.inj hi'
      have hcurrent := h.currentFrame hs
      refine (h.added hk hj).becomes (fun hname => h'.bound ?_) hcurrent hbecomes
      rwa [hcurrent]
  kept := by
    intro k i hi
    obtain ⟨i', hi', hbecomes⟩ := h.kept hi
    obtain ⟨i'', hi'', hbecomes'⟩ := h'.kept hi'
    exact ⟨i'', hi'', .trans hs hv h (Arena.isLive_of_get? hi) hbecomes hbecomes'⟩

/-! ## Operations on the current frame -/

/-- The current frame takes the handle of a new identifier. -/
theorem fills_hold (hs : s.Sound) (hin : s.scopes.AtInnermost) {i : Identifier}
    (hi : i.IsValid) (change : Frame → Frame)
    (hhandles : (change s.scopes.currentFrame).handles.Perm
      ((s.arena.push i).1 :: s.scopes.currentFrame.handles))
    (hbound : ∀ {name h}, s.scopes.currentFrame.names.find? name = some h →
      (change s.scopes.currentFrame).names.find? name = some h)
    (hnamed : ∀ {name h}, (change s.scopes.currentFrame).names.find? name = some h →
      s.scopes.currentFrame.names.find? name = some h ∨ h = (s.arena.push i).1)
    (hadded : Added Named (change s.scopes.currentFrame) (s.arena.push i).1 i) :
    Fills Named Own [(s.arena.push i).1] (change s.scopes.currentFrame) s
      ⟨(s.arena.push i).2,
        s.scopes.modifyFrame s.scopes.place.name s.scopes.place.depth change⟩ where
  scopes := hin.modifyFrame_eq change
  handles := hhandles
  bound := hbound
  named := fun hname => (hnamed hname).imp_right List.mem_singleton.mpr
  fresh := by
    intro h hmem
    rw [List.mem_singleton.mp hmem]
    exact Arena.not_isLive_push hs.tidy i
  live := by
    intro h
    rw [List.mem_singleton]
    by_cases heq : h = (s.arena.push i).1
    · simp [heq, Arena.isLive_push_self hs.tidy hi]
    · rw [Arena.IsLive, Arena.get?_push_of_ne hs.tidy i heq]
      simp [heq, Arena.IsLive]
  size := by
    have hsize := Arena.size_push hs.tidy i
    rw [List.length_singleton]
    change (s.arena.push i).2.slots.size + _ = _ + (s.arena.push i).2.free.length + 1
    omega
  added := by
    intro h j hmem hj
    rw [List.mem_singleton.mp hmem] at hj ⊢
    rwa [Arena.eq_of_get?_push hs.tidy hj]
  kept := by
    intro h j hj
    refine ⟨j, ?_, .same⟩
    rw [Arena.get?_push_of_isLive hs.tidy i (Arena.isLive_of_get? hj), hj]

/-- An identifier becomes another one in its place. -/
theorem fills_put (hs : s.Sound) (hin : s.scopes.AtInnermost) {h : Handle} {old i : Identifier}
    (hold : s.arena.get? h = some old) (hi : i.IsValid) (hbecomes : Becomes Own s h old i) :
    Fills Named Own [] s.scopes.currentFrame s { s with arena := s.arena.put h.index i } := by
  have hl := Arena.isLive_of_get? hold
  have hget : (s.arena.put h.index i).get? h = some i := Arena.get?_put_self hl hi
  have hother : ∀ {k}, k ≠ h → (s.arena.put h.index i).get? k = s.arena.get? k :=
    fun hne => Arena.get?_put_of_ne_handle hs.tidy hl hne
  refine ⟨hin.setInnermost_currentFrame.symm, .refl _, id, .inl, by simp, ?_, ?_, by simp, ?_⟩
  · intro k
    by_cases heq : k = h
    · simp [heq, hl, Arena.isLive_of_get? hget]
    · simp [Arena.IsLive, hother heq]
  · simp [Arena.put]
  · intro k j hj
    by_cases heq : k = h
    · subst heq
      rw [hold] at hj
      obtain rfl := Option.some.inj hj
      exact ⟨i, hget, hbecomes⟩
    · exact ⟨j, by rw [hother heq, hj], .same⟩

end Fills

/-- Between the stores nothing has happened to the scopes but to the current frame, which is the
last one. -/
structure Confined (Named : String → Prop) (Own : Handle → Prop) (s s' : Store) : Prop where
  innermost : s.scopes.AtInnermost
  visible : 0 < s.scopes.place.visible
  fills : ∃ new f, Fills Named Own new f s s'

/-- Nothing is left of what came up between the stores: the same frames hold the same handles, the
same handles are live, and an identifier is another one only when it is a variable that can be
seen, or one of the program's own handles, and then only in its payload. -/
structure TraceFree (Own : Handle → Prop) (s s' : Store) : Prop where
  scopes : s'.scopes = s.scopes
  live : ∀ h, s'.arena.IsLive h ↔ s.arena.IsLive h
  count : s'.arena.live = s.arena.live
  kept : ∀ {h i}, s.arena.get? h = some i → s'.arena.get? h = some i ∨
    i.isVariable = true ∧ (s.scopes.Shows h ∨ Own h) ∧
      ∃ value, s'.arena.get? h = some { i with value }

section Confined

variable {Named : String → Prop} {Own : Handle → Prop} {s s' s'' : Store}

theorem Confined.refl (hs : s.Sound) (hin : s.scopes.AtInnermost) : Confined Named Own s s :=
  ⟨hin, hs.visible, _, _, .refl hin⟩

theorem Confined.trans (h : Confined Named Own s s') (h' : Confined Named Own s' s'') :
    Confined Named Own s s'' := by
  obtain ⟨new, f, hfills⟩ := h.fills
  obtain ⟨new', f', hfills'⟩ := h'.fills
  exact ⟨h.innermost, h.visible, _, _, hfills.trans h.innermost h.visible hfills'⟩

theorem Confined.atInnermost (h : Confined Named Own s s') : s'.scopes.AtInnermost := by
  obtain ⟨new, f, hfills⟩ := h.fills
  exact hfills.atInnermost h.innermost

/-- A name gets bound in the current frame that was not bound there before. -/
theorem confined_bind (hs : s.Sound) (hin : s.scopes.AtInnermost) {i : Identifier} (hi : i.IsValid)
    (hname : s.scopes.currentFrame.names.find? i.surface = none) (hfunction : i.isFunction = false)
    (hundefined : i.isUndefined = true → Named i.surface) :
    Confined Named Own s (s.define i).2 := by
  refine ⟨hin, hs.visible, _, _,
    fills_hold hs hin hi (fun f => { f with names := f.names.insert i.surface _ })
      (Frame.handles_bind hname _) ?_ ?_ ⟨hfunction, hundefined, fun _ => ⟨i.surface, ?_⟩⟩⟩
  · intro name h hfind
    have hne : name ≠ i.surface := by
      rintro rfl
      rw [hname] at hfind
      contradiction
    rwa [Bindings.find?_insert_of_ne hne]
  · intro name h hfind
    by_cases heq : name = i.surface
    · rw [heq, Bindings.find?_insert_self] at hfind
      exact .inr (Option.some.inj hfind).symm
    · rw [Bindings.find?_insert_of_ne heq] at hfind
      exact .inl hfind
  · exact Bindings.find?_insert_self _ _ _

theorem confined_pushTemporary (hs : s.Sound) (hin : s.scopes.AtInnermost) {i : Identifier}
    (hi : i.IsLiteral) : Confined Named Own s (s.pushTemporary i).2 := by
  have hrole := hi.role
  refine ⟨hin, hs.visible, _, _,
    fills_hold hs hin hi.isValid (fun f => { f with temporaries := _ :: f.temporaries })
      (Frame.handles_adopt _ _) id .inl ⟨?_, ?_, ?_⟩⟩
  · simp [Identifier.isFunction, hrole]
  · simp [Identifier.isUndefined, hrole]
  · simp [Identifier.isVariable, hrole]

/-- A name of the program is found, or else it gets bound in the current frame. -/
theorem confined_resolve (hs : s.Sound) (hin : s.scopes.AtInnermost) {name : String} {h : Handle}
    (hplain : qualified? name = none) (hnamed : Named name) (hr : s.resolve name = .ok (h, s')) :
    Confined Named Own s s' ∧
      (s.scopes.lookup? name = some h ∧ s' = s ∨
        s'.arena.get? h = some (.name name s.depth)) := by
  unfold resolve at hr
  rw [hplain] at hr
  simp only at hr
  split at hr
  · next k hk =>
    cases hr
    exact ⟨.refl hs hin, .inl ⟨hk, rfl⟩⟩
  · next hk =>
    obtain ⟨rfl, rfl⟩ := Prod.mk.inj (Except.ok.inj hr)
    have hconfined : Confined Named Own s (s.define (.name name s.depth)).2 :=
      confined_bind hs hin (by simp [Identifier.name, Identifier.IsValid])
        (Scopes.find?_currentFrame_of_lookup? hs.visible hk)
        (by simp [Identifier.name, Identifier.isFunction]) fun _ => hnamed
    exact ⟨hconfined, .inr (Arena.get?_push_self hs.tidy (by simp [Identifier.name]))⟩

/-- A variable is declared in the current frame. -/
theorem confined_declare (hs : s.Sound) (hin : s.scopes.AtInnermost) {i : Identifier} {h : Handle}
    (hvariable : i.isVariable = true) (hd : s.declare i = .ok (some (h, s'))) :
    Confined Named Own s s' ∧ s'.arena.get? h = some { i with scope := s.depth } ∧
      s'.scopes.Shows h := by
  have hvalid : Identifier.IsValid { i with scope := s.depth } := by
    simp_all [Identifier.IsValid, Identifier.isVariable]
  rcases declare_cases hd with ⟨hfind, heq⟩ | ⟨old, hfind, hold, hundefined, rfl⟩
  · obtain ⟨rfl, rfl⟩ := Prod.mk.inj heq
    have hconfined : Confined Named Own s (s.define { i with scope := s.depth }).2 :=
      confined_bind hs hin hvalid hfind (Identifier.not_isFunction_of_isVariable hvariable)
        fun hundefined => absurd hundefined
          (Bool.eq_false_iff.mp (Identifier.not_isUndefined_of_isVariable hvariable))
    have hname :
        (s.define { i with scope := s.depth }).2.scopes.currentFrame.names.find? i.surface =
          some (s.define { i with scope := s.depth }).1 := by
      change (Scopes.currentFrame (s.scopes.bind i.surface _)).names.find? i.surface = _
      rw [Scopes.currentFrame_bind, Bindings.find?_insert_self]
      rfl
    exact ⟨hconfined, Arena.get?_push_self hs.tidy hvalid,
      hconfined.atInnermost.shows_of_currentFrame hs.visible hname⟩
  · have hl := Arena.isLive_of_get? hold
    have hbecomes : Becomes Own s h old { i with scope := s.depth } :=
      .declared hundefined hfind hvariable
    exact ⟨⟨hin, hs.visible, _, _, fills_put hs hin hold hvalid hbecomes⟩,
      Arena.get?_put_self hl hvalid, hin.shows_of_currentFrame hs.visible hfind⟩

theorem TraceFree.refl (s : Store) : s.TraceFree Own s :=
  ⟨rfl, fun _ => .rfl, rfl, .inl⟩

theorem TraceFree.trans (h : s.TraceFree Own s') (h' : s'.TraceFree Own s'') :
    s.TraceFree Own s'' where
  scopes := h'.scopes.trans h.scopes
  live := fun k => (h'.live k).trans (h.live k)
  count := h'.count.trans h.count
  kept := by
    intro k i hi
    rcases h.kept hi with hi' | ⟨hvariable, hnear, value, hi'⟩
    · have hkept := h'.kept hi'
      rwa [h.scopes] at hkept
    · rcases h'.kept hi' with hi'' | ⟨-, -, value', hi''⟩
      · exact .inr ⟨hvariable, hnear, value, hi''⟩
      · exact .inr ⟨hvariable, hnear, value', hi''⟩

/-- What leaves no trace is confined to the current frame. -/
theorem TraceFree.confined (hs : s.Sound) (hs' : s'.Sound) (hin : s.scopes.AtInnermost)
    (h : s.TraceFree Own s') : Confined Named Own s s' := by
  refine ⟨hin, hs.visible, [], s.scopes.currentFrame, ?_, .refl _, id, .inl, by simp, ?_, ?_,
    by simp, ?_⟩
  · rw [h.scopes, hin.setInnermost_currentFrame]
  · simpa using h.live
  · have hcount := h.count
    have hfree := hs.tidy.length_free_lt
    have hfree' := hs'.tidy.length_free_lt
    simp only [Arena.live] at hcount
    rw [List.length_nil]
    omega
  · intro k i hi
    rcases h.kept hi with hi' | ⟨hvariable, hnear, value, hi'⟩
    · exact ⟨i, hi', .same⟩
    · exact ⟨_, hi', .assigned hvariable hnear value⟩

/-- Leaving a block takes away what came up in its frame. -/
theorem traceFree_leave (hs : s.Sound) (hin : s.scopes.AtInnermost)
    (h : Confined Named Own s.enter s') (hs' : s'.Sound)
    {arrange : List Handle → List Handle} (harrange : ∀ hs, (arrange hs).Perm hs) :
    s.TraceFree Own (s'.leave arrange).2 := by
  obtain ⟨new, f, hfills⟩ := h.fills
  have hempty : s.enter.scopes.currentFrame = .empty := hin.currentFrame_enter
  have hleave : s'.scopes.leave? = some (f, s.scopes) := by
    rw [hfills.scopes]
    exact hin.leave?_enter hs.visible f
  have hhandles : f.handles.Perm new := by
    have hhandles := hfills.handles
    rw [hempty] at hhandles
    simpa using hhandles
  have hmem : ∀ k, k ∈ arrange f.handles ↔ k ∈ new := fun k =>
    ((harrange _).trans hhandles).mem_iff
  have hnodup : (arrange f.handles).Nodup := by
    have hheld := (Scopes.held_leave? hleave).nodup_iff.mp hs'.nodup
    exact (harrange _).nodup_iff.mpr (List.nodup_append.mp hheld).1
  have hstore : (s'.leave arrange).2 =
      ⟨(s'.arena.destroyAll (arrange f.handles)).2, s.scopes⟩ := by
    rcases leave_cases arrange s' with ⟨hzero, -⟩ | ⟨frame, scopes, hl, heq, -⟩
    · rw [Scopes.leave?, if_pos hzero] at hleave
      contradiction
    · rw [hleave] at hl
      obtain ⟨rfl, rfl⟩ := Prod.mk.inj (Option.some.inj hl)
      exact heq
  obtain ⟨-, hslots, hfree⟩ := Arena.destroyAll_of_isLive hs'.tidy hnodup fun k hk =>
    (hfills.live k).mpr (.inl ((hmem k).mp hk))
  have hget : ∀ k, (s'.arena.destroyAll (arrange f.handles)).2.get? k =
      if k ∈ new then none else s'.arena.get? k := by
    intro k
    rw [Arena.get?_destroyAll hs'.tidy]
    simp only [hmem]
  rw [hstore]
  refine ⟨rfl, fun k => ?_, ?_, ?_⟩
  · rw [Arena.IsLive, hget]
    by_cases hk : k ∈ new
    · have hfresh : ¬ s.arena.IsLive k := hfills.fresh k hk
      simp [hk, hfresh]
    · rw [if_neg hk]
      exact (hfills.live k).trans (by simp [hk, Store.enter])
  · have hsize := hfills.size
    have hlength := ((harrange _).trans hhandles).length_eq
    have harena : s.enter.arena = s.arena := rfl
    rw [harena] at hsize
    simp only [Arena.live, hslots, hfree]
    omega
  · intro k i hi
    have hold : k ∉ new := fun hk => hfills.fresh k hk (Arena.isLive_of_get? hi)
    obtain ⟨i', hi', hbecomes⟩ := hfills.kept hi
    change (s'.arena.destroyAll (arrange f.handles)).2.get? k = some i ∨ _ ∧ _ ∧
      ∃ value, (s'.arena.destroyAll (arrange f.handles)).2.get? k = some { i with value }
    rw [hget, if_neg hold, hi']
    cases hbecomes with
    | same => exact .inl rfl
    | assigned hvariable hnear value =>
      exact .inr ⟨hvariable, hnear.imp_left hin.shows_enter.mp, value, rfl⟩
    | declared _ hname =>
      rw [hempty] at hname
      simp [Frame.empty, Bindings.find?] at hname

end Confined

end Store

end WordScript
