import WordScript.Proofs.Journeys
import WordScript.Proofs.Members

/-!
# How long global frames last

A name that is bound in the global frame of a namespace stays bound there, to a handle that stays
live, as long as the frame is not closed. Leaving goes by the current depth, but it is the last frame
that it closes. So it closes the global frame when that is the only one left in the current namespace
and the depth is not zero. This can come about only when execution went back to a mark in a block
that had been left in the meantime.
-/

namespace WordScript

namespace Scopes

/-- The global frames hold all that they held before, under the same names. -/
structure KeepsGlobals (s s' : Scopes) : Prop where
  names : ∀ {space name : String} {h : Handle}, s.global? space name = some h →
    s'.global? space name = some h
  handles : ∀ {space : String} {h : Handle}, h ∈ (s.frameAt space 0).handles →
    h ∈ (s'.frameAt space 0).handles

variable {s s' s'' : Scopes}

theorem KeepsGlobals.refl (s : Scopes) : s.KeepsGlobals s := ⟨id, id⟩

theorem KeepsGlobals.trans (h : s.KeepsGlobals s') (h' : s'.KeepsGlobals s'') :
    s.KeepsGlobals s'' :=
  ⟨fun hname => h'.names (h.names hname), fun hheld => h'.handles (h.handles hheld)⟩

theorem keepsGlobals_of_frameAt (h : ∀ space, s'.frameAt space 0 = s.frameAt space 0) :
    s.KeepsGlobals s' where
  names := by
    intro space name k hk
    rwa [global?_eq, h, ← global?_eq]
  handles := by
    intro space k hk
    rwa [h]

/-- A frame that comes to hold more keeps what it held. -/
theorem keepsGlobals_modifyFrame {space : String} {index : Nat} {f : Frame → Frame} {h : Handle}
    (hf : (s.frameAt space index).Extends (f (s.frameAt space index)))
    (hheld : (f (s.frameAt space index)).handles.Perm (h :: (s.frameAt space index).handles)) :
    s.KeepsGlobals (s.modifyFrame space index f) where
  names := by
    intro other name k hk
    rw [global?_eq] at hk ⊢
    by_cases hframe : other = space ∧ 0 = index
    · obtain ⟨rfl, rfl⟩ := hframe
      rw [frameAt_modifyFrame_self]
      exact hf.names hk
    · rwa [frameAt_modifyFrame_of_ne (by tauto)]
  handles := by
    intro other k hk
    by_cases hframe : other = space ∧ 0 = index
    · obtain ⟨rfl, rfl⟩ := hframe
      rw [frameAt_modifyFrame_self]
      exact hheld.mem_iff.mpr (List.mem_cons_of_mem h hk)
    · rwa [frameAt_modifyFrame_of_ne (by tauto)]

theorem keepsGlobals_bind {space name : String} {index : Nat}
    (hname : (s.frameAt space index).names.find? name = none) (h : Handle) :
    s.KeepsGlobals (s.modifyFrame space index fun f => { f with names := f.names.insert name h }) :=
  keepsGlobals_modifyFrame (Frame.extends_bind hname h) (Frame.handles_bind hname h)

theorem keepsGlobals_adopt (s : Scopes) (h : Handle) : s.KeepsGlobals (s.adopt h) :=
  keepsGlobals_modifyFrame (Frame.extends_adopt _ h) (Frame.handles_adopt _ h)

/-- Leaving keeps the global frames unless it closes one with something in it. -/
theorem keepsGlobals_leave?_iff {frame : Frame} (hl : s.leave? = some (frame, s')) :
    s.KeepsGlobals s' ↔ ((s.frames s.place.name).length = 1 →
      (s.frameAt s.place.name 0).handles = []) := by
  constructor
  · intro h hone
    have hnil : s'.frames s.place.name = [] := by
      rw [frames_leave? hl, ← List.length_eq_zero_iff, List.length_dropLast, hone]
    refine List.eq_nil_iff_forall_not_mem.mpr fun k hk => ?_
    have hk' := h.handles hk
    simp [frameAt, hnil] at hk'
  · intro h
    have hframe : ∀ space, s'.frameAt space 0 = s.frameAt space 0 ∨
        (s.frameAt space 0).handles = [] := by
      intro space
      by_cases hspace : space = s.place.name
      · subst hspace
        by_cases hlength : (s.frames s.place.name).length = 1
        · exact .inr (h hlength)
        · exact .inl (frameAt_leave? hl (.inr (Ne.symm hlength)))
      · exact .inl (frameAt_leave? hl (.inl hspace))
    constructor
    · intro space name k hk
      rcases hframe space with heq | hempty
      · rwa [global?_eq, heq, ← global?_eq]
      · rw [global?_eq] at hk
        have hmem := Frame.mem_handles.mpr (.inl ⟨name, Bindings.mem_of_find? hk⟩)
        rw [hempty] at hmem
        cases hmem
    · intro space k hk
      rcases hframe space with heq | hempty
      · rwa [heq]
      · rw [hempty] at hk
        cases hk

/-- A place is gone back to that is a frame that is there. -/
theorem Placed.restore (hs : s.Placed) {place : Place}
    (hplace : place.depth < (s.frames place.name).length) (hv : 0 < place.visible) :
    (s.restore place).Placed where
  current := ⟨s.frames place.name, find?_of_lt_length hplace, hplace⟩
  nonempty := hs.nonempty
  visible := hv

end Scopes

namespace Store

/-- The current frame takes a handle that is in use and that no frame holds. -/
theorem Sound.adopt {s : Store} (hs : s.Sound) {h : Handle} (hu : s.arena.InUse h)
    (hfree : h ∉ s.scopes.held) : Sound { s with scopes := s.scopes.adopt h } := by
  have hheld : (s.scopes.adopt h).held.Perm ([h] ++ s.scopes.held) :=
    Scopes.held_modifyFrame (Frame.handles_adopt _ h)
  refine ⟨hs.tidy, ?_, ?_, ?_, hs.visible⟩
  · intro k hk
    rcases List.mem_cons.mp (hheld.mem_iff.mp hk) with rfl | hk
    · exact hu
    · exact hs.inUse k hk
  · rw [hheld.nodup_iff]
    exact List.nodup_cons.mpr ⟨hfree, hs.nodup⟩
  · intro index name k i hb hi
    rcases Scopes.binds_modifyFrame hb with hb | ⟨rfl, hmem⟩
    · exact hs.named hb hi
    · exact hs.named (Scopes.binds_of_frameAt hmem) hi

theorem keepsGlobals_resolve {s s' : Store} (hs : s.Sound) {name : String} {h : Handle}
    (hr : s.resolve name = .ok (h, s')) : s.scopes.KeepsGlobals s'.scopes := by
  rcases resolve_cases hr with
    ⟨rfl, -⟩ | ⟨space, member, -, -, hglobal, heq⟩ | ⟨-, hlookup, heq⟩
  · exact .refl _
  · obtain ⟨-, rfl⟩ := Prod.mk.inj heq
    exact Scopes.keepsGlobals_bind (by rwa [← Scopes.global?_eq]) _
  · obtain ⟨-, rfl⟩ := Prod.mk.inj heq
    exact Scopes.keepsGlobals_bind (Scopes.find?_currentFrame_of_lookup? hs.visible hlookup) _

theorem keepsGlobals_declare {s s' : Store} {i : Identifier} {h : Handle}
    (hd : s.declare i = .ok (some (h, s'))) : s.scopes.KeepsGlobals s'.scopes := by
  rcases declare_cases hd with ⟨hname, heq⟩ | ⟨old, -, -, -, rfl⟩
  · obtain ⟨-, rfl⟩ := Prod.mk.inj heq
    exact Scopes.keepsGlobals_bind hname _
  · exact .refl _

/-- What the global frames held they still hold, and it refers to identifiers. -/
structure KeepsGlobals (s s' : Store) : Prop where
  scopes : s.scopes.KeepsGlobals s'.scopes
  live : ∀ {space : String} {h : Handle}, h ∈ (s.scopes.frameAt space 0).handles →
    s'.arena.IsLive h

theorem KeepsGlobals.trans {s s' s'' : Store} (h : s.KeepsGlobals s') (h' : s'.KeepsGlobals s'') :
    s.KeepsGlobals s'' :=
  ⟨h.scopes.trans h'.scopes, fun hheld => h'.live (h.scopes.handles hheld)⟩

end Store

namespace Journey

/-! ## Requests that respect what frames hold -/

/-- A request by which a frame only comes to hold what is in use and held nowhere else, and which
does not touch what frames hold. A frame that is left may be destroyed in any order. -/
def Request.Fair (j : Journey) : Request → Prop
  | leave arrange => ∀ hs, (arrange hs).Perm hs
  | declare i => i.IsValid
  | bind _ _ => False
  | adopt h => j.store.arena.InUse h ∧ h ∉ j.store.scopes.held
  | arena request => ∃ i, request = .push i ∧ i.IsValid
  | enter | resolve _ | lookup _ | goTo _ | restore _ => True

/-- A request that goes back to a mark does so while the frame of the mark is there. -/
def Request.Rejoins (j : Journey) : Request → Prop
  | restore mark => ∀ place ∈ j.marks[mark]?,
    place.depth < (j.store.scopes.frames place.name).length
  | _ => True

/-- A block is left, by the depth, but it is the global frame that is closed, with something in
it. -/
def Request.ClosesGlobal (j : Journey) : Request → Prop
  | leave _ => j.store.scopes.place.depth ≠ 0 ∧
    (j.store.scopes.frames j.store.scopes.place.name).length = 1 ∧
    (j.store.scopes.frameAt j.store.scopes.place.name 0).handles ≠ []
  | _ => False

/-- Each of the requests meets a condition when its turn comes. -/
def Always (P : Journey → Request → Prop) : Journey → List Request → Prop
  | _, [] => True
  | j, r :: requests => P j r ∧ Always P (j.after r) requests

theorem always_append {P : Journey → Request → Prop} {j : Journey} {rs rs' : List Request} :
    Always P j (rs ++ rs') ↔ Always P j rs ∧ Always P (j.run rs) rs' := by
  induction rs generalizing j with
  | nil => simp [Always, run]
  | cons r rs ih =>
    simp only [List.cons_append, Always, ih, and_assoc]
    rfl

theorem always_of_forall {P : Journey → Request → Prop} {j : Journey} {requests : List Request}
    (h : ∀ before r later, requests = before ++ r :: later → P (j.run before) r) :
    Always P j requests := by
  induction requests generalizing j with
  | nil => trivial
  | cons r requests ih =>
    refine ⟨h [] r requests rfl, ih fun before r' later heq => ?_⟩
    exact h (r :: before) r' later (congrArg (r :: ·) heq)

/-- A journey whose frames hold handles of identifiers only, each of them once. -/
structure Orderly (spaces : List String) (j : Journey) : Prop where
  onCourse : OnCourse spaces j
  sound : j.store.Sound
  full : j.store.arena.Full

section Steps

variable {spaces : List String} {j : Journey} {r : Request}

theorem orderly_start : Orderly [""] start where
  onCourse := onCourse_start
  sound := Store.sound_empty
  full := Arena.full_empty

theorem Orderly.sound_after (hj : Orderly spaces j) (hr : r.Fair j) :
    (j.after r).store.Sound := by
  obtain ⟨hcourse, hs, -⟩ := hj
  cases r with
  | enter => exact hs.enter
  | leave arrange => exact hs.leave hr
  | resolve name => exact Store.of_resolveInPlace (P := Store.Sound) hs fun _ _ => hs.resolve
  | lookup name => exact hs
  | declare i => exact Store.of_declareInPlace (P := Store.Sound) hs fun _ _ => hs.declare
  | bind name h => exact hr.elim
  | adopt h => exact hs.adopt hr.1 hr.2
  | goTo space => exact hs.goTo space
  | restore mark =>
    rw [Journey.after]
    split
    · next place hplace =>
      have hv := hcourse.visible place (List.mem_cons_of_mem _ (List.mem_of_getElem? hplace))
      exact hs.restore (by omega)
    · exact hs
  | arena request =>
    obtain ⟨i, rfl, -⟩ := hr
    exact hs.push i

theorem Orderly.full_after (hj : Orderly spaces j) (hr : r.Fair j) :
    (j.after r).store.arena.Full := by
  obtain ⟨-, hs, hf⟩ := hj
  cases r with
  | leave arrange => exact Store.full_leave hs hf arrange
  | resolve name =>
    exact Store.of_resolveInPlace (P := fun s => s.arena.Full) hf fun _ _ =>
      Store.full_resolve hs hf
  | declare i =>
    exact Store.of_declareInPlace (P := fun s => s.arena.Full) hf fun _ _ =>
      Store.full_declare hs hf hr
  | restore mark =>
    rw [Journey.after]
    split <;> exact hf
  | arena request =>
    obtain ⟨i, rfl, hi⟩ := hr
    exact Arena.Full.push hs.tidy hf hi
  | _ => exact hf

theorem Orderly.after (hj : Orderly spaces j) (hr : r.Fair j) :
    Orderly (r.space?.toList ++ spaces) (j.after r) :=
  ⟨hj.onCourse.after r, hj.sound_after hr, hj.full_after hr⟩

/-! ## What a request does to the global frames -/

/-- A request that closes no global frame keeps them all. -/
theorem Orderly.keepsGlobals_scopes (hj : Orderly spaces j) (hr : r.Fair j)
    (hkept : ¬ r.ClosesGlobal j) :
    j.store.scopes.KeepsGlobals (j.after r).store.scopes := by
  obtain ⟨hcourse, hs, -⟩ := hj
  cases r with
  | enter => exact Scopes.keepsGlobals_of_frameAt fun space => Scopes.frameAt_enter _ _ _
  | leave arrange =>
    refine Store.of_leave (P := fun s' => j.store.scopes.KeepsGlobals s'.scopes) (.refl _) ?_
    intro frame scopes hl
    refine (Scopes.keepsGlobals_leave?_iff hl).mpr fun hone => ?_
    by_contra hnil
    refine hkept ⟨fun hzero => ?_, hone, hnil⟩
    simp [Scopes.leave?, hzero] at hl
  | resolve name =>
    exact Store.of_resolveInPlace (P := fun s' => j.store.scopes.KeepsGlobals s'.scopes) (.refl _)
      fun _ _ => Store.keepsGlobals_resolve hs
  | lookup name => exact .refl _
  | declare i =>
    exact Store.of_declareInPlace (P := fun s' => j.store.scopes.KeepsGlobals s'.scopes) (.refl _)
      fun _ _ => Store.keepsGlobals_declare
  | bind name h => exact hr.elim
  | adopt h => exact Scopes.keepsGlobals_adopt _ h
  | goTo space => exact Scopes.keepsGlobals_of_frameAt fun other => Scopes.frameAt_goTo _ _ _ _
  | restore mark =>
    rw [Journey.after]
    split
    · exact Scopes.keepsGlobals_of_frameAt fun _ => rfl
    · exact .refl _
  | arena request => exact .refl _

/-- A request keeps what the global frames hold unless it closes one with something in it. -/
theorem Orderly.keepsGlobals_iff (hj : Orderly spaces j) (hr : r.Fair j) :
    j.store.KeepsGlobals (j.after r).store ↔ ¬ r.ClosesGlobal j := by
  constructor
  · intro h hcloses
    cases r with
    | leave arrange =>
      obtain ⟨hdepth, hone, hheld⟩ := hcloses
      rcases Store.leave_cases arrange j.store with ⟨hzero, -⟩ | ⟨frame, scopes, hl, heq, -⟩
      · exact hdepth hzero
      · have hscopes := h.scopes
        rw [Journey.after, heq] at hscopes
        exact hheld ((Scopes.keepsGlobals_leave?_iff hl).mp hscopes hone)
    | _ => exact hcloses
  · intro hkept
    have hscopes := hj.keepsGlobals_scopes hr hkept
    refine ⟨hscopes, fun {space h} hh => ?_⟩
    have hnext := hj.after hr
    exact hnext.full h (hnext.sound.inUse h (Scopes.mem_held_of_frameAt (hscopes.handles hh)))

/-- When it is gone back only to frames that are there, execution is at a frame that is there. -/
theorem Orderly.placed_after (hj : Orderly spaces j) (hp : j.store.scopes.Placed)
    (hr : r.Rejoins j) : (j.after r).store.scopes.Placed := by
  cases r with
  | enter => exact hp.enter
  | leave arrange =>
    exact Store.of_leave (P := fun s => s.scopes.Placed) hp fun _ _ => hp.leave?
  | resolve name =>
    exact Store.of_resolveInPlace (P := fun s => s.scopes.Placed) hp fun _ _ hres =>
      hp.of_balanced (Store.balanced_resolve hp hres)
  | lookup name => exact hp
  | declare i =>
    exact Store.of_declareInPlace (P := fun s => s.scopes.Placed) hp fun _ _ hd =>
      hp.of_balanced (Store.balanced_declare hp hd)
  | bind name h => exact hp.of_balanced (hp.balanced_current _)
  | adopt h => exact hp.of_balanced (hp.balanced_current _)
  | goTo space => exact hp.goTo space
  | restore mark =>
    rw [Journey.after]
    split
    · next place hplace =>
      have hv := hj.onCourse.visible place
        (List.mem_cons_of_mem _ (List.mem_of_getElem? hplace))
      exact hp.restore (hr place hplace) (by omega)
    · exact hp
  | arena request => exact hp

/-- The global frame is not the last one of a block that is there. -/
theorem not_closesGlobal_of_placed (hp : j.store.scopes.Placed) : ¬ r.ClosesGlobal j := by
  intro hcloses
  cases r with
  | leave arrange =>
    obtain ⟨hdepth, hone, -⟩ := hcloses
    obtain ⟨fs, hfs, hlt⟩ := hp.current
    rw [Scopes.frames_of_find? hfs] at hone
    omega
  | _ => exact hcloses

/-! ## Whole journeys -/

theorem Orderly.run {requests : List Request} (hj : Orderly spaces j)
    (hfair : Always (fun j r => r.Fair j) j requests) :
    ∃ spaces', Orderly spaces' (j.run requests) := by
  induction requests generalizing j spaces with
  | nil => exact ⟨spaces, hj⟩
  | cons r requests ih => exact ih (hj.after hfair.1) hfair.2

theorem Orderly.keepsGlobals_run {requests : List Request} (hj : Orderly spaces j)
    (hfair : Always (fun j r => r.Fair j) j requests)
    (hkept : Always (fun j r => ¬ r.ClosesGlobal j) j requests) :
    j.store.KeepsGlobals (j.run requests).store := by
  induction requests generalizing j spaces with
  | nil =>
    refine ⟨.refl _, fun {space h} hh => ?_⟩
    exact hj.full h (hj.sound.inUse h (Scopes.mem_held_of_frameAt hh))
  | cons r requests ih =>
    exact ((hj.keepsGlobals_iff hfair.1).mpr hkept.1).trans
      (ih (hj.after hfair.1) hfair.2 hkept.2)

theorem Orderly.always_not_closesGlobal {requests : List Request} (hj : Orderly spaces j)
    (hp : j.store.scopes.Placed) (hfair : Always (fun j r => r.Fair j) j requests)
    (hrejoins : Always (fun j r => r.Rejoins j) j requests) :
    Always (fun j r => ¬ r.ClosesGlobal j) j requests := by
  induction requests generalizing j spaces with
  | nil => trivial
  | cons r requests ih =>
    exact ⟨not_closesGlobal_of_placed hp,
      ih (hj.after hfair.1) (hj.placed_after hp hrejoins.1) hfair.2 hrejoins.2⟩

end Steps

/-- From any moment to any later one, the global frames keep what they hold. -/
def KeepsGlobalsThroughout (requests : List Request) : Prop :=
  ∀ before middle later, requests = before ++ middle ++ later →
    (start.run before).store.KeepsGlobals (start.run (before ++ middle)).store

end Journey

/-- When frames hold nothing but what they were given by way of the scopes, global frames keep all
that they hold, live and under the same names, exactly as long as none is closed by leaving a block
that is gone already. None is when execution only goes back to marks in frames that are there. -/
theorem globals_kept_iff {requests : List Journey.Request}
    (hfair : Journey.Always (fun j r => r.Fair j) .start requests) :
    (Journey.KeepsGlobalsThroughout requests ↔
        Journey.Always (fun j r => ¬ r.ClosesGlobal j) .start requests) ∧
      (Journey.Always (fun j r => r.Rejoins j) .start requests →
        Journey.KeepsGlobalsThroughout requests) := by
  have hkept_of : Journey.Always (fun j r => ¬ r.ClosesGlobal j) .start requests →
      Journey.KeepsGlobalsThroughout requests := by
    rintro hkept before middle later rfl
    rw [List.append_assoc, Journey.always_append, Journey.always_append] at hfair hkept
    obtain ⟨spaces, hj⟩ := Journey.orderly_start.run hfair.1
    rw [Journey.run_append]
    exact hj.keepsGlobals_run hfair.2.1 hkept.2.1
  refine ⟨⟨fun h => Journey.always_of_forall ?_, hkept_of⟩, fun hrejoins => hkept_of ?_⟩
  · rintro before r later rfl
    have hstep := h before [r] later (by simp)
    rw [Journey.always_append] at hfair
    obtain ⟨spaces, hj⟩ := Journey.orderly_start.run hfair.1
    rw [Journey.run_append] at hstep
    exact (hj.keepsGlobals_iff hfair.2.1).mp hstep
  · exact Journey.orderly_start.always_not_closesGlobal Scopes.placed_empty hfair hrejoins

/-- A block is entered, a namespace is gone to from it and back, and then the block is left. -/
theorem globals_kept_block :
    Journey.KeepsGlobalsThroughout [.declare ((Identifier.name "x" 0).asVariable "int" 0), .enter,
      .goTo "b", .restore 0, .leave id] := by
  refine (globals_kept_iff ?_).2 ?_
  · exact ⟨(fun h => by cases h), trivial, trivial, trivial, fun hs => .refl hs, trivial⟩
  · refine ⟨trivial, trivial, trivial, fun place hplace => ?_, trivial, trivial⟩
    obtain rfl := Option.some.inj hplace
    decide +kernel

/-- A block is entered, a namespace is gone to from it, and the block is left after going back. When
the mark in the block is gone back to once more, the next block that is left is the global frame: the
name that was declared there is gone, and its handle refers to nothing. -/
theorem global_frame_closed :
    let before : List Journey.Request := [.declare ((Identifier.name "x" 0).asVariable "int" 0),
      .enter, .goTo "b", .restore 0, .leave id, .restore 0]
    Journey.Always (fun j r => r.Fair j) .start (before ++ [.leave id]) ∧
      ((Journey.start.run before).store.scopes.global? "" "x" = some ⟨1, 0⟩ ∧
        (Journey.start.run before).store.arena.get? ⟨1, 0⟩ =
          some ((Identifier.name "x" 0).asVariable "int" 0)) ∧
      (Journey.start.run (before ++ [.leave id])).store.scopes.global? "" "x" = none ∧
        (Journey.start.run (before ++ [.leave id])).store.arena.get? ⟨1, 0⟩ = none := by
  refine ⟨?_, by decide +kernel, by decide +kernel⟩
  exact ⟨(fun h => by cases h), trivial, trivial, trivial, fun hs => .refl hs, trivial,
    fun hs => .refl hs, trivial⟩

end WordScript
