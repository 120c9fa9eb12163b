import WordScript.Proofs.Arena
import WordScript.Proofs.Scopes
import WordScript.Store

/-!
# What leaving a block frees

A frame is emptied handle by handle, and a handle that refers to nothing is no reason to stop: what
the others refer to is freed all the same. Nothing is assumed about the arena here, nor about what
the frame holds. A handle may be dead, held several times or held elsewhere as well. The second time
that a handle comes up its slot has been freed already, so each slot is freed once, and that is an
error as much as a handle that was dead before.
-/

namespace WordScript

namespace Arena

/-- Whether a live handle among some refers to the slot of an index. -/
def Reaches (a : Arena) (hs : List Handle) (index : Nat) : Prop :=
  ∃ h ∈ hs, a.IsLive h ∧ h.index = index

/-- What some handles refer to is free in the second arena, and all else is as in the first. -/
structure Frees (a : Arena) (hs : List Handle) (b : Arena) : Prop where
  /-- None of the handles refers to anything any more. -/
  dead : ∀ h ∈ hs, ¬ b.IsLive h
  /-- A slot that no live handle among them refers to is as it was. -/
  unchanged : ∀ index, ¬ a.Reaches hs index → b.slots[index]? = a.slots[index]?
  /-- The slots that live handles among them refer to are put on the free list, each of them once. -/
  free : ∃ freed, b.free = freed ++ a.free ∧ freed.Nodup ∧
    ∀ index, index ∈ freed ↔ a.Reaches hs index
  /-- No slot is free twice where none was. -/
  nodup_free : a.Tidy → b.free.Nodup

section Destroyed

variable {a b : Arena} {k : Handle}

/-- Two live handles of one slot are the same, since both have its generation. -/
theorem IsLive.eq_of_index {h : Handle} (hh : a.IsLive h) (hk : a.IsLive k)
    (heq : h.index = k.index) : h = k := by
  obtain ⟨i, hi⟩ := isLive_iff.mp hh
  obtain ⟨j, hj⟩ := isLive_iff.mp hk
  obtain ⟨s, hs, hgen, -, -⟩ := get?_eq_some_iff.mp hi
  obtain ⟨t, ht, hgen', -, -⟩ := get?_eq_some_iff.mp hj
  obtain ⟨index, generation⟩ := h
  obtain ⟨index', generation'⟩ := k
  simp_all

/-- Freeing what a handle refers to ends the life of that handle and of no other. -/
theorem isLive_destroy?_iff (hb : a.destroy? k = some b) {h : Handle} :
    b.IsLive h ↔ a.IsLive h ∧ h ≠ k := by
  have hk := destroy?_isLive hb
  by_cases hindex : k.index = h.index
  · refine iff_of_false (not_isLive_iff.mpr (get?_destroy?_of_index_eq hb hindex)) ?_
    rintro ⟨hh, hne⟩
    exact hne (hh.eq_of_index hk hindex.symm)
  · have hne : h ≠ k := fun heq => hindex (by rw [heq])
    rw [IsLive, IsLive, get?_destroy?_of_index_ne hb hindex]
    exact (and_iff_left hne).symm

/-! ## The slots that are reached -/

theorem reaches_cons_of_not_isLive (hk : ¬ a.IsLive k) (hs : List Handle) (index : Nat) :
    a.Reaches (k :: hs) index ↔ a.Reaches hs index := by
  constructor
  · rintro ⟨h, hmem, hl, hindex⟩
    rcases List.mem_cons.mp hmem with rfl | hmem
    · exact absurd hl hk
    · exact ⟨h, hmem, hl, hindex⟩
  · rintro ⟨h, hmem, hl, hindex⟩
    exact ⟨h, List.mem_cons_of_mem k hmem, hl, hindex⟩

/-- A live handle reaches its slot; the others reach what they still do when it has been freed. -/
theorem reaches_cons_of_destroy? (hb : a.destroy? k = some b) (hs : List Handle) (index : Nat) :
    a.Reaches (k :: hs) index ↔ k.index = index ∨ b.Reaches hs index := by
  constructor
  · rintro ⟨h, hmem, hl, hindex⟩
    by_cases heq : h = k
    · exact .inl (by rw [← heq, hindex])
    · have hmem := (List.mem_cons.mp hmem).resolve_left heq
      exact .inr ⟨h, hmem, (isLive_destroy?_iff hb).mpr ⟨hl, heq⟩, hindex⟩
  · rintro (hindex | ⟨h, hmem, hl, hindex⟩)
    · exact ⟨k, List.mem_cons_self, destroy?_isLive hb, hindex⟩
    · exact ⟨h, List.mem_cons_of_mem k hmem, ((isLive_destroy?_iff hb).mp hl).1, hindex⟩

/-- A slot that has been freed is not reached again, whatever handles follow. -/
theorem not_reaches_of_destroy? (hb : a.destroy? k = some b) (hs : List Handle) :
    ¬ b.Reaches hs k.index := by
  rintro ⟨h, -, hl, hindex⟩
  obtain ⟨hl, hne⟩ := (isLive_destroy?_iff hb).mp hl
  exact hne (hl.eq_of_index (destroy?_isLive hb) hindex)

end Destroyed

/-! ## Handles that are destroyed one after the other -/

/-- The handles are dead in the end, and the others are as live as before. -/
theorem isLive_destroyAll_iff (a : Arena) (hs : List Handle) {h : Handle} :
    (a.destroyAll hs).2.IsLive h ↔ a.IsLive h ∧ h ∉ hs := by
  induction hs generalizing a with
  | nil => simp [destroyAll]
  | cons k hs ih =>
    cases hb : a.destroy? k with
    | some b =>
      rw [destroyAll, hb, ih b, isLive_destroy?_iff hb, List.mem_cons, not_or, and_assoc]
    | none =>
      -- a live handle is another one than `k`, which is dead
      have hk := not_isLive_of_destroy?_eq_none hb
      simp only [destroyAll, hb, ih a, List.mem_cons, not_or]
      refine and_congr_right fun hl => (and_iff_right ?_).symm
      rintro rfl
      exact hk hl

theorem slots_destroyAll_of_not_reaches (a : Arena) {hs : List Handle} {index : Nat}
    (h : ¬ a.Reaches hs index) : (a.destroyAll hs).2.slots[index]? = a.slots[index]? := by
  induction hs generalizing a with
  | nil => rfl
  | cons k hs ih =>
    cases hb : a.destroy? k with
    | some b =>
      rw [reaches_cons_of_destroy? hb, not_or] at h
      rw [destroyAll, hb, ih b h.2, slots_destroy? hb, if_neg h.1]
    | none =>
      rw [reaches_cons_of_not_isLive (not_isLive_of_destroy?_eq_none hb)] at h
      simp only [destroyAll, hb, ih a h]

/-- The slots that are freed come before those that were free, the one freed last first. -/
theorem exists_free_destroyAll (a : Arena) (hs : List Handle) :
    ∃ freed, (a.destroyAll hs).2.free = freed ++ a.free ∧ freed.Nodup ∧
      ∀ index, index ∈ freed ↔ a.Reaches hs index := by
  induction hs generalizing a with
  | nil => exact ⟨[], rfl, List.nodup_nil, fun index => by simp [Reaches]⟩
  | cons k hs ih =>
    cases hb : a.destroy? k with
    | some b =>
      obtain ⟨freed, hfree, hnodup, hmem⟩ := ih b
      have hk : k.index ∉ freed := fun hk => not_reaches_of_destroy? hb hs ((hmem _).mp hk)
      refine ⟨freed ++ [k.index], ?_, ?_, ?_⟩
      · rw [destroyAll, hb, hfree, free_destroy? hb, List.append_assoc, List.singleton_append]
      · exact (List.perm_append_singleton _ _).nodup_iff.mpr (List.nodup_cons.mpr ⟨hk, hnodup⟩)
      · intro index
        rw [reaches_cons_of_destroy? hb, List.mem_append, List.mem_singleton, hmem, or_comm,
          eq_comm]
    | none =>
      obtain ⟨freed, hfree, hnodup, hmem⟩ := ih a
      refine ⟨freed, by simp only [destroyAll, hb, hfree], hnodup, fun index => ?_⟩
      rw [hmem, reaches_cons_of_not_isLive (not_isLive_of_destroy?_eq_none hb)]

/-- There is no error just when all handles are live and no two of them are the same. -/
theorem destroyAll_eq_none_iff (a : Arena) (hs : List Handle) :
    (a.destroyAll hs).1 = none ↔ (∀ h ∈ hs, a.IsLive h) ∧ hs.Nodup := by
  induction hs generalizing a with
  | nil => simp [destroyAll]
  | cons k hs ih =>
    cases hb : a.destroy? k with
    | some b =>
      rw [destroyAll, hb, ih b, List.forall_mem_cons, List.nodup_cons]
      constructor
      · rintro ⟨hlive, hnodup⟩
        have hlive := fun h hh => (isLive_destroy?_iff hb).mp (hlive h hh)
        exact ⟨⟨destroy?_isLive hb, fun h hh => (hlive h hh).1⟩, fun hk => (hlive k hk).2 rfl,
          hnodup⟩
      · rintro ⟨⟨-, hlive⟩, hk, hnodup⟩
        refine ⟨fun h hh => (isLive_destroy?_iff hb).mpr ⟨hlive h hh, ?_⟩, hnodup⟩
        rintro rfl
        exact hk hh
    | none =>
      refine iff_of_false (by simp [destroyAll, hb]) ?_
      rintro ⟨hlive, -⟩
      exact not_isLive_of_destroy?_eq_none hb (hlive k List.mem_cons_self)

/-- The handle that is reported was dead before, or has come up a second time. -/
theorem destroyAll_eq_some {a : Arena} {hs : List Handle} {h : Handle}
    (hfail : (a.destroyAll hs).1 = some h) : h ∈ hs ∧ (¬ a.IsLive h ∨ 1 < hs.count h) := by
  induction hs generalizing a with
  | nil => simp [destroyAll] at hfail
  | cons k hs ih =>
    cases hb : a.destroy? k with
    | some b =>
      rw [destroyAll, hb] at hfail
      obtain ⟨hmem, hfault⟩ := ih hfail
      refine ⟨List.mem_cons_of_mem k hmem, ?_⟩
      by_cases heq : h = k
      · subst heq
        have hcount := List.count_pos_iff.mpr hmem
        exact .inr (by rw [List.count_cons_self]; omega)
      · rw [isLive_destroy?_iff hb, and_iff_left heq] at hfault
        exact hfault.imp_right fun hcount => Nat.lt_of_lt_of_le hcount List.count_le_count_cons
    | none =>
      simp only [destroyAll, hb, Option.some.injEq] at hfail
      subst hfail
      exact ⟨List.mem_cons_self, .inl (not_isLive_of_destroy?_eq_none hb)⟩

section Rearranged

variable {a : Arena} {hs hs' : List Handle}

theorem mem_of_destroyAll_eq_some (hperm : hs'.Perm hs) {h : Handle}
    (hfail : (a.destroyAll hs').1 = some h) : h ∈ hs ∧ (¬ a.IsLive h ∨ 1 < hs.count h) := by
  have hfault := destroyAll_eq_some hfail
  rwa [hperm.mem_iff, hperm.count_eq] at hfault

theorem exists_destroyAll_eq_some_iff (hperm : hs'.Perm hs) :
    (∃ h, (a.destroyAll hs').1 = some h) ↔ ∃ h ∈ hs, ¬ a.IsLive h ∨ 1 < hs.count h := by
  constructor
  · rintro ⟨h, hfail⟩
    exact ⟨h, mem_of_destroyAll_eq_some hperm hfail⟩
  · rintro ⟨h, hmem, hfault⟩
    refine Option.ne_none_iff_exists'.mp fun hnone => ?_
    obtain ⟨hlive, hnodup⟩ := (destroyAll_eq_none_iff a hs').mp hnone
    rcases hfault with hdead | htwice
    · exact hdead (hlive h (hperm.mem_iff.mpr hmem))
    · have honce := List.nodup_iff_count.mp (hperm.nodup_iff.mp hnodup) h
      omega

/-- In which order handles are destroyed does not matter to what is freed. -/
theorem frees_destroyAll (hperm : hs'.Perm hs) : a.Frees hs (a.destroyAll hs').2 := by
  have hreaches : ∀ index, a.Reaches hs' index ↔ a.Reaches hs index := fun index => by
    simp only [Reaches, hperm.mem_iff]
  refine ⟨?_, ?_, ?_, fun ha => (ha.destroyAll hs').nodup⟩
  · intro h hh hl
    exact ((isLive_destroyAll_iff a hs').mp hl).2 (hperm.mem_iff.mpr hh)
  · intro index hindex
    exact slots_destroyAll_of_not_reaches a fun h => hindex ((hreaches index).mp h)
  · simpa only [hreaches] using exists_free_destroyAll a hs'

end Rearranged

end Arena

namespace Store

/-- How a store and the answer are related to the store before, when the last frame of the current
namespace has been closed and `outer` are the frames around it. -/
structure Closes (s : Store) (frame : Frame) (outer : List Frame)
    (answer : Except RuntimeError Unit) (s' : Store) : Prop where
  frees : s.arena.Frees frame.handles s'.arena
  frames : s'.scopes.frames s.scopes.place.name = outer
  depth : s'.depth + 1 = s.depth
  /-- There is an error just when the frame holds a handle that was dead, or one more than once. -/
  fails : (∃ e, answer = .error e) ↔
    ∃ h ∈ frame.handles, ¬ s.arena.IsLive h ∨ 1 < frame.handles.count h
  /-- An error is about such a handle. -/
  reports : ∀ e, answer = .error e → ∃ h ∈ frame.handles,
    e = .invalidReference h ∧ (¬ s.arena.IsLive h ∨ 1 < frame.handles.count h)

section Leaving

variable {s : Store} {outer : List Frame} {frame : Frame} {arrange : List Handle → List Handle}

/-- Below the global depth leaving takes away the last frame. -/
theorem leave?_of_frames (hdepth : 0 < s.depth)
    (hframes : s.scopes.frames s.scopes.place.name = outer ++ [frame]) :
    ∃ scopes, s.scopes.leave? = some (frame, scopes) ∧
      scopes.frames s.scopes.place.name = outer ∧ scopes.place.depth + 1 = s.depth := by
  have hzero : s.scopes.place.depth ≠ 0 := Nat.pos_iff_ne_zero.mp hdepth
  simp only [Scopes.leave?, if_neg hzero, hframes, List.getLast?_concat, Option.getD_some,
    List.dropLast_concat]
  exact ⟨_, rfl, Scopes.frames_setFrames_self s.scopes _ outer, Nat.sub_add_cancel hdepth⟩

/-- The answer is an error about the handle that destroying reports, if it reports one. -/
theorem leave_eq {scopes : Scopes} (hl : s.scopes.leave? = some (frame, scopes))
    (arrange : List Handle → List Handle) : s.leave arrange =
      ((s.arena.destroyAll (arrange frame.handles)).1.elim (.ok ()) fun h =>
          .error (.invalidReference h),
        ⟨(s.arena.destroyAll (arrange frame.handles)).2, scopes⟩) := by
  rw [leave, hl]
  rcases hd : s.arena.destroyAll (arrange frame.handles) with ⟨_ | h, arena⟩ <;> simp [hd]

theorem leave_eq_error_iff {scopes : Scopes} (hl : s.scopes.leave? = some (frame, scopes))
    {e : RuntimeError} : (s.leave arrange).1 = .error e ↔
      ∃ h, (s.arena.destroyAll (arrange frame.handles)).1 = some h ∧ .invalidReference h = e := by
  rw [leave_eq hl]
  cases (s.arena.destroyAll (arrange frame.handles)).1 <;> simp

/-- Leaving a block frees all that its frame refers to, each slot once, and changes no other slot,
in whichever order the handles are destroyed and whether or not some of them are dead or there
twice. If they are, and only then, leaving answers with an error. -/
theorem closes_leave (hdepth : 0 < s.depth)
    (hframes : s.scopes.frames s.scopes.place.name = outer ++ [frame])
    (harrange : (arrange frame.handles).Perm frame.handles) :
    s.Closes frame outer (s.leave arrange).1 (s.leave arrange).2 := by
  obtain ⟨scopes, hl, houter, hback⟩ := leave?_of_frames hdepth hframes
  have hleft := congrArg Prod.snd (leave_eq hl arrange)
  refine ⟨?_, by rw [hleft, houter], by rw [hleft]; exact hback, ?_, ?_⟩
  · rw [hleft]
    exact Arena.frees_destroyAll harrange
  · rw [← Arena.exists_destroyAll_eq_some_iff harrange]
    simp only [leave_eq_error_iff hl]
    constructor
    · rintro ⟨e, h, hfail, -⟩
      exact ⟨h, hfail⟩
    · rintro ⟨h, hfail⟩
      exact ⟨_, h, hfail, rfl⟩
  · intro e he
    obtain ⟨h, hfail, rfl⟩ := (leave_eq_error_iff hl).mp he
    obtain ⟨hmem, hfault⟩ := Arena.mem_of_destroyAll_eq_some harrange hfail
    exact ⟨h, hmem, rfl, hfault⟩

/-- The frame holds a handle twice, which the frame around it holds as well, and one that was never
given out. The slot is freed once; in reverse order the error is about the handle that was dead. -/
theorem closes_leave_reversed :
    ∃ (s s' : Store) (frame : Frame) (around : Frame),
      frame.handles = [⟨1, 0⟩, ⟨1, 0⟩, ⟨5, 0⟩] ∧ around.handles = [⟨1, 0⟩] ∧
      s.leave List.reverse = (.error (.invalidReference ⟨5, 0⟩), s') ∧ s'.arena.free = [1] ∧
      s.Closes frame [around] (.error (.invalidReference ⟨5, 0⟩)) s' :=
  let frame : Frame := { names := [("x", ⟨1, 0⟩)], temporaries := [⟨5, 0⟩, ⟨1, 0⟩] }
  let around : Frame := { names := [("x", ⟨1, 0⟩)] }
  let s : Store := {
    arena := ⟨#[⟨.invalid, 0⟩, ⟨.name "x" 1, 0⟩], []⟩
    scopes := ⟨[("", [around, frame])], ⟨"", 1, 2⟩⟩ }
  have hleave : s.leave List.reverse = (.error (.invalidReference ⟨5, 0⟩), _) := rfl
  ⟨s, _, frame, around, rfl, rfl, hleave, rfl,
    closes_leave (by decide) rfl (List.reverse_perm frame.handles)⟩

end Leaving

end Store

end WordScript
