import WordScript.Proofs.Journeys
import WordScript.Proofs.Members

/-!
# Names in an environment

On every journey through a store, names mean what they mean in nested environments. A plain name
stands for what the innermost frame binds it to, among the frames up to the current depth; one with
a namespace in front stands for what the global frame of the namespace binds it to, wherever it is
mentioned. A name that is not bound yet is bound to an undefined identifier, in one frame and with
no other change, unless its namespace is not there; and a name that has been resolved once is bound
to the answer.
-/

namespace WordScript

namespace Scopes

/-! ## Looking up by index -/

/-- The part of a list from one index to another one, if both are in range. -/
def slice? {α : Type} (xs : List α) (first last : Nat) : Option (List α) :=
  if first ≤ last + 1 ∧ last < xs.length then some ((xs.take (last + 1)).drop first) else none

/-- Looks a name up in the frames from the outermost to the innermost visible one, both given by
their indices, if these are in range. -/
def lookupInRange? (s : Scopes) (name : String) : Option (Option Handle) :=
  let frames := s.frames s.place.name
  if frames = [] then some none
  else
    let innermost := min s.place.depth (frames.length - 1)
    let outermost := innermost + 1 - s.place.visible
    (slice? frames outermost innermost).map fun window =>
      window.reverse.findSome? fun frame => frame.names.find? name

/-- The indices of the visible frames are always in range. -/
theorem lookupInRange?_eq (s : Scopes) (name : String) :
    s.lookupInRange? name = some (s.lookup? name) := by
  unfold lookupInRange? lookup? visibleFrames
  generalize s.frames s.place.name = frames
  by_cases hnil : frames = []
  · simp [hnil]
  · have hlength : 0 < frames.length := List.length_pos_iff.mpr hnil
    have htake : frames.take (min s.place.depth (frames.length - 1) + 1) =
        frames.take (s.place.depth + 1) := by
      rw [List.take_eq_take_iff]
      omega
    simp only [hnil, if_false, slice?]
    rw [if_pos (by omega), Option.map_some, htake, List.take_reverse, List.length_take]
    congr 5
    omega

/-! ## The innermost binding -/

/-- The innermost frame up to the current depth that binds a name binds it to a handle. -/
def BindsInnermost (s : Scopes) (name : String) (h : Handle) : Prop :=
  ∃ index ≤ s.place.depth, (s.frameAt s.place.name index).names.find? name = some h ∧
    ∀ inner ≤ s.place.depth, index < inner →
      (s.frameAt s.place.name inner).names.find? name = none

/-- Frames that are not there do not matter when something is looked for that the empty frame does
not have. -/
theorem findSome?_take_reverse {α : Type} {f : Frame → Option α} (hempty : f .empty = none)
    (frames : List Frame) (n : Nat) : (frames.take n).reverse.findSome? f =
      (List.range n).reverse.findSome? fun index => f (frames[index]?.getD .empty) := by
  induction n with
  | zero => rfl
  | succ n ih =>
    rw [List.take_add_one, List.reverse_append, List.findSome?_append, ih, List.range_succ,
      List.reverse_append, List.findSome?_append]
    congr 1
    cases hn : frames[n]? <;> simp [hn, hempty]

/-- What is found last in a range is found at some index, and at none behind it. -/
theorem findSome?_range_reverse {α : Type} {f : Nat → Option α} {n : Nat} {a : α} :
    (List.range n).reverse.findSome? f = some a ↔
      ∃ index < n, f index = some a ∧ ∀ k < n, index < k → f k = none := by
  induction n with
  | zero => simp
  | succ n ih =>
    rw [List.range_succ, List.reverse_append, List.reverse_singleton, List.singleton_append,
      List.findSome?_cons]
    constructor
    · intro h
      cases hn : f n with
      | some b =>
        rw [hn] at h
        exact ⟨n, Nat.lt_succ_self n, hn.trans h, fun k hk hlt => absurd hlt (by omega)⟩
      | none =>
        rw [hn] at h
        obtain ⟨index, hindex, hfound, hbehind⟩ := ih.mp h
        refine ⟨index, Nat.lt_succ_of_lt hindex, hfound, fun k hk hlt => ?_⟩
        rcases Nat.lt_succ_iff_lt_or_eq.mp hk with hk | rfl
        · exact hbehind k hk hlt
        · exact hn
    · rintro ⟨index, hindex, hfound, hbehind⟩
      rcases Nat.lt_succ_iff_lt_or_eq.mp hindex with hindex | rfl
      · rw [hbehind n (Nat.lt_succ_self n) hindex]
        exact ih.mpr ⟨index, hindex, hfound, fun k hk => hbehind k (Nat.lt_succ_of_lt hk)⟩
      · rw [hfound]

/-- Where all frames up to the current depth can be seen, the innermost binding is found. -/
theorem lookup?_eq_some_iff {s : Scopes} (hv : s.place.visible = s.place.depth + 1) {name : String}
    {h : Handle} : s.lookup? name = some h ↔ s.BindsInnermost name h := by
  have htake : s.visibleFrames = ((s.frames s.place.name).take (s.place.depth + 1)).reverse := by
    rw [visibleFrames, hv, List.take_of_length_le]
    rw [List.length_reverse]
    exact List.length_take_le _ _
  rw [lookup?, htake, findSome?_take_reverse rfl, findSome?_range_reverse]
  simp only [BindsInnermost, frameAt, Nat.lt_succ_iff]

theorem lookup?_bind {s : Scopes} (hv : s.place.visible = s.place.depth + 1) (name : String)
    (h : Handle) : (s.bind name h).lookup? name = some h := by
  have hv' : (s.bind name h).place.visible = (s.bind name h).place.depth + 1 := hv
  refine (lookup?_eq_some_iff hv').mpr
    ⟨s.place.depth, Nat.le_refl _, ?_, fun inner hle hlt => absurd hle (Nat.not_le.mpr hlt)⟩
  exact (find?_frameAt_insert _ _ _ _ _ _ _ _).trans (if_pos ⟨rfl, rfl, rfl⟩)

end Scopes

namespace Store

/-! ## One binding more -/

/-- In the frame of an index a name is bound to a handle. Nothing else changes, but for what the
handle refers to. -/
structure BindsOnly (s : Store) (space : String) (index : Nat) (name : String) (h : Handle)
    (s' : Store) : Prop where
  identifiers : ∀ k ≠ h, s'.arena.get? k = s.arena.get? k
  names : ∀ other k key, (s'.scopes.frameAt other k).names.find? key =
    if other = space ∧ k = index ∧ key = name then some h
    else (s.scopes.frameAt other k).names.find? key
  temporaries : ∀ other k,
    (s'.scopes.frameAt other k).temporaries = (s.scopes.frameAt other k).temporaries
  place : s'.scopes.place = s.scopes.place
  has : ∀ other, s'.scopes.Has other ↔ s.scopes.Has other

/-- In the frame of an index a name is bound to an undefined identifier, whose handle was not in
use, and nothing else changes. -/
structure BindsFresh (s : Store) (space : String) (index : Nat) (name : String) (h : Handle)
    (s' : Store) : Prop extends BindsOnly s space index name h s' where
  unused : ¬ s.arena.InUse h
  undefined : s'.arena.get? h = some (.name name index)

variable {s : Store} {space name : String} {index : Nat} {h : Handle}

theorem bindsOnly_push (hs : s.arena.Tidy) (hspace : s.scopes.Has space) (index : Nat)
    (name : String) (i : Identifier) : s.BindsOnly space index name (s.arena.push i).1
      ⟨(s.arena.push i).2, s.scopes.modifyFrame space index fun f =>
        { f with names := f.names.insert name (s.arena.push i).1 }⟩ where
  identifiers k hk := Arena.get?_push_of_ne hs i hk
  names other k key := Scopes.find?_frameAt_insert _ _ _ _ _ _ _ _
  temporaries other k := by
    by_cases hframe : other = space ∧ k = index
    · obtain ⟨rfl, rfl⟩ := hframe
      rw [Scopes.frameAt_modifyFrame_self]
    · rw [Scopes.frameAt_modifyFrame_of_ne (by tauto)]
  place := rfl
  has other := hspace.setFrames _

/-- What a name that is bound stands for can be overwritten. -/
theorem bindsOnly_put (hs : s.arena.Tidy) (hl : s.arena.IsLive h)
    (hname : (s.scopes.frameAt space index).names.find? name = some h) (i : Identifier) :
    s.BindsOnly space index name h { s with arena := s.arena.put h.index i } where
  identifiers k hk := Arena.get?_put_of_ne_handle hs hl hk
  names other k key := by
    split
    · next heq =>
      obtain ⟨rfl, rfl, rfl⟩ := heq
      exact hname
    · rfl
  temporaries _ _ := rfl
  place := rfl
  has _ := .rfl

theorem bindsFresh (hs : s.arena.Tidy) (hspace : s.scopes.Has space) (index : Nat)
    (name : String) : s.BindsFresh space index name (s.arena.push (.name name index)).1
      ⟨(s.arena.push (.name name index)).2, s.scopes.modifyFrame space index fun f =>
        { f with names := f.names.insert name (s.arena.push (.name name index)).1 }⟩ where
  toBindsOnly := bindsOnly_push hs hspace index name _
  unused := Arena.not_inUse_push hs _
  undefined := Arena.get?_push_self hs (by simp [Identifier.name])

/-- Plain names are always resolved. -/
theorem resolve_plain_cases (hs : s.arena.Tidy) (hhas : s.scopes.Has s.scopes.place.name)
    (hname : '.' ∉ name.toList) :
    (∃ h, s.scopes.lookup? name = some h ∧ s.resolve name = .ok (h, s)) ∨
      s.scopes.lookup? name = none ∧ ∃ h s', s.resolve name = .ok (h, s') ∧
        s.BindsFresh s.scopes.place.name s.scopes.place.depth name h s' := by
  rw [resolve, qualified?_eq_none hname]
  cases hlookup : s.scopes.lookup? name with
  | some h => exact .inl ⟨h, rfl, rfl⟩
  | none => exact .inr ⟨rfl, _, _, rfl, bindsFresh hs hhas _ _⟩

/-- Members of namespaces that are there are always resolved. -/
theorem resolve_member_cases (hs : s.arena.Tidy) (hpoint : '.' ∉ space.toList)
    (hhas : s.scopes.Has space) (member : String) :
    (∃ h, (s.scopes.frameAt space 0).names.find? member = some h ∧
        s.resolve (space ++ "." ++ member) = .ok (h, s)) ∨
      (s.scopes.frameAt space 0).names.find? member = none ∧
        ∃ h s', s.resolve (space ++ "." ++ member) = .ok (h, s') ∧
          s.BindsFresh space 0 member h s' := by
  obtain ⟨fs, hfs⟩ := Option.isSome_iff_exists.mp hhas
  simp only [resolve, qualified?_member hpoint, hfs, ← Scopes.global?_eq]
  cases hglobal : s.scopes.global? space member with
  | some h => exact .inl ⟨h, rfl, rfl⟩
  | none => exact .inr ⟨rfl, _, _, rfl, bindsFresh hs hhas _ _⟩

theorem resolve_member_unknown (hpoint : '.' ∉ space.toList)
    (hhas : ¬ s.scopes.Has space) (member : String) :
    s.resolve (space ++ "." ++ member) = .error (.unknownNamespace space) := by
  rw [Scopes.Has, Bool.not_eq_true, Option.isSome_eq_false_iff, Option.isNone_iff_eq_none] at hhas
  simp only [resolve, qualified?_member hpoint, hhas]

/-- The answer for a member of a namespace depends on the arena and on the global frame of the
namespace only. -/
theorem resolve_member_congr {t : Store} (harena : t.arena = s.arena)
    (hpoint : '.' ∉ space.toList) (hhas : t.scopes.Has space ↔ s.scopes.Has space)
    (hframe : t.scopes.frameAt space 0 = s.scopes.frameAt space 0) (member : String) :
    (t.resolve (space ++ "." ++ member)).map Prod.fst =
      (s.resolve (space ++ "." ++ member)).map Prod.fst := by
  by_cases hs : s.scopes.Has space
  · obtain ⟨fs, hfs⟩ := Option.isSome_iff_exists.mp hs
    obtain ⟨gs, hgs⟩ := Option.isSome_iff_exists.mp (hhas.mpr hs)
    simp only [resolve, qualified?_member hpoint, hfs, hgs, Scopes.global?_eq, hframe]
    cases (s.scopes.frameAt space 0).names.find? member with
    | some h => rfl
    | none => simp only [Except.map, defineGlobal, push, harena]
  · rw [resolve_member_unknown hpoint hs, resolve_member_unknown hpoint (hs ∘ hhas.mp)]

/-- A name that has been resolved is bound to the answer. -/
theorem resolve_resolve (hv : s.scopes.place.visible = s.scopes.place.depth + 1) {s' : Store}
    (hr : s.resolve name = .ok (h, s')) :
    s'.resolve name = .ok (h, s') := by
  apply resolve_of_bound?
  rcases resolve_bound?_cases hr with
    ⟨hbound, rfl⟩ | ⟨-, ⟨space, member, hq, heq⟩ | ⟨hq, heq⟩⟩
  · exact hbound
  · obtain ⟨rfl, rfl⟩ := Prod.mk.inj heq
    rw [Scopes.bound?_member hq, Scopes.global?_eq]
    simp only [Scopes.bindGlobal, Scopes.find?_frameAt_insert, and_self, if_true]
  · obtain ⟨rfl, rfl⟩ := Prod.mk.inj heq
    rw [Scopes.bound?_plain hq]
    exact Scopes.lookup?_bind hv name _

end Store

namespace Journey

/-- A request that only goes elsewhere, into a block, to a namespace or back to a mark. -/
def Request.Moves : Request → Prop
  | enter | goTo _ | restore _ => True
  | _ => False

theorem frameAt_of_moves {r : Request} (hr : r.Moves) (j : Journey) (space : String) (index : Nat) :
    (j.after r).store.arena = j.store.arena ∧
      (j.after r).store.scopes.frameAt space index = j.store.scopes.frameAt space index := by
  cases r with
  | enter => exact ⟨rfl, Scopes.frameAt_enter _ _ _⟩
  | goTo other => exact ⟨rfl, Scopes.frameAt_goTo _ _ _ _⟩
  | restore mark =>
    rw [after]
    split <;> exact ⟨rfl, rfl⟩
  | _ => exact hr.elim

theorem frameAt_run_of_moves {requests : List Request} (hr : ∀ r ∈ requests, r.Moves) (j : Journey)
    (space : String) (index : Nat) :
    (j.run requests).store.arena = j.store.arena ∧
      (j.run requests).store.scopes.frameAt space index = j.store.scopes.frameAt space index := by
  induction requests generalizing j with
  | nil => exact ⟨rfl, rfl⟩
  | cons r requests ih =>
    obtain ⟨hhead, htail⟩ := List.forall_mem_cons.mp hr
    obtain ⟨harena, hframe⟩ := frameAt_of_moves hhead j space index
    obtain ⟨harena', hframe'⟩ := ih htail (j.after r)
    exact ⟨harena'.trans harena, hframe'.trans hframe⟩

/-- Names mean on a journey what they mean in nested environments, the namespaces that were created
being the given ones. -/
structure IsEnvironment (j : Journey) (spaces : List String) : Prop where
  /-- All frames up to the current depth can be seen. -/
  visible : j.store.scopes.place.visible = j.store.scopes.place.depth + 1
  /-- The indices of the frames that names are looked up in are in range. -/
  inRange : ∀ name, j.store.scopes.lookupInRange? name = some (j.store.scopes.lookup? name)
  /-- What is found is the innermost binding. -/
  innermost : ∀ name h, j.store.scopes.lookup? name = some h ↔
    j.store.scopes.BindsInnermost name h
  /-- A plain name stands for what is found, or is bound in the current frame. -/
  plain : ∀ name, '.' ∉ name.toList →
    (∃ h, j.store.scopes.lookup? name = some h ∧ j.store.resolve name = .ok (h, j.store)) ∨
      j.store.scopes.lookup? name = none ∧ ∃ h s', j.store.resolve name = .ok (h, s') ∧
        j.store.BindsFresh j.store.scopes.place.name j.store.scopes.place.depth name h s'
  /-- A member stands for what the global frame binds it to, or is bound there. -/
  member : ∀ space ∈ spaces, '.' ∉ space.toList → ∀ member,
    (∃ h, (j.store.scopes.frameAt space 0).names.find? member = some h ∧
        j.store.resolve (space ++ "." ++ member) = .ok (h, j.store)) ∨
      (j.store.scopes.frameAt space 0).names.find? member = none ∧
        ∃ h s', j.store.resolve (space ++ "." ++ member) = .ok (h, s') ∧
          j.store.BindsFresh space 0 member h s'
  /-- Nothing but the arena and that global frame matters for a member. -/
  global : ∀ space ∈ spaces, '.' ∉ space.toList → ∀ (member : String) (t : Store),
    t.arena = j.store.arena → t.scopes.Has space →
    t.scopes.frameAt space 0 = j.store.scopes.frameAt space 0 →
      (t.resolve (space ++ "." ++ member)).map Prod.fst =
        (j.store.resolve (space ++ "." ++ member)).map Prod.fst
  /-- A member stands for the same from any other place. -/
  anywhere : ∀ space ∈ spaces, '.' ∉ space.toList → ∀ (member : String) (requests : List Request),
    (∀ r ∈ requests, r.Moves) →
    ((j.run requests).store.resolve (space ++ "." ++ member)).map Prod.fst =
      (j.store.resolve (space ++ "." ++ member)).map Prod.fst
  /-- It is the namespaces that were never created that cannot be found. -/
  unknown : ∀ space : String, '.' ∉ space.toList → ∀ member : String,
    j.store.resolve (space ++ "." ++ member) = .error (.unknownNamespace space) ↔ space ∉ spaces
  /-- A name that is not resolved changes nothing. -/
  refused : ∀ name e, (j.store.resolveInPlace name).1 = .error e → j.after (.resolve name) = j
  /-- A name that is resolved again stands for the same, and nothing changes. -/
  again : ∀ name h s', j.store.resolve name = .ok (h, s') → s'.resolve name = .ok (h, s')

theorem OnCourse.isEnvironment {spaces : List String} {j : Journey} (hj : OnCourse spaces j) :
    IsEnvironment j spaces where
  visible := hj.visible _ List.mem_cons_self
  inRange := j.store.scopes.lookupInRange?_eq
  innermost name h := Scopes.lookup?_eq_some_iff (hj.visible _ List.mem_cons_self)
  plain name hname := Store.resolve_plain_cases hj.tidy hj.has_current hname
  member space hspace hpoint member :=
    Store.resolve_member_cases hj.tidy hpoint ((hj.has space).mpr hspace) member
  global space hspace hpoint member t harena hhas hframe :=
    Store.resolve_member_congr harena hpoint (iff_of_true hhas ((hj.has space).mpr hspace)) hframe
      member
  anywhere space hspace hpoint member requests hr := by
    obtain ⟨harena, hframe⟩ := frameAt_run_of_moves hr j space 0
    have hhas := ((hj.run requests).has space).mpr (List.mem_append_right _ hspace)
    exact Store.resolve_member_congr harena hpoint
      (iff_of_true hhas ((hj.has space).mpr hspace)) hframe member
  unknown space hpoint member := by
    rw [← hj.has]
    refine ⟨fun hr hhas => ?_, fun hhas => Store.resolve_member_unknown hpoint hhas member⟩
    rcases Store.resolve_member_cases hj.tidy hpoint hhas member with
      ⟨h, -, hok⟩ | ⟨-, h, s', hok, -⟩
    · cases hr.symm.trans hok
    · cases hr.symm.trans hok
  refused name e he := by
    rw [Store.resolveInPlace_eq] at he
    rw [Journey.after, Store.resolveInPlace_eq]
    cases hr : j.store.resolve name with
    | error e => rfl
    | ok result =>
      rw [hr] at he
      cases he
  again name h s' hr := Store.resolve_resolve (hj.visible _ List.mem_cons_self) hr

end Journey

/-- Whatever scopes have been asked for since they were empty, the names in them mean what they mean
in nested environments; the namespaces that were created are the default one and those that were
gone to. -/
theorem names_in_environment (requests : List Journey.Request) :
    (Journey.start.run requests).IsEnvironment (Journey.spaces requests) :=
  (Journey.onCourse_run requests).isEnvironment

/-- A name that was mentioned in a namespace is found from a block of another one. -/
example :
    ((Journey.start.run [.goTo "m", .resolve "x", .restore 0, .enter]).store.resolve
      "m.x").toOption.map Prod.fst = some ⟨1, 0⟩ := by
  decide +kernel

end WordScript
