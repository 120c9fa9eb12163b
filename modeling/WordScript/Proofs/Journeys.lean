import WordScript.Proofs.Closure
import WordScript.Proofs.Handles
import WordScript.Proofs.InPlace

/-!
# Journeys through a store

Scopes, and the arena beside them, can be asked for one thing after the other. Going to a namespace
leaves a mark behind, the place that execution was at; it can go back to a mark at any time, also
more than once and after it has left the block that the mark is in. So there may be fewer frames in
the current namespace than its depth tells, or none at all. On every journey that starts with an
empty store, what can be seen are all frames up to the current depth, and the namespaces are the
default one and those that the journey went to.
-/

namespace WordScript

namespace Scopes

/-- There is a namespace of a name. -/
def Has (s : Scopes) (space : String) : Prop :=
  (s.namespaces.find? space).isSome

variable {s : Scopes} {space other : String}

theorem has_empty : empty.Has space ↔ space = "" := by
  simp [Has, empty, defaultName, Bindings.find?, apply_ite, eq_comm]

/-- The frames of a namespace can only be set when it is there, if none is to be created. -/
theorem Has.setFrames (h : s.Has space) (fs : List Frame) :
    (s.setFrames space fs).Has other ↔ s.Has other := by
  rw [Has, find?_setFrames]
  split
  · next heq => simpa [heq] using h
  · rfl

theorem has_goTo : (s.goTo space).Has other ↔ other = space ∨ s.Has other := by
  rw [Has, find?_goTo]
  by_cases hother : other = space
  · subst hother
    cases s.namespaces.find? other <;> simp
  · simp [hother, Has]

theorem Has.enter (h : s.Has s.place.name) : s.enter.Has other ↔ s.Has other :=
  h.setFrames _

theorem Has.leave? (h : s.Has s.place.name) {s' : Scopes} {frame : Frame}
    (hl : s.leave? = some (frame, s')) : s'.Has other ↔ s.Has other := by
  unfold Scopes.leave? at hl
  split at hl
  · cases hl
  · cases hl
    exact h.setFrames _

end Scopes

/-- A store, and the places that execution went away from, the first one first. -/
structure Journey where
  store : Store
  marks : List Place

namespace Journey

/-- Nothing is bound, and execution has not gone anywhere. -/
def start : Journey := ⟨.empty, []⟩

/-- What can be asked of the scopes, and of the arena beside them. What a frame holds is destroyed
in the order that it is arranged in, when the frame is left. Marks are numbered in the order in which
they were left. -/
inductive Request where
  | enter
  | leave (arrange : List Handle → List Handle)
  | resolve (name : String)
  | lookup (name : String)
  | declare (i : Identifier)
  | bind (name : String) (h : Handle)
  | adopt (h : Handle)
  | goTo (space : String)
  | restore (mark : Nat)
  | arena (request : Arena.Request)

/-- The namespace that a request goes to, which is created if need be. -/
def Request.space? : Request → Option String
  | goTo space => some space
  | _ => none

/-- Carries out a request. -/
def after (j : Journey) : Request → Journey
  | .enter => { j with store := j.store.enter }
  | .leave arrange => { j with store := (j.store.leave arrange).2 }
  | .resolve name => { j with store := (j.store.resolveInPlace name).2 }
  | .lookup _ => j
  | .declare i => { j with store := (j.store.declareInPlace i).2 }
  | .bind name h => { j with store := { j.store with scopes := j.store.scopes.bind name h } }
  | .adopt h => { j with store := { j.store with scopes := j.store.scopes.adopt h } }
  | .goTo space =>
    ⟨{ j.store with scopes := j.store.scopes.goTo space }, j.marks ++ [j.store.scopes.place]⟩
  | .restore mark =>
    match j.marks[mark]? with
    | some place => { j with store := { j.store with scopes := j.store.scopes.restore place } }
    | none => j
  | .arena request => { j with store := { j.store with arena := (j.store.arena.serve request).2 } }

/-- Carries out requests one after the other. -/
def run (j : Journey) (requests : List Request) : Journey :=
  requests.foldl after j

theorem run_append (j : Journey) (rs rs' : List Request) :
    j.run (rs ++ rs') = (j.run rs).run rs' :=
  List.foldl_append

/-- The namespaces that there are after requests to an empty store, the latest one first. -/
def spaces (requests : List Request) : List String :=
  requests.reverse.filterMap Request.space? ++ [""]

/-- The places that execution is at or can go back to. -/
def places (j : Journey) : List Place :=
  j.store.scopes.place :: j.marks

/-- The arena is tidy. From every place that execution can be at, the frames that can be seen are
those up to the depth of the place, in a namespace that is there; and the namespaces that are there
are the given ones. -/
structure OnCourse (spaces : List String) (j : Journey) : Prop where
  tidy : j.store.arena.Tidy
  visible : ∀ p ∈ j.places, p.visible = p.depth + 1
  known : ∀ p ∈ j.places, p.name ∈ spaces
  has : ∀ space, j.store.scopes.Has space ↔ space ∈ spaces

section Steps

variable {j : Journey} {spaces : List String} {s' : Store}

theorem onCourse_start : OnCourse [""] start where
  tidy := Arena.tidy_empty
  visible := by simp [places, start, Store.empty, Scopes.empty, Place.top]
  known := by simp [places, start, Store.empty, Scopes.empty, Place.top, Scopes.defaultName]
  has space := by simpa [start, Store.empty] using Scopes.has_empty

theorem OnCourse.has_current (hj : OnCourse spaces j) :
    j.store.scopes.Has j.store.scopes.place.name :=
  (hj.has _).mpr (hj.known _ List.mem_cons_self)

/-- A store with the same namespaces is on course at any place of the same namespace from which all
frames can be seen. -/
theorem OnCourse.move (hj : OnCourse spaces j) (htidy : s'.arena.Tidy)
    (hname : s'.scopes.place.name = j.store.scopes.place.name)
    (hvisible : s'.scopes.place.visible = s'.scopes.place.depth + 1)
    (hhas : ∀ space, s'.scopes.Has space ↔ j.store.scopes.Has space) :
    OnCourse spaces { j with store := s' } where
  tidy := htidy
  visible := List.forall_mem_cons.mpr ⟨hvisible, (List.forall_mem_cons.mp hj.visible).2⟩
  known := by
    obtain ⟨hcurrent, hmarks⟩ := List.forall_mem_cons.mp hj.known
    exact List.forall_mem_cons.mpr ⟨hname ▸ hcurrent, hmarks⟩
  has space := (hhas space).trans (hj.has space)

/-- So it is where execution stays at its place. -/
theorem OnCourse.stay (hj : OnCourse spaces j) (htidy : s'.arena.Tidy)
    (hplace : s'.scopes.place = j.store.scopes.place)
    (hhas : ∀ space, s'.scopes.Has space ↔ j.store.scopes.Has space) :
    OnCourse spaces { j with store := s' } :=
  hj.move htidy (by rw [hplace]) (by rw [hplace]; exact hj.visible _ List.mem_cons_self) hhas

theorem OnCourse.enter (hj : OnCourse spaces j) : OnCourse spaces (j.after .enter) := by
  refine hj.move hj.tidy rfl ?_ fun space => hj.has_current.enter
  exact congrArg (· + 1) (hj.visible _ List.mem_cons_self)

theorem OnCourse.leave (hj : OnCourse spaces j) (arrange : List Handle → List Handle) :
    OnCourse spaces (j.after (.leave arrange)) := by
  refine Store.of_leave (P := fun s' => OnCourse spaces { j with store := s' }) hj ?_
  intro frame scopes hl
  have hvisible := hj.visible _ List.mem_cons_self
  have hhas : ∀ space, scopes.Has space ↔ j.store.scopes.Has space :=
    fun space => hj.has_current.leave? hl
  unfold Scopes.leave? at hl
  split at hl
  · cases hl
  · cases hl
    refine hj.move (hj.tidy.destroyAll _) rfl ?_ hhas
    change max (j.store.scopes.place.visible - 1) 1 = j.store.scopes.place.depth - 1 + 1
    omega

theorem OnCourse.resolve (hj : OnCourse spaces j) (name : String) :
    OnCourse spaces (j.after (.resolve name)) := by
  refine Store.of_resolveInPlace (P := fun s' => OnCourse spaces { j with store := s' }) hj ?_
  intro h s' hr
  rcases Store.resolve_cases hr with ⟨rfl, -⟩ | ⟨space, member, -, hspace, -, heq⟩ | ⟨-, -, heq⟩
  · exact hj
  · obtain ⟨-, rfl⟩ := Prod.mk.inj heq
    exact hj.stay (hj.tidy.push _) rfl fun _ => Scopes.Has.setFrames hspace _
  · obtain ⟨-, rfl⟩ := Prod.mk.inj heq
    exact hj.stay (hj.tidy.push _) rfl fun _ => hj.has_current.setFrames _

theorem OnCourse.declare (hj : OnCourse spaces j) (i : Identifier) :
    OnCourse spaces (j.after (.declare i)) := by
  refine Store.of_declareInPlace (P := fun s' => OnCourse spaces { j with store := s' }) hj ?_
  intro h s' hd
  rcases Store.declare_cases hd with ⟨-, heq⟩ | ⟨old, -, hold, -, rfl⟩
  · obtain ⟨-, rfl⟩ := Prod.mk.inj heq
    exact hj.stay (hj.tidy.push _) rfl fun _ => hj.has_current.setFrames _
  · exact hj.stay (hj.tidy.put (Arena.isLive_of_get? hold) _) rfl fun _ => .rfl

theorem OnCourse.goTo (hj : OnCourse spaces j) (space : String) :
    OnCourse (space :: spaces) (j.after (.goTo space)) where
  tidy := hj.tidy
  visible := by
    intro p hp
    rcases List.mem_cons.mp hp with rfl | hp
    · rfl
    · exact hj.visible p (List.mem_cons.mpr ((List.mem_append.mp hp).symm.imp_left
        List.mem_singleton.mp))
  known := by
    intro p hp
    rcases List.mem_cons.mp hp with rfl | hp
    · exact List.mem_cons_self
    · exact List.mem_cons_of_mem _ (hj.known p (List.mem_cons.mpr
        ((List.mem_append.mp hp).symm.imp_left List.mem_singleton.mp)))
  has other := by
    rw [List.mem_cons, ← hj.has]
    exact Scopes.has_goTo

theorem OnCourse.restore (hj : OnCourse spaces j) (mark : Nat) :
    OnCourse spaces (j.after (.restore mark)) := by
  rw [after]
  split
  · next place hplace =>
    have hmem : place ∈ j.marks := List.mem_of_getElem? hplace
    refine ⟨hj.tidy, ?_, ?_, hj.has⟩
    · exact List.forall_mem_cons.mpr
        ⟨hj.visible place (List.mem_cons_of_mem _ hmem), (List.forall_mem_cons.mp hj.visible).2⟩
    · exact List.forall_mem_cons.mpr
        ⟨hj.known place (List.mem_cons_of_mem _ hmem), (List.forall_mem_cons.mp hj.known).2⟩
  · exact hj

/-- Whatever is asked, the journey goes on. -/
theorem OnCourse.after (hj : OnCourse spaces j) (r : Request) :
    OnCourse (r.space?.toList ++ spaces) (j.after r) := by
  cases r with
  | enter => exact hj.enter
  | leave arrange => exact hj.leave arrange
  | resolve name => exact hj.resolve name
  | lookup name => exact hj
  | declare i => exact hj.declare i
  | bind name h => exact hj.stay hj.tidy rfl fun _ => hj.has_current.setFrames _
  | adopt h => exact hj.stay hj.tidy rfl fun _ => hj.has_current.setFrames _
  | goTo space => exact hj.goTo space
  | restore mark => exact hj.restore mark
  | arena request => exact hj.stay (hj.tidy.serve request) rfl fun _ => .rfl

theorem OnCourse.run (hj : OnCourse spaces j) (requests : List Request) :
    OnCourse (requests.reverse.filterMap Request.space? ++ spaces) (j.run requests) := by
  induction requests generalizing j spaces with
  | nil => exact hj
  | cons r requests ih =>
    have hspaces : (r :: requests).reverse.filterMap Request.space? ++ spaces =
        requests.reverse.filterMap Request.space? ++ (r.space?.toList ++ spaces) := by
      cases hr : r.space? <;> simp [hr]
    rw [hspaces]
    exact ih (hj.after r)

end Steps

/-- Every journey that starts with an empty store is on course. -/
theorem onCourse_run (requests : List Request) : OnCourse (spaces requests) (start.run requests) :=
  onCourse_start.run requests

end Journey

end WordScript
