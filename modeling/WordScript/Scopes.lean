import WordScript.Bindings
import WordScript.Handle

/-!
# Scopes

Every namespace owns a stack of frames, one for each open block below its global frame. A frame
binds names, and owns the temporary identifiers that came up while it was the innermost one.
Execution is at one *place*: a namespace, a depth in it, and the number of frames that can be seen
from there.
-/

namespace WordScript

/-- The names bound in a block, and the temporary identifiers that belong to it, latest first. -/
structure Frame where
  names : Bindings Handle := []
  temporaries : List Handle := []
deriving DecidableEq, Repr

/-- The frame of a block that has just been opened. -/
def Frame.empty : Frame := {}

/-- The handles that a frame owns: those bound to names, then the temporary ones as they came. -/
def Frame.handles (f : Frame) : List Handle :=
  f.names.values ++ f.temporaries.reverse

/-- Where execution is. -/
structure Place where
  name : String
  depth : Nat
  visible : Nat
deriving DecidableEq, Repr

/-- The global frame of a namespace. -/
def Place.top (name : String) : Place := ⟨name, 0, 1⟩

/-- The frames of each namespace, the global one first, and the place of execution. -/
structure Scopes where
  namespaces : Bindings (List Frame)
  place : Place
deriving DecidableEq, Repr

namespace Scopes

/-- The namespace that programs start in. -/
def defaultName : String := ""

/-- Scopes without bindings, at the global frame of the default namespace. -/
def empty : Scopes := ⟨[(defaultName, [.empty])], .top defaultName⟩

/-- The frames of a namespace, the global one first. -/
def frames (s : Scopes) (name : String) : List Frame :=
  (s.namespaces.find? name).getD []

/-- The scopes with other frames in a namespace. -/
def setFrames (s : Scopes) (name : String) (frames : List Frame) : Scopes :=
  { s with namespaces := s.namespaces.insert name frames }

/-- Changes the frame of an index in a namespace; the frames up to there are opened if need be. -/
def modifyFrame (s : Scopes) (name : String) (index : Nat) (f : Frame → Frame) : Scopes :=
  let old := s.frames name
  let opened := old ++ List.replicate (index + 1 - old.length) .empty
  s.setFrames name (opened.modify index f)

/-- Opens a frame for a block. -/
def enter (s : Scopes) : Scopes :=
  let s' := s.setFrames s.place.name (s.frames s.place.name ++ [.empty])
  { s' with place := ⟨s.place.name, s.place.depth + 1, s.place.visible + 1⟩ }

/-- Closes the last frame, and gives it. The global depth cannot be left. -/
def leave? (s : Scopes) : Option (Frame × Scopes) :=
  if s.place.depth = 0 then none
  else
    let frames := s.frames s.place.name
    let s' := s.setFrames s.place.name frames.dropLast
    some (frames.getLast?.getD .empty,
      { s' with place := ⟨s.place.name, s.place.depth - 1, max (s.place.visible - 1) 1⟩ })

/-- The frames that can be seen from a place, the innermost first. -/
def visibleFrames (s : Scopes) : List Frame :=
  (((s.frames s.place.name).take (s.place.depth + 1)).reverse).take s.place.visible

/-- What a name is bound to in the innermost of the visible frames that bind it. -/
def lookup? (s : Scopes) (name : String) : Option Handle :=
  s.visibleFrames.findSome? fun frame => frame.names.find? name

/-- The frame that names are bound in at the place of execution. -/
def currentFrame (s : Scopes) : Frame :=
  ((s.frames s.place.name)[s.place.depth]?).getD .empty

/-- Binds a name in the current frame. -/
def bind (s : Scopes) (name : String) (h : Handle) : Scopes :=
  s.modifyFrame s.place.name s.place.depth fun f => { f with names := f.names.insert name h }

/-- Gives a temporary identifier to the current frame. -/
def adopt (s : Scopes) (h : Handle) : Scopes :=
  s.modifyFrame s.place.name s.place.depth fun f => { f with temporaries := h :: f.temporaries }

/-- What a name is bound to in the global frame of a namespace. -/
def global? (s : Scopes) (space name : String) : Option Handle :=
  match s.frames space with
  | [] => none
  | frame :: _ => frame.names.find? name

/-- Binds a name in the global frame of a namespace. -/
def bindGlobal (s : Scopes) (space name : String) (h : Handle) : Scopes :=
  s.modifyFrame space 0 fun f => { f with names := f.names.insert name h }

/-- Goes to the global frame of a namespace, which is created if need be. -/
def goTo (s : Scopes) (name : String) : Scopes :=
  let s' := match s.namespaces.find? name with
    | some _ => s
    | none => s.setFrames name [.empty]
  { s' with place := .top name }

/-- Goes back to a place. -/
def restore (s : Scopes) (place : Place) : Scopes :=
  { s with place }

end Scopes

/-- The namespace and the member that a name with a point in it consists of. -/
def qualified? (name : String) : Option (String × String) :=
  match name.toList.dropWhile (· ≠ '.') with
  | [] => none
  | _ :: member => some (String.ofList (name.toList.takeWhile (· ≠ '.')), String.ofList member)

end WordScript
