import WordScript.Arena
import WordScript.RuntimeError
import WordScript.Scopes

/-!
# The store

The arena together with the scopes that own its identifiers. Names are resolved, declared and
forgotten here; leaving a block destroys all that its frame owns.
-/

namespace WordScript

/-- All identifiers, and what owns them. -/
structure Store where
  arena : Arena
  scopes : Scopes
deriving DecidableEq, Repr

namespace Store

/-- A store without identifiers. -/
def empty : Store := ⟨.empty, .empty⟩

/-- The depth of the place of execution. -/
def depth (s : Store) : Nat := s.scopes.place.depth

/-- Opens a frame for a block. -/
def enter (s : Store) : Store := { s with scopes := s.scopes.enter }

/--
Closes the last frame and destroys what it owns, in the order that `arrange` puts it in. All of it
is destroyed even when some handle refers to nothing; the first such handle is the error.
-/
def leave (arrange : List Handle → List Handle) (s : Store) : Except RuntimeError Unit × Store :=
  match s.scopes.leave? with
  | none => (.ok (), s)
  | some (frame, scopes) =>
    match s.arena.destroyAll (arrange frame.handles) with
    | (none, arena) => (.ok (), { arena, scopes })
    | (some h, arena) => (.error (.invalidReference h), { arena, scopes })

/-- Adds an identifier that belongs to no frame. -/
def push (s : Store) (i : Identifier) : Handle × Store :=
  let (h, arena) := s.arena.push i
  (h, { s with arena })

/-- Adds a temporary identifier, which belongs to the current frame. -/
def pushTemporary (s : Store) (i : Identifier) : Handle × Store :=
  let (h, s) := s.push i
  (h, { s with scopes := s.scopes.adopt h })

/-- Adds an identifier and binds its name to it in the current frame. -/
def define (s : Store) (i : Identifier) : Handle × Store :=
  let (h, s) := s.push i
  (h, { s with scopes := s.scopes.bind i.surface h })

/-- Adds an undefined name to the global frame of a namespace. -/
def defineGlobal (s : Store) (space name : String) : Handle × Store :=
  let (h, s) := s.push (.name name 0)
  (h, { s with scopes := s.scopes.bindGlobal space name h })

/--
The handle that a name stands for. A plain name is looked up in the visible frames; one with a
namespace in front stands for a member of its global frame. A name that is not bound yet is bound
to a new undefined identifier: in the current frame, or in that global frame.
-/
def resolve (s : Store) (name : String) : Except RuntimeError (Handle × Store) :=
  match qualified? name with
  | some (space, member) =>
    match s.scopes.namespaces.find? space with
    | none => .error (.unknownNamespace space)
    | some _ =>
      match s.scopes.global? space member with
      | some h => .ok (h, s)
      | none => .ok (s.defineGlobal space member)
  | none =>
    match s.scopes.lookup? name with
    | some h => .ok (h, s)
    | none => .ok (s.define (.name name s.depth))

/--
Declares an identifier under its name in the current frame. A name of that frame that was only
mentioned so far keeps its handle. Any other name of that frame cannot be declared again, and the
answer is `none`.
-/
def declare (s : Store) (i : Identifier) : Except RuntimeError (Option (Handle × Store)) :=
  let i := { i with scope := s.depth }
  match s.scopes.currentFrame.names.find? i.surface with
  | none => .ok (some (s.define i))
  | some h =>
    match s.arena.get? h with
    | none => .error (.invalidReference h)
    | some old =>
      if old.isUndefined then .ok (some (h, { s with arena := s.arena.put h.index i }))
      else .ok none

end Store

end WordScript
