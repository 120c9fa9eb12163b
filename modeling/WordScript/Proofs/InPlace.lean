import WordScript.Proofs.Balance

/-!
# Changing a store in place

An operation on a store that is refused gives no store. Here names are resolved and declared in
place: frames are opened before anything is looked up in them, each change is made to the store that
the last one left behind, and that store is given also when the operation is refused. It is as it
was then, since a frame that binds a name has been opened before.
-/

namespace WordScript

namespace Scopes

/-- Opens the frames of a namespace up to an index. -/
def openFrame (s : Scopes) (space : String) (index : Nat) : Scopes :=
  s.setFrames space (s.opened space index)

@[simp] theorem frames_openFrame_self (s : Scopes) (space : String) (index : Nat) :
    (s.openFrame space index).frames space = s.opened space index :=
  s.frames_setFrames_self space _

theorem setFrames_setFrames (s : Scopes) (space : String) (fs fs' : List Frame) :
    (s.setFrames space fs).setFrames space fs' = s.setFrames space fs' := by
  simp [setFrames, Bindings.insert_insert]

/-- A frame that is opened once is open. -/
theorem opened_openFrame (s : Scopes) (space : String) (index : Nat) :
    (s.openFrame space index).opened space index = s.opened space index := by
  rw [opened_eq_self, frames_openFrame_self]
  rw [frames_openFrame_self, opened, List.length_append, List.length_replicate]
  omega

/-- A frame is changed in the same way whether it is opened first or not. -/
theorem modifyFrame_openFrame (s : Scopes) (space : String) (index : Nat) (f : Frame → Frame) :
    (s.openFrame space index).modifyFrame space index f = s.modifyFrame space index f := by
  rw [modifyFrame_eq, opened_openFrame, openFrame, setFrames_setFrames, modifyFrame_eq]

/-- What is in a frame is there whether it is opened first or not. -/
theorem frameAt_openFrame_self (s : Scopes) (space : String) (index : Nat) :
    (s.openFrame space index).frameAt space index = s.frameAt space index := by
  rw [frameAt, frames_openFrame_self, opened_getElem?, Option.getD_some]

/-- A namespace with a frame in it is there. -/
theorem find?_of_lt_length {s : Scopes} {space : String} {index : Nat}
    (h : index < (s.frames space).length) : s.namespaces.find? space = some (s.frames space) := by
  unfold frames at h ⊢
  cases hfs : s.namespaces.find? space with
  | none => simp [hfs] at h
  | some fs => rfl

/-- To open a frame that binds a name changes nothing. -/
theorem openFrame_eq_self {s : Scopes} {space name : String} {index : Nat} {h : Handle}
    (hname : (s.frameAt space index).names.find? name = some h) :
    s.openFrame space index = s := by
  have hlt : index < (s.frames space).length := by
    by_contra hge
    rw [frameAt, List.getElem?_eq_none (by omega)] at hname
    cases hname
  rw [openFrame, opened_eq_self hlt, setFrames,
    Bindings.insert_eq_self (find?_of_lt_length hlt)]

/-- Opens the current frame. -/
def openCurrent (s : Scopes) : Scopes :=
  s.openFrame s.place.name s.place.depth

theorem bind_openCurrent (s : Scopes) (name : String) (h : Handle) :
    s.openCurrent.bind name h = s.bind name h :=
  s.modifyFrame_openFrame s.place.name s.place.depth _

theorem currentFrame_openCurrent (s : Scopes) : s.openCurrent.currentFrame = s.currentFrame :=
  s.frameAt_openFrame_self s.place.name s.place.depth

theorem openCurrent_eq_self {s : Scopes} {name : String} {h : Handle}
    (hname : s.currentFrame.names.find? name = some h) : s.openCurrent = s :=
  openFrame_eq_self hname

end Scopes

namespace Store

/-- Finds out what a name stands for, in place. -/
def resolveInPlace (s : Store) (name : String) : Except RuntimeError Handle × Store :=
  match qualified? name with
  | some (space, member) =>
    match s.scopes.namespaces.find? space with
    | none => (.error (.unknownNamespace space), s)
    | some _ =>
      let s := { s with scopes := s.scopes.openFrame space 0 }
      match s.scopes.global? space member with
      | some h => (.ok h, s)
      | none =>
        let (h, s) := s.defineGlobal space member
        (.ok h, s)
  | none =>
    match s.scopes.lookup? name with
    | some h => (.ok h, s)
    | none =>
      let (h, s) := s.push (.name name s.depth)
      let s := { s with scopes := s.scopes.openCurrent }
      (.ok h, { s with scopes := s.scopes.bind name h })

/-- Declares an identifier in place. -/
def declareInPlace (s : Store) (i : Identifier) : Except RuntimeError (Option Handle) × Store :=
  let i := { i with scope := s.depth }
  let s := { s with scopes := s.scopes.openCurrent }
  match s.scopes.currentFrame.names.find? i.surface with
  | none =>
    let (h, s) := s.push i
    (.ok (some h), { s with scopes := s.scopes.bind i.surface h })
  | some h =>
    match s.arena.get? h with
    | none => (.error (.invalidReference h), s)
    | some old =>
      if old.isUndefined then
        match s.arena.replace? h i with
        | some arena => (.ok (some h), { s with arena })
        | none => (.error (.invalidReference h), s)
      else (.ok none, s)

/-- A name is resolved in place as it is resolved otherwise, and when it cannot be, the store is as
it was. -/
theorem resolveInPlace_eq (s : Store) (name : String) :
    s.resolveInPlace name = match s.resolve name with
      | .ok (h, s') => (.ok h, s')
      | .error e => (.error e, s) := by
  unfold resolveInPlace resolve
  cases hq : qualified? name with
  | some p =>
    obtain ⟨space, member⟩ := p
    cases hspace : s.scopes.namespaces.find? space with
    | none => simp only [hspace]
    | some fs =>
      simp only [hspace, Scopes.global?_eq, Scopes.frameAt_openFrame_self]
      cases hglobal : (s.scopes.frameAt space 0).names.find? member with
      | some h => simp only [Scopes.openFrame_eq_self hglobal]
      | none =>
        simp only [defineGlobal, push, Scopes.bindGlobal, Scopes.modifyFrame_openFrame]
  | none =>
    cases hlookup : s.scopes.lookup? name with
    | some h => rfl
    | none => simp only [define, push, depth, Identifier.name, Scopes.bind_openCurrent]

/-- An identifier is declared in place as it is declared otherwise, and when it cannot be, the store
is as it was. -/
theorem declareInPlace_eq (s : Store) (i : Identifier) :
    s.declareInPlace i = match s.declare i with
      | .ok (some (h, s')) => (.ok (some h), s')
      | .ok none => (.ok none, s)
      | .error e => (.error e, s) := by
  unfold declareInPlace declare
  simp only [Scopes.currentFrame_openCurrent]
  cases hname : s.scopes.currentFrame.names.find? i.surface with
  | none => simp only [define, push, Scopes.bind_openCurrent]
  | some h =>
    simp only [Scopes.openCurrent_eq_self hname]
    cases hold : s.arena.get? h with
    | none => rfl
    | some old => cases hundefined : old.isUndefined <;> simp [Arena.replace?, hold, hundefined]

/-- What holds of the store that was there, and of the one where a name is resolved, holds of the one
that is there afterwards. -/
theorem of_resolveInPlace {P : Store → Prop} {s : Store} {name : String} (hs : P s)
    (hresolved : ∀ h s', s.resolve name = .ok (h, s') → P s') : P (s.resolveInPlace name).2 := by
  rw [resolveInPlace_eq]
  rcases hr : s.resolve name with e | ⟨h, s'⟩
  · exact hs
  · exact hresolved h s' hr

theorem of_declareInPlace {P : Store → Prop} {s : Store} {i : Identifier} (hs : P s)
    (hdeclared : ∀ h s', s.declare i = .ok (some (h, s')) → P s') :
    P (s.declareInPlace i).2 := by
  rw [declareInPlace_eq]
  rcases hd : s.declare i with e | _ | ⟨h, s'⟩
  · exact hs
  · exact hs
  · exact hdeclared h s' hd

theorem of_leave {P : Store → Prop} {s : Store} {arrange : List Handle → List Handle} (hs : P s)
    (hleft : ∀ frame scopes, s.scopes.leave? = some (frame, scopes) →
      P ⟨(s.arena.destroyAll (arrange frame.handles)).2, scopes⟩) : P (s.leave arrange).2 := by
  rcases leave_cases arrange s with ⟨-, heq⟩ | ⟨frame, scopes, hl, heq, -⟩
  · rwa [heq]
  · rw [heq]
    exact hleft frame scopes hl

end Store

end WordScript
