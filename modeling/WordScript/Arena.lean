import WordScript.Identifier

/-!
# The arena

Every identifier lives in a slot of the arena and is referred to by a handle. Slots that are freed
are used again before new ones are added, the last one freed first; the generation of a slot tells
handles from before apart. The view of the arena is `get?`: the identifier behind a handle.
-/

namespace WordScript

/-- A place for an identifier, with the number of times that it has been freed. -/
structure Slot where
  content : Identifier
  generation : UInt32
deriving DecidableEq, Repr

/-- The slots in the order in which they were added, and the free ones, the last one freed first. -/
structure Arena where
  slots : Array Slot
  free : List Nat
deriving DecidableEq, Repr

namespace Arena

/-- An arena without identifiers. The slot of index zero is there, and never holds one. -/
def empty : Arena := ⟨#[⟨.invalid, 0⟩], []⟩

/-- The number of slots, used or not. -/
def capacity (a : Arena) : Nat := a.slots.size

/-- The number of identifiers. -/
def live (a : Arena) : Nat := a.slots.size - 1 - a.free.length

/-- The identifier that a handle refers to, unless its slot has been freed since. -/
def get? (a : Arena) (h : Handle) : Option Identifier :=
  match a.slots[h.index]? with
  | some s =>
    if s.generation = h.generation ∧ s.content.role ≠ .invalid then some s.content else none
  | none => none

/-- Whether a handle refers to an identifier. -/
def IsLive (a : Arena) (h : Handle) : Prop := (a.get? h).isSome

/-- Puts an identifier into the slot of an index. -/
def put (a : Arena) (index : Nat) (i : Identifier) : Arena :=
  { a with slots := a.slots.modify index fun s => { s with content := i } }

/-- Adds an identifier, and gives the handle that refers to it. As long as there are fewer than
`2 ^ 32` slots, the index of a new one fits into 32 bits. -/
def push (a : Arena) (i : Identifier) : Handle × Arena :=
  match a.free with
  | [] => (⟨a.slots.size, 0⟩, { a with slots := a.slots.push ⟨i, 0⟩ })
  | index :: free =>
    let generation := match a.slots[index]? with
      | some s => s.generation
      | none => 0
    (⟨index, generation⟩, { a with free }.put index i)

/-- Puts another identifier in the place of the one that a handle refers to. -/
def replace? (a : Arena) (h : Handle) (i : Identifier) : Option Arena :=
  match a.get? h with
  | some _ => some (a.put h.index i)
  | none => none

/-- Overwrites the payload of the identifier that a handle refers to. -/
def setValue? (a : Arena) (h : Handle) (value : Value) : Option Arena :=
  match a.get? h with
  | some i => some (a.put h.index { i with value })
  | none => none

/-- Frees the slot that a handle refers to; the handle then refers to nothing. -/
def destroy? (a : Arena) (h : Handle) : Option Arena :=
  match a.get? h with
  | some _ =>
    some {
      slots := a.slots.modify h.index fun s => ⟨.invalid, s.generation + 1⟩
      free := h.index :: a.free }
  | none => none

/-- Frees what each of the handles refers to, and gives the first one that refers to nothing. -/
def destroyAll (a : Arena) : List Handle → Option Handle × Arena
  | [] => (none, a)
  | h :: hs =>
    match a.destroy? h with
    | some a => a.destroyAll hs
    | none => (some h, (a.destroyAll hs).2)

end Arena

end WordScript
