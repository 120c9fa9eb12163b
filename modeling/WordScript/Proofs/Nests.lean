import WordScript.Proofs.Coupling
import WordScript.Proofs.Ownership
import WordScript.Proofs.Written

/-!
# Blocks merged into the global frame

A store in which one block is open in front of all others, and the store in which that block is part
of the global frame: its names and its temporary identifiers come under those of the global frame,
and everything in it and below it is one level up. As long as the blocks bind no name that the
global frame binds, names stand for the same in both stores, and identifiers are added to both of
them in the same way.
-/

namespace WordScript

/-! ## One level up -/

/-- The identifier in a frame one level up. -/
def Identifier.lowered (i : Identifier) : Identifier := i.withScope (i.scope - 1)

theorem Identifier.lowered_of_scope {i : Identifier} (hi : i.scope = 0) : i.lowered = i := by
  unfold lowered withScope
  rw [hi, Nat.zero_sub, ← hi]

namespace Arena

/-- The arena with every identifier one level up. -/
def lowered (a : Arena) : Arena :=
  { a with slots := a.slots.map fun s => { s with content := s.content.lowered } }

theorem get?_lowered (a : Arena) (h : Handle) :
    a.lowered.get? h = (a.get? h).map Identifier.lowered := by
  simp only [get?, lowered, Array.getElem?_map]
  cases a.slots[h.index]? with
  | none => rfl
  | some s =>
    have hrole : s.content.lowered.role = s.content.role := rfl
    simp only [Option.map_some, hrole]
    split <;> rfl

theorem isLive_lowered {a : Arena} {h : Handle} : a.lowered.IsLive h ↔ a.IsLive h := by
  simp [IsLive, get?_lowered]

theorem lowered_put (a : Arena) (index : Nat) (i : Identifier) :
    (a.put index i).lowered = a.lowered.put index i.lowered := by
  simp only [lowered, put, Arena.mk.injEq, and_true]
  refine Array.ext_getElem? fun k => ?_
  simp only [Array.getElem?_map, Array.getElem?_modify]
  split <;> cases a.slots[k]? <;> rfl

theorem push_lowered (a : Arena) (i : Identifier) :
    a.lowered.push i.lowered = ((a.push i).1, (a.push i).2.lowered) := by
  unfold push
  cases hfree : a.free with
  | nil => simp [lowered, hfree]
  | cons index free =>
    have hgeneration : a.lowered.slots[index]?.map Slot.generation =
        a.slots[index]?.map Slot.generation := by
      simp only [lowered, Array.getElem?_map, Option.map_map]
      rfl
    rw [lowered_put]
    simp only [lowered, hfree] at hgeneration ⊢
    cases hslot : a.slots[index]? <;> simp [hslot]

theorem pushAll_lowered (a : Arena) {is : List Identifier} (his : ∀ i ∈ is, i.scope = 0) :
    a.lowered.pushAll is = ((a.pushAll is).1, (a.pushAll is).2.lowered) := by
  induction is generalizing a with
  | nil => rfl
  | cons i is ih =>
    have hpush := push_lowered a i
    rw [Identifier.lowered_of_scope (his i (by simp))] at hpush
    rw [pushAll_cons, pushAll_cons, hpush, ih _ fun j hj => his j (List.mem_cons_of_mem i hj)]

theorem destroy?_lowered (a : Arena) (h : Handle) :
    a.lowered.destroy? h = (a.destroy? h).map lowered := by
  simp only [destroy?, get?_lowered]
  cases a.get? h with
  | none => rfl
  | some i =>
    simp only [Option.map_some, lowered, Option.some.injEq, Arena.mk.injEq, and_true]
    refine Array.ext_getElem? fun k => ?_
    simp only [Array.getElem?_map, Array.getElem?_modify]
    split <;> cases a.slots[k]? <;> rfl

theorem destroyAll_lowered (a : Arena) (hs : List Handle) :
    a.lowered.destroyAll hs = ((a.destroyAll hs).1, (a.destroyAll hs).2.lowered) := by
  induction hs generalizing a with
  | nil => rfl
  | cons h hs ih =>
    simp only [destroyAll, destroy?_lowered]
    cases a.destroy? h with
    | none => simp [ih]
    | some b => simp [ih]

end Arena

/-! ## Frames that are joined -/

theorem Bindings.find?_append {α : Type} (bs cs : Bindings α) (name : String) :
    Bindings.find? (bs ++ cs) name = (bs.find? name).or (cs.find? name) := by
  induction bs with
  | nil => simp [Bindings.find?]
  | cons b bs ih =>
    by_cases hkey : b.1 = name
    · simp [Bindings.find?, hkey]
    · simpa [Bindings.find?, hkey] using ih

theorem Bindings.insert_append {α : Type} {bs : Bindings α} {name : String}
    (h : bs.find? name = none) (cs : Bindings α) (value : α) :
    Bindings.insert (bs ++ cs) name value = bs ++ cs.insert name value := by
  induction bs with
  | nil => rfl
  | cons b bs ih =>
    by_cases hkey : b.1 = name
    · simp [Bindings.find?, hkey] at h
    · simp only [Bindings.find?, hkey, if_false] at h
      simp [Bindings.insert, hkey, ih h]

/-- What two frames bind and own, the names of the first one in front. -/
def Frame.join (g f : Frame) : Frame where
  names := g.names ++ f.names
  temporaries := f.temporaries ++ g.temporaries

/-- The frames of a stack, with the first one below the global frame joined to that. -/
def Frame.joined (g : Frame) : List Frame → List Frame
  | [] => [g]
  | f :: fs => g.join f :: fs

namespace Frame

variable {g : Frame} {fs : List Frame}

theorem length_joined (hfs : fs ≠ []) : (g.joined fs).length = fs.length := by
  cases fs with
  | nil => exact absurd rfl hfs
  | cons f fs => rfl

/-- The first frame binds all that the global frame binds. -/
theorem exists_joined (g : Frame) (fs : List Frame) :
    ∃ f fs', g.joined fs = f :: fs' ∧ g.names ⊆ f.names := by
  cases fs with
  | nil => exact ⟨g, [], rfl, fun _ => id⟩
  | cons f fs => exact ⟨g.join f, fs, rfl, List.subset_append_left _ _⟩

theorem joined_append (hfs : fs ≠ []) (fs' : List Frame) :
    g.joined (fs ++ fs') = g.joined fs ++ fs' := by
  cases fs with
  | nil => exact absurd rfl hfs
  | cons f fs => rfl

/-- A change that can be made to a frame before it is joined as well as after. -/
theorem joined_modify (hfs : fs ≠ []) {F : Frame → Frame}
    (hF : ∀ f, F (g.join f) = g.join (F f)) (index : Nat) :
    g.joined (fs.modify index F) = (g.joined fs).modify index F := by
  cases fs with
  | nil => exact absurd rfl hfs
  | cons f fs =>
    cases index with
    | zero => simp [joined, hF]
    | succ index => simp [joined]

theorem joined_dropLast (hfs : 2 ≤ fs.length) : g.joined fs.dropLast = (g.joined fs).dropLast := by
  match fs with
  | f :: f' :: fs => rfl

theorem getLast?_joined (hfs : 2 ≤ fs.length) : (g.joined fs).getLast? = fs.getLast? := by
  match fs with
  | f :: f' :: fs => simp [joined, List.getLast?_cons_cons]

end Frame

/-! ## Nests -/

/-- Identifiers, the global frame, and the frames of the open blocks, the outermost first. -/
structure Nest where
  arena : Arena
  globals : Frame
  blocks : List Frame

namespace Nest

variable {n n' : Nest} {h : Handle} {i : Identifier} {name : String}

/-- The store in which the blocks are open. -/
def inside (n : Nest) : Store where
  arena := n.arena
  scopes :=
    ⟨[("", n.globals :: n.blocks)], ⟨"", n.blocks.length, n.blocks.length + 1⟩⟩

/-- The store in which the outermost block is part of the global frame. -/
def merged (n : Nest) : Store where
  arena := n.arena.lowered
  scopes :=
    ⟨[("", n.globals.joined n.blocks)], ⟨"", n.blocks.length - 1, n.blocks.length⟩⟩

/-- The nest with other identifiers and another innermost frame. -/
def change (n : Nest) (arena : Arena) (F : Frame → Frame) : Nest :=
  { n with arena, blocks := n.blocks.modify (n.blocks.length - 1) F }

/-- A block is open, and none of the open blocks binds a name that the global frame binds. What that
one binds are no variables and no names that are still to be resolved; variables are below it. -/
structure Apart (n : Nest) : Prop where
  tidy : n.arena.Tidy
  inBlock : n.blocks ≠ []
  names : ∀ f ∈ n.blocks, ∀ b ∈ f.names, n.globals.names.find? b.1 = none
  globals : ∀ b ∈ n.globals.names, ∀ i, n.arena.get? b.2 = some i → i.isUndefined = false
  raised : n.arena.All fun i => i.isVariable = true →
    1 ≤ i.scope ∧ n.globals.names.find? i.surface = none

/-- What evaluating may do to a nest: the global frame stays as it is, and what is a name that is
still to be resolved was one before, or is new. -/
structure Evolves (n n' : Nest) : Prop where
  apart : n'.Apart
  globals : n'.globals = n.globals
  depth : n'.blocks.length = n.blocks.length
  kept : ∀ {h i}, n.arena.IsLive h → n'.arena.get? h = some i → i.isUndefined = true →
    n.arena.get? h = some i

theorem Apart.length_pos (hn : n.Apart) : 1 ≤ n.blocks.length :=
  List.length_pos_of_ne_nil hn.inBlock

/-! ### Changing the innermost frame -/

theorem modifyFrame_only {fs : List Frame} {place : Place} {index : Nat}
    (hindex : index < fs.length) (F : Frame → Frame) :
    Scopes.modifyFrame ⟨[("", fs)], place⟩ "" index F = ⟨[("", fs.modify index F)], place⟩ := by
  have hopened : index + 1 - fs.length = 0 := by omega
  simp [Scopes.modifyFrame, Scopes.frames, Scopes.setFrames, Bindings.find?, Bindings.insert,
    hopened]

theorem inside_change (hn : n.Apart) (arena : Arena) (F : Frame → Frame) :
    (n.change arena F).inside = ⟨arena, n.inside.scopes.modifyFrame "" n.blocks.length F⟩ := by
  have hlength := hn.length_pos
  obtain ⟨index, hindex⟩ := Nat.exists_eq_add_of_le' hlength
  simp only [inside, change]
  rw [modifyFrame_only (by simp)]
  simp [hindex]

/-- The change may be made before the outermost block is joined to the global frame or after. -/
theorem merged_change (hn : n.Apart) (arena : Arena) {F : Frame → Frame}
    (hF : ∀ f, F (n.globals.join f) = n.globals.join (F f)) :
    (n.change arena F).merged =
      ⟨arena.lowered, n.merged.scopes.modifyFrame "" (n.blocks.length - 1) F⟩ := by
  have hlength := hn.length_pos
  simp only [merged, change]
  rw [modifyFrame_only (by rw [Frame.length_joined hn.inBlock]; omega),
    Frame.joined_modify hn.inBlock hF]
  simp

/-! ### Looking names up -/

theorem visibleFrames_inside (n : Nest) :
    n.inside.scopes.visibleFrames = (n.globals :: n.blocks).reverse := by
  simp [inside, Scopes.visibleFrames, Scopes.frames, Bindings.find?, List.take_of_length_le]

theorem visibleFrames_merged (hn : n.Apart) :
    n.merged.scopes.visibleFrames = (n.globals.joined n.blocks).reverse := by
  have hlength := Frame.length_joined (g := n.globals) hn.inBlock
  have hpos := hn.length_pos
  simp only [merged, Scopes.visibleFrames, Scopes.frames, Bindings.find?]
  simp [List.take_of_length_le, hlength, Nat.sub_add_cancel hpos]

/-- A name that the global frame binds is not bound in any of the blocks. -/
theorem Apart.find?_eq_none (hn : n.Apart) {f : Frame} (hf : f ∈ n.blocks)
    (hname : n.globals.names.find? name ≠ none) : f.names.find? name = none := by
  cases hfind : f.names.find? name with
  | none => rfl
  | some h => exact absurd (hn.names f hf _ (Bindings.mem_of_find? hfind)) hname

/-- A name stands for the same in both stores. -/
theorem lookup?_merged (hn : n.Apart) (name : String) :
    n.merged.scopes.lookup? name = n.inside.scopes.lookup? name := by
  unfold Scopes.lookup?
  rw [visibleFrames_inside, visibleFrames_merged hn]
  cases hblocks : n.blocks with
  | nil => exact absurd hblocks hn.inBlock
  | cons f fs =>
    have hnone : n.globals.names.find? name ≠ none → f.names.find? name = none :=
      hn.find?_eq_none (by simp [hblocks])
    simp only [Frame.joined, Frame.join, List.reverse_cons, List.findSome?_append,
      List.findSome?_singleton, Bindings.find?_append, Option.or_assoc]
    cases hglobal : n.globals.names.find? name with
    | none => simp
    | some h => simp [hnone (by simp [hglobal])]

/-- In the stores the innermost frame binds the same, but for what the global frame binds. -/
theorem find?_currentFrame (hn : n.Apart) (hname : n.globals.names.find? name = none) :
    n.merged.scopes.currentFrame.names.find? name =
      n.inside.scopes.currentFrame.names.find? name := by
  have hpos := hn.length_pos
  simp only [merged, inside, Scopes.currentFrame, Scopes.frames, Bindings.find?]
  rcases hblocks : n.blocks with _ | ⟨f, _ | ⟨f', fs⟩⟩
  · exact absurd hblocks hn.inBlock
  · simp [Frame.joined, Frame.join, Bindings.find?_append, hname]
  · simp [Frame.joined]

/-! ### Adding and overwriting -/

/-- A variable is below the global frame, and that one does not bind its name. -/
def IsRaised (globals : Frame) (i : Identifier) : Prop :=
  i.isVariable = true → 1 ≤ i.scope ∧ globals.names.find? i.surface = none

theorem Apart.evolves (hn : n.Apart) (hlive : ∀ b ∈ n.globals.names, n.arena.IsLive b.2)
    (hglobals : n'.globals = n.globals) (hdepth : n'.blocks.length = n.blocks.length)
    (htidy : n'.arena.Tidy) (hadds : n.arena.Adds (IsRaised n.globals) n'.arena)
    (hkept : ∀ {h i}, n.arena.IsLive h → n'.arena.get? h = some i → i.isUndefined = true →
      n.arena.get? h = some i)
    (hnames : ∀ f ∈ n'.blocks, ∀ b ∈ f.names, n.globals.names.find? b.1 = none) :
    n.Evolves n' := by
  have hpos := hn.length_pos
  refine ⟨⟨htidy, List.ne_nil_of_length_pos (hdepth ▸ hpos), ?_, ?_, ?_⟩, hglobals, hdepth, hkept⟩
  · rw [hglobals]
    exact hnames
  · intro b hb i hi
    rw [hglobals] at hb
    by_contra hundefined
    rw [Bool.not_eq_false] at hundefined
    have hold := hn.globals b hb i (hkept (hlive b hb) hi hundefined)
    rw [hundefined] at hold
    contradiction
  · rw [hglobals]
    exact Arena.All.of_adds hn.raised hadds

/-- The nest with a new identifier under its name in the innermost frame. -/
def defined (n : Nest) (i : Identifier) : Nest :=
  n.change (n.arena.push i).2 fun f =>
    { f with names := f.names.insert i.surface (n.arena.push i).1 }

/-- The nest with a new temporary identifier in the innermost frame. -/
def adopted (n : Nest) (i : Identifier) : Nest :=
  n.change (n.arena.push i).2 fun f => { f with temporaries := (n.arena.push i).1 :: f.temporaries }

theorem define_inside (hn : n.Apart) (i : Identifier) :
    n.inside.define i = ((n.arena.push i).1, (n.defined i).inside) := by
  rw [defined, inside_change hn]
  rfl

theorem define_merged (hn : n.Apart) (hname : n.globals.names.find? i.surface = none) :
    n.merged.define i.lowered = ((n.arena.push i).1, (n.defined i).merged) := by
  rw [defined, merged_change hn _ fun f => ?_]
  · simp only [Store.define, Store.push, merged, Arena.push_lowered]
    rfl
  · simp only [Frame.join, Bindings.insert_append hname]

theorem pushTemporary_inside (hn : n.Apart) (i : Identifier) :
    n.inside.pushTemporary i = ((n.arena.push i).1, (n.adopted i).inside) := by
  rw [adopted, inside_change hn]
  rfl

theorem pushTemporary_merged (hn : n.Apart) (hi : i.scope = 0) :
    n.merged.pushTemporary i = ((n.arena.push i).1, (n.adopted i).merged) := by
  have hjoin : ∀ f : Frame, (⟨(n.globals.join f).names, (n.arena.push i).1 ::
      (n.globals.join f).temporaries⟩ : Frame) =
      n.globals.join ⟨f.names, (n.arena.push i).1 :: f.temporaries⟩ := fun _ => rfl
  rw [adopted, merged_change hn _ hjoin]
  have hpush := n.arena.push_lowered i
  rw [Identifier.lowered_of_scope hi] at hpush
  simp only [Store.pushTemporary, Store.push, merged, hpush]
  rfl

theorem mem_modify {fs : List Frame} {index : Nat} {F : Frame → Frame} {f : Frame}
    (hf : f ∈ fs.modify index F) : f ∈ fs ∨ ∃ f₀ ∈ fs, f = F f₀ := by
  obtain ⟨k, hk⟩ := List.mem_iff_getElem?.mp hf
  rw [List.getElem?_modify] at hk
  cases hfs : fs[k]? with
  | none => simp [hfs] at hk
  | some f₀ =>
    have hmem := List.mem_of_getElem? hfs
    rw [hfs] at hk
    split at hk
    · exact .inr ⟨f₀, hmem, (Option.some.inj hk).symm⟩
    · exact .inl (Option.some.inj hk ▸ hmem)

theorem evolves_push (hn : n.Apart) (hlive : ∀ b ∈ n.globals.names, n.arena.IsLive b.2)
    (hi : IsRaised n.globals i) {F : Frame → Frame}
    (hF : ∀ f, ∀ b ∈ (F f).names, b ∈ f.names ∨ n.globals.names.find? b.1 = none) :
    n.Evolves (n.change (n.arena.push i).2 F) := by
  refine hn.evolves hlive rfl (List.length_modify _ _ _) (hn.tidy.push i)
    (Arena.adds_push hn.tidy hi) (fun hl hj _ => ?_) fun f hf b hb => ?_
  · rwa [← Arena.get?_push_of_isLive hn.tidy i hl]
  · rcases mem_modify hf with hf | ⟨f₀, hf₀, rfl⟩
    · exact hn.names f hf b hb
    · exact (hF f₀ b hb).elim (hn.names f₀ hf₀ b) id

theorem evolves_adopted (hn : n.Apart) (hlive : ∀ b ∈ n.globals.names, n.arena.IsLive b.2)
    (hi : IsRaised n.globals i) : n.Evolves (n.adopted i) :=
  evolves_push hn hlive hi fun _ _ => .inl

theorem evolves_defined (hn : n.Apart) (hlive : ∀ b ∈ n.globals.names, n.arena.IsLive b.2)
    (hi : IsRaised n.globals i) (hname : n.globals.names.find? i.surface = none) :
    n.Evolves (n.defined i) := by
  refine evolves_push hn hlive hi fun f b hb => ?_
  rcases Bindings.mem_insert hb with hb | ⟨heq, -⟩
  · exact .inl hb
  · exact .inr (heq ▸ hname)

/-- The nest with another identifier behind a handle. -/
def overwritten (n : Nest) (h : Handle) (i : Identifier) : Nest :=
  { n with arena := n.arena.put h.index i }

theorem put_merged (n : Nest) (h : Handle) (i : Identifier) :
    (⟨n.merged.arena.put h.index i.lowered, n.merged.scopes⟩ : Store) =
      (n.overwritten h i).merged := by
  simp only [merged, overwritten, Arena.lowered_put]

theorem evolves_overwritten (hn : n.Apart) (hlive : ∀ b ∈ n.globals.names, n.arena.IsLive b.2)
    (hl : n.arena.IsLive h) (hvariable : i.role = .var) (hi : IsRaised n.globals i) :
    n.Evolves (n.overwritten h i) := by
  refine hn.evolves hlive rfl rfl (hn.tidy.put hl i) (Arena.adds_put hn.tidy hl hi)
    (fun {h' j} _ hj hundefined => ?_) hn.names
  by_cases heq : h' = h
  · rw [heq] at hj
    obtain rfl := Arena.eq_of_get?_put hl hj
    simp [Identifier.isUndefined, hvariable] at hundefined
  · rwa [overwritten, Arena.get?_put_of_ne_handle hn.tidy hl heq] at hj

/-- The nest with the identifiers that a text writes, which no frame holds yet. -/
def supplied (n : Nest) (is : List Identifier) : Nest := { n with arena := (n.arena.pushAll is).2 }

theorem pushAll_merged (n : Nest) {is : List Identifier} (his : ∀ i ∈ is, i.IsWritten) :
    n.merged.arena.pushAll is = ((n.arena.pushAll is).1, (n.supplied is).merged.arena) :=
  n.arena.pushAll_lowered fun i hi => (his i hi).scope

theorem evolves_supplied (hn : n.Apart) (hlive : ∀ b ∈ n.globals.names, n.arena.IsLive b.2)
    {is : List Identifier} (his : ∀ i ∈ is, i.IsWritten) : n.Evolves (n.supplied is) := by
  refine hn.evolves hlive rfl rfl (hn.tidy.pushAll is)
    (Store.adds_pushAll hn.tidy fun i hi hvariable => ?_) (fun hl hj _ => ?_) hn.names
  · rcases (his i hi).role with hrole | hrole <;> simp [Identifier.isVariable, hrole] at hvariable
  · rwa [supplied, Arena.get?_pushAll_of_isLive hn.tidy is hl] at hj

/-! ### Names that are found -/

/-- A name that is not found is not bound in the global frame. -/
theorem find?_globals_of_lookup? (hl : n.inside.scopes.lookup? name = none) :
    n.globals.names.find? name = none := by
  refine List.findSome?_eq_none_iff.mp hl n.globals ?_
  rw [visibleFrames_inside]
  simp

/-- A name that is found is one of the global frame, or is not bound there. -/
theorem mem_globals_of_lookup? (hn : n.Apart) (hl : n.inside.scopes.lookup? name = some h) :
    (name, h) ∈ n.globals.names ∨ n.globals.names.find? name = none := by
  obtain ⟨f, hf, hfind⟩ := List.exists_of_findSome?_eq_some hl
  rw [visibleFrames_inside, List.mem_reverse] at hf
  rcases List.mem_cons.mp hf with rfl | hf
  · exact .inl (Bindings.mem_of_find? hfind)
  · exact .inr (hn.names f hf _ (Bindings.mem_of_find? hfind))

/-! ### Blocks -/

/-- The nest with one more block, which has just been opened. -/
def entered (n : Nest) : Nest := { n with blocks := n.blocks ++ [.empty] }

theorem enter_inside (n : Nest) : n.inside.enter = n.entered.inside := by
  simp [inside, entered, Store.enter, Scopes.enter, Scopes.setFrames, Scopes.frames,
    Bindings.find?, Bindings.insert]

theorem enter_merged (hn : n.Apart) : n.merged.enter = n.entered.merged := by
  have hpos := hn.length_pos
  simp [merged, entered, Store.enter, Scopes.enter, Scopes.setFrames, Scopes.frames,
    Bindings.find?, Bindings.insert, Frame.joined_append hn.inBlock, Nat.sub_add_cancel hpos]

/-- The innermost frame. -/
def innermost (n : Nest) : Frame := n.blocks.getLast?.getD .empty

/-- The nest without its innermost block, all of which has been destroyed. -/
def left (n : Nest) (arrange : List Handle → List Handle) : Nest where
  arena := (n.arena.destroyAll (arrange n.innermost.handles)).2
  globals := n.globals
  blocks := n.blocks.dropLast

/-- How leaving a block ends. -/
def leaves (n : Nest) (arrange : List Handle → List Handle) : Except RuntimeError Unit :=
  match (n.arena.destroyAll (arrange n.innermost.handles)).1 with
  | none => .ok ()
  | some h => .error (.invalidReference h)

theorem leave_inside (hn : n.Apart) (arrange : List Handle → List Handle) :
    n.inside.leave arrange = (n.leaves arrange, (n.left arrange).inside) := by
  have hpos := hn.length_pos
  have hleave : n.inside.scopes.leave? = some (n.innermost, (n.left arrange).inside.scopes) := by
    have hlast : (n.globals :: n.blocks).getLast? = n.blocks.getLast? := by
      cases hblocks : n.blocks with
      | nil => exact absurd hblocks hn.inBlock
      | cons f fs => simp
    have hdrop : (n.globals :: n.blocks).dropLast = n.globals :: n.blocks.dropLast :=
      List.dropLast_cons_of_ne_nil hn.inBlock
    have hdepth : n.blocks.length ≠ 0 := by omega
    simp [inside, left, innermost, Scopes.leave?, Scopes.setFrames, Scopes.frames,
      Bindings.find?, Bindings.insert, hlast, hdrop, hdepth, Nat.sub_add_cancel hpos,
      Nat.max_eq_left hpos]
  simp only [Store.leave, hleave, leaves]
  rcases hdestroyed : n.arena.destroyAll (arrange n.innermost.handles) with ⟨_ | h, arena⟩ <;>
    simp [left, inside, hdestroyed]

theorem leave_merged (hn : 2 ≤ n.blocks.length) (arrange : List Handle → List Handle) :
    n.merged.leave arrange = (n.leaves arrange, (n.left arrange).merged) := by
  have hleave : n.merged.scopes.leave? = some (n.innermost, (n.left arrange).merged.scopes) := by
    have hdepth : n.blocks.length - 1 ≠ 0 := by omega
    have hvisible : max (n.blocks.length - 1) 1 = n.blocks.length - 1 := by omega
    simp [merged, left, innermost, Scopes.leave?, Scopes.setFrames, Scopes.frames,
      Bindings.find?, Bindings.insert, Frame.getLast?_joined hn, Frame.joined_dropLast hn, hdepth,
      hvisible]
  have harena : n.merged.arena = n.arena.lowered := rfl
  simp only [Store.leave, hleave, leaves, harena]
  rw [Arena.destroyAll_lowered]
  rcases hdestroyed : n.arena.destroyAll (arrange n.innermost.handles) with ⟨_ | h, arena⟩ <;>
    simp [left, merged, hdestroyed]

end Nest

end WordScript
