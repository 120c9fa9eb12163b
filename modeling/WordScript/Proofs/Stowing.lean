import WordScript.Proofs.Closure
import WordScript.Proofs.Sequence
import WordScript.Proofs.Trace

/-!
# What is put where

While operations are carried out, names come up and temporary identifiers are made. Each of them is
put in the frame of the innermost open block, and where a module runs, at the global frame of the
namespace that it is loaded into; a name with a namespace in front is put in the global frame of
that one. Leaving a block destroys just what has been put in its frame, and then the frames of all
other blocks are as they were before. That holds for any nesting of blocks and modules, as long as
every block is opened where the current frame is the last one of its namespace.
-/

namespace WordScript

/-- Something that a frame can be given: a name with the handle that it is bound to, or a temporary
identifier. -/
inductive Item where
  | name (name : String) (h : Handle)
  | temporary (h : Handle)

/-- The handle that the frame comes to hold. -/
def Item.handle : Item → Handle
  | .name _ h => h
  | .temporary h => h

/-- The frame with one thing more. -/
def Frame.put (f : Frame) : Item → Frame
  | .name name h => { f with names := f.names.insert name h }
  | .temporary h => { f with temporaries := h :: f.temporaries }

/-- One thing, and the frame that it has been put in: that of an index in a namespace. -/
structure Deposit where
  space : String
  index : Nat
  item : Item

namespace Deposit

/-- It has been put in the frame of that index. -/
abbrev IsAt (d : Deposit) (space : String) (index : Nat) : Prop :=
  d.space = space ∧ d.index = index

/-- What has been put in the frame of an index, the first thing first. -/
def itemsAt (space : String) (index : Nat) (ds : List Deposit) : List Item :=
  (ds.filter fun d => d.IsAt space index).map item

/-- What has been put elsewhere. -/
def elsewhere (space : String) (index : Nat) (ds : List Deposit) : List Deposit :=
  ds.filter fun d => ¬ d.IsAt space index

/-- It has been put in the global frame of a namespace, because a module has been loaded into that
namespace, or because it is a name with that namespace in front. -/
def IsGlobal (Asked : Operation → Store → Prop) (d : Deposit) : Prop :=
  d.index = 0 ∧
    ((∃ path args s, Asked (.loadModule path d.space args) s) ∨
      ∃ name member h, qualified? name = some (d.space, member) ∧ d.item = .name member h)

end Deposit

/-- The index of the frame that a block opens: it comes after all frames of the namespace. -/
def Scopes.nextIndex (s : Scopes) : Nat := (s.frames s.place.name).length

/-- The scopes when something has been put in a frame. -/
def Scopes.deposit (s : Scopes) (d : Deposit) : Scopes :=
  s.modifyFrame d.space d.index (·.put d.item)

/--
How a store changes, and what is put where, while operations are carried out of which `Asked` tells
on which store each of them is asked. What comes up is put in the frame of the given index; that of a
block in the frame that the block opens, and that of a module in the global frame of the namespace
that it is loaded into. The list tells what has been put in frames that have not been left since.
-/
inductive Store.Proceeds (Asked : Operation → Store → Prop) :
    String → Nat → Store → List Deposit → Store → Prop where
  /-- Identifiers are overwritten; none is added or destroyed. -/
  | overwritten {space : String} {index : Nat} {s s' : Store} (hscopes : s'.scopes = s.scopes)
      (hinUse : ∀ h, s'.arena.InUse h ↔ s.arena.InUse h) : Proceeds Asked space index s [] s'
  /-- A text is read, and what is written in it belongs to no frame. -/
  | text {space : String} {index : Nat} {s : Store} {op : Operation} {text : String}
      (hop : op.ReadsText text) (hasked : Asked op s) :
      Proceeds Asked space index s [] { s with arena := (Statement.ofText text s.arena).2 }
  /-- A new name is put in the frame. -/
  | name {space : String} {index : Nat} {s : Store} {d : Deposit} (i : Identifier)
      (hd : d = ⟨space, index, .name i.surface (s.arena.push i).1⟩)
      (hfree : (s.scopes.frameAt space index).names.find? i.surface = none) :
      Proceeds Asked space index s [d] ⟨(s.arena.push i).2, s.scopes.deposit d⟩
  /-- A new temporary identifier is put in the frame. -/
  | temporary {space : String} {index : Nat} {s : Store} {d : Deposit} (i : Identifier)
      (hd : d = ⟨space, index, .temporary (s.arena.push i).1⟩) :
      Proceeds Asked space index s [d] ⟨(s.arena.push i).2, s.scopes.deposit d⟩
  /-- A new name with a namespace in front is put in the global frame of that. -/
  | member {space : String} {index : Nat} {s : Store} {d : Deposit} {name other member : String}
      (hd : d = ⟨other, 0, .name member (s.arena.push (.name member 0)).1⟩)
      (hresolves : s.MayResolve Asked name) (hname : qualified? name = some (other, member))
      (hspace : (s.scopes.namespaces.find? other).isSome)
      (hfree : s.scopes.global? other member = none) :
      Proceeds Asked space index s [d]
        ⟨(s.arena.push (.name member 0)).2, s.scopes.deposit d⟩
  /-- A block is run, and then its frame is left with all that has been put there. -/
  | block {space : String} {index : Nat} {s inside : Store} {op : Operation} {ds : List Deposit}
      {arrange : List Handle → List Handle} (hop : op.OpensBlock) (hasked : Asked op s)
      (hin : s.scopes.AtInnermost) (harrange : ∀ hs, (arrange hs).Perm hs)
      (h : Proceeds Asked s.scopes.place.name s.scopes.nextIndex s.enter ds inside) :
      Proceeds Asked space index s
        (Deposit.elsewhere s.scopes.place.name s.scopes.nextIndex ds) (inside.leave arrange).2
  /-- A module is run at the global frame of a namespace. -/
  | module {space path into : String} {index : Nat} {args : List Expression} {s inside : Store}
      {ds : List Deposit} (hasked : Asked (.loadModule path into args) s)
      (h : Proceeds Asked into 0 { s with scopes := s.scopes.goTo into } ds inside) :
      Proceeds Asked space index s ds
        { inside with scopes := inside.scopes.restore s.scopes.place }
  /-- One thing happens after the other. -/
  | trans {space : String} {index : Nat} {s s' s'' : Store} {ds ds' : List Deposit}
      (h : Proceeds Asked space index s ds s') (h' : Proceeds Asked space index s' ds' s'') :
      Proceeds Asked space index s (ds ++ ds') s''

namespace Deposit

variable {space other : String} {index k : Nat} {ds ds' : List Deposit}

theorem itemsAt_append : itemsAt space index (ds ++ ds') =
    itemsAt space index ds ++ itemsAt space index ds' := by
  simp [itemsAt]

theorem itemsAt_self (d : Deposit) : itemsAt d.space d.index [d] = [d.item] := by
  simp [itemsAt]

theorem itemsAt_of_not_isAt {d : Deposit} (h : ¬ d.IsAt space index) :
    itemsAt space index [d] = [] := by
  simp [itemsAt, h]

theorem itemsAt_elsewhere_self : itemsAt space index (elsewhere space index ds) = [] := by
  simp [itemsAt, elsewhere, List.filter_filter]

theorem itemsAt_elsewhere (h : ¬ (other = space ∧ k = index)) :
    itemsAt other k (elsewhere space index ds) = itemsAt other k ds := by
  rw [itemsAt, elsewhere, List.filter_filter, itemsAt]
  congr 1
  refine List.filter_congr fun d _ => ?_
  simp only [IsAt]
  grind

theorem mem_itemsAt {item : Item} :
    item ∈ itemsAt space index ds ↔ ⟨space, index, item⟩ ∈ ds := by
  simp only [itemsAt, List.mem_map, List.mem_filter, decide_eq_true_eq]
  constructor
  · rintro ⟨d, ⟨hd, rfl, rfl⟩, rfl⟩
    exact hd
  · exact fun hd => ⟨_, ⟨hd, rfl, rfl⟩, rfl⟩

theorem mem_elsewhere {d : Deposit} :
    d ∈ elsewhere space index ds ↔ d ∈ ds ∧ ¬ d.IsAt space index := by
  simp only [elsewhere, List.mem_filter, decide_eq_true_eq]

end Deposit

theorem Frame.mem_of_find?_foldl_put {items : List Item} {f : Frame} {name : String} {h : Handle}
    (hname : (items.foldl Frame.put f).names.find? name = some h) :
    f.names.find? name = some h ∨ .name name h ∈ items := by
  induction items generalizing f with
  | nil => exact .inl hname
  | cons item items ih =>
    rcases ih hname with hput | hmem
    · cases item with
      | temporary k => exact .inl hput
      | name other k =>
        by_cases hother : name = other
        · subst hother
          change (f.names.insert name k).find? name = some h at hput
          rw [Bindings.find?_insert_self] at hput
          obtain rfl := Option.some.inj hput
          exact .inr List.mem_cons_self
        · change (f.names.insert other k).find? name = some h at hput
          rw [Bindings.find?_insert_of_ne hother] at hput
          exact .inl hput
    · exact .inr (List.mem_cons_of_mem _ hmem)

theorem Frame.mem_handles_put {f : Frame} {item : Item} {h : Handle}
    (hh : h ∈ (f.put item).handles) : h ∈ f.handles ∨ h = item.handle := by
  rw [mem_handles] at hh ⊢
  cases item with
  | name name k =>
    rcases hh with ⟨key, hmem⟩ | hmem
    · rcases Bindings.mem_insert hmem with hmem | ⟨-, rfl⟩
      · exact .inl (.inl ⟨key, hmem⟩)
      · exact .inr rfl
    · exact .inl (.inr hmem)
  | temporary k =>
    rcases hh with hmem | hmem
    · exact .inl (.inl hmem)
    · rcases List.mem_cons.mp hmem with rfl | hmem
      · exact .inr rfl
      · exact .inl (.inr hmem)

theorem Frame.mem_handles_foldl_put {items : List Item} {f : Frame} {h : Handle}
    (hh : h ∈ (items.foldl Frame.put f).handles) :
    h ∈ f.handles ∨ ∃ item ∈ items, h = item.handle := by
  induction items generalizing f with
  | nil => exact .inl hh
  | cons item items ih =>
    rcases ih hh with hput | ⟨other, hmem, rfl⟩
    · exact (mem_handles_put hput).imp_right fun heq => ⟨item, List.mem_cons_self, heq⟩
    · exact .inr ⟨other, List.mem_cons_of_mem _ hmem, rfl⟩

namespace Scopes

/-- Every frame holds what it held, and what has been put in it. -/
def Receives (s : Scopes) (ds : List Deposit) (s' : Scopes) : Prop :=
  ∀ space index, s'.frameAt space index =
    (Deposit.itemsAt space index ds).foldl Frame.put (s.frameAt space index)

theorem frameAt_nextIndex (s : Scopes) : s.frameAt s.place.name s.nextIndex = .empty := by
  rw [frameAt, nextIndex, List.getElem?_eq_none (Nat.le_refl _)]
  rfl

theorem Receives.refl (s : Scopes) : s.Receives [] s := fun _ _ => rfl

theorem Receives.trans {s s' s'' : Scopes} {ds ds' : List Deposit} (h : s.Receives ds s')
    (h' : s'.Receives ds' s'') : s.Receives (ds ++ ds') s'' := by
  intro space index
  rw [Deposit.itemsAt_append, List.foldl_append, h' space index, h space index]

theorem receives_deposit (s : Scopes) (d : Deposit) : s.Receives [d] (s.deposit d) := by
  intro space index
  by_cases h : d.IsAt space index
  · obtain ⟨rfl, rfl⟩ := h
    rw [Deposit.itemsAt_self, deposit, frameAt_modifyFrame_self]
    rfl
  · rw [Deposit.itemsAt_of_not_isAt h, deposit, frameAt_modifyFrame_of_ne]
    · rfl
    · rw [not_and_or] at h
      exact h.imp Ne.symm Ne.symm

/-- The frame that a block opens holds nothing but what is put there. -/
theorem Receives.frameAt_nextIndex {s s' : Scopes} {ds : List Deposit}
    (h : s.enter.Receives ds s') : s'.frameAt s.place.name s.nextIndex =
      (Deposit.itemsAt s.place.name s.nextIndex ds).foldl Frame.put .empty := by
  rw [h, frameAt_enter, s.frameAt_nextIndex]

/-- A name that stands for something else in the end has been put in the global frame. -/
theorem Closed.lookup?_of_receives {s s' : Scopes} {ds : List Deposit} (hclosed : s.Closed s')
    (hs : s.Placed) (h : s.Receives ds s') (name : String) :
    s'.lookup? name = s.lookup? name ∨ s.lookup? name = none ∧
      ∃ k, s'.lookup? name = some k ∧ ⟨s.place.name, 0, .name name k⟩ ∈ ds := by
  rcases hclosed.lookup? hs name with hsame | ⟨hnone, hglobal, hfound⟩
  · exact .inl hsame
  · cases hname : s'.global? s.place.name name with
    | none => exact .inl (by rw [hfound, hname, hnone])
    | some k =>
      rw [global?_eq] at hglobal hname
      refine .inr ⟨hnone, k, by rw [hfound, global?_eq, hname], ?_⟩
      rw [h] at hname
      rcases Frame.mem_of_find?_foldl_put hname with hold | hmem
      · rw [hglobal] at hold
        cases hold
      · exact Deposit.mem_itemsAt.mp hmem

section Leaving

variable {s s' s'' : Scopes} {frame : Frame} {ds : List Deposit}

theorem length_frames_of_contained (hs : s.Placed) (hin : s.AtInnermost)
    (h : s.enter.Contained s') : (s'.frames s'.place.name).length = s.nextIndex + 1 := by
  rw [nextIndex, hin, h.atInnermost hs.enter hin.enter, h.balanced.place]
  rfl

/-- What is left is the frame that the block has opened. -/
theorem frame_of_leave? (hs : s.Placed) (hin : s.AtInnermost) (h : s.enter.Contained s')
    (hl : s'.leave? = some (frame, s'')) : frame = s'.frameAt s.place.name s.nextIndex := by
  have hcurrent : s'.currentFrame = s'.frameAt s.place.name s.nextIndex := by
    rw [nextIndex, hin, currentFrame, h.balanced.place]
    rfl
  have hdepth : s'.place.depth ≠ 0 := by
    rw [h.balanced.place]
    exact Nat.succ_ne_zero _
  unfold leave? at hl
  rw [if_neg hdepth, (h.atInnermost hs.enter hin.enter).frames_eq] at hl
  simp only [List.getLast?_concat, Option.getD_some, Option.some.injEq, Prod.mk.injEq] at hl
  rw [← hcurrent, hl.1]

/-- When a block is left, its frame is gone, and all others are as they were at the end of the
block. -/
theorem receives_leave? (hs : s.Placed) (hin : s.AtInnermost) (hcontained : s.enter.Contained s')
    (h : s.enter.Receives ds s') (hl : s'.leave? = some (frame, s'')) :
    s.Receives (Deposit.elsewhere s.place.name s.nextIndex ds) s'' := by
  have hlength := length_frames_of_contained hs hin hcontained
  have hname : s'.place.name = s.place.name := by rw [hcontained.balanced.place]; rfl
  intro space index
  by_cases hframe : space = s.place.name ∧ index = s.nextIndex
  · obtain ⟨rfl, rfl⟩ := hframe
    rw [Deposit.itemsAt_elsewhere_self, frameAt_nextIndex, ← hname,
      frameAt_leave?_last hl hlength.symm]
    rfl
  · have hkept : s''.frameAt space index = s'.frameAt space index := by
      refine frameAt_leave? hl ?_
      rw [hlength, hname]
      exact (not_and_or.mp hframe).imp_right fun hne heq => hne (Nat.succ.inj heq)
    rw [Deposit.itemsAt_elsewhere hframe, hkept, h space index, frameAt_enter]

end Leaving

end Scopes

namespace Store.Proceeds

variable {Asked : Operation → Store → Prop} {space : String} {index : Nat} {s s' : Store}
variable {ds : List Deposit}

/-- Whatever is put in another frame than that of the index is put in a global one, for a module or
for a name with a namespace in front. -/
theorem isAt_or_isGlobal (h : s.Proceeds Asked space index ds s') :
    ∀ d ∈ ds, d.IsAt space index ∨ d.IsGlobal Asked := by
  induction h with
  | overwritten | text => exact fun _ hd => absurd hd List.not_mem_nil
  | name i hd hfree =>
    subst hd
    exact List.forall_mem_singleton.mpr (.inl ⟨rfl, rfl⟩)
  | temporary i hd =>
    subst hd
    exact List.forall_mem_singleton.mpr (.inl ⟨rfl, rfl⟩)
  | member hd hresolves hname hspace hfree =>
    subst hd
    exact List.forall_mem_singleton.mpr (.inr ⟨rfl, .inr ⟨_, _, _, hname, rfl⟩⟩)
  | block hop hasked hin harrange h ih =>
    intro d hd
    obtain ⟨hmem, hother⟩ := Deposit.mem_elsewhere.mp hd
    exact .inr ((ih d hmem).resolve_left hother)
  | module hasked h ih =>
    intro d hd
    rcases ih d hd with ⟨rfl, hindex⟩ | hglobal
    · exact .inr ⟨hindex, .inl ⟨_, _, _, hasked⟩⟩
    · exact .inr hglobal
  | trans h h' ih ih' =>
    intro d hd
    rcases List.mem_append.mp hd with hd | hd
    · exact ih d hd
    · exact ih' d hd

/-- Where the frame of the index is the current one, it and the global frames hold what has been put
there, and all others are as before. -/
theorem contained_receives (h : s.Proceeds Asked space index ds s') (hs : s.scopes.Placed)
    (hspace : space = s.scopes.place.name) (hindex : index = s.scopes.place.depth) :
    s.scopes.Contained s'.scopes ∧ s.scopes.Receives ds s'.scopes := by
  induction h with
  | overwritten hscopes hinUse =>
    rw [hscopes]
    exact ⟨.refl _, .refl _⟩
  | text hop hasked => exact ⟨.refl _, .refl _⟩
  | name i hd hfree =>
    subst hd hspace hindex
    exact ⟨Scopes.contained_modifyFrame (hs.balanced_current _) (.inr ⟨rfl, rfl⟩)
      (Frame.extends_bind hfree _), Scopes.receives_deposit _ _⟩
  | temporary i hd =>
    subst hd hspace hindex
    exact ⟨Scopes.contained_modifyFrame (hs.balanced_current _) (.inr ⟨rfl, rfl⟩)
      (Frame.extends_adopt _ _), Scopes.receives_deposit _ _⟩
  | member hd hresolves hname hthere hfree =>
    subst hd
    obtain ⟨fs, hfs⟩ := Option.isSome_iff_exists.mp hthere
    rw [Scopes.global?_eq] at hfree
    exact ⟨Scopes.contained_modifyFrame
      (Scopes.balanced_modifyFrame hfs (List.length_pos_iff.mpr (hs.nonempty hfs)) _) (.inl rfl)
      (Frame.extends_bind hfree _), Scopes.receives_deposit _ _⟩
  | @block space index s inside op ds arrange hop hasked hin harrange h ih =>
    obtain ⟨hcontained, hreceives⟩ := ih hs.enter rfl hin
    have hdepth : inside.scopes.place.depth = s.scopes.place.depth + 1 := by
      rw [hcontained.balanced.place]
      rfl
    rcases leave_cases arrange inside with ⟨hzero, -⟩ | ⟨frame, scopes, hl, heq, -⟩
    · omega
    · rw [heq]
      exact ⟨(Scopes.closed_leave? hs hin hcontained hl).contained,
        Scopes.receives_leave? hs hin hcontained hreceives hl⟩
  | module hasked h ih =>
    obtain ⟨hcontained, hreceives⟩ := ih (hs.goTo _) rfl rfl
    refine ⟨Scopes.contained_restore hcontained, fun other k => ?_⟩
    have hframe := hreceives other k
    rw [Scopes.frameAt_goTo] at hframe
    exact hframe
  | trans h h' ih ih' =>
    obtain ⟨hcontained, hreceives⟩ := ih hs hspace hindex
    have hplace := hcontained.balanced.place
    obtain ⟨hcontained', hreceives'⟩ := ih' (hs.of_balanced hcontained.balanced)
      (by rw [hplace, hspace]) (by rw [hplace, hindex])
    exact ⟨hcontained.trans hcontained', hreceives.trans hreceives'⟩

end Store.Proceeds

namespace Store

variable {Asked : Operation → Store → Prop} {s s' s'' : Store} {ds ds' : List Deposit}

/-- Nothing has been destroyed that was in use, and what has been put in frames is new. -/
structure Spares (s : Store) (ds : List Deposit) (s' : Store) : Prop where
  inUse : ∀ {h}, s.arena.InUse h → s'.arena.InUse h
  new : ∀ d ∈ ds, ¬ s.arena.InUse d.item.handle

/-- What comes up has been put in frames, each thing where it belongs, and nothing else has happened
to the frames. -/
structure Stows (Asked : Operation → Store → Prop) (space : String) (index : Nat) (s : Store)
    (ds : List Deposit) (s' : Store) : Prop where
  /-- Step by step. -/
  proceeds : s.Proceeds Asked space index ds s'
  /-- Everything is in the frame of the index, or in a global frame for a module or for a name with
  a namespace in front. -/
  isAt_or_isGlobal : ∀ d ∈ ds, d.IsAt space index ∨ d.IsGlobal Asked
  /-- Every frame holds what it held, and what has been put there. -/
  receives : s.scopes.Receives ds s'.scopes
  /-- What has been put there is new, and nothing is gone that was there before. -/
  spares : s.Spares ds s'
  /-- Execution is where it was, among as many frames. -/
  balanced : s.scopes.Balanced s'.scopes

/-- A block has run and has been left: `inside` is the store at the end of the block, while its frame
is still there, and `after` is the store when it has been left. -/
structure BlockCloses (Asked : Operation → Store → Prop) (before inside after : Store)
    (ds : List Deposit) : Prop where
  /-- What has come up in the block is in the frame that the block has opened, or in a global frame
  for a module or for a name with a namespace in front. -/
  stows : before.enter.Stows Asked before.scopes.place.name before.scopes.nextIndex ds inside
  /-- The frame of the block holds just what has been put there. -/
  holds : inside.scopes.frameAt before.scopes.place.name before.scopes.nextIndex =
    (Deposit.itemsAt before.scopes.place.name before.scopes.nextIndex ds).foldl Frame.put .empty
  /-- Just that is destroyed. -/
  destroyed : ∀ h, after.arena.get? h =
    if h ∈ (inside.scopes.frameAt before.scopes.place.name before.scopes.nextIndex).handles then none
    else inside.arena.get? h
  /-- All other frames are as before the block, but for what has been put in global ones. -/
  receives : before.scopes.Receives
    (Deposit.elsewhere before.scopes.place.name before.scopes.nextIndex ds) after.scopes
  balanced : before.scopes.Balanced after.scopes
  /-- Nothing is gone that was there before the block. -/
  spared : ∀ {h}, before.arena.InUse h → after.arena.InUse h
  /-- A name stands for what it stood for; or it stood for nothing, and now it stands for something
  that has been put in the global frame of the namespace. -/
  names : ∀ name, after.scopes.lookup? name = before.scopes.lookup? name ∨
    before.scopes.lookup? name = none ∧ ∃ h, after.scopes.lookup? name = some h ∧
      ⟨before.scopes.place.name, 0, .name name h⟩ ∈ ds

theorem Proceeds.stows (hs : s.scopes.Placed)
    (h : s.Proceeds Asked s.scopes.place.name s.scopes.place.depth ds s') (hspares : s.Spares ds s') :
    s.Stows Asked s.scopes.place.name s.scopes.place.depth ds s' := by
  obtain ⟨hcontained, hreceives⟩ := h.contained_receives hs rfl rfl
  exact ⟨h, h.isAt_or_isGlobal, hreceives, hspares, hcontained.balanced⟩

theorem spares_nil (h : ∀ {k}, s.arena.InUse k → s'.arena.InUse k) : s.Spares [] s' :=
  ⟨h, fun _ hd => absurd hd List.not_mem_nil⟩

theorem Spares.trans (h : s.Spares ds s') (h' : s'.Spares ds' s'') : s.Spares (ds ++ ds') s'' where
  inUse := fun hu => h'.inUse (h.inUse hu)
  new := by
    intro d hd hu
    rcases List.mem_append.mp hd with hd | hd
    · exact h.new d hd hu
    · exact h'.new d hd (h.inUse hu)

theorem spares_push (ha : s.arena.Tidy) (i : Identifier) (scopes : Scopes) {d : Deposit}
    (hd : d.item.handle = (s.arena.push i).1) : s.Spares [d] ⟨(s.arena.push i).2, scopes⟩ where
  inUse := fun hu => (Arena.inUse_push ha i).mpr (.inr hu)
  new := List.forall_mem_singleton.mpr (by rw [hd]; exact Arena.not_inUse_push ha i)

/-- What is in use before a block is not in its frame, and so it is not destroyed with that. -/
theorem Spares.inUse_destroyAll {inside : Store} {hs : List Handle} (h : s.enter.Spares ds inside)
    (hinside : inside.Sound) (hmem : ∀ k ∈ hs, ∃ d ∈ ds, k = d.item.handle) {k : Handle}
    (hu : s.arena.InUse k) : (inside.arena.destroyAll hs).2.InUse k := by
  refine (Arena.inUse_destroyAll hinside.tidy _).mpr ⟨h.inUse hu, fun hdestroyed => ?_⟩
  obtain ⟨d, hd, rfl⟩ := hmem k hdestroyed.1
  exact h.new d hd hu

/-- Whatever proceeds from the start of a block, the block closes when it is left. -/
theorem blockCloses {inside : Store} {arrange : List Handle → List Handle}
    (harrange : ∀ hs, (arrange hs).Perm hs) (hs : s.scopes.Placed) (hin : s.scopes.AtInnermost)
    (h : s.enter.Proceeds Asked s.scopes.place.name s.scopes.nextIndex ds inside)
    (hspares : s.enter.Spares ds inside) (hinside : inside.Sound) :
    s.BlockCloses Asked inside (inside.leave arrange).2 ds := by
  obtain ⟨hcontained, hreceives⟩ := h.contained_receives hs.enter rfl hin
  have hdepth : inside.scopes.place.depth = s.scopes.place.depth + 1 := by
    rw [hcontained.balanced.place]
    rfl
  have hholds := hreceives.frameAt_nextIndex
  rcases leave_cases arrange inside with ⟨hzero, -⟩ | ⟨frame, scopes, hl, heq, -⟩
  · omega
  obtain rfl : frame = inside.scopes.frameAt s.scopes.place.name s.scopes.nextIndex :=
    Scopes.frame_of_leave? hs hin hcontained hl
  have hclosed : s.scopes.Closed scopes := Scopes.closed_leave? hs hin hcontained hl
  have hleft : s.scopes.Receives (Deposit.elsewhere s.scopes.place.name s.scopes.nextIndex ds)
      scopes := Scopes.receives_leave? hs hin hcontained hreceives hl
  rw [heq]
  refine ⟨⟨h, h.isAt_or_isGlobal, hreceives, hspares, hcontained.balanced⟩, hholds, fun k => ?_,
    hleft, hclosed.balanced, hspares.inUse_destroyAll hinside fun k hk => ?_, fun name => ?_⟩
  · rw [Arena.get?_destroyAll hinside.tidy]
    simp only [(harrange _).mem_iff]
  · rw [(harrange _).mem_iff, hholds] at hk
    rcases Frame.mem_handles_foldl_put hk with hnil | ⟨item, hitem, rfl⟩
    · simp at hnil
    · exact ⟨_, Deposit.mem_itemsAt.mp hitem, rfl⟩
  · rcases hclosed.lookup?_of_receives hs hleft name with hsame | ⟨hnone, k, hk, hmem⟩
    · exact .inl hsame
    · exact .inr ⟨hnone, k, hk, (Deposit.mem_elsewhere.mp hmem).1⟩

/-! ## Operations on the store -/

theorem proceeds_resolve (hs : s.Sound) {name : String} {h : Handle}
    (hresolves : s.MayResolve Asked name) (hr : s.resolve name = .ok (h, s')) :
    ∃ ds, s.Proceeds Asked s.scopes.place.name s.scopes.place.depth ds s' ∧ s.Spares ds s' := by
  rcases resolve_cases hr with
    ⟨rfl, -⟩ | ⟨space, member, hname, hspace, hglobal, heq⟩ | ⟨-, hlookup, heq⟩
  · exact ⟨[], .overwritten rfl fun _ => .rfl, spares_nil fun hu => hu⟩
  · obtain ⟨-, rfl⟩ := Prod.mk.inj heq
    exact ⟨_, .member rfl hresolves hname hspace hglobal, spares_push hs.tidy _ _ rfl⟩
  · obtain ⟨-, rfl⟩ := Prod.mk.inj heq
    exact ⟨_, .name (.name name s.depth) rfl
      (Scopes.find?_currentFrame_of_lookup? hs.visible hlookup), spares_push hs.tidy _ _ rfl⟩

theorem proceeds_declare (hs : s.Sound) {i : Identifier} {h : Handle}
    (hd : s.declare i = .ok (some (h, s'))) :
    ∃ ds, s.Proceeds Asked s.scopes.place.name s.scopes.place.depth ds s' ∧ s.Spares ds s' := by
  rcases declare_cases hd with ⟨hname, heq⟩ | ⟨old, -, -, -, rfl⟩
  · obtain ⟨-, rfl⟩ := Prod.mk.inj heq
    exact ⟨_, .name { i with scope := s.depth } rfl hname, spares_push hs.tidy _ _ rfl⟩
  · exact ⟨[], .overwritten rfl fun _ => Arena.inUse_put, spares_nil fun hu => Arena.inUse_put.mpr hu⟩

end Store

namespace Contract

/-- An operation is asked on the store, and if it opens a block, then in the last frame of the current
namespace. -/
def asksInnermost (Asked : Operation → Store → Prop) (op : Operation) (s : Store) : Prop :=
  Asked op s ∧ (op.OpensBlock → s.scopes.AtInnermost)

/-- What comes up while an operation is carried out is put in frames. -/
def accounts (Asked : Operation → Store → Prop) (s s' : Store) : Prop :=
  s.scopes.Balanced s'.scopes ∧
    ∃ ds, s.Proceeds Asked s.scopes.place.name s.scopes.place.depth ds s' ∧ s.Spares ds s'

/-- What comes up while a block is run, and is not gone with its frame, is put in global frames. -/
def accountsGlobally (Asked : Operation → Store → Prop) (s s' : Store) : Prop :=
  s.scopes.Balanced s'.scopes ∧
    ∃ ds, s.Proceeds Asked s.scopes.place.name s.scopes.place.depth ds s' ∧ s.Spares ds s' ∧
      ∀ d ∈ ds, d.IsGlobal Asked

variable {Asked : Operation → Store → Prop} {s s' : Store}

theorem accounts_overwritten (hscopes : s'.scopes = s.scopes)
    (hinUse : ∀ h, s'.arena.InUse h ↔ s.arena.InUse h) : accounts Asked s s' := by
  refine ⟨?_, [], .overwritten hscopes hinUse, Store.spares_nil (hinUse _).mpr⟩
  rw [hscopes]
  exact .refl _

theorem accounts_leave {arrange : List Handle → List Handle}
    (harrange : ∀ hs, (arrange hs).Perm hs) (hs : s.scopes.Placed)
    (hopens : ∃ op : Operation, op.OpensBlock ∧ asksInnermost Asked op s)
    (h : accounts Asked s.enter s') (hs' : s'.Sound) :
    accountsGlobally Asked s (s'.leave arrange).2 := by
  obtain ⟨op, hop, hasked, hin⟩ := hopens
  obtain ⟨-, ds, h, hspares⟩ := h
  have hopened : s.enter.scopes.place.depth = s.scopes.nextIndex := (hin hop).symm
  rw [hopened] at h
  have hcloses := Store.blockCloses harrange hs (hin hop) h hspares hs'
  refine ⟨hcloses.balanced, _, .block hop hasked (hin hop) harrange h, ⟨hcloses.spared, ?_⟩, ?_⟩
  · exact fun d hd => hspares.new d (Deposit.mem_elsewhere.mp hd).1
  · intro d hd
    obtain ⟨hmem, hother⟩ := Deposit.mem_elsewhere.mp hd
    exact (hcloses.stows.isAt_or_isGlobal d hmem).resolve_left hother

/-- What comes up is accounted for as long as blocks are opened in the last frame of their namespace,
whatever identifiers the host stores. -/
theorem kept_accounts (Asked : Operation → Store → Prop) :
    Kept (fun s => s.Sound ∧ s.scopes.Placed) (accounts Asked) (accountsGlobally Asked)
      (asksInnermost Asked) (fun _ => True) where
  refl := fun _ => accounts_overwritten rfl fun _ => .rfl
  trans := by
    rintro s s' s'' ⟨hbalanced, ds, h, hspares⟩ ⟨hbalanced', ds', h', hspares'⟩
    rw [hbalanced.place] at h'
    exact ⟨hbalanced.trans hbalanced', _, h.trans h', hspares.trans hspares'⟩
  blocks := by
    rintro s s' ⟨hbalanced, ds, h, hspares, -⟩
    exact ⟨hbalanced, ds, h, hspares⟩
  literal := fun _ => trivial
  declared := fun _ _ => trivial
  read := fun text hop hasked hs => ⟨⟨hs.1.ofText text, hs.2⟩, .refl _, [], .text hop hasked.1,
    Store.spares_nil fun hu => Statement.inUse_ofText hs.1.tidy text hu⟩
  resolve := by
    intro s s' name h hs hresolves hr
    have hbalanced := Store.balanced_resolve hs.2 hr
    exact ⟨⟨hs.1.resolve hr, hs.2.of_balanced hbalanced⟩, hbalanced,
      Store.proceeds_resolve hs.1 (hresolves.imp_right And.left) hr⟩
  declare := by
    intro s s' i h hs _ hd
    have hbalanced := Store.balanced_declare hs.2 hd
    exact ⟨⟨hs.1.declare hd, hs.2.of_balanced hbalanced⟩, hbalanced,
      Store.proceeds_declare hs.1 hd⟩
  push := by
    intro s i hs _
    have hbalanced : s.scopes.Balanced (s.pushTemporary i).2.scopes := hs.2.balanced_current _
    exact ⟨⟨hs.1.pushTemporary i, hs.2.of_balanced hbalanced⟩, hbalanced, _, .temporary i rfl,
      Store.spares_push hs.1.tidy _ _ rfl⟩
  setValue := fun hs hi _ => ⟨⟨hs.1.put hi rfl rfl, hs.2⟩,
    accounts_overwritten rfl fun _ => Arena.inUse_put⟩
  enter := fun hs _ => ⟨hs.1.enter, hs.2.enter⟩
  leave := by
    intro s s' arrange harrange hs hopens h hs'
    have haccounts := accounts_leave harrange hs.2 hopens h hs'.1
    exact ⟨⟨hs'.1.leave harrange, hs.2.of_balanced haccounts.1⟩, haccounts⟩
  goTo := fun space hs => ⟨hs.1.goTo space, hs.2.goTo space⟩
  restore := by
    rintro s s' path space args hs ⟨hasked, -⟩ ⟨hbalanced, ds, h, hspares⟩ hs'
    have hbalanced' := Scopes.balanced_restore hbalanced
    exact ⟨⟨hs'.1.restore hs.1.visible, hs.2.of_balanced hbalanced'⟩, hbalanced', ds,
      .module hasked h, hspares.inUse, hspares.new⟩

/-- The contract of what runs where blocks are opened in the last frame of their namespace. -/
abbrev accounting (Asked : Operation → Store → Prop) : Contract :=
  uniform (fun s => s.Sound ∧ s.scopes.Placed) (accounts Asked) (accountsGlobally Asked)
    (asksInnermost Asked) (fun _ => True)

end Contract

/-- While an operation is carried out, an operation is asked on the store: the operation itself, or
one that it is made of. -/
def AskedDuring (host : Host) (steps : Nat) (op : Operation) (m : Machine) (op' : Operation)
    (s : Store) : Prop :=
  ∃ steps' m', During host steps op m steps' op' m' ∧ m'.store = s

/-- However the block or the condition of an operation comes to its end, with a value or an error, it
closes when its frame is left. -/
def Evaluation.ClosesBlock (host : Host) (steps : Nat) (m : Machine) (op : Operation) : Prop :=
  let Closes (m' : Machine) : Prop := ∃ ds, m.store.BlockCloses
    (AskedDuring host (steps + 1) op m) m'.store (m'.store.leave (host.arrange m'.blocksLeft)).2 ds
  match op with
  | .runBlock body =>
    (runAll (perform host steps) body none { m with store := m.store.enter }).EndsIn Closes
  | .decide condition =>
    (holds (perform host steps) condition { m with store := m.store.enter }).EndsIn Closes
  | _ => True

/-- In every state that is reached, whatever the host does, and for every operation that opens
blocks, if at all, only where the current frame is the last one of its namespace: each name and each
temporary identifier that comes up is put in the frame of the innermost open block, or in a global
frame, for a module that is loaded there or for a name with the namespace in front. And every block
that the operation runs closes: just what has been put in its frame is destroyed, and all other
frames of open blocks are as they were before. -/
theorem blocks_closed {host : Host} {m : Machine} (hm : Reached host (fun _ => True) m)
    {steps : Nat} {op : Operation}
    (hopens : ∀ steps' op' m', During host (steps + 1) op m steps' op' m' → op'.OpensBlock →
      m'.store.scopes.AtInnermost) :
    (perform host (steps + 1) op m).EndsIn (fun m' => ∃ ds,
      m.store.Stows (AskedDuring host (steps + 1) op m) m.store.scopes.place.name
        m.store.scopes.place.depth ds m'.store ∧
      (op.OpensBlock → ∀ d ∈ ds, d.IsGlobal (AskedDuring host (steps + 1) op m))) ∧
    Evaluation.ClosesBlock host steps m op := by
  let C := Contract.accounting (AskedDuring host (steps + 1) op m)
  have hK := Contract.kept_accounts (AskedDuring host (steps + 1) op m)
  have hC : C.Upheld host := hK.upheld host.asksOnly_stores_true
  have hwithin : C.PermitsWithin host (steps + 1) op m := fun steps' op' m' h =>
    ⟨⟨steps', m', h, rfl⟩, hopens steps' op' m' h⟩
  have hself := hC.agree_within steps
  have hinv : m.store.Sound ∧ m.store.scopes.Placed := ⟨hm.sound, hm.placed⟩
  refine ⟨?_, ?_⟩
  · have hmeets := hC.perform_meets hinv (Contract.admits_uniform op.stores_true) hwithin
    refine hmeets.endsIn fun m' _ heffect => ?_
    cases op with
    | runBlock | decide =>
      obtain ⟨-, ds, h, hspares, hglobal⟩ := heffect
      exact ⟨ds, h.stows hm.placed hspares, fun _ => hglobal⟩
    | _ =>
      obtain ⟨-, ds, h, hspares⟩ := heffect
      exact ⟨ds, h.stows hm.placed hspares, fun hblock => hblock.elim⟩
  · -- the block is what runs in the frame, before that is left
    have hcloses : ∀ {m' : Machine}, m.store.scopes.AtInnermost →
        Contract.accounts (AskedDuring host (steps + 1) op m) m.store.enter m'.store →
        m'.store.Sound → ∃ ds, m.store.BlockCloses (AskedDuring host (steps + 1) op m) m'.store
          (m'.store.leave (host.arrange m'.blocksLeft)).2 ds := by
      rintro m' hin ⟨-, ds, h, hspares⟩ hs'
      have hopened : m.store.enter.scopes.place.depth = m.store.scopes.nextIndex := hin.symm
      rw [hopened] at h
      exact ⟨ds, Store.blockCloses (host.arrange_perm _) hm.placed hin h hspares hs'⟩
    let entered : Machine := { m with store := m.store.enter }
    have hentered : C.Inv entered.store := ⟨hm.sound.enter, hm.placed.enter⟩
    cases op with
    | runBlock body =>
      have hmeets := Contract.meets_inFrame (Evaluation.sequential_runAll body none) hwithin
        (fun _ => Evaluation.inFrame_eq_cutOff_iff)
        (hC.keeps_runAll hself body none hentered fun _ _ => trivial).meets
      exact hmeets.endsIn fun m' hm' h => hcloses (hopens _ _ _ .here trivial) h hm'.1
    | decide condition =>
      have hmeets := Contract.meets_inFrame (Evaluation.sequential_holds condition) hwithin
        (fun _ => Evaluation.inFrame_eq_cutOff_iff)
        (hC.keeps_holds hself hentered fun _ _ => trivial).meets
      exact hmeets.endsIn fun m' hm' h => hcloses (hopens _ _ _ .here trivial) h hm'.1
    | _ => trivial

set_option maxRecDepth 100000 in
/-- A block of a program declares a variable, makes a temporary identifier for a sum, and loads a
module into its own namespace: `x`, the bare words and the sum are put in the frame of the block,
which closes, and the constant of the module in the global frame. -/
theorem blocks_closed_include :
    let host := Extension.Registry.host .constantModule
    let text := "decas x :: int\nx = 1 + 2\ninclude m as \"\"\n"
    ∃ s m inside, perform host 1 (.readText text) (.initial {}) = .value (.ok s) m ∧
      Evaluation.runAll (perform host 6) s.body none { m with store := m.store.enter } =
        .value () inside ∧
      ((perform host 7 (.runBlock s.body) m).EndsIn (fun m' => ∃ ds,
          m.store.Stows (AskedDuring host 7 (.runBlock s.body) m) m.store.scopes.place.name
            m.store.scopes.place.depth ds m'.store ∧
          ((Operation.runBlock s.body).OpensBlock →
            ∀ d ∈ ds, d.IsGlobal (AskedDuring host 7 (.runBlock s.body) m))) ∧
        Evaluation.ClosesBlock host 6 m (.runBlock s.body)) ∧
      (inside.store.scopes.frameAt "" 1).names.map Prod.fst = ["x", "as", "m"] ∧
      (inside.store.scopes.frameAt "" 1).temporaries.length = 1 ∧
      m.store.scopes.global? "" "y" = none ∧ (inside.store.scopes.global? "" "y").isSome := by
  intro host text
  let test : Operation → Machine → Bool := fun op m =>
    decide (op.OpensBlock → m.store.scopes.AtInnermost)
  have hrun : (perform host 1 (.readText text) (.initial {})).test (fun result m =>
      result.toOption.any fun s =>
        decide (m.store.scopes.global? "" "y" = none) &&
        (Evaluation.watched host test 7 (.runBlock s.body) m).test (fun _ _ => true) &&
        (Evaluation.runAll (perform host 6) s.body none { m with store := m.store.enter }).test
          fun _ inside =>
            decide ((inside.store.scopes.frameAt "" 1).names.map Prod.fst = ["x", "as", "m"] ∧
              (inside.store.scopes.frameAt "" 1).temporaries.length = 1 ∧
              (inside.store.scopes.global? "" "y").isSome)) = true := by
    decide +kernel
  obtain ⟨result, m, hread, hrun⟩ := Outcome.exists_of_test hrun
  obtain ⟨s, rfl, hrun⟩ := Except.exists_of_any_toOption hrun
  obtain ⟨hrun, hbody⟩ := Bool.and_eq_true_iff.mp hrun
  obtain ⟨hnone, hwatched⟩ := Bool.and_eq_true_iff.mp hrun
  obtain ⟨_, inside, hbody, hholds⟩ := Outcome.exists_of_test hbody
  obtain ⟨_, _, hwatched, -⟩ := Outcome.exists_of_test hwatched
  obtain ⟨hnames, htemporaries, hsome⟩ := of_decide_eq_true hholds
  refine ⟨s, m, inside, hread, hbody, ?_, hnames, htemporaries, of_decide_eq_true hnone, hsome⟩
  refine blocks_closed (.value (.initial {}) trivial .here hread) fun steps' op' m' h hblock => ?_
  have hends : Evaluation.watched host test 7 (.runBlock s.body) m ≠ .cutOff := by
    rw [hwatched]
    nofun
  exact of_decide_eq_true (Evaluation.test_of_during hends h) hblock

set_option maxRecDepth 100000 in
/-- A block that loads that module into its own namespace leaves a name bound: `y` stands for nothing
before the block, and for something after it. -/
theorem include_in_block_binds :
    (match perform (Extension.Registry.host .constantModule) 1 (.readText "include m as \"\"\n")
        (.initial {}) with
      | .value (.ok s) m =>
        match perform (Extension.Registry.host .constantModule) 40 (.runBlock s.body) m with
        | .value _ m' => some ((m.store.scopes.lookup? "y").isSome,
            (m'.store.scopes.lookup? "y").isSome)
        | _ => none
      | _ => none) = some (false, true) := by
  decide +kernel

end WordScript
