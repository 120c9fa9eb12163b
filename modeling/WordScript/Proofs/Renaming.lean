import Mathlib.Logic.Relator
import WordScript.Proofs.Liveness

/-!
# Renamed handles

Two stores that have gone through the same hold the same identifiers under other handles. A pairing
says which handle of the one stands for which handle of the other: it takes the frames of one store
to those of the other, and it pairs each live handle with exactly one, but for the handles that only
one of the stores has given out. Every operation that is done to both stores keeps them alike, with
a pair more for what it adds, and fewer pairs for what it destroys.
-/

namespace WordScript

/-- Which handles of one store stand for which handles of another. -/
abbrev Pairs : Type := Handle → Handle → Prop

/-- One pair more. -/
def Pairs.add (ρ : Pairs) (h k : Handle) : Pairs :=
  fun h' k' => ρ h' k' ∨ (h' = h ∧ k' = k)

theorem Pairs.flip_add (ρ : Pairs) (h k : Handle) : flip (ρ.add h k) = Pairs.add (flip ρ) k h := by
  funext k' h'
  simp only [flip, Pairs.add, and_comm]

/-- What is paired by way of a third store. -/
def Pairs.comp (ρ σ : Pairs) : Pairs := fun h l => ∃ k, ρ h k ∧ σ k l

theorem Pairs.flip_comp (ρ σ : Pairs) : flip (ρ.comp σ) = Pairs.comp (flip σ) (flip ρ) := by
  funext l h
  simp only [flip, Pairs.comp, and_comm]

theorem forall₂_trans {α β γ : Type} {R : α → β → Prop} {S : β → γ → Prop} {T : α → γ → Prop}
    (hT : ∀ a b c, R a b → S b c → T a c) {as : List α} {bs : List β} {cs : List γ}
    (h : List.Forall₂ R as bs) (h' : List.Forall₂ S bs cs) : List.Forall₂ T as cs :=
  forall₂_of_common (fun b _ a c hab hbc => hT a b c hab hbc) h.flip h'

/-! ## Scopes -/

namespace Bindings

variable {α β : Type} {R S : α → β → Prop} {bs : Bindings α} {bs' : Bindings β}

/-- The same names in the same order, bound to what is related. -/
def Alike (R : α → β → Prop) (bs : Bindings α) (bs' : Bindings β) : Prop :=
  List.Forall₂ (fun b b' => b.1 = b'.1 ∧ R b.2 b'.2) bs bs'

theorem Alike.imp_of_mem (hRS : ∀ b ∈ bs, ∀ v, R b.2 v → S b.2 v) (h : Alike R bs bs') :
    Alike S bs bs' :=
  forall₂_imp_of_mem (fun b hb _ hbb => ⟨hbb.1, hRS b hb _ hbb.2⟩) h

theorem Alike.find? (h : Alike R bs bs') (name : String) :
    Option.Rel R (bs.find? name) (bs'.find? name) := by
  induction h with
  | nil => exact .none
  | @cons b b' bs bs' hb _ ih =>
    obtain ⟨key, value⟩ := b
    obtain ⟨key', value'⟩ := b'
    obtain ⟨rfl, hvalue⟩ := hb
    simp only [Bindings.find?]
    split
    · exact .some hvalue
    · exact ih

theorem Alike.insert (h : Alike R bs bs') (name : String) {value : α} {value' : β}
    (hvalue : R value value') : Alike R (bs.insert name value) (bs'.insert name value') := by
  induction h with
  | nil => exact .cons ⟨rfl, hvalue⟩ .nil
  | @cons b b' bs bs' hb hrest ih =>
    obtain ⟨key, old⟩ := b
    obtain ⟨key', old'⟩ := b'
    obtain ⟨rfl, hold⟩ := hb
    simp only [Bindings.insert]
    split
    · exact .cons ⟨rfl, hvalue⟩ hrest
    · exact .cons ⟨rfl, hold⟩ ih

theorem Alike.symm (h : Alike R bs bs') : Alike (flip R) bs' bs :=
  List.Forall₂.imp (fun _ _ hb => ⟨hb.1.symm, hb.2⟩) (List.Forall₂.flip h)

theorem Alike.trans {γ : Type} {S : β → γ → Prop} {T : α → γ → Prop} {bs'' : Bindings γ}
    (hT : ∀ a b c, R a b → S b c → T a c) (h : Alike R bs bs') (h' : Alike S bs' bs'') :
    Alike T bs bs'' :=
  forall₂_trans (fun _ _ _ hb hb' => ⟨hb.1.trans hb'.1, hT _ _ _ hb.2 hb'.2⟩) h h'

theorem Alike.values (h : Alike R bs bs') : List.Forall₂ R bs.values bs'.values := by
  simp only [Bindings.values, List.forall₂_map_left_iff, List.forall₂_map_right_iff]
  exact List.Forall₂.imp (fun _ _ hb => hb.2) h

end Bindings

namespace Frame

variable {ρ σ : Pairs} {f f' : Frame}

/-- The frames bind the same names and own as many temporary identifiers, under paired handles. -/
structure Alike (ρ : Pairs) (f f' : Frame) : Prop where
  names : Bindings.Alike ρ f.names f'.names
  temporaries : List.Forall₂ ρ f.temporaries f'.temporaries

theorem alike_empty : Alike ρ .empty .empty := ⟨.nil, .nil⟩

theorem Alike.symm (h : Alike ρ f f') : Alike (flip ρ) f' f :=
  ⟨h.names.symm, h.temporaries.flip⟩

theorem Alike.trans {f'' : Frame} (h : Alike ρ f f') (h' : Alike σ f' f'') :
    Alike (ρ.comp σ) f f'' :=
  have hcomp : ∀ h k l, ρ h k → σ k l → ρ.comp σ h l := fun _ k _ hρ hσ => ⟨k, hρ, hσ⟩
  ⟨h.names.trans hcomp h'.names, forall₂_trans hcomp h.temporaries h'.temporaries⟩

theorem Alike.handles (h : Alike ρ f f') : List.Forall₂ ρ f.handles f'.handles :=
  List.rel_append h.names.values (List.rel_reverse h.temporaries)

theorem Alike.imp_of_mem (hρσ : ∀ h ∈ f.handles, ∀ k, ρ h k → σ h k) (h : Alike ρ f f') :
    Alike σ f f' where
  names := h.names.imp_of_mem fun b hb =>
    hρσ b.2 (Frame.mem_handles.mpr (.inl ⟨b.1, hb⟩))
  temporaries := forall₂_imp_of_mem (fun h hh => hρσ h (Frame.mem_handles.mpr (.inr hh)))
    h.temporaries

end Frame

namespace Scopes

variable {ρ σ : Pairs} {s s' : Scopes}

/-- The same namespaces with frames that are alike, at the same place. -/
structure Alike (ρ : Pairs) (s s' : Scopes) : Prop where
  namespaces : Bindings.Alike (List.Forall₂ (Frame.Alike ρ)) s.namespaces s'.namespaces
  place : s.place = s'.place

theorem Alike.imp_of_mem (hρσ : ∀ h ∈ s.held, ∀ k, ρ h k → σ h k) (h : Alike ρ s s') :
    Alike σ s s' where
  namespaces := by
    refine h.namespaces.imp_of_mem fun space hspace _ hframes => ?_
    refine forall₂_imp_of_mem (fun frame hframe _ halike => ?_) hframes
    refine halike.imp_of_mem fun k hk => hρσ k ?_
    exact List.mem_flatMap.mpr ⟨space, hspace, List.mem_flatMap.mpr ⟨frame, hframe, hk⟩⟩
  place := h.place

theorem Alike.imp (hρσ : ∀ h k, ρ h k → σ h k) (h : Alike ρ s s') : Alike σ s s' :=
  h.imp_of_mem fun h _ => hρσ h

theorem Alike.symm (h : Alike ρ s s') : Alike (flip ρ) s' s where
  namespaces := List.Forall₂.imp
    (fun _ _ hb => ⟨hb.1, List.Forall₂.imp (fun _ _ hf => hf.symm) (List.Forall₂.flip hb.2)⟩)
    h.namespaces.symm
  place := h.place.symm

theorem Alike.trans {s'' : Scopes} (h : Alike ρ s s') (h' : Alike σ s' s'') :
    Alike (ρ.comp σ) s s'' where
  namespaces := by
    have hframe : ∀ f f' f'', Frame.Alike ρ f f' → Frame.Alike σ f' f'' →
        Frame.Alike (ρ.comp σ) f f'' := fun _ _ _ hf hf' => hf.trans hf'
    have hframes : ∀ fs fs' fs'', List.Forall₂ (Frame.Alike ρ) fs fs' →
        List.Forall₂ (Frame.Alike σ) fs' fs'' → List.Forall₂ (Frame.Alike (ρ.comp σ)) fs fs'' :=
      fun _ _ _ => forall₂_trans hframe
    exact h.namespaces.trans hframes h'.namespaces
  place := h.place.trans h'.place

/-- Scopes are alike to themselves when what they hold is paired with itself. -/
theorem alike_self (hρ : ∀ h ∈ s.held, ρ h h) : Alike ρ s s where
  namespaces := by
    refine List.forall₂_same.mpr fun space hspace => ⟨rfl, ?_⟩
    refine List.forall₂_same.mpr fun frame hframe => ?_
    have hheld : ∀ h ∈ frame.handles, ρ h h := fun h hh =>
      hρ h (List.mem_flatMap.mpr ⟨space, hspace, List.mem_flatMap.mpr ⟨frame, hframe, hh⟩⟩)
    refine ⟨List.forall₂_same.mpr fun b hb => ⟨rfl, ?_⟩, List.forall₂_same.mpr fun h hh => ?_⟩
    · exact hheld b.2 (Frame.mem_handles.mpr (.inl ⟨b.1, hb⟩))
    · exact hheld h (Frame.mem_handles.mpr (.inr hh))
  place := rfl

theorem Alike.held (h : Alike ρ s s') : List.Forall₂ ρ s.held s'.held := by
  refine List.rel_flatMap h.namespaces fun space space' hspace => ?_
  exact List.rel_flatMap hspace.2 fun frame frame' hframe => hframe.handles

theorem Alike.frames (h : Alike ρ s s') (name : String) :
    List.Forall₂ (Frame.Alike ρ) (s.frames name) (s'.frames name) := by
  unfold Scopes.frames
  rcases optionRel_cases (h.namespaces.find? name) with ⟨hf, hf'⟩ | ⟨fs, fs', hf, hf', hframes⟩
  · rw [hf, hf']
    exact .nil
  · rw [hf, hf']
    exact hframes

theorem Alike.setFrames (h : Alike ρ s s') (name : String) {fs fs' : List Frame}
    (hfs : List.Forall₂ (Frame.Alike ρ) fs fs') :
    Alike ρ (s.setFrames name fs) (s'.setFrames name fs') :=
  ⟨h.namespaces.insert name hfs, h.place⟩

/-! ### Changing one frame -/

theorem forall₂_modify {fs fs' : List Frame} (hfs : List.Forall₂ (Frame.Alike ρ) fs fs')
    (index : Nat) {f f' : Frame → Frame}
    (hf : ∀ frame frame', fs[index]? = some frame → fs'[index]? = some frame' →
      Frame.Alike ρ (f frame) (f' frame')) :
    List.Forall₂ (Frame.Alike ρ) (fs.modify index f) (fs'.modify index f') := by
  induction hfs generalizing index with
  | nil => simp
  | cons hframe hrest ih =>
    cases index with
    | zero => exact .cons (hf _ _ rfl rfl) hrest
    | succ index => exact .cons hframe (ih index hf)

theorem Alike.opened (h : Alike ρ s s') (space : String) (index : Nat) :
    List.Forall₂ (Frame.Alike ρ) (s.opened space index) (s'.opened space index) := by
  have hframes := h.frames space
  unfold Scopes.opened
  rw [hframes.length_eq]
  refine List.rel_append hframes (List.forall₂_same.mpr fun frame hframe => ?_)
  rw [List.eq_of_mem_replicate hframe]
  exact Frame.alike_empty

theorem Alike.frameAt (h : Alike ρ s s') (space : String) (index : Nat) :
    Frame.Alike ρ (s.frameAt space index) (s'.frameAt space index) := by
  unfold Scopes.frameAt
  rcases optionRel_cases (forall₂_getElem? (h.frames space) index) with
    ⟨hf, hf'⟩ | ⟨frame, frame', hf, hf', hframe⟩
  · rw [hf, hf']
    exact Frame.alike_empty
  · rw [hf, hf']
    exact hframe

theorem Alike.modifyFrame (h : Alike ρ s s') (space : String) (index : Nat) {f f' : Frame → Frame}
    (hf : Frame.Alike ρ (f (s.frameAt space index)) (f' (s'.frameAt space index))) :
    Alike ρ (s.modifyFrame space index f) (s'.modifyFrame space index f') := by
  rw [modifyFrame_eq, modifyFrame_eq]
  refine h.setFrames space (forall₂_modify (h.opened space index) index ?_)
  intro frame frame' hframe hframe'
  rw [opened_getElem?] at hframe hframe'
  cases hframe
  cases hframe'
  exact hf

theorem Alike.bindIn (h : Alike ρ s s') (space : String) (index : Nat) (name : String)
    {k k' : Handle} (hk : ρ k k') :
    Alike ρ (s.modifyFrame space index fun f => { f with names := f.names.insert name k })
      (s'.modifyFrame space index fun f => { f with names := f.names.insert name k' }) := by
  have hframe := h.frameAt space index
  exact h.modifyFrame space index ⟨hframe.names.insert name hk, hframe.temporaries⟩

theorem Alike.adopt (h : Alike ρ s s') {k k' : Handle} (hk : ρ k k') :
    Alike ρ (s.adopt k) (s'.adopt k') := by
  have hframe := h.frameAt s.place.name s.place.depth
  unfold Scopes.adopt
  rw [← h.place]
  exact h.modifyFrame _ _ ⟨hframe.names, .cons hk hframe.temporaries⟩

/-! ### Blocks -/

theorem Alike.enter (h : Alike ρ s s') : Alike ρ s.enter s'.enter := by
  have hframes := List.rel_append (h.frames s.place.name) (.cons Frame.alike_empty .nil)
  unfold Scopes.enter
  rw [← h.place]
  exact ⟨(h.setFrames s.place.name hframes).namespaces, rfl⟩

theorem Alike.leave? (h : Alike ρ s s') :
    Option.Rel (fun p p' => Frame.Alike ρ p.1 p'.1 ∧ Alike ρ p.2 p'.2) s.leave? s'.leave? := by
  have hframes := h.frames s.place.name
  unfold Scopes.leave?
  rw [← h.place]
  split
  · exact .none
  · refine .some ⟨?_, (h.setFrames s.place.name (forall₂_dropLast hframes)).namespaces, rfl⟩
    rcases optionRel_cases (forall₂_getLast? hframes) with
      ⟨hf, hf'⟩ | ⟨frame, frame', hf, hf', hframe⟩
    · rw [hf, hf']
      exact Frame.alike_empty
    · rw [hf, hf']
      exact hframe

/-! ### Looking names up -/

theorem Alike.lookup? (h : Alike ρ s s') (name : String) :
    Option.Rel ρ (s.lookup? name) (s'.lookup? name) := by
  have hvisible : List.Forall₂ (Frame.Alike ρ) s.visibleFrames s'.visibleFrames := by
    unfold Scopes.visibleFrames
    rw [← h.place]
    exact List.forall₂_take _ (List.rel_reverse (List.forall₂_take _ (h.frames s.place.name)))
  unfold Scopes.lookup?
  generalize s.visibleFrames = fs, s'.visibleFrames = fs' at hvisible
  induction hvisible with
  | nil => exact .none
  | cons hframe _ ih =>
    rw [List.findSome?_cons, List.findSome?_cons]
    rcases optionRel_cases (hframe.names.find? name) with ⟨hf, hf'⟩ | ⟨k, k', hf, hf', hk⟩
    · rw [hf, hf']
      exact ih
    · rw [hf, hf']
      exact .some hk

theorem Alike.global? (h : Alike ρ s s') (space name : String) :
    Option.Rel ρ (s.global? space name) (s'.global? space name) := by
  rw [global?_eq, global?_eq]
  exact (h.frameAt space 0).names.find? name

end Scopes

/-! ## One of two stores -/

namespace Store

/-- One of two stores whose handles are paired: it is sound, and each live handle is paired with
exactly one handle of the other store, unless it is one of those that only this store has given
out. -/
structure Side (own : Handle → Prop) (ρ : Pairs) (s : Store) : Prop where
  sound : s.Sound
  unique : ∀ {h k k'}, ρ h k → ρ h k' → k = k'
  paired : ∀ {h}, (∃ k, ρ h k) ↔ s.arena.IsLive h ∧ ¬ own h
  own : ∀ {h}, own h → s.arena.IsLive h

section Side

variable {own : Handle → Prop} {ρ σ : Pairs} {s s' : Store}

theorem Side.isLive (hs : s.Side own ρ) {h k : Handle} (hk : ρ h k) : s.arena.IsLive h :=
  (hs.paired.mp ⟨k, hk⟩).1

/-- The store is paired with a third one by way of the second. -/
theorem Side.comp {own' : Handle → Prop} (hs : s.Side own ρ) (hs' : s'.Side own' σ)
    (htotal : ∀ {h k}, ρ h k → ∃ l, σ k l) : s.Side own (ρ.comp σ) where
  sound := hs.sound
  unique := by
    rintro h l l' ⟨k, hρ, hσ⟩ ⟨k', hρ', hσ'⟩
    obtain rfl := hs.unique hρ hρ'
    exact hs'.unique hσ hσ'
  paired := by
    intro h
    rw [← hs.paired]
    constructor
    · rintro ⟨l, k, hρ, -⟩
      exact ⟨k, hρ⟩
    · rintro ⟨k, hρ⟩
      obtain ⟨l, hσ⟩ := htotal hρ
      exact ⟨l, k, hρ, hσ⟩
  own := hs.own

/-- The handle of a new identifier is paired with a handle of the other store. -/
theorem Side.push (hs : s.Side own ρ) {i : Identifier} (hi : i.IsValid) (k : Handle)
    (harena : s'.arena = (s.arena.push i).2) (hsound : s'.Sound) :
    s'.Side own (ρ.add (s.arena.push i).1 k) := by
  have htidy := hs.sound.tidy
  have hfresh : ¬ s.arena.IsLive (s.arena.push i).1 := Arena.not_isLive_push htidy i
  refine ⟨hsound, ?_, ?_, ?_⟩
  · -- what was paired before was live, and the new handle was not
    rintro h k₁ k₂ (h₁ | ⟨rfl, rfl⟩) (h₂ | ⟨heq, rfl⟩)
    · exact hs.unique h₁ h₂
    · exact absurd (heq ▸ hs.isLive h₁) hfresh
    · exact absurd (hs.isLive h₂) hfresh
    · rfl
  · intro h
    rw [harena]
    by_cases heq : h = (s.arena.push i).1
    · subst heq
      refine iff_of_true ⟨k, .inr ⟨rfl, rfl⟩⟩ ⟨Arena.isLive_push_self htidy hi, ?_⟩
      exact fun hown => hfresh (hs.own hown)
    · have hiff : s.arena.IsLive h ↔ (s.arena.push i).2.IsLive h := by
        rw [Arena.IsLive, Arena.IsLive, Arena.get?_push_of_ne htidy i heq]
      rw [← hiff, ← hs.paired]
      simp only [Pairs.add, heq, false_and, or_false]
  · intro h hown
    rw [harena]
    exact Arena.isLive_push htidy i (hs.own hown)

/-- An identifier that only this store adds. -/
theorem Side.pushOwn (hs : s.Side own ρ) {i : Identifier} (hi : i.IsValid) :
    (s.push i).2.Side (fun h => own h ∨ h = (s.arena.push i).1) ρ := by
  have htidy := hs.sound.tidy
  have hfresh : ¬ s.arena.IsLive (s.arena.push i).1 := Arena.not_isLive_push htidy i
  refine ⟨hs.sound.push i, hs.unique, ?_, ?_⟩
  · intro h
    change _ ↔ (s.arena.push i).2.IsLive h ∧ _
    rw [hs.paired, not_or]
    by_cases heq : h = (s.arena.push i).1
    · subst heq
      exact iff_of_false (fun hl => hfresh hl.1) fun hl => hl.2.2 rfl
    · rw [Arena.IsLive, Arena.IsLive, Arena.get?_push_of_ne htidy i heq]
      simp only [heq, not_false_eq_true, and_true]
  · rintro h (hown | rfl)
    · exact Arena.isLive_push htidy i (hs.own hown)
    · exact Arena.isLive_push_self htidy hi

/-- The pairs of what is still live, when nothing is that was not before. -/
theorem Side.restrict (hs : s.Side own ρ) (hsound : s'.Sound)
    (hσ : ∀ h k, σ h k ↔ ρ h k ∧ s'.arena.IsLive h)
    (hlive : ∀ h, s'.arena.IsLive h → s.arena.IsLive h)
    (hown : ∀ h, own h → s'.arena.IsLive h) : s'.Side own σ := by
  refine ⟨hsound, ?_, ?_, fun h => hown _ h⟩
  · intro h k k' hk hk'
    exact hs.unique ((hσ h k).mp hk).1 ((hσ h k').mp hk').1
  · intro h
    simp only [hσ, exists_and_right]
    rw [hs.paired]
    constructor
    · rintro ⟨⟨-, hnot⟩, hl⟩
      exact ⟨hl, hnot⟩
    · rintro ⟨hl, hnot⟩
      exact ⟨⟨hlive h hl, hnot⟩, hl⟩

/-- The same handles are live. -/
theorem Side.of_isLive (hs : s.Side own ρ) (hsound : s'.Sound)
    (hlive : ∀ h, s'.arena.IsLive h ↔ s.arena.IsLive h) : s'.Side own ρ where
  sound := hsound
  unique := hs.unique
  paired := by
    intro h
    rw [hs.paired, hlive]
  own := fun hown => (hlive _).mpr (hs.own hown)

end Side

/-! ## Two stores -/

/-- Two stores that hold the same identifiers under paired handles. What only one of them has given
out is its own. -/
structure Alike (own own' : Handle → Prop) (ρ : Pairs) (s s' : Store) : Prop where
  left : s.Side own ρ
  right : s'.Side own' (flip ρ)
  same : ∀ {h k}, ρ h k → s.arena.get? h = s'.arena.get? k
  scopes : s.scopes.Alike ρ s'.scopes

section Alike

variable {own own' : Handle → Prop} {ρ : Pairs} {s s' : Store} {i : Identifier}

theorem Alike.symm (h : Alike own own' ρ s s') : Alike own' own (flip ρ) s' s :=
  ⟨h.right, h.left, fun hk => (h.same hk).symm, h.scopes.symm⟩

/-- What is alike to the same store is alike, where nothing in that store is left out. -/
theorem Alike.trans {own'' : Handle → Prop} {σ : Pairs} {s'' : Store}
    (h : Alike own (fun _ => False) ρ s s') (h' : Alike (fun _ => False) own'' σ s' s'') :
    Alike own own'' (ρ.comp σ) s s'' where
  left := h.left.comp h'.left fun hk => h'.left.paired.mpr ⟨h.right.isLive hk, id⟩
  right := by
    rw [Pairs.flip_comp]
    exact h'.right.comp h.right fun hk => h.right.paired.mpr ⟨h'.left.isLive hk, id⟩
  same := by
    rintro h₀ l ⟨k, hρ, hσ⟩
    rw [h.same hρ, h'.same hσ]
  scopes := h.scopes.trans h'.scopes

theorem Alike.isLive_of_mem_held (h : Alike own own' ρ s s') {k : Handle}
    (hk : k ∈ s.scopes.held) : s.arena.IsLive k := by
  obtain ⟨k', -, hkk⟩ := exists_of_forall₂ h.scopes.held hk
  exact h.left.isLive hkk

theorem Alike.depth (h : Alike own own' ρ s s') : s.depth = s'.depth := by
  simp only [Store.depth, h.scopes.place]

/-- Both stores add an identifier, and hold its handles at the same place. -/
theorem Alike.add (h : Alike own own' ρ s s') (hi : i.IsValid) {scopes scopes' : Scopes}
    (hscopes : scopes.Alike (ρ.add (s.arena.push i).1 (s'.arena.push i).1) scopes')
    (hsound : Sound ⟨(s.arena.push i).2, scopes⟩)
    (hsound' : Sound ⟨(s'.arena.push i).2, scopes'⟩) :
    Alike own own' (ρ.add (s.arena.push i).1 (s'.arena.push i).1)
      ⟨(s.arena.push i).2, scopes⟩ ⟨(s'.arena.push i).2, scopes'⟩ where
  left := h.left.push hi _ rfl hsound
  right := by
    rw [Pairs.flip_add]
    exact h.right.push hi _ rfl hsound'
  same := by
    rintro k k' (hk | ⟨rfl, rfl⟩)
    · change (s.arena.push i).2.get? k = (s'.arena.push i).2.get? k'
      rw [Arena.get?_push_of_isLive h.left.sound.tidy i (h.left.isLive hk),
        Arena.get?_push_of_isLive h.right.sound.tidy i (h.right.isLive hk), h.same hk]
    · change (s.arena.push i).2.get? _ = (s'.arena.push i).2.get? _
      rw [Arena.get?_push_self h.left.sound.tidy hi, Arena.get?_push_self h.right.sound.tidy hi]
  scopes := hscopes

theorem Alike.push (h : Alike own own' ρ s s') (hi : i.IsValid) :
    Alike own own' (ρ.add (s.push i).1 (s'.push i).1) (s.push i).2 (s'.push i).2 :=
  h.add hi (h.scopes.imp fun _ _ => .inl) (h.left.sound.push i) (h.right.sound.push i)

/-- Both stores overwrite the same identifier with another one. -/
theorem Alike.put (h : Alike own own' ρ s s') {k k' : Handle} (hk : ρ k k') (hi : i.IsValid)
    (hsound : Sound { s with arena := s.arena.put k.index i })
    (hsound' : Sound { s' with arena := s'.arena.put k'.index i }) :
    Alike own own' ρ { s with arena := s.arena.put k.index i }
      { s' with arena := s'.arena.put k'.index i } := by
  have hl := h.left.isLive hk
  have hl' := h.right.isLive hk
  have live : ∀ {t : Store} {h₀ : Handle}, t.Sound → t.arena.IsLive h₀ →
      ∀ h, (t.arena.put h₀.index i).IsLive h ↔ t.arena.IsLive h := by
    intro t h₀ ht hl₀ h
    by_cases heq : h = h₀
    · rw [heq]
      exact iff_of_true (Arena.isLive_of_get? (Arena.get?_put_self hl₀ hi)) hl₀
    · rw [Arena.IsLive, Arena.IsLive, Arena.get?_put_of_ne_handle ht.tidy hl₀ heq]
  refine ⟨h.left.of_isLive hsound (live h.left.sound hl),
    h.right.of_isLive hsound' (live h.right.sound hl'), ?_, h.scopes⟩
  intro j j' hj
  change (s.arena.put k.index i).get? j = (s'.arena.put k'.index i).get? j'
  by_cases heq : j = k
  · subst heq
    obtain rfl := h.left.unique hj hk
    rw [Arena.get?_put_self hl hi, Arena.get?_put_self hl' hi]
  · have hne : j' ≠ k' := by
      rintro rfl
      exact heq (h.right.unique hj hk)
    rw [Arena.get?_put_of_ne_handle h.left.sound.tidy hl heq,
      Arena.get?_put_of_ne_handle h.right.sound.tidy hl' hne, h.same hj]

theorem Alike.enter (h : Alike own own' ρ s s') : Alike own own' ρ s.enter s'.enter where
  left := h.left.of_isLive h.left.sound.enter fun _ => .rfl
  right := h.right.of_isLive h.right.sound.enter fun _ => .rfl
  same := h.same
  scopes := h.scopes.enter

/-! ### Blocks that are left -/

theorem leave_of_leave? {frame : Frame} {scopes : Scopes}
    (hl : s.scopes.leave? = some (frame, scopes)) (arrange : List Handle → List Handle) :
    (s.leave arrange).2 = ⟨(s.arena.destroyAll (arrange frame.handles)).2, scopes⟩ := by
  rcases leave_cases arrange s with ⟨hdepth, -⟩ | ⟨frame', scopes', hl', heq, -⟩
  · simp [Scopes.leave?, hdepth] at hl
  · rw [hl] at hl'
    cases hl'
    exact heq

/-- Leaving a block destroys what its frame holds, in whichever order, and nothing else. -/
theorem get?_leave (hs : s.Sound) {frame : Frame} {scopes : Scopes}
    (hl : s.scopes.leave? = some (frame, scopes)) {arrange : List Handle → List Handle}
    (harrange : ∀ hs, (arrange hs).Perm hs) (h : Handle) :
    (s.leave arrange).2.arena.get? h = if h ∈ frame.handles then none else s.arena.get? h := by
  rw [leave_of_leave? hl, Arena.get?_destroyAll hs.tidy]
  simp only [(harrange frame.handles).mem_iff]

/-- What is still referred to when a block has been left is what it was before. -/
theorem get?_of_leave (hs : s.Sound) {arrange : List Handle → List Handle} {h : Handle}
    (hi : (s.leave arrange).2.arena.get? h = some i) : s.arena.get? h = some i := by
  rcases leave_cases arrange s with ⟨-, heq⟩ | ⟨frame, scopes, -, heq, -⟩
  · rwa [heq] at hi
  · rw [heq, Arena.get?_destroyAll hs.tidy] at hi
    split at hi
    · contradiction
    · exact hi

/-- What is still live when a block has been left. -/
theorem isLive_leave (hs : s.Sound) {frame : Frame} {scopes : Scopes}
    (hl : s.scopes.leave? = some (frame, scopes)) {arrange : List Handle → List Handle}
    (harrange : ∀ hs, (arrange hs).Perm hs) (h : Handle) :
    (s.leave arrange).2.arena.IsLive h ↔ s.arena.IsLive h ∧ h ∉ frame.handles := by
  rw [Arena.IsLive, get?_leave hs hl harrange]
  by_cases hmem : h ∈ frame.handles
  · simp [hmem]
  · simp [hmem, Arena.IsLive]

theorem Side.leave (hs : s.Side own ρ) {frame : Frame} {scopes : Scopes}
    (hl : s.scopes.leave? = some (frame, scopes)) {arrange : List Handle → List Handle}
    (harrange : ∀ hs, (arrange hs).Perm hs) (hpaired : ∀ h ∈ frame.handles, ∃ k, ρ h k) {σ : Pairs}
    (hσ : ∀ h k, σ h k ↔ ρ h k ∧ h ∉ frame.handles) : (s.leave arrange).2.Side own σ := by
  have live := isLive_leave hs.sound hl harrange
  refine hs.restrict (hs.sound.leave harrange) ?_ (fun h hl => ((live h).mp hl).1) ?_
  · intro h k
    rw [hσ, live]
    constructor
    · rintro ⟨hk, hnot⟩
      exact ⟨hk, hs.isLive hk, hnot⟩
    · rintro ⟨hk, -, hnot⟩
      exact ⟨hk, hnot⟩
  · intro h hown
    refine (live h).mpr ⟨hs.own hown, fun hmem => ?_⟩
    exact (hs.paired.mp (hpaired h hmem)).2 hown

/-- Frames that are alike hold the two handles of a pair, or neither. -/
theorem Alike.mem_handles_iff (h : Alike own own' ρ s s') {frame frame' : Frame}
    (hframe : frame.Alike ρ frame') {k k' : Handle} (hk : ρ k k') :
    k ∈ frame.handles ↔ k' ∈ frame'.handles := by
  refine List.rel_mem ⟨?_, ?_⟩ hk hframe.handles
  · exact fun _ _ _ h₁ h₂ => h.right.unique h₁ h₂
  · exact fun _ _ _ h₁ h₂ => h.left.unique h₁ h₂

/-- What one pair of frames holds is destroyed on both sides, each in an order of its own. -/
theorem Alike.leave_frame (h : Alike own own' ρ s s') {arrange arrange' : List Handle → List Handle}
    (harrange : ∀ hs, (arrange hs).Perm hs) (harrange' : ∀ hs, (arrange' hs).Perm hs)
    {frame frame' : Frame} {scopes scopes' : Scopes}
    (hl : s.scopes.leave? = some (frame, scopes))
    (hl' : s'.scopes.leave? = some (frame', scopes')) (hframe : frame.Alike ρ frame')
    (hscopes : scopes.Alike ρ scopes') :
    Alike own own' (fun k k' => ρ k k' ∧ k ∉ frame.handles) (s.leave arrange).2
      (s'.leave arrange').2 where
  left := by
    refine h.left.leave hl harrange (fun k hk => ?_) fun _ _ => .rfl
    obtain ⟨k', -, hkk⟩ := exists_of_forall₂ hframe.handles hk
    exact ⟨k', hkk⟩
  right := by
    refine h.right.leave hl' harrange' (fun k' hk' => ?_) fun _ _ =>
      and_congr_right fun hk => not_congr (h.mem_handles_iff hframe hk)
    obtain ⟨k, -, hkk⟩ := exists_of_forall₂ hframe.handles.flip hk'
    exact ⟨k, hkk⟩
  same := by
    rintro k k' ⟨hk, hnot⟩
    have hnot' : k' ∉ frame'.handles := fun hk' => hnot ((h.mem_handles_iff hframe hk).mpr hk')
    rw [get?_leave h.left.sound hl harrange, get?_leave h.right.sound hl' harrange',
      if_neg hnot, if_neg hnot', h.same hk]
  scopes := by
    -- no handle of the frame is held anywhere else
    have hnodup := (Scopes.held_leave? hl).nodup_iff.mp h.left.sound.nodup
    rw [leave_of_leave? hl, leave_of_leave? hl']
    refine hscopes.imp_of_mem fun k hheld k' hk => ⟨hk, fun hmem => ?_⟩
    exact (List.nodup_append.mp hnodup).2.2 k hmem k hheld rfl

/-- Both stores leave a block without an error, each in an order of its own. -/
theorem Alike.leave (h : Alike own own' ρ s s') {arrange arrange' : List Handle → List Handle}
    (harrange : ∀ hs, (arrange hs).Perm hs) (harrange' : ∀ hs, (arrange' hs).Perm hs) :
    (s.leave arrange).1 = .ok () ∧ (s'.leave arrange').1 = .ok () ∧
      ∃ σ, Alike own own' σ (s.leave arrange).2 (s'.leave arrange').2 ∧
        ∀ k k', σ k k' ↔ ρ k k' ∧ (s.leave arrange).2.arena.IsLive k := by
  refine ⟨h.left.sound.leave_ok (fun _ => h.isLive_of_mem_held) harrange,
    h.right.sound.leave_ok (fun _ => h.symm.isLive_of_mem_held) harrange', ?_⟩
  rcases optionRel_cases h.scopes.leave? with
    ⟨hl, hl'⟩ | ⟨⟨frame, scopes⟩, ⟨frame', scopes'⟩, hl, hl', hframe, hscopes⟩
  · refine ⟨ρ, ?_, ?_⟩
    · simpa only [Store.leave, hl, hl'] using h
    · intro k k'
      simp only [Store.leave, hl]
      exact ⟨fun hk => ⟨hk, h.left.isLive hk⟩, fun hk => hk.1⟩
  · refine ⟨_, h.leave_frame harrange harrange' hl hl' hframe hscopes, fun k k' => ?_⟩
    rw [isLive_leave h.left.sound hl harrange]
    exact ⟨fun hk => ⟨hk.1, h.left.isLive hk.1, hk.2⟩, fun hk => ⟨hk.1, hk.2.2⟩⟩

/-! ### Identifiers that texts add -/

/-- Both stores add the same identifiers. -/
theorem Alike.pushAll (h : Alike own own' ρ s s') {is : List Identifier}
    (his : ∀ i ∈ is, i.IsValid) :
    ∃ σ, Alike own own' σ { s with arena := (s.arena.pushAll is).2 }
        { s' with arena := (s'.arena.pushAll is).2 } ∧
      (∀ k k', ρ k k' → σ k k') ∧
      List.Forall₂ σ (s.arena.pushAll is).1 (s'.arena.pushAll is).1 := by
  induction is generalizing ρ s s' with
  | nil => exact ⟨ρ, h, fun _ _ => id, .nil⟩
  | cons i is ih =>
    have hpush := h.push (his i (by simp))
    obtain ⟨σ, halike, himp, hnew⟩ := ih hpush fun j hj => his j (List.mem_cons_of_mem i hj)
    refine ⟨σ, halike, fun k k' hk => himp k k' (.inl hk), .cons ?_ hnew⟩
    exact himp _ _ (.inr ⟨rfl, rfl⟩)

/-- The handles of new identifiers are those that are live, and were not before. -/
theorem mem_pushAll_iff (hs : s.Sound) {is : List Identifier} (his : ∀ i ∈ is, i.IsValid)
    {h : Handle} :
    h ∈ (s.arena.pushAll is).1 ↔ (s.arena.pushAll is).2.IsLive h ∧ ¬ s.arena.IsLive h := by
  constructor
  · intro hmem
    refine ⟨((loose_pushAll hs his).2 h hmem).1, fun hl => ?_⟩
    exact Arena.not_inUse_pushAll hs.tidy hmem (hs.tidy.inUse hl)
  · rintro ⟨hl, hnot⟩
    obtain ⟨i, hi⟩ := Arena.isLive_iff.mp hl
    rcases Arena.get?_pushAll hs.tidy hi with hold | ⟨hmem, -⟩
    · exact absurd (Arena.isLive_of_get? hold) hnot
    · exact hmem

/-- Only the left store adds identifiers, which nothing else refers to. -/
theorem Alike.pushAll_left (h : Alike own own' ρ s s') {is : List Identifier}
    (his : ∀ i ∈ is, i.IsValid) :
    Alike (fun k => own k ∨ k ∈ (s.arena.pushAll is).1) own' ρ
      { s with arena := (s.arena.pushAll is).2 } s' := by
  induction is generalizing own s with
  | nil => simpa [Arena.pushAll] using h
  | cons i is ih =>
    have hpush : Alike (fun k => own k ∨ k = (s.arena.push i).1) own' ρ (s.push i).2 s' := by
      refine ⟨h.left.pushOwn (his i (by simp)), h.right, ?_, h.scopes⟩
      intro k k' hk
      rw [← h.same hk]
      exact Arena.get?_push_of_isLive h.left.sound.tidy i (h.left.isLive hk)
    have hrest := ih hpush fun j hj => his j (List.mem_cons_of_mem i hj)
    simp only [Arena.pushAll_cons, List.mem_cons, ← or_assoc]
    exact hrest

/-- What only the left store has had is added by the right one as well. -/
theorem Alike.push_right {k : Handle} (h : Alike (fun h => own h ∨ h = k) own' ρ s s')
    (hk : ¬ own k) (hi : s.arena.get? k = some i) :
    Alike own own' (ρ.add k (s'.push i).1) s (s'.push i).2 where
  left := by
    have hpaired : ∀ {h}, (∃ k', ρ h k') ↔ s.arena.IsLive h ∧ ¬ (own h ∨ h = k) := h.left.paired
    have hnone : ∀ k', ¬ ρ k k' := fun k' hk' => (hpaired.mp ⟨k', hk'⟩).2 (.inr rfl)
    refine ⟨h.left.sound, ?_, fun {j} => ?_, fun hown => h.left.own (.inl hown)⟩
    · rintro j k₁ k₂ (h₁ | ⟨rfl, rfl⟩) (h₂ | ⟨heq, rfl⟩)
      · exact h.left.unique h₁ h₂
      · exact absurd (heq ▸ h₁) (hnone _)
      · exact absurd h₂ (hnone _)
      · rfl
    · by_cases heq : j = k
      · subst heq
        exact iff_of_true ⟨_, .inr ⟨rfl, rfl⟩⟩ ⟨Arena.isLive_of_get? hi, hk⟩
      · have hold := hpaired (h := j)
        simp only [heq, or_false] at hold
        rw [← hold]
        simp only [Pairs.add, heq, false_and, or_false]
  right := by
    rw [Pairs.flip_add]
    exact h.right.push (Arena.role_ne_invalid hi) k rfl (h.right.sound.push i)
  same := by
    rintro j j' (hj | ⟨rfl, rfl⟩)
    · rw [h.same hj]
      exact (Arena.get?_push_of_isLive h.right.sound.tidy i (h.right.isLive hj)).symm
    · rw [hi]
      exact (Arena.get?_push_self h.right.sound.tidy (Arena.role_ne_invalid hi)).symm
  scopes := h.scopes.imp fun _ _ => .inl

/-- What only the left store has had, one after the other, is added by the right one as well. -/
theorem Alike.pushAll_right {is : List Identifier} {ks : List Handle}
    (h : Alike (· ∈ ks) own' ρ s s') (hnodup : ks.Nodup)
    (his : ks.map s.arena.get? = is.map some) :
    ∃ σ, Alike (fun _ => False) own' σ s { s' with arena := (s'.arena.pushAll is).2 } ∧
      (∀ k k', ρ k k' → σ k k') ∧ List.Forall₂ σ ks (s'.arena.pushAll is).1 := by
  induction ks generalizing is ρ s' with
  | nil =>
    obtain rfl : is = [] := by simpa using his.symm
    exact ⟨ρ, by simpa [Arena.pushAll] using h, fun _ _ => id, .nil⟩
  | cons k ks ih =>
    cases is with
    | nil => simp at his
    | cons i is =>
      obtain ⟨hk, hnodup⟩ := List.nodup_cons.mp hnodup
      obtain ⟨hi, his⟩ := List.cons.inj his
      have hown : (· ∈ k :: ks) = fun h => h ∈ ks ∨ h = k := by
        funext h
        simp only [List.mem_cons, or_comm]
      rw [hown] at h
      obtain ⟨σ, halike, himp, hnew⟩ := ih (h.push_right hk hi) hnodup his
      refine ⟨σ, halike, fun j j' hj => himp j j' (.inl hj), .cons ?_ hnew⟩
      exact himp _ _ (.inr ⟨rfl, rfl⟩)

end Alike

/-- A store is the same as itself under its own handles. -/
theorem alike_self {s : Store} (hs : s.Sound) (hlive : ∀ h ∈ s.scopes.held, s.arena.IsLive h) :
    Alike (fun _ => False) (fun _ => False) (fun h k => h = k ∧ s.arena.IsLive h) s s where
  left := by
    refine ⟨hs, ?_, ?_, False.elim⟩
    · rintro h k k' ⟨rfl, -⟩ ⟨rfl, -⟩
      rfl
    · simp
  right := by
    refine ⟨hs, ?_, ?_, False.elim⟩
    · rintro h k k' ⟨rfl, -⟩ ⟨rfl, -⟩
      rfl
    · simp [flip]
  same := by
    rintro h k ⟨rfl, -⟩
    rfl
  scopes := Scopes.alike_self fun h hh => ⟨rfl, hlive h hh⟩

end Store

end WordScript
