import WordScript.Proofs.Names
import WordScript.Proofs.Trace

/-!
# What leaves stand for

A leaf stands for its own handle, or for what its name is bound to when it is a name that is not
declared. It goes on to do so as long as identifiers and bindings are only added.
-/

namespace WordScript

namespace Store

/-- Handles are held as they should be, and the place of execution is a frame that is there. -/
structure Ready (s : Store) : Prop where
  sound : s.Sound
  placed : s.scopes.Placed

/-- Nothing has happened but that identifiers and bindings were added. -/
structure Widens (s s' : Store) : Prop where
  ready : s'.Ready
  kept : ∀ {h : Handle} {i : Identifier}, s.arena.get? h = some i → s'.arena.get? h = some i
  bound : ∀ {name : String} {h : Handle}, s.scopes.bound? name = some h →
    s'.scopes.bound? name = some h

variable {s s' s'' : Store} {name : String} {h k : Handle}

theorem Widens.refl (hs : s.Ready) : s.Widens s := ⟨hs, id, id⟩

theorem Widens.trans (hw : s.Widens s') (hw' : s'.Widens s'') : s.Widens s'' where
  ready := hw'.ready
  kept := fun hi => hw'.kept (hw.kept hi)
  bound := fun hb => hw'.bound (hw.bound hb)

/-- Resolving a name only adds to the store. -/
theorem widens_resolve (hs : s.Ready) (hr : s.resolve name = .ok (h, s')) : s.Widens s' where
  ready := ⟨hs.sound.resolve hr, hs.placed.of_balanced (balanced_resolve hs.placed hr)⟩
  kept := by
    intro k i hi
    rcases resolve_bound?_cases hr with ⟨-, rfl⟩ | ⟨-, ⟨space, member, -, heq⟩ | ⟨-, heq⟩⟩
    · exact hi
    · obtain ⟨-, rfl⟩ := Prod.mk.inj heq
      exact (Arena.get?_push_of_isLive hs.sound.tidy _ (Arena.isLive_of_get? hi)).trans hi
    · obtain ⟨-, rfl⟩ := Prod.mk.inj heq
      exact (Arena.get?_push_of_isLive hs.sound.tidy _ (Arena.isLive_of_get? hi)).trans hi
  bound := bound?_resolve hs.placed hr

/-- So does adding a temporary identifier. -/
theorem widens_pushTemporary (hs : s.Ready) (i : Identifier) :
    s.Widens (s.pushTemporary i).2 where
  ready := ⟨hs.sound.pushTemporary i, hs.placed.of_balanced (hs.placed.balanced_current _)⟩
  kept := fun hi =>
    (Arena.get?_push_of_isLive hs.sound.tidy i (Arena.isLive_of_get? hi)).trans hi
  bound := fun hb => (bound?_pushTemporary hs.placed i _).trans hb

/-- A name is resolved without a change exactly when it is bound. -/
theorem resolve_eq_iff (hs : s.Ready) :
    s.resolve name = .ok (k, s) ↔ s.scopes.bound? name = some k := by
  refine ⟨fun hr => ?_, resolve_of_bound?⟩
  exact bound?_of_resolve hs.placed hr

/-- The handle that a leaf stands for: its own, or what its name is resolved to, without a change,
when it is a name that is not declared. -/
def StandsFor (s : Store) (h k : Handle) : Prop :=
  ∃ i, s.arena.get? h = some i ∧
    if i.isUndefined then s.resolve i.surface = .ok (k, s) else k = h

theorem StandsFor.widen (hs : s.Ready) (hw : s.Widens s') (hk : s.StandsFor h k) :
    s'.StandsFor h k := by
  obtain ⟨i, hi, hstands⟩ := hk
  refine ⟨i, hw.kept hi, ?_⟩
  split at hstands
  · next hundefined =>
    rw [if_pos hundefined]
    exact (resolve_eq_iff hw.ready).mpr (hw.bound ((resolve_eq_iff hs).mp hstands))
  · next hdefined =>
    rw [if_neg hdefined]
    exact hstands

/-- A handle of something that is declared stands for itself. -/
theorem standsFor_self {i : Identifier} (hi : s.arena.get? k = some i)
    (hdefined : i.isUndefined = false) : s.StandsFor k k :=
  ⟨i, hi, by simp [hdefined]⟩

end Store

namespace Evaluation

variable {m m' : Machine} {h k : Handle}

theorem resolveLeaf_of_standsFor (hk : m.store.StandsFor h k) : resolveLeaf h m = .value k m := by
  obtain ⟨i, hi, hstands⟩ := hk
  by_cases hundefined : i.isUndefined
  · rw [if_pos hundefined] at hstands
    exact resolveLeaf_of_resolve hi hundefined hstands
  · rw [if_neg hundefined] at hstands
    subst hstands
    rw [resolveLeaf, Action.bind_apply, identifier_of_get? hi]
    change (if i.isUndefined then Machine.resolve i.surface else pure k) m = _
    rw [if_neg hundefined]
    rfl

/-- A leaf that is resolved stands for the answer from then on. Nothing has changed, unless it is a
name that was not bound, which has been bound. -/
theorem resolveLeaf_cases (hs : m.store.Ready) (hr : resolveLeaf h m = .value k m') :
    m'.store.StandsFor h k ∧ (m' = m ∨ ∃ i s, m' = { m with store := s } ∧
      m.store.arena.get? h = some i ∧ i.isUndefined = true ∧
      m.store.scopes.bound? i.surface = none ∧ m.store.resolve i.surface = .ok (k, s)) := by
  rw [resolveLeaf, Action.bind_apply, Machine.identifier] at hr
  cases hi : m.store.arena.get? h with
  | none => simp [hi] at hr
  | some i =>
    simp only [hi] at hr
    by_cases hundefined : i.isUndefined
    · rw [if_pos hundefined] at hr
      cases hresolve : m.store.resolve i.surface with
      | error e => simp [Machine.resolve, Action.tryStore, hresolve] at hr
      | ok result =>
        obtain ⟨k', s⟩ := result
        simp only [Machine.resolve, Action.tryStore, hresolve, Outcome.value.injEq] at hr
        obtain ⟨rfl, rfl⟩ := hr
        have hw := Store.widens_resolve hs hresolve
        have hbound := Store.bound?_of_resolve hs.placed hresolve
        refine ⟨⟨i, hw.kept hi, ?_⟩, ?_⟩
        · rw [if_pos hundefined]
          exact Store.resolve_of_bound? hbound
        · rcases Store.resolve_bound?_cases hresolve with ⟨-, rfl⟩ | ⟨hfree, -⟩
          · exact .inl rfl
          · exact .inr ⟨i, s, rfl, rfl, hundefined, hfree, hresolve⟩
    · rw [if_neg hundefined] at hr
      obtain ⟨rfl, rfl⟩ := Outcome.value.inj hr
      exact ⟨Store.standsFor_self hi (by simpa using hundefined), .inl rfl⟩

/-- A leaf that cannot be resolved changes nothing. -/
theorem resolveLeaf_failure {e : RuntimeError} (hr : resolveLeaf h m = .failure e m') : m' = m := by
  rw [resolveLeaf, Action.bind_apply, Machine.identifier] at hr
  cases hi : m.store.arena.get? h with
  | none =>
    simp only [hi, Outcome.failure.injEq] at hr
    exact hr.2.symm
  | some i =>
    simp only [hi] at hr
    by_cases hundefined : i.isUndefined
    · rw [if_pos hundefined] at hr
      cases hresolve : m.store.resolve i.surface with
      | error e' =>
        simp only [Machine.resolve, Action.tryStore, hresolve, Outcome.failure.injEq] at hr
        exact hr.2.symm
      | ok result => simp [Machine.resolve, Action.tryStore, hresolve] at hr
    · rw [if_neg hundefined] at hr
      cases hr

end Evaluation

/-- The store is ready in every state that is reached, whatever the host does. -/
theorem Reached.ready {host : Host} {m : Machine} (hm : Reached host (fun _ => True) m) :
    m.store.Ready :=
  ⟨hm.sound, hm.placed⟩

end WordScript
