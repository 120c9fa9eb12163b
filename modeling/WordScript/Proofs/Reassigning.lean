import WordScript.Proofs.ValueLeaves

/-!
# Writing the payloads of variables

An assignment writes the payload of a variable, and nothing else about any identifier changes. So
what leaves stand for does not depend on the assignments in between, and neither does what a function
between two operands does.
-/

namespace WordScript

theorem Identifier.isUndefined_withValue (i : Identifier) (value : Value) :
    ({ i with value } : Identifier).isUndefined = i.isUndefined := rfl

namespace Store

/-- Nothing has happened but that identifiers and bindings were added, and payloads of variables were
written. -/
structure Reassigns (s s' : Store) : Prop where
  ready : s'.Ready
  kept : ∀ {h : Handle} {i : Identifier}, s.arena.get? h = some i →
    ∃ value, s'.arena.get? h = some { i with value } ∧ (i.isVariable = false → value = i.value)
  bound : ∀ {name : String} {h : Handle}, s.scopes.bound? name = some h →
    s'.scopes.bound? name = some h

variable {s s' s'' : Store} {h k o : Handle} {i : Identifier}

theorem Widens.reassigns (hw : s.Widens s') : s.Reassigns s' where
  ready := hw.ready
  kept := fun {_ i} hi => ⟨i.value, hw.kept hi, fun _ => rfl⟩
  bound := hw.bound

theorem Reassigns.refl (hs : s.Ready) : s.Reassigns s := (Widens.refl hs).reassigns

theorem Reassigns.trans (hr : s.Reassigns s') (hr' : s'.Reassigns s'') : s.Reassigns s'' where
  ready := hr'.ready
  kept := by
    intro h i hi
    obtain ⟨value, hi', hvalue⟩ := hr.kept hi
    obtain ⟨value', hi'', hvalue'⟩ := hr'.kept hi'
    exact ⟨value', hi'', fun hfixed => (hvalue' hfixed).trans (hvalue hfixed)⟩
  bound := fun hb => hr'.bound (hr.bound hb)

/-- Writing the payload of a variable. -/
theorem reassigns_put (hs : s.Ready) (hi : s.arena.get? h = some i) (hvariable : i.isVariable = true)
    (value : Value) : s.Reassigns { s with arena := s.arena.put h.index { i with value } } where
  ready := ⟨hs.sound.put hi rfl rfl, hs.placed⟩
  kept := by
    intro k j hj
    by_cases hk : k = h
    · subst hk
      obtain rfl := Option.some.inj (hj.symm.trans hi)
      have hrole : j.role = .var := of_decide_eq_true hvariable
      refine ⟨value, Arena.get?_put_self (Arena.isLive_of_get? hi) (by simp [hrole]), ?_⟩
      rw [hvariable]
      nofun
    · have hl := Arena.isLive_of_get? hi
      exact ⟨j.value, (Arena.get?_put_of_ne_handle hs.sound.tidy hl hk).trans hj, fun _ => rfl⟩
  bound := id

theorem Reassigns.isLive (hr : s.Reassigns s') (hl : s.arena.IsLive h) : s'.arena.IsLive h := by
  obtain ⟨i, hi⟩ := Arena.isLive_iff.mp hl
  obtain ⟨value, hi', -⟩ := hr.kept hi
  exact Arena.isLive_of_get? hi'

/-- An identifier that is no variable has not changed. -/
theorem Reassigns.get? (hr : s.Reassigns s') (hi : s.arena.get? h = some i)
    (hfixed : i.isVariable = false) : s'.arena.get? h = some i := by
  obtain ⟨value, hi', hvalue⟩ := hr.kept hi
  rw [hvalue hfixed] at hi'
  exact hi'

/-- A leaf has the name that it had. -/
theorem Reassigns.names (hr : s.Reassigns s') (hl : s.arena.IsLive h) {name : String}
    (hname : s'.Names h name) : s.Names h name := by
  obtain ⟨i, hi⟩ := Arena.isLive_iff.mp hl
  obtain ⟨value, hi', -⟩ := hr.kept hi
  obtain ⟨j, hj, hundefined, hsurface⟩ := hname
  obtain rfl := Option.some.inj (hi'.symm.trans hj)
  exact ⟨i, hi, hundefined, hsurface⟩

/-- A leaf goes on to stand for the same. -/
theorem Reassigns.standsFor (hs : s.Ready) (hr : s.Reassigns s') (hk : s.StandsFor h k) :
    s'.StandsFor h k := by
  obtain ⟨i, hi, hstands⟩ := hk
  obtain ⟨value, hi', -⟩ := hr.kept hi
  refine ⟨_, hi', ?_⟩
  by_cases hundefined : i.isUndefined
  · rw [if_pos hundefined] at hstands
    rw [Identifier.isUndefined_withValue, if_pos hundefined]
    exact (resolve_eq_iff hr.ready).mpr (hr.bound ((resolve_eq_iff hs).mp hstands))
  · rw [if_neg hundefined] at hstands
    rwa [Identifier.isUndefined_withValue, if_neg hundefined]

theorem Between.reassigns (hs : s.Ready) (hr : s.Reassigns s') {op : Builtin}
    (ho : s.Between o op) : s'.Between o op := by
  obtain ⟨k, f, hk, hf, hfunction, hrest⟩ := ho
  have hfixed : f.isVariable = false := by
    have hrole : f.role = .function := of_decide_eq_true hfunction
    simp [Identifier.isVariable, hrole]
  exact ⟨k, f, hr.standsFor hs hk, hr.get? hf hfixed, hfunction, hrest⟩

end Store

theorem Machine.setValue_of_get? {m : Machine} {h : Handle} {i : Identifier}
    (hi : m.store.arena.get? h = some i) (value : Value) :
    setValue h value m = .value () { m with store :=
      { m.store with arena := m.store.arena.put h.index { i with value } } } := by
  simp only [setValue, Action.tryStore, Arena.setValue?, hi]

end WordScript
