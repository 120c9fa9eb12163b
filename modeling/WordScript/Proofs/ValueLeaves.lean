import Mathlib.Data.List.Induction
import WordScript.Proofs.Infix
import WordScript.Proofs.Values

/-!
# Groups of value leaves

A value leaf is a literal, a variable, or a name without a namespace in front that is not bound to a
function. Nothing can go wrong when such leaves are resolved: a group of them comes to what they
stand for, and all that happens is that names are bound which were not.
-/

namespace WordScript

namespace Store

/-- The leaf is no function; a name that is not declared has no namespace in front, and what it is
bound to, if it is, is no function either. -/
def ValueLeaf (s : Store) (h : Handle) : Prop :=
  ∃ i, s.arena.get? h = some i ∧
    if i.isUndefined then
      qualified? i.surface = none ∧ ∀ k, s.scopes.bound? i.surface = some k →
        ∃ j, s.arena.get? k = some j ∧ j.isFunction = false
    else i.isFunction = false

variable {s s' : Store} {h k : Handle} {leaves : List Handle}

theorem ValueLeaf.isLive (hh : s.ValueLeaf h) : s.arena.IsLive h := by
  obtain ⟨i, hi, -⟩ := hh
  exact Arena.isLive_of_get? hi

/-- The name of a value leaf has no namespace in front. -/
theorem ValueLeaf.plain (hh : s.ValueLeaf h) {name : String} (hname : s.Names h name) :
    qualified? name = none := by
  obtain ⟨i, hi, hleaf⟩ := hh
  obtain ⟨j, hj, hundefined, rfl⟩ := hname
  obtain rfl := Option.some.inj (hi.symm.trans hj)
  rw [if_pos hundefined] at hleaf
  exact hleaf.1

/-- What a value leaf stands for is there, and no function. -/
theorem ValueLeaf.of_standsFor (hs : s.Ready) (hh : s.ValueLeaf h) (hk : s.StandsFor h k) :
    ∃ j, s.arena.get? k = some j ∧ j.isFunction = false := by
  obtain ⟨i, hi, hleaf⟩ := hh
  obtain ⟨i', hi', hk⟩ := hk
  obtain rfl := Option.some.inj (hi.symm.trans hi')
  by_cases hundefined : i.isUndefined
  · rw [if_pos hundefined] at hk hleaf
    exact hleaf.2 k ((resolve_eq_iff hs).mp hk)
  · rw [if_neg hundefined] at hk hleaf
    subst hk
    exact ⟨i, hi, hleaf⟩

/-- What a value leaf stands for stands for itself. -/
theorem ValueLeaf.standsFor_again (hs : s.Ready) (hh : s.ValueLeaf h) (hk : s.StandsFor h k) :
    s.StandsFor k k := by
  obtain ⟨j, hj, -⟩ := hh.of_standsFor hs hk
  obtain ⟨i, hi, hleaf⟩ := hh
  obtain ⟨i', hi', hstands⟩ := hk
  obtain rfl := Option.some.inj (hi.symm.trans hi')
  by_cases hundefined : i.isUndefined
  · rw [if_pos hundefined] at hstands hleaf
    refine ⟨j, hj, ?_⟩
    split
    · rcases surface_of_resolve hs.sound hstands hj with hsurface | ⟨space, hq⟩
      · rwa [hsurface]
      · rw [hleaf.1] at hq
        cases hq
    · rfl
  · rw [if_neg hundefined] at hstands
    subst hstands
    exact standsFor_self hi (by simpa using hundefined)

/-- A value leaf stays one when a name is resolved. -/
theorem ValueLeaf.resolve (hs : s.Ready) {name : String} (hr : s.resolve name = .ok (k, s'))
    (hh : s.ValueLeaf h) : s'.ValueLeaf h := by
  obtain ⟨i, hi, hleaf⟩ := hh
  have hw := widens_resolve hs hr
  refine ⟨i, hw.kept hi, ?_⟩
  by_cases hundefined : i.isUndefined
  · rw [if_pos hundefined] at hleaf ⊢
    refine ⟨hleaf.1, fun k' hk' => ?_⟩
    rcases (makesNoFunction_resolve hs hr).bound hk' with hold | hnew
    · obtain ⟨j, hj, hvalue⟩ := hleaf.2 k' hold
      exact ⟨j, hw.kept hj, hvalue⟩
    · exact hnew
  · rwa [if_neg hundefined] at hleaf ⊢

theorem ValueLeaf.bindsNamesOf (hs : s.Ready) (hbinds : s.BindsNamesOf leaves s')
    (hh : s.ValueLeaf h) : s'.ValueLeaf h := by
  obtain ⟨names, hnames, -⟩ := hbinds
  induction hnames with
  | nil => exact hh
  | cons _ hr _ ih => exact ih (widens_resolve hs hr).ready (hh.resolve hs hr)

theorem Names.eq {name name' : String} (hname : s.Names h name) (hname' : s.Names h name') :
    name = name' := by
  obtain ⟨i, hi, -, rfl⟩ := hname
  obtain ⟨j, hj, -, rfl⟩ := hname'
  obtain rfl := Option.some.inj (hi.symm.trans hj)
  rfl

/-- A name without a namespace in front can be resolved. -/
theorem exists_resolve_plain (s : Store) {name : String} (hplain : qualified? name = none) :
    ∃ k s', s.resolve name = .ok (k, s') := by
  rw [resolve, hplain]
  cases s.scopes.lookup? name with
  | some k => exact ⟨k, _, rfl⟩
  | none => exact ⟨_, _, rfl⟩

/-- The leaf of a name that is not bound stands for nothing. -/
theorem Names.not_standsFor (hs : s.Ready) {name : String} (hname : s.Names h name)
    (hfree : s.scopes.bound? name = none) : ¬ s.StandsFor h k := by
  rintro ⟨i, hi, hstands⟩
  obtain ⟨j, hj, hundefined, rfl⟩ := hname
  obtain rfl := Option.some.inj (hi.symm.trans hj)
  rw [if_pos hundefined, resolve_eq_iff hs, hfree] at hstands
  cases hstands

/-- Nothing happens when every leaf stands for something already. -/
theorem BindsNamesOf.eq_of_standsFor (hs : s.Ready) (h : s.BindsNamesOf leaves s')
    (hleaves : ∀ h ∈ leaves, ∃ k, s.StandsFor h k) : s' = s := by
  have hw := h.widens hs
  obtain ⟨names, hnames, hof⟩ := h
  cases hnames with
  | nil => rfl
  | @cons _ _ _ name names first hfree hr hrest =>
    obtain ⟨h, hh, hname⟩ := hof name (List.mem_cons_self ..)
    obtain ⟨k, hk⟩ := hleaves h hh
    obtain ⟨i, hi, -⟩ := id hk
    obtain ⟨j, hj, hnamed⟩ := hname
    obtain rfl := Option.some.inj ((hw.kept hi).symm.trans hj)
    exact absurd hk (Names.not_standsFor hs ⟨i, hi, hnamed⟩ hfree)

end Store

namespace Evaluation

open WordScript.Action WordScript.Machine

variable {m : Machine} {h : Handle} {hs : List Handle}

/-- A value leaf can be resolved. -/
theorem exists_resolveLeaf (hready : m.store.Ready) (hh : m.store.ValueLeaf h) :
    ∃ k s, resolveLeaf h m = .value k { m with store := s } ∧ m.store.BindsNamesOf [h] s ∧
      s.StandsFor h k := by
  obtain ⟨i, hi, hleaf⟩ := hh
  have hvalue : ∃ k m', resolveLeaf h m = .value k m' := by
    by_cases hundefined : i.isUndefined
    · rw [if_pos hundefined] at hleaf
      obtain ⟨k, s, hr⟩ := Store.exists_resolve_plain m.store hleaf.1
      exact ⟨k, { m with store := s }, resolveLeaf_of_resolve hi hundefined hr⟩
    · exact ⟨h, m, resolveLeaf_of_standsFor (Store.standsFor_self hi (by simpa using hundefined))⟩
  obtain ⟨k, m', hr⟩ := hvalue
  obtain ⟨hstands, rfl | ⟨j, s, rfl, hj, hundefined, hfree, hresolve⟩⟩ := resolveLeaf_cases hready hr
  · exact ⟨k, m'.store, hr, .refl _ _, hstands⟩
  · refine ⟨k, s, hr, ⟨[j.surface], .cons hfree hresolve (.nil s), fun name hname => ?_⟩, hstands⟩
    obtain rfl := List.mem_singleton.mp hname
    have hkept := (Store.widens_resolve hready hresolve).kept hj
    exact ⟨h, List.mem_singleton_self h, j, hkept, hundefined, rfl⟩

/-- By induction on the leaves from right to left, all of them wait in the end. -/
theorem exists_scan_leaves (self : Performer) (hready : m.store.Ready)
    (hleaves : ∀ h ∈ hs, m.store.ValueLeaf h) (waiting : List Expression) :
    ∃ ks s, (∀ before, scan self ((hs.map .leaf).reverse ++ before) waiting m =
        scan self before (ks.map .leaf ++ waiting) { m with store := s }) ∧
      m.store.BindsNamesOf hs s ∧ List.Forall₂ s.StandsFor hs ks := by
  induction hs using List.reverseRecOn generalizing m waiting with
  | nil => exact ⟨[], m.store, fun _ => rfl, .refl _ _, .nil⟩
  | append_singleton hs h ih =>
    obtain ⟨k, s₁, hr, hbinds₁, hk⟩ := exists_resolveLeaf hready (hleaves h (by simp))
    have hready₁ := (hbinds₁.widens hready).ready
    have hleaves₁ : ∀ h' ∈ hs ++ [h], s₁.ValueLeaf h' := fun h' hh' =>
      (hleaves h' hh').bindsNamesOf hready hbinds₁
    obtain ⟨i, hi, hvalue⟩ := (hleaves₁ h (by simp)).of_standsFor hready₁ hk
    obtain ⟨ks, s, hscan, hbinds, hks⟩ := ih (m := { m with store := s₁ }) hready₁
      (fun h' hh' => hleaves₁ h' (by simp [hh'])) (.leaf k :: waiting)
    refine ⟨ks ++ [k], s, fun before => ?_, ?_, ?_⟩
    · rw [List.map_append, List.reverse_append, List.append_assoc, List.map_singleton,
        List.reverse_singleton, List.singleton_append, scan_value hr hi hvalue, hscan,
        List.map_append, List.append_assoc]
      rfl
    · exact (hbinds₁.mono (by simp)).trans hready (hbinds.mono (by simp))
    · exact List.rel_append hks (.cons (hk.widen hready₁ (hbinds.widens hready₁)) .nil)

/-- A group of value leaves comes to what they stand for. -/
theorem exists_evaluate_leaves (host : Host) (steps : Nat) (hready : m.store.Ready)
    (hleaves : ∀ h ∈ hs, m.store.ValueLeaf h) :
    ∃ ks s, perform host (steps + 2) (.evaluate (.group (hs.map .leaf))) m =
        .value ks { m.noted (hs.map .leaf) with store := s } ∧
      m.store.BindsNamesOf hs s ∧ List.Forall₂ s.StandsFor hs ks := by
  obtain ⟨ks, s, hscan, hbinds, hks⟩ := exists_scan_leaves (perform host steps)
    (m := m.noted (hs.map .leaf)) hready hleaves []
  refine ⟨ks, s, ?_, hbinds, hks⟩
  rw [perform_evaluate_group, Action.bind_apply]
  have hend := hscan []
  rw [List.append_nil, List.append_nil] at hend
  rw [hend]
  simp only [scan]
  exact concatMap_collect_leaf _ ks _

/-- A leaf stands for one thing only. -/
theorem rightUnique_standsFor (m : Machine) : Relator.RightUnique m.store.StandsFor :=
  fun _ _ _ hk hk' =>
    (Outcome.value.inj ((resolveLeaf_of_standsFor hk).symm.trans (resolveLeaf_of_standsFor hk'))).1

/-- Nothing happens when all of them stand for something already. -/
theorem evaluate_leaves_of_standsFor (host : Host) (steps : Nat) (hready : m.store.Ready)
    (hleaves : ∀ h ∈ hs, m.store.ValueLeaf h) {ks : List Handle}
    (hks : List.Forall₂ m.store.StandsFor hs ks) :
    perform host (steps + 2) (.evaluate (.group (hs.map .leaf))) m =
      .value ks (m.noted (hs.map .leaf)) := by
  have hstands : ∀ h ∈ hs, ∃ k, m.store.StandsFor h k := by
    intro h hh
    obtain ⟨k, -, hk⟩ := exists_of_forall₂ hks hh
    exact ⟨k, hk⟩
  obtain ⟨ks', s, hend, hbinds, hks'⟩ := exists_evaluate_leaves host steps hready hleaves
  obtain rfl := hbinds.eq_of_standsFor hready hstands
  obtain rfl := List.right_unique_forall₂' (rightUnique_standsFor m) hks' hks
  exact hend

end Evaluation

end WordScript
