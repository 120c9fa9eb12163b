import WordScript.Proofs.Sequence

/-!
# Operations that are involved

An action involves an operation when it is cut off with it: it gets as far as to ask for it. What is
to be shown of an action is shown up to the operations that it involves; by induction on the steps,
it then holds of a whole operation, whatever that is made of.
-/

namespace WordScript

namespace Evaluation

open WordScript.Action WordScript.Machine

variable {α β : Type} {Which : Operation → Machine → Prop} {self : Performer} {m m₁ : Machine}
  {x : Performer → Action α} {f : α → Performer → Action β}

/-- The action involves an operation, on a machine, that is such a one: when that is cut off, the
action is too. -/
def Involves (Which : Operation → Machine → Prop) (self : Performer) (x : Performer → Action α)
    (m : Machine) : Prop :=
  ∃ op m', Which op m' ∧ x (alter self op m' .cutOff) m = .cutOff

theorem involves_ask {op : Operation} (h : Which op m) :
    Involves Which self (fun self => self op) m :=
  ⟨op, m, h, alter_self self op m .cutOff⟩

/-- What comes first is involved. -/
theorem Involves.bind (h : Involves Which self x m) :
    Involves Which self (fun self => x self >>= fun a => f a self) m := by
  obtain ⟨op, m', hop, hcut⟩ := h
  refine ⟨op, m', hop, ?_⟩
  simp only [Action.bind_apply, hcut]

/-- So is what comes next, once the first has given a value. -/
theorem Involves.bind_value (hx : Sequential x) {a : α} (hvalue : x self m = .value a m₁)
    (h : Involves Which self (f a) m₁) :
    Involves Which self (fun self => x self >>= fun a => f a self) m := by
  obtain ⟨op, m', hop, hcut⟩ := h
  refine ⟨op, m', hop, ?_⟩
  simp only [Action.bind_apply]
  rcases hx.alter op m' (by rw [hvalue]; nofun) with hsame | hcut'
  · rw [hsame, hvalue]
    exact hcut
  · rw [hcut']

theorem Involves.inFrame (host : Host)
    (h : Involves Which self x { m with store := m.store.enter }) :
    Involves Which self (fun self => Evaluation.inFrame host (x self)) m := by
  obtain ⟨op, m', hop, hcut⟩ := h
  exact ⟨op, m', hop, inFrame_eq_cutOff_iff.mpr hcut⟩

/-- Reading an identifier involves nothing, and makes no difference to how an action ends. -/
theorem or_involves_of_get? {Good : Outcome β → Prop} {h : Handle} {i : Identifier}
    {g : Identifier → Performer → Action β} (hi : m.store.arena.get? h = some i)
    (hg : Good (g i self m) ∨ Involves Which self (g i) m) :
    Good ((identifier h >>= fun i => g i self) m) ∨
      Involves Which self (fun self => identifier h >>= fun i => g i self) m := by
  have hread : ∀ self, (identifier h >>= fun i => g i self) m = g i self m := by
    intro self
    rw [Action.bind_apply, identifier, hi]
  rcases hg with hgood | ⟨op, m', hop, hcut⟩
  · rw [hread]
    exact .inl hgood
  · exact .inr ⟨op, m', hop, (hread _).trans hcut⟩

/-- What one step of an operation involves is asked in it, and is not cut off. -/
theorem Involves.inside {host : Host} {steps : Nat} {op : Operation}
    (h : Involves Which (perform host steps) (fun self => step host self steps op) m)
    (hends : step host (perform host steps) steps op m ≠ .cutOff) :
    ∃ op' m', Which op' m' ∧ Inside host steps op m op' m' ∧
      perform host steps op' m' ≠ .cutOff := by
  obtain ⟨op', m', hop', hcut⟩ := h
  have hasks := asks_of_cutOff (x := fun self => step host self steps op) hends hcut
  refine ⟨op', m', hop', .evaluation hasks, fun hcutOff => hends ?_⟩
  rwa [← hcutOff, alter_same] at hcut

end Evaluation

end WordScript
