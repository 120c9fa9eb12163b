import WordScript.Proofs.Extensions

/-!
# Ownership in all states

The store is sound in every state that a host reaches, and everything in it that is held is live as
long as the host never stores an invalid identifier. So there is nothing that leaving a block could
fail on, however the block has come to its end.
-/

namespace WordScript

/-- Where an outcome leaves the machine, whether with a value or with an error. -/
def Outcome.EndsIn {α : Type} (P : Machine → Prop) : Outcome α → Prop
  | .value _ m => P m
  | .failure _ m => P m
  | .cutOff => True

theorem Outcome.EndsIn.of_machine? {α : Type} {P : Machine → Prop} {o : Outcome α} {m : Machine}
    (h : o.EndsIn P) (hm : o.machine? = some m) : P m := by
  cases o with
  | value a m₁ => exact Option.some.inj hm ▸ h
  | failure e m₁ => exact Option.some.inj hm ▸ h
  | cutOff => cases hm

namespace Evaluation

/-- The frame that a block or a condition opens is left without an error, once what runs in it has
come to an end, with a value or an error. -/
def LeavesCleanly (host : Host) (steps : Nat) (m : Machine) : Operation → Prop
  | .runBlock body =>
    (runAll (perform host steps) body none { m with store := m.store.enter }).EndsIn
      fun m' => (m'.store.leave (host.arrange m'.blocksLeft)).1 = .ok ()
  | .decide condition =>
    (holds (perform host steps) condition { m with store := m.store.enter }).EndsIn
      fun m' => (m'.store.leave (host.arrange m'.blocksLeft)).1 = .ok ()
  | _ => True

end Evaluation

namespace Contract

variable {C : Contract} {host : Host}

theorem Meets.endsIn {α : Type} {R : Store → Store → Prop} {P : Store → α → Prop} {s : Store}
    {o : Outcome α} {E : Machine → Prop} (h : C.Meets R P s o)
    (hE : ∀ m, C.Inv m.store → R s m.store → E m) : o.EndsIn E := by
  cases o with
  | value a m => exact hE m h.1 h.2.1
  | failure e m => exact hE m h.1 h.2.1
  | cutOff => trivial

/-- Frames are left cleanly under a contract whose invariant says that all that is held is live. -/
theorem Lawful.leavesCleanly (hC : C.Lawful host)
    (hsound : ∀ {s}, C.Inv s → s.Sound ∧ s.arena.Full) (steps : Nat) {m : Machine} {op : Operation}
    (hm : C.Inv m.store) (hadmits : C.Admits m.store op) :
    Evaluation.LeavesCleanly host steps m op := by
  have hleave : ∀ m' : Machine, C.Inv m'.store →
      (m'.store.leave (host.arrange m'.blocksLeft)).1 = .ok () := by
    intro m' hm'
    obtain ⟨hs, hf⟩ := hsound hm'
    exact hs.leave_ok (fun h hh => hf h (hs.inUse h hh)) (host.arrange_perm _)
  cases op with
  | runBlock body =>
    obtain ⟨hinv, hlasts⟩ := hC.lasts_inFrame hm (hC.opens hm) hadmits
      { m with store := m.store.enter } rfl
    exact (hC.keeps_runAll (hC.perform steps) body none hinv hlasts).meets.endsIn
      fun m' hm' _ => hleave m' hm'
  | decide condition =>
    obtain ⟨hinv, hlasts⟩ := hC.lasts_inFrame hm (hC.opens hm) hadmits
      { m with store := m.store.enter } rfl
    exact (hC.keeps_holds (hC.perform steps) hinv hlasts).meets.endsIn
      fun m' hm' _ => hleave m' hm'
  | _ => trivial

/-! ## Soundness is kept -/

theorem kept_sound :
    Kept Store.Sound (fun _ _ => True) (fun _ _ => True) (fun _ _ => True) (fun _ => True) where
  refl := fun _ => trivial
  trans := fun _ _ => trivial
  blocks := fun _ => trivial
  literal := fun _ => trivial
  declared := fun _ _ => trivial
  read := fun text _ _ hs => ⟨hs.ofText text, trivial⟩
  resolve := fun hs _ hr => ⟨hs.resolve hr, trivial⟩
  declare := fun hs _ hd => ⟨hs.declare hd, trivial⟩
  push := fun hs _ => ⟨hs.pushTemporary _, trivial⟩
  setValue := fun hs hi _ => ⟨hs.put hi rfl rfl, trivial⟩
  enter := fun hs _ => hs.enter
  leave := fun harrange _ _ _ hs' => ⟨hs'.leave harrange, trivial⟩
  goTo := fun space hs => hs.goTo space
  restore := fun _ _ _ hs _ _ hs' => ⟨hs'.restore hs.visible, trivial⟩

theorem kept_full :
    Kept (fun s => s.Sound ∧ s.arena.Full) (fun _ _ => True) (fun _ _ => True) (fun _ _ => True)
      Identifier.IsValid where
  refl := fun _ => trivial
  trans := fun _ _ => trivial
  blocks := fun _ => trivial
  literal := fun hi => hi.isValid
  declared := fun name type => by simp [Identifier.IsValid, Identifier.asVariable]
  read := fun text _ _ hs => ⟨⟨hs.1.ofText text, Store.full_ofText hs.1 hs.2 text⟩, trivial⟩
  resolve := fun hs _ hr => ⟨⟨hs.1.resolve hr, Store.full_resolve hs.1 hs.2 hr⟩, trivial⟩
  declare := fun hs hi hd => ⟨⟨hs.1.declare hd, Store.full_declare hs.1 hs.2 hi hd⟩, trivial⟩
  push := fun hs hi => ⟨⟨hs.1.pushTemporary _, Arena.Full.push hs.1.tidy hs.2 hi⟩, trivial⟩
  setValue := by
    intro s h i hs hi value
    have hrole : i.role ≠ .invalid := Arena.role_ne_invalid hi
    exact ⟨⟨hs.1.put hi rfl rfl,
      Arena.Full.put hs.1.tidy hs.2 (Arena.isLive_of_get? hi) hrole⟩, trivial⟩
  enter := fun hs _ => ⟨hs.1.enter, hs.2⟩
  leave := fun harrange _ _ _ hs' =>
    ⟨⟨hs'.1.leave harrange, Store.full_leave hs'.1 hs'.2 _⟩, trivial⟩
  goTo := fun space hs => ⟨hs.1.goTo space, hs.2⟩
  restore := fun _ _ _ hs _ _ hs' => ⟨⟨hs'.1.restore hs.1.visible, hs'.2⟩, trivial⟩

end Contract

/-- In every state that is reached without storing an invalid identifier, the frames own what they
hold, and whatever runs in a frame of its own, that frame is left without an error. -/
theorem reached_owned {host : Host} (hhost : host.AsksOnly Operation.StoresValid) {m : Machine}
    (hm : Reached host Operation.StoresValid m) :
    m.store.Owned ∧ ∀ steps op, Evaluation.LeavesCleanly host steps m op := by
  have hK := Contract.kept_full
  obtain ⟨hs, hf⟩ := hK.reached hhost ⟨Store.sound_initial, Store.full_initial⟩ hm
  refine ⟨hs.owned hf, fun steps op => ?_⟩
  by_cases hop : op.Stores Identifier.IsValid
  · exact (hK.lawful hhost).leavesCleanly id steps ⟨hs, hf⟩ (Contract.admits_uniform hop)
  · cases op <;> first | exact absurd trivial hop | trivial

set_option maxRecDepth 100000 in
/-- A block declares a variable, makes a temporary identifier for a sum and loads a module, which
runs a text as a block of its own. The frame of the block holds five identifiers when it is left. -/
theorem reached_owned_declare :
    let host := Extension.Registry.host
      [("m", [.constant "n" (.int 1), .run "decas k :: int\nk = n\n"])]
    let text := "decas x :: int\nx = 1 + 2\ninclude m as lib\n"
    ∃ s m inside m', perform host 1 (.readText text) (.initial {}) = .value (.ok s) m ∧
      (m.store.Owned ∧ ∀ steps op, Evaluation.LeavesCleanly host steps m op) ∧
      Evaluation.runAll (perform host 14) s.body none { m with store := m.store.enter } =
        .value () inside ∧
      (inside.store.scopes.frameAt "" 1).handles.length = 5 ∧
      (inside.store.leave (host.arrange inside.blocksLeft)).1 = .ok () ∧
      perform host 15 (.runBlock s.body) m = .value () m' ∧
      (m'.store.Owned ∧ ∀ steps op, Evaluation.LeavesCleanly host steps m' op) := by
  intro host text
  have hrun : (perform host 1 (.readText text) (.initial {})).test (fun result m =>
      result.toOption.any fun s =>
        (perform host 15 (.runBlock s.body) m).test (fun _ _ => true) &&
        (Evaluation.runAll (perform host 14) s.body none { m with store := m.store.enter }).test
          fun _ inside =>
            decide ((inside.store.scopes.frameAt "" 1).handles.length = 5)) = true := by
    decide +kernel
  obtain ⟨result, m, hread, hrun⟩ := Outcome.exists_of_test hrun
  obtain ⟨s, rfl, hrun⟩ := Except.exists_of_any_toOption hrun
  obtain ⟨hblock, hbody⟩ := Bool.and_eq_true_iff.mp hrun
  obtain ⟨_, m', hblock, -⟩ := Outcome.exists_of_test hblock
  obtain ⟨_, inside, hbody, hholds⟩ := Outcome.exists_of_test hbody
  have hhost : host.AsksOnly Operation.StoresValid := by
    refine Extension.Registry.host_asksOnly ?_
    simp [Extension.Directive.StoresValid, Identifier.IsValid, Identifier.int, Identifier.constant]
  have hreading : Operation.StoresValid (.readText text) := trivial
  have hrunning : Operation.StoresValid (.runBlock s.body) := trivial
  have hm : Reached host Operation.StoresValid m := .value (.initial {}) hreading .here hread
  have howned := reached_owned hhost hm
  have hleft := howned.2 14 (.runBlock s.body)
  simp only [Evaluation.LeavesCleanly, hbody] at hleft
  exact ⟨s, m, inside, m', hread, howned, hbody, of_decide_eq_true hholds, hleft, hblock,
    reached_owned hhost (.value hm hrunning .here hblock)⟩

end WordScript
