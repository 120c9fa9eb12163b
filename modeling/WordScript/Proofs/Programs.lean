import WordScript.Program
import WordScript.Proofs.Liveness

/-!
# Running programs

What someone asks who only reads and runs programs, on a machine that knows no functions but the
built-in ones: texts are read, or run, and statements that have been read are run or evaluated as
often as one likes. Their leaves are loose, so that nothing else ever touches them.
-/

namespace WordScript

/-- No module can be opened, and the error that tells so is one that may come up. -/
def Host.HasNoModules (host : Host) : Prop :=
  ∀ path, ∃ e, host.openModule path = .error e ∧ ¬ e.IsInternal

theorem Host.HasNoModules.not_opened {host : Host} (hhost : host.HasNoModules) {path : String}
    {entry : List Expression → Script Unit} (hopen : host.openModule path = .ok entry) : False := by
  obtain ⟨e, he, -⟩ := hhost path
  rw [hopen] at he
  cases he

theorem Host.HasNoModules.not_isInternal {host : Host} (hhost : host.HasNoModules) {path : String}
    {e : RuntimeError} (hopen : host.openModule path = .error e) : ¬ e.IsInternal := by
  obtain ⟨e', he', hinternal⟩ := hhost path
  rw [hopen] at he'
  obtain rfl := Except.error.inj he'
  exact hinternal

/-- A registry without modules. -/
theorem Extension.Registry.host_hasNoModules : (Registry.host []).HasNoModules := by
  intro path
  refine ⟨.moduleOpen path "no module registered under this path", rfl, ?_⟩
  exact RuntimeError.not_isInternal nofun nofun

/-- Texts are read and run, and so are statements and expressions whose leaves are loose. -/
def Operation.OfPrograms (s : Store) : Operation → Prop
  | .readText _ => True
  | .runText _ => True
  | .runTextTopLevel _ => True
  | .run st => ∀ h ∈ st.leaves, s.Loose h
  | .runTopLevel st => ∀ h ∈ st.leaves, s.Loose h
  | .evaluate e => ∀ h ∈ e.leaves, s.Loose h
  | _ => False

/-- The machine is one on which programs have been read and run since it was `m₀`. -/
abbrev Machine.After (host : Host) (m₀ m : Machine) : Prop :=
  Later host Operation.OfPrograms m₀ m

namespace Machine

/-- An attempt leaves the machine where the action does, unless that is cut off. -/
theorem attempt_cases (m : Machine) (x : Action (Except SyntaxError Unit)) :
    (m.attempt x).2 = m ∨ (x m).machine? = some (m.attempt x).2 := by
  unfold attempt
  cases x m with
  | value a m' =>
    refine .inr ?_
    cases a <;> rfl
  | failure e m' => exact .inr rfl
  | cutOff => exact .inl rfl

namespace After

variable {host : Host} {m₀ m m' : Machine}

theorem refl : After host m m := Later.refl

/-- An operation of a program is carried out, whether that succeeds or not. -/
theorem of_machine? (h : After host m₀ m) {op : Operation} {steps : Nat}
    (hend : (perform host steps op m).machine? = some m') (hop : op.OfPrograms m.store) :
    After host m₀ m' := by
  cases hperform : perform host steps op m with
  | value a m₁ =>
    rw [hperform] at hend
    obtain rfl := Option.some.inj hend
    exact h.value hop .here hperform
  | failure e m₁ =>
    rw [hperform] at hend
    obtain rfl := Option.some.inj hend
    exact h.failure hop .here hperform
  | cutOff =>
    rw [hperform] at hend
    cases hend

theorem attempt (h : After host m₀ m) {x : Action (Except SyntaxError Unit)}
    (hx : ∀ {m'}, (x m).machine? = some m' → After host m₀ m') :
    After host m₀ (m.attempt x).2 := by
  rcases m.attempt_cases x with heq | hend
  · rw [heq]
    exact h
  · exact hx hend

end After

end Machine

namespace Contract

variable {C : Contract} {host : Host}

/-- What programs ask is admitted by a contract for the leaves that are loose. -/
theorem admits_of_ofPrograms (hC : C.Lawful host) (hreads : ∀ text, C.Reads text)
    (hlasts : ∀ s h, C.Inv s → s.Loose h → C.Lasts s h) (s : Store) (op : Operation)
    (hs : C.Inv s) (hop : op.OfPrograms s) : C.Admits s op := by
  cases op with
  | readText text => exact hreads text
  | runText text => exact hreads text
  | runTextTopLevel text => exact hreads text
  | run st => exact fun h hh => hlasts s h hs (hop h hh)
  | runTopLevel st => exact fun h hh => hlasts s h hs (hop h hh)
  | evaluate e => exact hC.fitsExpression_of_lasts hs fun h hh => hlasts s h hs (hop h hh)
  | _ => exact hop.elim

end Contract

end WordScript
