import WordScript.Proofs.Concatenation
import WordScript.Proofs.Coupling
import WordScript.Proofs.Sequence

/-!
# Texts that are run

A text is read into a statement without a head. To run it as a block is to run its statements one
after the other in a frame of their own, and to run it in the current frame is to run them there.
Statements one after the other are run by running the first ones and then the others, which only
learn from them how far a ladder has been climbed.
-/

namespace WordScript

/-- Both machines have written the same. -/
def Machine.SameSink (m m' : Machine) : Prop := m.sink = m'.sink

theorem Expression.isEmpty_iff {e : Expression} : e.isEmpty = true ↔ e = .group [] := by
  cases e with
  | leaf h => simp [isEmpty]
  | group es => cases es <;> simp [isEmpty]

namespace Outcome

variable {α β : Type} {R : Machine → Machine → Prop} {x y : Action α} {m m' : Machine}

/-- Actions that end the same way are followed by the same in the same way. -/
theorem Agrees.bind_pure (h : (x m).Agrees R (y m')) (b : β) :
    ((x >>= fun _ => pure b) m).Agrees R ((y >>= fun _ => pure b) m') := by
  rw [Action.bind_apply, Action.bind_apply]
  cases hx : x m <;> cases hy : y m' <;> rw [hx, hy] at h <;> first | exact h.elim | skip
  · exact ⟨rfl, h.2⟩
  · exact h
  · trivial

end Outcome

/-- Nothing stands on the line. -/
def Statement.isBlank (s : Statement) : Bool := s.head.isEmpty && !s.isBlock

/-- The first word of the statement stands for the one that goes on with a ladder, where the
statement is run. -/
def Statement.HeadsElse (s : Statement) (m : Machine) : Prop :=
  (Evaluation.controlWord? s.head.parts.head? m).answer? = some (some .elseWord)

instance (s : Statement) (m : Machine) : Decidable (s.HeadsElse m) :=
  inferInstanceAs (Decidable (_ = _))

/-- The first of the statements with anything on it does not go on with a ladder. -/
def StartsAfresh (ss : List Statement) (m : Machine) : Prop :=
  ∀ s ∈ ss.find? fun s => !s.isBlank, ¬ s.HeadsElse m

instance (ss : List Statement) (m : Machine) : Decidable (StartsAfresh ss m) :=
  inferInstanceAs (Decidable (∀ s ∈ _, _))

namespace Evaluation

variable {text : String} {s : Statement} {m : Machine}

/-- The machine when it has read a text. -/
def afterReading (text : String) (m : Machine) : Machine :=
  { m with store := { m.store with arena := (Statement.ofText text m.store.arena).2 } }

theorem withText_of_ok (hs : (Statement.ofText text m.store.arena).1 = .ok s)
    (next : Statement → Action Unit) :
    withText text next m = (next s >>= fun _ => pure (.ok ())) (afterReading text m) := by
  have hread : Machine.readText text m = .value (.ok s) (afterReading text m) := by
    rw [← hs]
    rfl
  simp only [withText, Action.bind_apply, hread]

theorem withText_of_error {e : SyntaxError}
    (he : (Statement.ofText text m.store.arena).1 = .error e) (next : Statement → Action Unit) :
    withText text next m = .value (.error e) (afterReading text m) := by
  have hread : Machine.readText text m = .value (.error e) (afterReading text m) := by
    rw [← he]
    rfl
  simp only [withText, Action.bind_apply, hread]
  rfl

/-! ## Statements without a head -/

/-- A statement without a head is no rung of a ladder and no loop. -/
theorem runStep_of_head (hs : s.head = .group []) (self : Performer) (steps : Nat)
    (ladder : Option Bool) :
    runStep self steps s ladder =
      if s.isBlock then self (.runBlock s.body) >>= fun _ => pure none else pure ladder := by
  unfold runStep
  rw [hs]
  cases s.isBlock <;> rfl

theorem perform_run_of_body (hs : s.head = .group []) (hbody : s.body ≠ []) (host : Host)
    (steps : Nat) :
    perform host (steps + 3) (.run s) = inFrame host (runAll (perform host steps) s.body none) := by
  have hblock : s.isBlock = true := by simpa [Statement.isBlock] using hbody
  change (runStep (perform host (steps + 1)) (steps + 1) s none >>= fun _ => pure ()) = _
  rw [runStep_of_head hs, if_pos hblock, bind_assoc]
  exact bind_pure _

theorem perform_run_of_empty (hs : s.head = .group []) (hbody : s.body = []) (host : Host)
    (steps : Nat) : perform host (steps + 2) (.run s) = pure () := by
  have hblock : s.isBlock = false := by simpa [Statement.isBlock] using hbody
  change (runStep (perform host steps) steps s none >>= fun _ => pure ()) = _
  rw [runStep_of_head hs, hblock]
  rfl

theorem perform_runTopLevel_of_head (hs : s.head = .group []) (host : Host) (steps : Nat) :
    perform host (steps + 1) (.runTopLevel s) = runAll (perform host steps) s.body none := by
  change runTopLevel (perform host steps) s = _
  unfold runTopLevel
  rw [hs]
  rfl

/-! ## Statements one after the other -/

/-- Runs statements one after the other, and gives what they tell the next one of the rungs right
before it. -/
def runRungs (self : Performer) : List Statement → Option Bool → Action (Option Bool)
  | [], ladder => pure ladder
  | s :: ss, ladder => do
    let ladder ← self (.runStep s ladder)
    runRungs self ss ladder

theorem runAll_append (self : Performer) (ss ss' : List Statement) (ladder : Option Bool) :
    runAll self (ss ++ ss') ladder = runRungs self ss ladder >>= runAll self ss' := by
  induction ss generalizing ladder with
  | nil => exact (pure_bind _ _).symm
  | cons s ss ih =>
    simp only [List.cons_append, runAll, runRungs, bind_assoc]
    exact congrArg _ (funext fun ladder => ih ladder)

theorem runAll_eq_runRungs (self : Performer) (ss : List Statement) (ladder : Option Bool) :
    runAll self ss ladder = runRungs self ss ladder >>= fun _ => pure () := by
  have happend := runAll_append self ss [] ladder
  rw [List.append_nil] at happend
  exact happend

/-! ## Ladders -/

/-- A statement that does not go on with a ladder is no rung but a first one. -/
theorem classify_of_not_headsElse (hs : ¬ s.HeadsElse m) {found : Head} {m' : Machine}
    (hfound : classify s.head m = .value found m') :
    (∀ condition, found ≠ .elseIf condition) ∧ found ≠ .otherwise := by
  unfold classify at hfound
  rw [Action.bind_apply] at hfound
  cases hword : controlWord? s.head.parts.head? m with
  | failure e m₁ => rw [hword] at hfound; cases hfound
  | cutOff => rw [hword] at hfound; cases hfound
  | value op m₁ =>
    rw [hword] at hfound
    have hop : op ≠ some .elseWord := by
      rintro rfl
      exact hs (by rw [Statement.HeadsElse, hword]; rfl)
    simp only at hfound
    split at hfound <;> first | exact absurd rfl hop | (cases hfound; exact ⟨nofun, nofun⟩)

theorem runStep_of_not_headsElse (hs : ¬ s.HeadsElse m) (self : Performer) (steps : Nat)
    (ladder : Option Bool) (hblank : s.isBlank = false) :
    runStep self steps s ladder m = runStep self steps s none m := by
  have hblank' : ¬ (s.head.isEmpty && !s.isBlock) = true := by
    rw [show (s.head.isEmpty && !s.isBlock) = s.isBlank from rfl, hblank]
    nofun
  unfold runStep
  rw [if_neg hblank', if_neg hblank', Action.bind_apply, Action.bind_apply]
  cases hfound : classify s.head m with
  | failure e m₁ => rfl
  | cutOff => rfl
  | value found m₁ =>
    obtain ⟨helseIf, hotherwise⟩ := classify_of_not_headsElse hs hfound
    cases found with
    | elseIf condition => exact absurd rfl (helseIf condition)
    | otherwise => exact absurd rfl hotherwise
    | _ => rfl

/-- Statements that do not go on with a ladder learn nothing from it. -/
theorem runAll_of_startsAfresh (host : Host) (steps : Nat) {ss : List Statement}
    (hss : StartsAfresh ss m) (ladder : Option Bool) :
    runAll (perform host steps) ss ladder m = runAll (perform host steps) ss none m := by
  cases steps with
  | zero => cases ss <;> rfl
  | succ steps =>
    induction ss with
    | nil => rfl
    | cons s ss ih =>
      have hstep : ∀ ladder, runAll (perform host (steps + 1)) (s :: ss) ladder m =
          (runStep (perform host steps) steps s ladder >>=
            runAll (perform host (steps + 1)) ss) m := fun _ => rfl
      rw [hstep, hstep]
      cases hblank : s.isBlank with
      | true =>
        have hskips : ∀ ladder, runStep (perform host steps) steps s ladder = pure ladder :=
          fun _ => if_pos hblank
        rw [hskips, hskips, pure_bind, pure_bind]
        refine ih fun s' hs' => hss s' ?_
        rwa [List.find?_cons_of_neg (by simp [hblank])]
      | false =>
        have hs := hss s (List.find?_cons_of_pos (by simp [hblank]))
        rw [Action.bind_apply, Action.bind_apply,
          runStep_of_not_headsElse hs _ _ ladder hblank]

end Evaluation

end WordScript
