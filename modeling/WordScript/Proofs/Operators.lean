import WordScript.Identifier.Operators
import WordScript.Proofs.Reading

/-!
# What operators give

The results of operators are constants without a name, and the only errors that they come up with
are texts that write no number, and divisions by zero. None of them is about a handle or a call.
-/

namespace WordScript

namespace RuntimeError

/-- The error tells of a handle that refers to nothing. -/
def IsInvalidReference (e : RuntimeError) : Prop :=
  ∃ h, e = .invalidReference h

theorem not_isInvalidReference {e : RuntimeError} (he : ∀ h, e ≠ .invalidReference h) :
    ¬ e.IsInvalidReference :=
  fun ⟨h, heq⟩ => he h heq

/-- The error tells of something that should never come up: a handle that refers to nothing, or a
call of something that cannot be called. -/
def IsInternal (e : RuntimeError) : Prop :=
  e.IsInvalidReference ∨ ∃ name, e = .notCallable name

theorem not_isInternal {e : RuntimeError} (hreference : ∀ h, e ≠ .invalidReference h)
    (hcall : ∀ name, e ≠ .notCallable name) : ¬ e.IsInternal := by
  rintro (⟨h, heq⟩ | ⟨name, heq⟩)
  · exact hreference h heq
  · exact hcall name heq

/-- The error tells of a text that writes no number. -/
def IsNumericCast (e : RuntimeError) : Prop :=
  ∃ text type, e = .numericCast text type

/-- One thing after the other fails on such a text when each of them does. -/
theorem isNumericCast_of_bind {α β : Type} {x : Except RuntimeError α}
    {f : α → Except RuntimeError β} (hx : ∀ e, x = .error e → e.IsNumericCast)
    (hf : ∀ a e, f a = .error e → e.IsNumericCast) (e : RuntimeError)
    (h : (x >>= f) = .error e) : e.IsNumericCast := by
  cases x with
  | ok a => exact hf a e h
  | error e' =>
    obtain rfl : e' = e := Except.error.inj h
    exact hx e' rfl

end RuntimeError

namespace Identifier

theorem textToInt_error {text : String} {e : RuntimeError} (h : textToInt text = .error e) :
    e = .numericCast text "int" := by
  simp only [textToInt] at h
  split at h
  · cases h
  · split at h
    · split at h
      · cases h
      · exact (Except.error.inj h).symm
    · exact (Except.error.inj h).symm

theorem textToDouble_error {text : String} {e : RuntimeError} (h : textToDouble text = .error e) :
    e = .numericCast text "double" := by
  simp only [textToDouble] at h
  split at h
  · cases h
  · exact (Except.error.inj h).symm

theorem convert_error {value : Value} {t t' : ValueType} {e : RuntimeError}
    (h : convert value t t' = .error e) : e.IsNumericCast := by
  unfold convert at h
  split at h
  case h_10 =>
    split at h
    · cases h
    · next e' he =>
      cases h
      exact ⟨_, _, textToInt_error he⟩
  case h_11 =>
    split at h
    · cases h
    · next e' he =>
      cases h
      exact ⟨_, _, textToDouble_error he⟩
  all_goals cases h

/-- A cast fails only on a text that does not write a number. -/
theorem castValue_error {i : Identifier} {type : String} {e : RuntimeError}
    (h : i.castValue type = .error e) : e.IsNumericCast := by
  unfold castValue at h
  split at h
  · cases h
  · split at h
    · exact convert_error h
    · cases h

theorem toInt64_error {i : Identifier} {e : RuntimeError} (h : i.toInt64 = .error e) :
    e.IsNumericCast := by
  unfold toInt64 at h
  split at h
  · cases h
  · next e' he =>
    cases h
    exact castValue_error he

theorem toDouble_error {i : Identifier} {e : RuntimeError} (h : i.toDouble = .error e) :
    e.IsNumericCast := by
  unfold toDouble at h
  split at h
  · cases h
  · next e' he =>
    cases h
    exact castValue_error he

/-- How an operator ends: with a constant, or with an error that may come up. -/
def IsResult : Except RuntimeError Identifier → Prop
  | .ok i => i.IsLiteral
  | .error e => ¬ e.IsInternal

theorem isResult_ok {i : Identifier} (hi : i.IsLiteral) : IsResult (.ok i) := hi

theorem isResult_numericCast {e : RuntimeError} (he : e.IsNumericCast) :
    IsResult (.error e) := by
  obtain ⟨text, type, rfl⟩ := he
  exact RuntimeError.not_isInternal nofun nofun

theorem isResult_bind {α : Type} {x : Except RuntimeError α}
    {f : α → Except RuntimeError Identifier}
    (hx : ∀ e, x = .error e → e.IsNumericCast) (hf : ∀ a, IsResult (f a)) :
    IsResult (x >>= f) := by
  cases x with
  | ok a => exact hf a
  | error e => exact isResult_numericCast (hx e rfl)

theorem isResult_arithmetic (op : Arithmetic) (l r : Identifier) :
    IsResult (arithmetic op l r) := by
  unfold arithmetic
  split
  · exact isResult_ok (.string _)
  · split
    · exact isResult_bind (fun _ => toDouble_error) fun a =>
        isResult_bind (fun _ => toDouble_error) fun b => isResult_ok (.double _)
    · refine isResult_bind (fun _ => toInt64_error) fun a =>
        isResult_bind (fun _ => toInt64_error) fun b => ?_
      cases hop : op.onInt a b with
      | ok n => exact isResult_ok (.int n)
      | error e =>
        cases op <;> simp only [Arithmetic.onInt, reduceCtorEq] at hop
        split at hop
        · cases hop
          exact RuntimeError.not_isInternal nofun nofun
        · cases hop

theorem order?_error {l r : Identifier} {e : RuntimeError} (h : order? l r = .error e) :
    e.IsNumericCast := by
  unfold order? at h
  split at h
  · cases h
  · split at h
    · exact RuntimeError.isNumericCast_of_bind (fun _ => toDouble_error)
        (fun _ => RuntimeError.isNumericCast_of_bind (fun _ => toDouble_error) fun _ _ h => by
          cases h) e h
    · exact RuntimeError.isNumericCast_of_bind (fun _ => toInt64_error)
        (fun _ => RuntimeError.isNumericCast_of_bind (fun _ => toInt64_error) fun _ _ h => by
          cases h) e h

theorem isResult_compared (op : Comparison) (l r : Identifier) : IsResult (compared op l r) :=
  isResult_bind (fun _ => order?_error) fun _ => isResult_ok (.bool _)

theorem isResult_connected (op : Connective) (l r : Identifier) :
    IsResult (.ok (connected op l r)) :=
  isResult_ok (.bool _)

end Identifier

end WordScript
