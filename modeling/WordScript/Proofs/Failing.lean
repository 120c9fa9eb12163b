import WordScript.Proofs.Literals
import WordScript.Proofs.Operators

/-!
# When operators fail

A cast fails on the texts that write no number of the type that is asked for, and on nothing else.
From this follows for each operator which operands it fails on, and with which error: the left
operand is cast before the right one, and both are before it is seen that one divides by zero.
-/

namespace WordScript

/-- Of two computations in a row, the first one fails, or else the second one does. -/
theorem Except.bind_eq_error_iff {ε α β : Type} {x : Except ε α} {f : α → Except ε β} {e : ε} :
    (x >>= f) = .error e ↔ x = .error e ∨ ∃ a, x = .ok a ∧ f a = .error e := by
  cases x with
  | ok a =>
    change f a = .error e ↔ _
    simp
  | error e' =>
    change Except.error e' = .error e ↔ _
    simp

/-- What fails in one case only succeeds in the other. -/
theorem Except.exists_eq_ok_iff {ε α : Type} {x : Except ε α} {p : Prop} {error : ε}
    (h : ∀ e, x = .error e ↔ ¬ p ∧ e = error) : (∃ a, x = .ok a) ↔ p := by
  cases x with
  | ok a =>
    have hp : p := by
      by_contra hp
      cases (h error).mpr ⟨hp, rfl⟩
    exact ⟨fun _ => hp, fun _ => ⟨a, rfl⟩⟩
  | error e => simp [((h e).mp rfl).1]

theorem ValueType.name_inj {t t' : ValueType} (h : t.name = t'.name) : t = t' :=
  Option.some.inj (by rw [← ofName?_name t, h, ofName?_name])

namespace Identifier

/-- The text writes a number of the type between blanks, when it is a type of numbers. An integer
is written by every numeral that is not beyond the finite numbers, a floating point number also by
those that are, and by the names of special numbers. -/
def IsNumeric (text : String) : ValueType → Prop
  | .int => ∃ n, Number.WritesNumeral (Text.trim text.toList) n ∧
      (Number.Double.ofNumeral n).isFinite = true
  | .double => (∃ n, Number.WritesNumeral (Text.trim text.toList) n) ∨
      Number.WritesSpecial (Text.trim text.toList)
  | _ => True

/-- The identifier is not a text that writes no number of the type. -/
def HasNumber (i : Identifier) (t : ValueType) : Prop :=
  i.type = "string" → IsNumeric i.value.asString t

/-- The error that a text comes up with which writes no number of the type. -/
def numericCast (i : Identifier) (t : ValueType) : RuntimeError :=
  .numericCast i.value.asString t.name

variable {i l r : Identifier} {text : String} {t : ValueType} {e : RuntimeError}

theorem isNumeric_int_iff : IsNumeric text .int ↔
    ∃ x, Number.Double.ofText? (Text.trim text.toList) = some x ∧ x.isFinite = true := by
  constructor
  · rintro ⟨n, hn, hfinite⟩
    exact ⟨_, Number.Double.ofText?_of_writesNumeral hn, hfinite⟩
  · rintro ⟨x, hx⟩
    obtain ⟨n, hn, rfl, hfinite⟩ := Number.Double.ofText?_finite_iff.mp hx
    exact ⟨n, hn, hfinite⟩

theorem isNumeric_double_iff : IsNumeric text .double ↔
    ∃ x, Number.Double.ofText? (Text.trim text.toList) = some x :=
  Number.Double.exists_ofText?_iff.symm

theorem textToInt_eq_error_iff :
    textToInt text = .error e ↔ ¬ IsNumeric text .int ∧ e = .numericCast text "int" := by
  rw [isNumeric_int_iff]
  refine ⟨fun h => ⟨?_, textToInt_error h⟩, ?_⟩
  · rintro ⟨x, hx, hfinite⟩
    simp only [textToInt, hx, hfinite, if_true] at h
    split at h <;> cases h
  · rintro ⟨hnumeric, rfl⟩
    simp only [textToInt]
    cases hn : Number.int64? (Text.trim text.toList) with
    | some n =>
      -- a text that an integer is read from is never left to the floating point numbers
      have hwrites := Number.int64?_eq_some_iff.mp hn
      exact absurd (Number.Double.exists_ofText?_of_fits hwrites ⟨n.le_toInt, n.toInt_lt⟩) hnumeric
    | none =>
      cases hx : Number.Double.ofText? (Text.trim text.toList) with
      | none => rfl
      | some x => exact if_neg fun hfinite => hnumeric ⟨x, hx, hfinite⟩

theorem textToDouble_eq_error_iff :
    textToDouble text = .error e ↔ ¬ IsNumeric text .double ∧ e = .numericCast text "double" := by
  rw [isNumeric_double_iff]
  refine ⟨fun h => ⟨?_, textToDouble_error h⟩, ?_⟩
  · rintro ⟨x, hx⟩
    simp only [textToDouble, hx] at h
    cases h
  · rintro ⟨hnumeric, rfl⟩
    simp only [textToDouble]
    cases hx : Number.Double.ofText? (Text.trim text.toList) with
    | none => rfl
    | some x => exact absurd ⟨x, hx⟩ hnumeric

/-- A conversion fails only from a text, and only to a type of numbers. -/
theorem convert_eq_error_iff {value : Value} {t' : ValueType} :
    convert value t t' = .error e ↔
      t = .string ∧ ¬ IsNumeric value.asString t' ∧ e = .numericCast value.asString t'.name := by
  by_cases ht : t = .string
  · subst ht
    cases t' with
    | int =>
      rw [ValueType.name, ← textToInt_eq_error_iff, convert]
      cases textToInt value.asString <;> simp
    | double =>
      rw [ValueType.name, ← textToDouble_eq_error_iff, convert]
      cases textToDouble value.asString <;> simp
    | _ => simp [convert, IsNumeric]
  · cases t <;> cases t' <;> simp [convert, ht] at ht ⊢

theorem castValue_eq_error_iff {type : String} :
    i.castValue type = .error e ↔ ∃ t : ValueType, type = t.name ∧ ¬ i.HasNumber t ∧
      e = i.numericCast t := by
  constructor
  · intro h
    unfold castValue at h
    split at h
    · cases h
    · split at h
      · next t t' ht ht' =>
        obtain ⟨rfl, hnumeric, rfl⟩ := convert_eq_error_iff.mp h
        have hstring := ValueType.ofName?_eq_some_iff.mp ht
        exact ⟨t', ValueType.ofName?_eq_some_iff.mp ht',
          fun hfits => hnumeric (hfits hstring), rfl⟩
      · cases h
  · rintro ⟨t, rfl, hnumeric, rfl⟩
    obtain ⟨hstring, hnumeric⟩ := Classical.not_imp.mp hnumeric
    have hne : i.type ≠ t.name := by
      rw [hstring]
      intro heq
      obtain rfl : ValueType.string = t := ValueType.name_inj heq
      exact hnumeric trivial
    rw [castValue, if_neg hne, hstring, ValueType.ofName?_name]
    exact convert_eq_error_iff.mpr ⟨rfl, hnumeric, rfl⟩

theorem castValue_name_eq_error_iff :
    i.castValue t.name = .error e ↔ ¬ i.HasNumber t ∧ e = i.numericCast t := by
  rw [castValue_eq_error_iff]
  refine ⟨?_, fun h => ⟨t, rfl, h⟩⟩
  rintro ⟨t', hname, h⟩
  obtain rfl := ValueType.name_inj hname
  exact h

theorem exists_castValue_name_iff : (∃ v, i.castValue t.name = .ok v) ↔ i.HasNumber t :=
  Except.exists_eq_ok_iff fun _ => castValue_name_eq_error_iff

theorem toInt64_eq_error_iff :
    i.toInt64 = .error e ↔ ¬ i.HasNumber .int ∧ e = i.numericCast .int := by
  rw [← castValue_name_eq_error_iff, ValueType.name, toInt64]
  cases i.castValue "int" <;> simp

theorem toDouble_eq_error_iff :
    i.toDouble = .error e ↔ ¬ i.HasNumber .double ∧ e = i.numericCast .double := by
  rw [← castValue_name_eq_error_iff, ValueType.name, toDouble]
  cases i.castValue "double" <;> simp

theorem exists_toInt64_iff : (∃ n, i.toInt64 = .ok n) ↔ i.HasNumber .int :=
  Except.exists_eq_ok_iff fun _ => toInt64_eq_error_iff

theorem exists_toDouble_iff : (∃ x, i.toDouble = .ok x) ↔ i.HasNumber .double :=
  Except.exists_eq_ok_iff fun _ => toDouble_eq_error_iff

/-- Only texts have no number. -/
theorem hasNumber_of_ne (h : i.type ≠ "string") (t : ValueType) : i.HasNumber t :=
  fun hstring => absurd hstring h

theorem not_hasNumber_iff : ¬ i.HasNumber t ↔
    i.type = "string" ∧ (t = .int ∨ t = .double) ∧ ¬ IsNumeric i.value.asString t := by
  rw [HasNumber, Classical.not_imp]
  cases t <;> simp [IsNumeric]

/-- Any two identifiers can be compared. -/
theorem exists_order? (l r : Identifier) : ∃ o, order? l r = .ok o := by
  unfold order?
  split
  · exact ⟨_, rfl⟩
  · next hstring =>
    simp only [eitherIs, Bool.or_eq_true, decide_eq_true_eq, not_or] at hstring
    split
    · obtain ⟨a, ha⟩ := exists_toDouble_iff.mpr (hasNumber_of_ne hstring.1 _)
      obtain ⟨b, hb⟩ := exists_toDouble_iff.mpr (hasNumber_of_ne hstring.2 _)
      rw [ha, hb]
      exact ⟨_, rfl⟩
    · obtain ⟨a, ha⟩ := exists_toInt64_iff.mpr (hasNumber_of_ne hstring.1 _)
      obtain ⟨b, hb⟩ := exists_toInt64_iff.mpr (hasNumber_of_ne hstring.2 _)
      rw [ha, hb]
      exact ⟨_, rfl⟩

/-! ## Arithmetic -/

/-- The operation joins texts. -/
def Joins (op : Arithmetic) (l r : Identifier) : Prop :=
  op = .add ∧ (l.type = "string" ∨ r.type = "string")

/-- The type of numbers that arithmetic on the two works on. -/
def promoted (l r : Identifier) : ValueType :=
  if l.type = "double" ∨ r.type = "double" then .double else .int

/-- How arithmetic fails. -/
inductive ArithmeticFails (op : Arithmetic) (l r : Identifier) : RuntimeError → Prop
  /-- The left operand is a text that writes no number. -/
  | left (hjoins : ¬ Joins op l r) (hl : ¬ l.HasNumber (promoted l r)) :
      ArithmeticFails op l r (l.numericCast (promoted l r))
  /-- Only the right one is. -/
  | right (hjoins : ¬ Joins op l r) (hl : l.HasNumber (promoted l r))
      (hr : ¬ r.HasNumber (promoted l r)) :
      ArithmeticFails op l r (r.numericCast (promoted l r))
  /-- An integer is divided by zero. -/
  | zero (hop : op = .div) (htype : promoted l r = .int) (hl : l.HasNumber .int)
      (hr : r.toInt64 = .ok 0) : ArithmeticFails op l r .divisionByZero

theorem onInt_eq_error_iff {op : Arithmetic} {a b : Int64} :
    op.onInt a b = .error e ↔ op = .div ∧ b = 0 ∧ e = .divisionByZero := by
  cases op with
  | div =>
    by_cases hb : b = 0 <;> simp [Arithmetic.onInt, hb, eq_comm]
  | _ => simp [Arithmetic.onInt]

theorem arithmetic_of_joins {op : Arithmetic} (h : Joins op l r) :
    arithmetic op l r = .ok (string (l.toText ++ r.toText)) := by
  rw [arithmetic, if_pos]
  simpa [Joins, eitherIs] using h

/-- Arithmetic on floating point numbers. -/
theorem arithmetic_of_double {op : Arithmetic} (hjoins : ¬ Joins op l r)
    (hdouble : promoted l r = .double) :
    arithmetic op l r = (do
      let a ← l.toDouble
      let b ← r.toDouble
      return double (op.onDouble a b)) := by
  have heither : eitherIs "double" l r = true := by
    by_contra h
    simp only [eitherIs, Bool.or_eq_true, decide_eq_true_eq] at h
    rw [promoted, if_neg h] at hdouble
    cases hdouble
  rw [arithmetic, if_neg, if_pos heither]
  simpa [Joins, eitherIs] using hjoins

/-- Arithmetic on integers. -/
theorem arithmetic_of_int {op : Arithmetic} (hjoins : ¬ Joins op l r)
    (hint : promoted l r = .int) :
    arithmetic op l r = (do
      let a ← l.toInt64
      let b ← r.toInt64
      return int (← op.onInt a b)) := by
  have heither : ¬ eitherIs "double" l r = true := by
    intro h
    simp only [eitherIs, Bool.or_eq_true, decide_eq_true_eq] at h
    rw [promoted, if_pos h] at hint
    cases hint
  rw [arithmetic, if_neg, if_neg heither]
  simpa [Joins, eitherIs] using hjoins

theorem promoted_cases (l r : Identifier) : promoted l r = .double ∨ promoted l r = .int := by
  unfold promoted
  split
  · exact .inl rfl
  · exact .inr rfl

/-- Two operands are cast one after the other, the left one first. -/
theorem operands_eq_error_iff {α : Type} {cast : Identifier → Except RuntimeError α}
    (hcast : ∀ i e, cast i = .error e ↔ ¬ i.HasNumber t ∧ e = i.numericCast t)
    {f : α → α → Except RuntimeError Identifier} :
    (do let a ← cast l; let b ← cast r; f a b) = .error e ↔
      (¬ l.HasNumber t ∧ e = l.numericCast t) ∨
      (l.HasNumber t ∧ ¬ r.HasNumber t ∧ e = r.numericCast t) ∨
      ∃ a b, cast l = .ok a ∧ cast r = .ok b ∧ f a b = .error e := by
  have hnumber : (∃ a, cast l = .ok a) ↔ l.HasNumber t := Except.exists_eq_ok_iff (hcast l)
  simp only [Except.bind_eq_error_iff, hcast, ← hnumber]
  constructor
  · rintro (hl | ⟨a, ha, hr | ⟨b, hb, h⟩⟩)
    · exact .inl hl
    · exact .inr (.inl ⟨⟨a, ha⟩, hr⟩)
    · exact .inr (.inr ⟨a, b, ha, hb, h⟩)
  · rintro (hl | ⟨⟨a, ha⟩, hr⟩ | ⟨a, b, ha, hb, h⟩)
    · exact .inl hl
    · exact .inr ⟨a, ha, .inl hr⟩
    · exact .inr ⟨a, ha, .inr ⟨b, hb, h⟩⟩

theorem arithmeticFails_iff {op : Arithmetic} (hjoins : ¬ Joins op l r) :
    ArithmeticFails op l r e ↔
      (¬ l.HasNumber (promoted l r) ∧ e = l.numericCast (promoted l r)) ∨
      (l.HasNumber (promoted l r) ∧ ¬ r.HasNumber (promoted l r) ∧
        e = r.numericCast (promoted l r)) ∨
      promoted l r = .int ∧ ∃ a b, l.toInt64 = .ok a ∧ r.toInt64 = .ok b ∧
        op.onInt a b = .error e := by
  simp only [onInt_eq_error_iff]
  constructor
  · intro h
    cases h with
    | left _ hl => exact .inl ⟨hl, rfl⟩
    | right _ hl hr => exact .inr (.inl ⟨hl, hr, rfl⟩)
    | zero hop htype hl hr =>
      obtain ⟨a, ha⟩ := exists_toInt64_iff.mpr hl
      exact .inr (.inr ⟨htype, a, 0, ha, hr, hop, rfl, rfl⟩)
  · rintro (⟨hl, rfl⟩ | ⟨hl, hr, rfl⟩ | ⟨htype, a, b, ha, hr, hop, rfl, rfl⟩)
    · exact .left hjoins hl
    · exact .right hjoins hl hr
    · exact .zero hop htype (exists_toInt64_iff.mp ⟨a, ha⟩) hr

theorem arithmetic_eq_error_iff {op : Arithmetic} :
    arithmetic op l r = .error e ↔ ArithmeticFails op l r e := by
  by_cases hjoins : Joins op l r
  · rw [arithmetic_of_joins hjoins]
    refine ⟨nofun, fun h => ?_⟩
    cases h with
    | left hnot => exact absurd hjoins hnot
    | right hnot => exact absurd hjoins hnot
    | zero hop => cases hop.symm.trans hjoins.1
  rw [arithmeticFails_iff hjoins]
  rcases promoted_cases l r with htype | htype <;> rw [htype]
  · rw [arithmetic_of_double hjoins htype,
      operands_eq_error_iff fun _ _ => toDouble_eq_error_iff]
    have hpure : ∀ i : Identifier, (pure i : Except RuntimeError Identifier) ≠ .error e := nofun
    simp [hpure]
  · rw [arithmetic_of_int hjoins htype, operands_eq_error_iff fun _ _ => toInt64_eq_error_iff]
    have hint : ∀ x : Except RuntimeError Int64,
        (do return int (← x)) = Except.error e ↔ x = .error e := by
      intro x
      cases x with
      | ok n => exact ⟨nofun, nofun⟩
      | error e' => exact ⟨fun h => by cases h; rfl, fun h => by cases h; rfl⟩
    simp only [hint, true_and]

/-- A cast to a type that is not one of numbers does not fail. -/
theorem exists_castValue_of_ne (i : Identifier) (hint : t ≠ .int) (hdouble : t ≠ .double) :
    ∃ v, i.castValue t.name = .ok v := by
  refine exists_castValue_name_iff.mpr fun _ => ?_
  cases t with
  | int => exact absurd rfl hint
  | double => exact absurd rfl hdouble
  | _ => trivial

/-- The text of an identifier is the payload of its cast to a text. -/
theorem exists_castTo_string (i : Identifier) :
    ∃ j, i.castTo "string" = .ok j ∧ i.toText = j.value.asString := by
  obtain ⟨v, hv⟩ : ∃ v, i.castValue "string" = .ok v :=
    i.exists_castValue_of_ne (t := .string) nofun nofun
  exact ⟨constant "string" v, by rw [castTo, hv], by rw [toText, hv]; rfl⟩

/-- What an identifier counts as is the payload of its cast to a truth value. -/
theorem exists_castTo_bool (i : Identifier) :
    ∃ j, i.castTo "bool" = .ok j ∧ i.isTruthy = j.value.asBool := by
  obtain ⟨v, hv⟩ : ∃ v, i.castValue "bool" = .ok v :=
    i.exists_castValue_of_ne (t := .bool) nofun nofun
  exact ⟨constant "bool" v, by rw [castTo, hv], by rw [isTruthy, hv]; rfl⟩

theorem castTo_eq_error_iff {type : String} :
    i.castTo type = .error e ↔ i.castValue type = .error e := by
  rw [castTo]
  cases i.castValue type <;> simp

end Identifier

/-- Printing an identifier, taking it for a truth value, comparing two of them and connecting them
never fail. A cast fails exactly on a text that writes no number of the type of numbers that is
asked for. Arithmetic fails exactly when it does not join texts, and one of its operands is such a
text for the type of numbers that it works on, the left one being told of first, or when it divides
an integer by zero. -/
theorem operators_fail_iff (l r : Identifier) :
    (∃ i, l.castTo "string" = .ok i ∧ l.toText = i.value.asString) ∧
    (∃ i, l.castTo "bool" = .ok i ∧ l.isTruthy = i.value.asBool) ∧
    (∀ op, ∃ b, Identifier.compared op l r = .ok (.bool b)) ∧
    (∀ op, ∃ i j, l.castTo "bool" = .ok i ∧ r.castTo "bool" = .ok j ∧
      Identifier.connected op l r = .bool (op.apply i.value.asBool j.value.asBool)) ∧
    (∀ type e, l.castTo type = .error e ↔ l.type = "string" ∧
      ∃ t : ValueType, (t = .int ∨ t = .double) ∧ type = t.name ∧
        ¬ Identifier.IsNumeric l.value.asString t ∧
        e = .numericCast l.value.asString type) ∧
    ∀ op e, Identifier.arithmetic op l r = .error e ↔ Identifier.ArithmeticFails op l r e := by
  refine ⟨l.exists_castTo_string, l.exists_castTo_bool, fun op => ?_, fun op => ?_,
    fun type e => ?_, fun op e => Identifier.arithmetic_eq_error_iff⟩
  · obtain ⟨o, ho⟩ := Identifier.exists_order? l r
    exact ⟨op.holds o, by rw [Identifier.compared, ho]; rfl⟩
  · obtain ⟨i, hi, hl⟩ := l.exists_castTo_bool
    obtain ⟨j, hj, hr⟩ := r.exists_castTo_bool
    exact ⟨i, j, hi, hj, by rw [Identifier.connected, hl, hr]⟩
  · rw [Identifier.castTo_eq_error_iff, Identifier.castValue_eq_error_iff]
    simp only [Identifier.not_hasNumber_iff]
    constructor
    · rintro ⟨t, rfl, ⟨hstring, htype, hnumeric⟩, rfl⟩
      exact ⟨hstring, t, htype, rfl, hnumeric, rfl⟩
    · rintro ⟨hstring, t, htype, rfl, hnumeric, rfl⟩
      exact ⟨t, rfl, ⟨hstring, htype, hnumeric⟩, rfl⟩

end WordScript
