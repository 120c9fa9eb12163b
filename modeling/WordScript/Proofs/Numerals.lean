import WordScript.Number.Double.Reading
import WordScript.Proofs.Printing

/-!
# Texts that write numbers

Which texts are read as integers, as decimal numbers and as the names of special numbers, and what
they write.
-/

namespace WordScript

namespace Number

/-- The text is decimal digits, at least one, with or without a sign, and writes the integer. -/
inductive WritesInteger : List Char → Int → Prop
  | bare {digits : List Char} (hne : digits ≠ []) (hdigits : ∀ c ∈ digits, c.isDigit = true) :
      WritesInteger digits (Nat.ofDigitChars 10 digits 0)
  | plus {digits : List Char} (hne : digits ≠ []) (hdigits : ∀ c ∈ digits, c.isDigit = true) :
      WritesInteger ('+' :: digits) (Nat.ofDigitChars 10 digits 0)
  | minus {digits : List Char} (hne : digits ≠ []) (hdigits : ∀ c ∈ digits, c.isDigit = true) :
      WritesInteger ('-' :: digits) (-(Nat.ofDigitChars 10 digits 0 : Nat))

/-- The integer is one of 64 bits. -/
def FitsInt64 (i : Int) : Prop := minInt64 ≤ i ∧ i < supInt64

variable {cs digits : List Char} {i : Int}

/-- The sign, the digits and their value. -/
theorem WritesInteger.exists_splitSign (h : WritesInteger cs i) :
    ∃ s digits, splitSign cs = (s, digits) ∧ digits ≠ [] ∧ (∀ c ∈ digits, c.isDigit = true) ∧
      i = signed s (Nat.ofDigitChars 10 digits 0) := by
  cases h with
  | bare hne hdigits => exact ⟨false, cs, splitSign_of_isDigit hdigits, hne, hdigits, rfl⟩
  | @plus digits hne hdigits => exact ⟨false, digits, rfl, hne, hdigits, rfl⟩
  | @minus digits hne hdigits => exact ⟨true, digits, rfl, hne, hdigits, rfl⟩

theorem natural?_eq_some_iff {n : Nat} : natural? digits = some n ↔
    digits ≠ [] ∧ (∀ c ∈ digits, c.isDigit = true) ∧ Nat.ofDigitChars 10 digits 0 = n := by
  simp only [natural?, Option.ite_none_right_eq_some, Option.some.injEq, List.all_eq_true,
    and_assoc]

theorem splitSign_cases (cs : List Char) :
    (∃ ds, cs = '-' :: ds ∧ splitSign cs = (true, ds)) ∨
      (∃ ds, cs = '+' :: ds ∧ splitSign cs = (false, ds)) ∨ splitSign cs = (false, cs) := by
  unfold splitSign
  split
  · exact .inl ⟨_, rfl, rfl⟩
  · exact .inr (.inl ⟨_, rfl, rfl⟩)
  · exact .inr (.inr rfl)

/-- The texts that an integer is read from are the ones that write it. -/
theorem integer?_eq_some_iff : integer? cs = some i ↔ WritesInteger cs i := by
  constructor
  · intro h
    simp only [integer?, Option.map_eq_some_iff] at h
    obtain ⟨n, hn, rfl⟩ := h
    obtain ⟨hne, hdigits, rfl⟩ := natural?_eq_some_iff.mp hn
    rcases splitSign_cases cs with ⟨ds, rfl, hsplit⟩ | ⟨ds, rfl, hsplit⟩ | hsplit
      <;> rw [hsplit] at hne hdigits ⊢
    · exact .minus hne hdigits
    · exact .plus hne hdigits
    · exact .bare hne hdigits
  · intro h
    obtain ⟨s, digits, hsplit, hne, hdigits, rfl⟩ := h.exists_splitSign
    simp only [integer?, hsplit, natural?_eq_some_iff.mpr ⟨hne, hdigits, rfl⟩, Option.map_some]

/-- An integer of 64 bits is read from a text exactly when the text writes it. -/
theorem int64?_eq_some_iff {n : Int64} : int64? cs = some n ↔ WritesInteger cs n.toInt := by
  rw [← integer?_eq_some_iff, int64?]
  cases hi : integer? cs with
  | none => simp
  | some i =>
    simp only [Option.ite_none_right_eq_some, Option.some.injEq]
    constructor
    · rintro ⟨⟨hlow, hhigh⟩, rfl⟩
      exact (Int64.toInt_ofInt_of_le hlow hhigh).symm
    · rintro rfl
      exact ⟨⟨n.le_toInt, n.toInt_lt⟩, Int64.ofInt_toInt n⟩

theorem int64?_eq_none_iff (h : WritesInteger cs i) : int64? cs = none ↔ ¬ FitsInt64 i := by
  rw [int64?, integer?_eq_some_iff.mpr h]
  simp [FitsInt64]

/-! ## Decimal numbers -/

variable {n : Numeral} {c : Nat} {e : Int}

/-- The text is an exponent part: nothing, or a letter and an integer. -/
inductive WritesExponent : List Char → Int → Prop
  | none : WritesExponent [] 0
  | letter {l : Char} {cs : List Char} {e : Int} (hl : l = 'e' ∨ l = 'E') (h : WritesInteger cs e) :
      WritesExponent (l :: cs) e

/-- The text is a numeral without a sign: digits with an optional point, at least one of them, and
an exponent. It writes the digits without the point, times a power of ten. -/
inductive WritesMagnitude : List Char → Nat → Int → Prop
  | whole {ds rest : List Char} {e : Int} (hne : ds ≠ []) (hds : ∀ c ∈ ds, c.isDigit = true)
      (hrest : WritesExponent rest e) :
      WritesMagnitude (ds ++ rest) (Nat.ofDigitChars 10 ds 0) e
  | point {ds fs rest : List Char} {e : Int} (hne : ds ++ fs ≠ [])
      (hds : ∀ c ∈ ds, c.isDigit = true) (hfs : ∀ c ∈ fs, c.isDigit = true)
      (hrest : WritesExponent rest e) :
      WritesMagnitude (ds ++ '.' :: (fs ++ rest)) (Nat.ofDigitChars 10 (ds ++ fs) 0)
        (e - fs.length)

/-- The text writes the numeral, with or without a sign. -/
inductive WritesNumeral : List Char → Numeral → Prop
  | bare {cs : List Char} {c : Nat} {e : Int} (h : WritesMagnitude cs c e) :
      WritesNumeral cs ⟨false, c, e⟩
  | plus {cs : List Char} {c : Nat} {e : Int} (h : WritesMagnitude cs c e) :
      WritesNumeral ('+' :: cs) ⟨false, c, e⟩
  | minus {cs : List Char} {c : Nat} {e : Int} (h : WritesMagnitude cs c e) :
      WritesNumeral ('-' :: cs) ⟨true, c, e⟩

theorem exponent?_eq_some_iff : exponent? cs = some e ↔ WritesExponent cs e := by
  constructor
  · intro h
    cases cs with
    | nil =>
      obtain rfl := Option.some.inj h
      exact .none
    | cons l cs =>
      obtain ⟨hl, h⟩ := Option.ite_none_right_eq_some.mp h
      exact .letter hl (integer?_eq_some_iff.mp h)
  · intro h
    cases h with
    | none => rfl
    | letter hl h => rw [exponent?, if_pos hl, integer?_eq_some_iff.mpr h]

/-- Digits end where an exponent begins. -/
theorem WritesExponent.dropWhile (h : WritesExponent cs e) : cs.dropWhile Char.isDigit = cs := by
  cases h with
  | none => rfl
  | letter hl => rcases hl with rfl | rfl <;> rfl

theorem WritesExponent.takeWhile (h : WritesExponent cs e) : cs.takeWhile Char.isDigit = [] := by
  cases h with
  | none => rfl
  | letter hl => rcases hl with rfl | rfl <;> rfl

theorem takeWhile_digits {ds : List Char} (hds : ∀ c ∈ ds, c.isDigit = true)
    (hcs : cs.takeWhile Char.isDigit = []) : (ds ++ cs).takeWhile Char.isDigit = ds := by
  rw [List.takeWhile_append_of_pos hds, hcs, List.append_nil]

theorem dropWhile_digits {ds : List Char} (hds : ∀ c ∈ ds, c.isDigit = true)
    (hcs : cs.dropWhile Char.isDigit = cs) : (ds ++ cs).dropWhile Char.isDigit = cs := by
  rw [List.dropWhile_append_of_pos hds, hcs]

/-- A text that does not begin with a sign has none. -/
theorem splitSign_of_head? (h : ∀ c ∈ cs.head?, c ≠ '-' ∧ c ≠ '+') :
    splitSign cs = (false, cs) := by
  rcases splitSign_cases cs with ⟨ds, rfl, -⟩ | ⟨ds, rfl, -⟩ | hsplit
  · exact absurd rfl (h _ rfl).1
  · exact absurd rfl (h _ rfl).2
  · exact hsplit

theorem WritesMagnitude.splitSign (h : WritesMagnitude cs c e) : splitSign cs = (false, cs) := by
  have hdigit : ∀ {d : Char}, d.isDigit = true → d ≠ '-' ∧ d ≠ '+' := by
    intro d hd
    constructor <;> rintro rfl <;> exact absurd hd (by decide)
  refine splitSign_of_head? fun d hd => ?_
  cases h with
  | @whole ds rest e hne hds =>
    obtain ⟨d', ds, rfl⟩ := List.exists_cons_of_ne_nil hne
    obtain rfl := Option.some.inj hd
    exact hdigit (hds _ List.mem_cons_self)
  | @point ds fs rest e hne hds =>
    cases ds with
    | nil =>
      obtain rfl := Option.some.inj hd
      decide
    | cons d' ds =>
      obtain rfl := Option.some.inj hd
      exact hdigit (hds _ List.mem_cons_self)

/-- The part of a numeral after its sign. -/
theorem writesNumeral_iff : WritesNumeral cs n ↔
    ∃ c e, WritesMagnitude (splitSign cs).2 c e ∧ n = ⟨(splitSign cs).1, c, e⟩ := by
  constructor
  · intro h
    cases h with
    | @bare _ c e h => exact ⟨c, e, by rwa [h.splitSign], by rw [h.splitSign]⟩
    | @plus _ c e h => exact ⟨c, e, h, rfl⟩
    | @minus _ c e h => exact ⟨c, e, h, rfl⟩
  · rintro ⟨c, e, h, rfl⟩
    rcases splitSign_cases cs with ⟨ds, rfl, hsplit⟩ | ⟨ds, rfl, hsplit⟩ | hsplit
      <;> rw [hsplit] at h ⊢
    · exact .minus h
    · exact .plus h
    · exact .bare h

theorem numeral?_eq_some_iff : numeral? cs = some n ↔ WritesNumeral cs n := by
  rw [writesNumeral_iff]
  constructor
  · intro h
    have htake : ∀ d ∈ (splitSign cs).2.takeWhile Char.isDigit, d.isDigit = true :=
      fun d hd => List.mem_takeWhile_imp hd
    rw [← List.takeWhile_append_dropWhile (p := Char.isDigit) (l := (splitSign cs).2)]
    simp only [numeral?] at h
    split at h
    · next fs hpoint =>
      obtain ⟨hne, h⟩ := Option.ite_none_left_eq_some.mp h
      obtain ⟨e, he, rfl⟩ := Option.map_eq_some_iff.mp h
      rw [hpoint, ← List.takeWhile_append_dropWhile (p := Char.isDigit) (l := fs)]
      refine ⟨_, _, .point hne htake (fun d hd => List.mem_takeWhile_imp hd)
        (exponent?_eq_some_iff.mp he), ?_⟩
      rw [List.takeWhile_append_dropWhile]
    · obtain ⟨hne, h⟩ := Option.ite_none_left_eq_some.mp h
      obtain ⟨e, he, rfl⟩ := Option.map_eq_some_iff.mp h
      rw [List.append_nil] at hne
      refine ⟨_, _, .whole hne htake (exponent?_eq_some_iff.mp he), ?_⟩
      simp
  · rintro ⟨c, e, h, rfl⟩
    simp only [numeral?]
    generalize (splitSign cs).1 = s, (splitSign cs).2 = unsigned at h ⊢
    cases h with
    | whole hne hds hrest =>
      have hexponent := exponent?_eq_some_iff.mpr hrest
      rw [takeWhile_digits hds hrest.takeWhile, dropWhile_digits hds hrest.dropWhile]
      split
      · next fs => cases hrest with
        | letter hl => exact absurd hl (by decide)
      · simp [hne, hexponent]
    | @point ds fs rest e hne hds hfs hrest =>
      have hexponent := exponent?_eq_some_iff.mpr hrest
      rw [takeWhile_digits hds rfl, dropWhile_digits hds rfl]
      simp only [takeWhile_digits hfs hrest.takeWhile, dropWhile_digits hfs hrest.dropWhile,
        if_neg hne, hexponent, Option.map_some]

/-- A text that writes an integer is a numeral without a fraction and without an exponent. -/
theorem WritesInteger.exists_writesNumeral (h : WritesInteger cs i) :
    ∃ s c, WritesNumeral cs ⟨s, c, 0⟩ ∧ i = signed s c := by
  have hwhole : ∀ {ds : List Char}, ds ≠ [] → (∀ c ∈ ds, c.isDigit = true) →
      WritesMagnitude ds (Nat.ofDigitChars 10 ds 0) 0 := by
    intro ds hne hds
    simpa using WritesMagnitude.whole hne hds .none
  cases h with
  | bare hne hds => exact ⟨_, _, .bare (hwhole hne hds), rfl⟩
  | plus hne hds => exact ⟨_, _, .plus (hwhole hne hds), rfl⟩
  | minus hne hds => exact ⟨_, _, .minus (hwhole hne hds), rfl⟩

/-! ## Special numbers -/

/-- The word is the name of a special number, in capital or small letters. -/
def IsSpecialName (name : List Char) : Prop :=
  String.ofList (name.map Char.toLower) ∈ ["inf", "infinity", "nan"]

/-- The text is the name of a special number, with or without a sign. -/
inductive WritesSpecial : List Char → Prop
  | bare {name : List Char} (h : IsSpecialName name) : WritesSpecial name
  | plus {name : List Char} (h : IsSpecialName name) : WritesSpecial ('+' :: name)
  | minus {name : List Char} (h : IsSpecialName name) : WritesSpecial ('-' :: name)

theorem IsSpecialName.splitSign (h : IsSpecialName cs) : splitSign cs = (false, cs) := by
  refine splitSign_of_head? fun c hc => ?_
  cases cs with
  | nil => cases hc
  | cons d cs =>
    obtain rfl := Option.some.inj hc
    have hlower : d.toLower = 'i' ∨ d.toLower = 'n' := by
      simp only [IsSpecialName, List.map_cons, List.mem_cons, List.not_mem_nil, or_false] at h
      rcases h with h | h | h <;> replace h := congrArg String.toList h <;> simp at h
      · exact .inl h.1
      · exact .inl h.1
      · exact .inr h.1
    constructor <;> rintro rfl <;> revert hlower <;> decide

theorem writesSpecial_iff : WritesSpecial cs ↔ IsSpecialName (splitSign cs).2 := by
  constructor
  · intro h
    cases h with
    | bare h => rwa [h.splitSign]
    | plus h => exact h
    | minus h => exact h
  · intro h
    rcases splitSign_cases cs with ⟨ds, rfl, hsplit⟩ | ⟨ds, rfl, hsplit⟩ | hsplit
      <;> rw [hsplit] at h
    · exact .minus h
    · exact .plus h
    · exact .bare h

namespace Double

theorem exists_ofName?_iff {name : String} :
    (∃ f, ofName? name = some f) ↔ name ∈ ["inf", "infinity", "nan"] := by
  unfold ofName?
  split
  · next h => simpa using or_assoc.mp (.inl h)
  · split <;> simp_all

/-- The names stand for no finite numbers. -/
theorem isFinite_ofName? {name : String} {f : Bool → Double} (h : ofName? name = some f)
    (s : Bool) : (f s).isFinite = false := by
  unfold ofName? at h
  split at h
  · obtain rfl := Option.some.inj h
    rfl
  · obtain ⟨-, h⟩ := Option.ite_none_right_eq_some.mp h
    obtain rfl := Option.some.inj h
    rfl

/-- A numeral is read as the number nearest to it. -/
theorem ofText?_of_writesNumeral (h : WritesNumeral cs n) : ofText? cs = some (ofNumeral n) := by
  rw [ofText?, numeral?_eq_some_iff.mpr h]

/-- The texts that a number is read from. -/
theorem exists_ofText?_iff :
    (∃ x, ofText? cs = some x) ↔ (∃ n, WritesNumeral cs n) ∨ WritesSpecial cs := by
  simp only [← numeral?_eq_some_iff, writesSpecial_iff, ofText?]
  cases hn : numeral? cs with
  | some n => simp
  | none =>
    rw [IsSpecialName, ← exists_ofName?_iff]
    simp

/-- The texts that a finite number is read from. -/
theorem ofText?_finite_iff {x : Double} :
    (ofText? cs = some x ∧ x.isFinite = true) ↔
      ∃ n, WritesNumeral cs n ∧ ofNumeral n = x ∧ x.isFinite = true := by
  simp only [← numeral?_eq_some_iff, ofText?]
  cases hn : numeral? cs with
  | some n => simp
  | none =>
    constructor
    · rintro ⟨hx, hfinite⟩
      obtain ⟨f, hf, rfl⟩ := Option.map_eq_some_iff.mp hx
      rw [isFinite_ofName? hf] at hfinite
      cases hfinite
    · rintro ⟨n, hn, -⟩
      cases hn

end Double

end Number

end WordScript
