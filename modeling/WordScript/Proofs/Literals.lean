import WordScript.Identifier
import WordScript.Proofs.Numerals
import WordScript.Proofs.Rounding

/-!
# Words of digits

A word of decimal digits, with or without a sign, is read as an integer constant when its value fits
64 bits. Any other word of digits is read as the nearest floating point number, and that one turns
into an integer constant again when it is a whole number within the 64 bits. So a word just below
the least integer is read as the least integer: the number nearest to it is that one.
-/

namespace WordScript

namespace Number.Double

variable {cs : List Char} {i : Int}

theorem decimalLength_le_iff {c k : Nat} (hk : 0 < k) : decimalLength c ≤ k ↔ c < 10 ^ k :=
  Nat.length_toDigits_le_iff (by decide) hk

/-- A number of more than four hundred digits is beyond the finite numbers. -/
theorem limit_le_roundWhole {c : Nat} (h : 400 < decimalLength c) : limit ≤ roundWhole c := by
  have hlength : 10 ^ 400 ≤ c := by
    rw [← Nat.not_lt, ← decimalLength_le_iff (by decide), Nat.not_le]
    exact h
  rw [limit_eq]
  exact two_pow_le_roundWhole (Nat.le_trans (by decide +kernel) hlength)

/-- A whole number is read as the number nearest to it. -/
theorem ofNumeral_whole (s : Bool) {c : Nat} (hc : c ≠ 0) :
    ofNumeral ⟨s, c, 0⟩ = ofRatio s (c * one) 1 := by
  have htop : ¬ ((decimalLength c : Int) + 0 < -400) := by omega
  simp only [ofNumeral, if_neg hc, if_neg htop]
  by_cases hlong : 400 < (decimalLength c : Int) + 0
  · have hbeyond := limit_le_roundWhole (c := c) (by omega)
    rw [if_pos hlong, ofRatio_whole, if_neg (Nat.not_lt.mpr hbeyond)]
  · rw [if_neg hlong, if_neg (by decide)]
    simp

theorem ofText?_of_writesInteger (h : WritesInteger cs i) (hi : i ≠ 0) :
    ofText? cs = some (ofInt i) := by
  obtain ⟨s, c, hwrites, rfl⟩ := h.exists_writesNumeral
  have hc : c ≠ 0 := by
    rintro rfl
    exact hi (by cases s <;> rfl)
  have hsign : decide (signed s c < 0) = s := by
    cases s
    · simp [signed]
    · simp [signed]
      omega
  have habs : (signed s c).natAbs = c := by
    cases s <;> simp [signed]
  rw [ofText?_of_writesNumeral hwrites, ofNumeral_whole s hc, ofInt, hsign, habs]

theorem isFinite_ofInt_of_fits (hfits : FitsInt64 i) : (ofInt i).isFinite = true := by
  have habs : i.natAbs < 2 ^ 64 := by
    unfold FitsInt64 minInt64 supInt64 at hfits
    omega
  rw [isFinite_ofInt_iff]
  exact (roundWhole_le_two_pow habs).trans_lt (by decide +kernel)

/-- A text that writes an integer of 64 bits writes a finite number. -/
theorem exists_ofText?_of_fits (h : WritesInteger cs i) (hfits : FitsInt64 i) :
    ∃ x, ofText? cs = some x ∧ x.isFinite = true := by
  by_cases hi : i = 0
  · obtain ⟨s, c, hwrites, hc⟩ := h.exists_writesNumeral
    obtain rfl : c = 0 := by
      cases s <;> simp only [signed_true, signed_false] at hc <;> omega
    exact ⟨_, ofText?_of_writesNumeral hwrites, rfl⟩
  · exact ⟨_, ofText?_of_writesInteger h hi, isFinite_ofInt_of_fits hfits⟩

/-! ## Around the ends of the range -/

/-- Beyond `2 ^ 63` the last eleven bits are rounded. -/
theorem roundWhole_of_le {c : Nat} (hlow : 2 ^ 63 ≤ c) (hhigh : c < 2 ^ 64) :
    roundWhole c = roundQuotient c 2048 * 2048 * one := by
  have hlog : c.log2 = 63 := (Nat.log2_eq_iff (by omega)).mpr ⟨hlow, hhigh⟩
  rw [roundWhole_eq (by omega), hlog]
  rfl

/-- Half of the gap between two numbers is rounded off, the middle of it included. -/
theorem roundWhole_near {c : Nat} (hlow : 2 ^ 63 ≤ c) (hhigh : c ≤ 2 ^ 63 + 1024) :
    roundWhole c = 2 ^ 63 * one := by
  have hquotient : roundQuotient c 2048 = 2 ^ 52 := by
    have hq : c / 2048 = 2 ^ 52 := by omega
    have hr : 2 * (c % 2048) ≤ 2048 := by omega
    rcases hr.lt_or_eq with hlt | heq
    · simp [roundQuotient, hlt, hq]
    · simp [roundQuotient, heq, hq]
  have hpow : 2 ^ 52 * 2048 = 2 ^ 63 := by decide
  rw [roundWhole_of_le hlow (by omega), hquotient, hpow]

theorem roundWhole_beyond {c : Nat} (h : 2 ^ 63 + 1024 < c) :
    (2 ^ 63 + 1) * one ≤ roundWhole c := by
  rcases Nat.lt_or_ge c (2 ^ 64) with hhigh | hhigh
  · rw [roundWhole_of_le (by omega) hhigh]
    refine Nat.mul_le_mul_right _ ?_
    have hquotient : 2 ^ 52 + 1 ≤ roundQuotient c 2048 := by
      rcases roundQuotient_cases c 2048 with ⟨hq, hr⟩ | ⟨hq, hr⟩ <;> omega
    omega
  · exact (Nat.mul_le_mul_right _ (by decide)).trans (two_pow_le_roundWhole hhigh)

end Number.Double

namespace Identifier

open Number (WritesInteger FitsInt64 minInt64 supInt64 signed)
open Number.Double (one ofInt roundWhole)

variable {word : String} {i : Int}

theorem ofWord_of_fits (h : WritesInteger word.toList i) (hfits : FitsInt64 i) :
    ofWord word = .int (Int64.ofInt i) := by
  have hn : (Int64.ofInt i).toInt = i := Int64.toInt_ofInt_of_le hfits.1 hfits.2
  rw [← hn] at h
  rw [ofWord, Number.int64?_eq_some_iff.mpr h]

theorem number?_of_writesInteger (h : WritesInteger word.toList i) (hi : i ≠ 0) :
    number? word.toList = if (ofInt i).isFinite then some (ofInt i) else none := by
  obtain ⟨s, digits, hsplit, hne, hdigits, -⟩ := h.exists_splitSign
  obtain ⟨lead, rest, rfl⟩ := List.exists_cons_of_ne_nil hne
  have hlead : lead.isDigit = true := hdigits lead List.mem_cons_self
  simp only [number?, hsplit, hlead, Bool.true_or, if_true,
    Number.Double.ofText?_of_writesInteger h hi]

/-- A word of digits whose value does not fit is read as the number nearest to it, if that one is
finite. -/
theorem ofWord_of_not_fits (h : WritesInteger word.toList i) (hfits : ¬ FitsInt64 i) :
    ofWord word = if (ofInt i).isFinite then ofNumber (ofInt i) else .name word 0 := by
  have hi : i ≠ 0 := by
    rintro rfl
    exact hfits ⟨by decide, by decide⟩
  rw [ofWord, (Number.int64?_eq_none_iff h).mpr hfits, number?_of_writesInteger h hi]
  by_cases hfinite : (ofInt i).isFinite = true
  · rw [if_pos hfinite, if_pos hfinite]
  · rw [if_neg hfinite, if_neg hfinite]

/-- A number whose integer part does not fit is kept as it is. -/
theorem ofNumber_of_not_fits {s : Bool} {u : Nat} (h : ¬ FitsInt64 (signed s (u / one))) :
    ofNumber (.finite s u) = .double (.finite s u) := by
  unfold ofNumber Number.Double.integer?
  by_cases hwhole : u % one = 0
  · simp only [if_pos hwhole]
    exact if_neg h
  · simp only [if_neg hwhole]

/-- The integers that are rounded to the least one of 64 bits, although they are below it. -/
def JustBelowInt64 (i : Int) : Prop := minInt64 - 1024 ≤ i ∧ i < minInt64

theorem ofNumber_of_justBelow (h : JustBelowInt64 i) :
    (ofInt i).isFinite = true ∧ ofNumber (ofInt i) = .int Int64.minValue := by
  unfold JustBelowInt64 minInt64 at h
  have hround : roundWhole i.natAbs = 2 ^ 63 * one :=
    Number.Double.roundWhole_near (by omega) (by omega)
  have hfinite : (ofInt i).isFinite = true := by
    rw [Number.Double.isFinite_ofInt_iff, hround]
    decide +kernel
  refine ⟨hfinite, ?_⟩
  rw [Number.Double.ofInt_of_isFinite hfinite, hround, decide_eq_true (by omega)]
  decide +kernel

theorem ofNumber_of_beyond (hfits : ¬ FitsInt64 i) (hbelow : ¬ JustBelowInt64 i)
    (hfinite : (ofInt i).isFinite = true) : ofNumber (ofInt i) = .double (ofInt i) := by
  rw [Number.Double.ofInt_of_isFinite hfinite]
  apply ofNumber_of_not_fits
  unfold FitsInt64 minInt64 supInt64 at *
  unfold JustBelowInt64 minInt64 at hbelow
  have hwhole : ∀ {k : Nat}, k * one ≤ roundWhole i.natAbs → k ≤ roundWhole i.natAbs / one :=
    (Nat.le_div_iff_mul_le Number.Double.one_pos).mpr
  rcases Int.lt_or_le i 0 with hneg | hpos
  · have hround := hwhole (Number.Double.roundWhole_beyond (by omega))
    rw [decide_eq_true hneg, Number.signed_true]
    omega
  · have hround := hwhole (Number.Double.two_pow_le_roundWhole (k := 63) (by omega))
    rw [decide_eq_false (by omega), Number.signed_false]
    omega

/-- A word that writes an integer is read as the constant of this integer when it fits 64 bits, and
as no integer constant when it does not. -/
def ReadsExactly (word : String) (i : Int) : Prop :=
  (FitsInt64 i → ∃ n : Int64, ofWord word = .int n ∧ n.toInt = i) ∧
    (¬ FitsInt64 i → ∀ n : Int64, ofWord word ≠ .int n)

theorem JustBelowInt64.not_fits (h : JustBelowInt64 i) : ¬ FitsInt64 i :=
  fun hfits => absurd hfits.1 (Int.not_le.mpr h.2)

theorem double_ne_int (x : Number.Double) (n : Int64) : Identifier.double x ≠ .int n := by
  intro h
  simpa [double, int, constant] using congrArg Identifier.type h

theorem name_ne_int (word : String) (scope : Nat) (n : Int64) :
    Identifier.name word scope ≠ .int n := by
  intro h
  simpa [name, int, constant] using congrArg Identifier.type h

end Identifier

/-- Every word of digits is read exactly, but for the words whose values are below the least integer
of 64 bits by no more than 1024: they are read as the least integer, which is the number nearest to
them. Of the other values that do not fit, each is read as the nearest floating point number, or,
when it is beyond all of them, not as a number. -/
theorem integer_literal_exact_iff {word : String} {i : Int}
    (h : Number.WritesInteger word.toList i) :
    (Identifier.ReadsExactly word i ↔ ¬ Identifier.JustBelowInt64 i) ∧
      (Identifier.JustBelowInt64 i → Identifier.ofWord word = .int Int64.minValue) ∧
      (¬ Number.FitsInt64 i → ¬ Identifier.JustBelowInt64 i →
        (Number.Double.ofInt i).isFinite = true ∧ Identifier.ofWord word = .double (.ofInt i) ∧
            (Number.Double.ofInt i).IsNearest i ∨
          (Number.Double.ofInt i).isFinite = false ∧ Identifier.ofWord word = .name word 0) := by
  have hbelow : Identifier.JustBelowInt64 i → Identifier.ofWord word = .int Int64.minValue := by
    intro hi
    obtain ⟨hfinite, hnumber⟩ := Identifier.ofNumber_of_justBelow hi
    rw [Identifier.ofWord_of_not_fits h hi.not_fits, if_pos hfinite, hnumber]
  have hbeyond : ¬ Number.FitsInt64 i → ¬ Identifier.JustBelowInt64 i →
      (Number.Double.ofInt i).isFinite = true ∧ Identifier.ofWord word = .double (.ofInt i) ∧
          (Number.Double.ofInt i).IsNearest i ∨
        (Number.Double.ofInt i).isFinite = false ∧ Identifier.ofWord word = .name word 0 := by
    intro hfits hi
    rw [Identifier.ofWord_of_not_fits h hfits]
    cases hfinite : (Number.Double.ofInt i).isFinite
    · exact .inr ⟨rfl, if_neg nofun⟩
    · exact .inl ⟨rfl, (if_pos rfl).trans (Identifier.ofNumber_of_beyond hfits hi hfinite),
        Number.Double.isNearest_ofInt hfinite⟩
  refine ⟨⟨fun hexact hi => ?_, fun hi => ⟨fun hfits => ?_, fun hfits n hn => ?_⟩⟩, hbelow, hbeyond⟩
  · exact hexact.2 hi.not_fits _ (hbelow hi)
  · exact ⟨_, Identifier.ofWord_of_fits h hfits, Int64.toInt_ofInt_of_le hfits.1 hfits.2⟩
  · rcases hbeyond hfits hi with ⟨-, hread, -⟩ | ⟨-, hread⟩
    · exact Identifier.double_ne_int _ _ (hread.symm.trans hn)
    · exact Identifier.name_ne_int _ _ _ (hread.symm.trans hn)

/-- The least integer of 64 bits is read exactly. -/
theorem integer_literal_exact_least :
    Number.WritesInteger "-9223372036854775808".toList (-9223372036854775808) ∧
      ∃ n : Int64, Identifier.ofWord "-9223372036854775808" = .int n ∧
        n.toInt = -9223372036854775808 := by
  have h : Number.WritesInteger "-9223372036854775808".toList (-9223372036854775808) :=
    .minus (by decide) (List.all_eq_true.mp (by decide))
  have hexact := (integer_literal_exact_iff h).1.mpr fun hi => absurd hi.2 (by decide)
  exact ⟨h, hexact.1 ⟨by decide, by decide⟩⟩

/-- The integer below the least one of 64 bits is read as that one. -/
theorem integer_literal_below_least :
    Number.WritesInteger "-9223372036854775809".toList (-9223372036854775809) ∧
      ¬ Number.FitsInt64 (-9223372036854775809) ∧
      Identifier.ofWord "-9223372036854775809" = .int (-9223372036854775808) := by
  refine ⟨.minus (by decide) (List.all_eq_true.mp (by decide)), ?_, by decide +kernel⟩
  exact fun h => absurd h.1 (by decide)

end WordScript
