import Mathlib.Tactic.Ring
import WordScript.Number.Double

/-!
# Rounding to double precision

A quotient of units is rounded to a count with 53 significant bits. No other count with so many bits
is nearer, and the result stays between the powers of two around the quotient. Of whole numbers of
`2 ^ 52` and more the last bits are rounded, and all that remains is a whole number.
-/

namespace WordScript.Number

theorem signed_true (n : Nat) : signed true n = -(n : Int) := rfl

theorem signed_false (n : Nat) : signed false n = (n : Int) := rfl

namespace Double

/-! ## Nearest quotients -/

section Quotient

variable {num den : Nat}

theorem roundQuotient_cases (num den : Nat) :
    (roundQuotient num den = num / den ∧ 2 * (num % den) ≤ den) ∨
      (roundQuotient num den = num / den + 1 ∧ den ≤ 2 * (num % den)) := by
  unfold roundQuotient
  by_cases hlow : 2 * (num % den) < den
  · exact .inl ⟨if_pos hlow, hlow.le⟩
  by_cases hhigh : den < 2 * (num % den)
  · exact .inr ⟨by simp [hlow, hhigh], hhigh.le⟩
  -- halfway between two natural numbers
  have htie : 2 * (num % den) = den := by omega
  by_cases heven : num / den % 2 = 0
  · exact .inl ⟨by simp [htie, heven], htie.le⟩
  · exact .inr ⟨by simp [htie, heven], htie.ge⟩

theorem div_le_roundQuotient (num den : Nat) : num / den ≤ roundQuotient num den := by
  rcases roundQuotient_cases num den with ⟨h, -⟩ | ⟨h, -⟩ <;> omega

theorem roundQuotient_le (num den : Nat) : roundQuotient num den ≤ num / den + 1 := by
  rcases roundQuotient_cases num den with ⟨h, -⟩ | ⟨h, -⟩ <;> omega

/-- The distance to the nearer one of the two multiples around a number. -/
theorem distance_roundQuotient (hden : 0 < den) :
    ((num : Int) - roundQuotient num den * den).natAbs = min (num % den) (den - num % den) := by
  have hlt := Nat.mod_lt num hden
  have hnum : (num : Int) = (num / den : Nat) * den + (num % den : Nat) := by
    exact_mod_cast (Nat.div_add_mod' num den).symm
  rcases roundQuotient_cases num den with ⟨hq, hr⟩ | ⟨hq, hr⟩
  · rw [hq]
    omega
  · rw [hq, Nat.cast_succ, Int.add_mul, Int.one_mul]
    omega

/-- No multiple is nearer to a number than the two around it. -/
theorem le_distance (hden : 0 < den) (k : Nat) :
    min (num % den) (den - num % den) ≤ ((num : Int) - k * den).natAbs := by
  have hlt := Nat.mod_lt num hden
  have hnum := Nat.div_add_mod' num den
  rcases Nat.lt_or_ge (num / den) k with hk | hk
  · have hmul := Nat.mul_le_mul_right den (Nat.succ_le_of_lt hk)
    rw [Nat.succ_mul] at hmul
    have hcast : ((k * den : Nat) : Int) = k * den := Nat.cast_mul k den
    omega
  · have hmul := Nat.mul_le_mul_right den hk
    have hcast : ((k * den : Nat) : Int) = k * den := Nat.cast_mul k den
    omega

/-- No natural number is nearer to the quotient. -/
theorem roundQuotient_nearest (hden : 0 < den) (k : Nat) :
    ((num : Int) - roundQuotient num den * den).natAbs ≤ ((num : Int) - k * den).natAbs :=
  (distance_roundQuotient hden).trans_le (le_distance hden k)

/-- A common factor of both sides does not matter. -/
theorem roundQuotient_mul_right (num den : Nat) {k : Nat} (hk : 0 < k) :
    roundQuotient (num * k) (den * k) = roundQuotient num den := by
  have hlow : 2 * (num % den * k) < den * k ↔ 2 * (num % den) < den := by
    rw [← Nat.mul_assoc]
    exact Nat.mul_lt_mul_right hk
  have hhigh : den * k < 2 * (num % den * k) ↔ den < 2 * (num % den) := by
    rw [← Nat.mul_assoc]
    exact Nat.mul_lt_mul_right hk
  simp only [roundQuotient, Nat.mul_div_mul_right _ _ hk, Nat.mul_mod_mul_right, hlow, hhigh]

end Quotient

/-! ## Significant bits -/

section Units

variable {num den : Nat}

theorem spareBits_le_log2 (units : Nat) : spareBits units ≤ units.log2 := by
  unfold spareBits
  omega

/-- What is kept of the bits of a quotient. -/
theorem two_pow_le_div (h : num / den ≠ 0) :
    2 ^ ((num / den).log2 - spareBits (num / den)) ≤ num / (den * 2 ^ spareBits (num / den)) := by
  rw [← Nat.div_div_eq_div_mul, Nat.le_div_iff_mul_le (Nat.two_pow_pos _), ← Nat.pow_add,
    Nat.sub_add_cancel (spareBits_le_log2 _)]
  exact Nat.log2_self_le h

theorem div_lt_two_pow (num den : Nat) :
    num / (den * 2 ^ spareBits (num / den)) <
      2 ^ ((num / den).log2 + 1 - spareBits (num / den)) := by
  have hspare := spareBits_le_log2 (num / den)
  rw [← Nat.div_div_eq_div_mul, Nat.div_lt_iff_lt_mul (Nat.two_pow_pos _), ← Nat.pow_add,
    Nat.sub_add_cancel (by omega)]
  exact Nat.lt_log2_self

theorem roundUnits_eq (num den : Nat) :
    roundUnits num den = roundQuotient num (den * 2 ^ spareBits (num / den)) *
      2 ^ spareBits (num / den) := rfl

/-- Rounding does not go below the power of two that the quotient lies above. -/
theorem two_pow_le_roundUnits (h : num / den ≠ 0) : 2 ^ (num / den).log2 ≤ roundUnits num den := by
  calc 2 ^ (num / den).log2
      = 2 ^ ((num / den).log2 - spareBits (num / den)) * 2 ^ spareBits (num / den) := by
        rw [← Nat.pow_add, Nat.sub_add_cancel (spareBits_le_log2 _)]
    _ ≤ roundUnits num den :=
        Nat.mul_le_mul_right _ ((two_pow_le_div h).trans (div_le_roundQuotient _ _))

/-- Nor above the power of two that the quotient lies below. -/
theorem roundUnits_le_two_pow (num den : Nat) :
    roundUnits num den ≤ 2 ^ ((num / den).log2 + 1) := by
  have hspare := spareBits_le_log2 (num / den)
  calc roundUnits num den
      ≤ 2 ^ ((num / den).log2 + 1 - spareBits (num / den)) * 2 ^ spareBits (num / den) :=
        Nat.mul_le_mul_right _ ((roundQuotient_le _ _).trans (div_lt_two_pow num den))
    _ = 2 ^ ((num / den).log2 + 1) := by
        rw [← Nat.pow_add, Nat.sub_add_cancel (by omega)]

/-- At most 53 bits of the count are significant. -/
def IsPrecise (units : Nat) : Prop := ∃ m e, m < 2 ^ 53 ∧ units = m * 2 ^ e

theorem isPrecise_roundUnits (num den : Nat) : IsPrecise (roundUnits num den) := by
  have hle : roundQuotient num (den * 2 ^ spareBits (num / den)) ≤ 2 ^ 53 := by
    refine (roundQuotient_le _ _).trans ((div_lt_two_pow num den).trans_le ?_)
    apply Nat.pow_le_pow_right (by decide)
    unfold spareBits
    omega
  rcases hle.lt_or_eq with hlt | heq
  · exact ⟨_, _, hlt, rfl⟩
  · -- rounded up to a power of two
    refine ⟨1, 53 + spareBits (num / den), by decide, ?_⟩
    rw [roundUnits_eq, heq, Nat.one_mul, Nat.pow_add]

/-- No count with so few significant bits is nearer to the quotient. -/
theorem roundUnits_nearest (hden : 0 < den) {units : Nat} (h : IsPrecise units) :
    ((num : Int) - roundUnits num den * den).natAbs ≤ ((num : Int) - units * den).natAbs := by
  have hmultiple : ∀ k : Nat, ((num : Int) - roundUnits num den * den).natAbs ≤
      ((num : Int) - (k * 2 ^ spareBits (num / den) : Nat) * den).natAbs := by
    intro k
    have hnearest := @roundQuotient_nearest num _
      (Nat.mul_pos hden (Nat.two_pow_pos (spareBits (num / den)))) k
    have hregroup : ∀ j : Nat, (j : Int) * (den * 2 ^ spareBits (num / den) : Nat) =
        (j * 2 ^ spareBits (num / den) : Nat) * den := by
      intro j
      push_cast
      ring
    rwa [hregroup, hregroup] at hnearest
  obtain ⟨m, e, hm, rfl⟩ := h
  rcases Nat.lt_or_ge e (spareBits (num / den)) with he | he
  · -- the count is too short for the quotient: the power of two below the quotient is nearer
    have hlog : (num / den).log2 = 52 + spareBits (num / den) := by
      unfold spareBits at *
      omega
    have hzero : num / den ≠ 0 := by
      intro hzero
      rw [hzero, Nat.log2_zero] at hlog
      omega
    have hbelow : m * 2 ^ e ≤ 2 ^ 52 * 2 ^ spareBits (num / den) := by
      calc m * 2 ^ e ≤ 2 ^ 53 * 2 ^ e := Nat.mul_le_mul_right _ hm.le
        _ = 2 ^ 52 * 2 ^ (e + 1) := by ring
        _ ≤ 2 ^ 52 * 2 ^ spareBits (num / den) :=
            Nat.mul_le_mul_left _ (Nat.pow_le_pow_right (by decide) he)
    have habove : 2 ^ 52 * 2 ^ spareBits (num / den) * den ≤ num := by
      rw [← Nat.pow_add, ← hlog]
      exact (Nat.mul_le_mul_right den (Nat.log2_self_le hzero)).trans (Nat.div_mul_le_self _ _)
    have hscaled := Nat.mul_le_mul_right den hbelow
    refine (hmultiple (2 ^ 52)).trans ?_
    rw [← Nat.cast_mul, ← Nat.cast_mul]
    omega
  · -- the count is one of those that the quotient is rounded to
    have hshift : m * 2 ^ e = m * 2 ^ (e - spareBits (num / den)) * 2 ^ spareBits (num / den) := by
      rw [Nat.mul_assoc, ← Nat.pow_add, Nat.sub_add_cancel he]
    rw [hshift]
    exact hmultiple _

end Units

/-! ## Whole numbers -/

theorem one_eq : one = 2 ^ one.log2 := by decide +kernel

theorem limit_eq : limit = 2 ^ 1024 * one := by decide +kernel

theorem one_pos : 0 < one := by
  rw [one_eq]
  exact Nat.two_pow_pos _

theorem log2_mul_two_pow {c : Nat} (hc : c ≠ 0) (k : Nat) : (c * 2 ^ k).log2 = c.log2 + k := by
  rw [Nat.log2_eq_iff (Nat.mul_ne_zero hc (Nat.two_pow_pos k).ne')]
  constructor
  · rw [Nat.pow_add]
    exact Nat.mul_le_mul_right _ (Nat.log2_self_le hc)
  · rw [Nat.add_right_comm, Nat.pow_add]
    exact Nat.mul_lt_mul_of_pos_right Nat.lt_log2_self (Nat.two_pow_pos k)

theorem log2_mul_one {c : Nat} (hc : c ≠ 0) : (c * one).log2 = c.log2 + one.log2 := by
  have h := log2_mul_two_pow hc one.log2
  rwa [← one_eq] at h

/-- The units of a whole number that has been rounded. -/
def roundWhole (c : Nat) : Nat := roundUnits (c * one) 1

/-- A power of two that a whole number reaches is reached after rounding. -/
theorem two_pow_le_roundWhole {c k : Nat} (h : 2 ^ k ≤ c) : 2 ^ k * one ≤ roundWhole c := by
  have hc : c ≠ 0 := (Nat.lt_of_lt_of_le (Nat.two_pow_pos k) h).ne'
  have hround := @two_pow_le_roundUnits (c * one) 1
    (by rw [Nat.div_one]; exact Nat.mul_ne_zero hc one_pos.ne')
  rw [Nat.div_one, log2_mul_one hc, Nat.pow_add, ← one_eq] at hround
  refine (Nat.mul_le_mul_right _ ?_).trans hround
  exact Nat.pow_le_pow_right (by decide) ((Nat.le_log2 hc).mpr h)

/-- A power of two above a whole number is not exceeded by rounding. -/
theorem roundWhole_le_two_pow {c k : Nat} (h : c < 2 ^ k) : roundWhole c ≤ 2 ^ k * one := by
  rcases Nat.eq_zero_or_pos c with rfl | hpos
  · rw [roundWhole, Nat.zero_mul]
    exact Nat.zero_le _
  · have hround := roundUnits_le_two_pow (c * one) 1
    rw [Nat.div_one, log2_mul_one hpos.ne', Nat.add_right_comm, Nat.pow_add, ← one_eq] at hround
    refine hround.trans (Nat.mul_le_mul_right _ ?_)
    exact Nat.pow_le_pow_right (by decide) ((Nat.log2_lt hpos.ne').mpr h)

/-- Of a whole number of `2 ^ 52` or more the last bits are rounded. -/
theorem roundWhole_eq {c : Nat} (hc : 2 ^ 52 ≤ c) :
    roundWhole c = roundQuotient c (2 ^ (c.log2 - 52)) * 2 ^ (c.log2 - 52) * one := by
  have hzero : c ≠ 0 := (Nat.lt_of_lt_of_le (Nat.two_pow_pos 52) hc).ne'
  have hlog : 52 ≤ c.log2 := (Nat.le_log2 hzero).mpr hc
  have hspare : spareBits (c * one / 1) = c.log2 - 52 + one.log2 := by
    rw [Nat.div_one, spareBits, log2_mul_one hzero]
    omega
  rw [roundWhole, roundUnits_eq, hspare, Nat.one_mul, Nat.pow_add, ← one_eq,
    roundQuotient_mul_right _ _ one_pos, Nat.mul_assoc]

/-! ## Integers -/

theorem ofRatio_whole (negative : Bool) (c : Nat) :
    ofRatio negative (c * one) 1 =
      if roundWhole c < limit then finite negative (roundWhole c) else infinity negative := rfl

theorem ofInt_eq (i : Int) :
    ofInt i = if roundWhole i.natAbs < limit then finite (decide (i < 0)) (roundWhole i.natAbs)
      else infinity (decide (i < 0)) := rfl

theorem isFinite_ofInt_iff {i : Int} : (ofInt i).isFinite = true ↔ roundWhole i.natAbs < limit := by
  rw [ofInt_eq]
  split
  · next h => exact iff_of_true rfl h
  · next h => exact iff_of_false nofun h

theorem ofInt_of_isFinite {i : Int} (h : (ofInt i).isFinite = true) :
    ofInt i = finite (decide (i < 0)) (roundWhole i.natAbs) := by
  rw [ofInt_eq, if_pos (isFinite_ofInt_iff.mp h)]

/-- The number is one of those with 53 significant bits that are nearest to an integer. -/
def IsNearest (x : Double) (i : Int) : Prop :=
  ∃ s u, x = finite s u ∧ IsPrecise u ∧ ∀ t v, IsPrecise v →
    (i * one - signed s u).natAbs ≤ (i * one - signed t v).natAbs

theorem mul_one_eq_signed (i : Int) : i * one = signed (decide (i < 0)) (i.natAbs * one) := by
  rcases Int.lt_or_le i 0 with hneg | hpos
  · rw [decide_eq_true hneg, signed_true, Nat.cast_mul, ← Int.neg_mul,
      Int.ofNat_natAbs_of_nonpos hneg.le, Int.neg_neg]
  · rw [decide_eq_false (Int.not_lt.mpr hpos), signed_false, Nat.cast_mul,
      Int.natAbs_of_nonneg hpos]

theorem natAbs_signed_sub (s : Bool) (u v : Nat) :
    (signed s u - signed s v).natAbs = ((u : Int) - v).natAbs := by
  cases s
  · rw [signed_false, signed_false]
  · rw [signed_true, signed_true]
    omega

/-- A number of the other sign is not nearer. -/
theorem natAbs_sub_le_signed (s t : Bool) (u v : Nat) :
    ((u : Int) - v).natAbs ≤ (signed s u - signed t v).natAbs := by
  cases s <;> cases t <;> simp only [signed_true, signed_false] <;> omega

/-- An integer within the finite numbers becomes a nearest one. -/
theorem isNearest_ofInt {i : Int} (h : (ofInt i).isFinite = true) : (ofInt i).IsNearest i := by
  refine ⟨_, _, ofInt_of_isFinite h, isPrecise_roundUnits _ _, fun t v hv => ?_⟩
  have hnearest := @roundUnits_nearest (i.natAbs * one) 1 Nat.one_pos v hv
  rw [Nat.cast_one, Int.mul_one, Int.mul_one] at hnearest
  rw [mul_one_eq_signed, natAbs_signed_sub]
  exact hnearest.trans (natAbs_sub_le_signed _ t _ v)

end Double

end WordScript.Number
