import Mathlib.Algebra.Ring.MinimalAxioms
import Mathlib.Algebra.Ring.TransferInstance
import WordScript.Proofs.Failing

/-!
# Integer arithmetic

Arithmetic on two operands that are neither texts nor floating point numbers is that of the integers
modulo `2 ^ 64`. A quotient is cut off towards zero, and the remainder that is left is smaller than
the divisor: also where the quotient is the one that does not fit, and wraps around.
-/

namespace WordScript

namespace Number

/-- The integer of 64 bits is the other one, but for a multiple of `2 ^ 64`. -/
def ReducesTo (i : Int) (n : Int64) : Prop := FitsInt64 n.toInt ∧ 2 ^ 64 ∣ i - n.toInt

theorem reducesTo_of_toInt_eq_bmod {i : Int} {n : Int64} (h : n.toInt = i.bmod (2 ^ 64)) :
    ReducesTo i n := by
  refine ⟨⟨n.le_toInt, n.toInt_lt⟩, ?_⟩
  rw [h]
  exact Int.dvd_self_sub_bmod

/-- What is left of a dividend is the remainder, even when the quotient has wrapped around. -/
theorem sub_div_mul (a b : Int64) : a - a / b * b = a % b := by
  have hremainder : a.toInt - a.toInt.tdiv b.toInt * b.toInt = a.toInt.tmod b.toInt := by
    rw [Int.tmod_def, Int.mul_comm]
  rw [← Int64.toInt_inj, Int64.toInt_sub, Int64.toInt_mul, Int64.toInt_div, Int.bmod_mul_bmod,
    Int.sub_bmod_bmod, hremainder, ← Int64.toInt_mod]
  exact Int64.toInt_bmod _

theorem natAbs_toInt_mod_lt (a : Int64) {b : Int64} (hb : b ≠ 0) :
    (a % b).toInt.natAbs < b.toInt.natAbs := by
  rw [Int64.toInt_mod, Int.natAbs_tmod]
  refine Nat.mod_lt _ (Int.natAbs_pos.mpr fun hzero => hb ?_)
  exact Int64.toInt_inj.mp hzero

theorem sign_toInt_mod (a b : Int64) : a % b = 0 ∨ (a % b).toInt.sign = a.toInt.sign := by
  rw [← Int64.toInt_inj, Int64.toInt_mod, Int.sign_tmod]
  by_cases hdvd : b.toInt ∣ a.toInt
  · exact .inl (Int.tmod_eq_zero_of_dvd hdvd)
  · exact .inr (if_neg hdvd)

theorem toInt_div_or (a b : Int64) :
    (a / b).toInt = a.toInt.tdiv b.toInt ∨ a = Int64.minValue ∧ b = -1 := by
  by_cases ha : a = Int64.minValue
  · by_cases hb : b = -1
    · exact .inr ⟨ha, hb⟩
    · exact .inl (Int64.toInt_div_of_ne_right a b hb)
  · exact .inl (Int64.toInt_div_of_ne_left a b ha)

end Number

namespace Identifier

open Number (ReducesTo)

/-- Arithmetic takes the identifier for an integer. -/
def IsInteger (i : Identifier) : Prop := i.type ≠ "string" ∧ i.type ≠ "double"

theorem isInteger_int (n : Int64) : (int n).IsInteger := by
  simp [IsInteger, int, constant]

variable {l r : Identifier} {a b : Int64}

theorem IsInteger.exists_toInt64 (h : l.IsInteger) : ∃ n, l.toInt64 = .ok n :=
  exists_toInt64_iff.mpr (hasNumber_of_ne h.1 _)

/-- The operation on the integers that the operands are. -/
theorem arithmetic_of_isInteger (op : Arithmetic) (hl : l.IsInteger) (hr : r.IsInteger)
    (ha : l.toInt64 = .ok a) (hb : r.toInt64 = .ok b) :
    arithmetic op l r = (op.onInt a b).map int := by
  have hjoins : ¬ Joins op l r := fun h => h.2.elim hl.1 hr.1
  have hint : promoted l r = .int := if_neg fun h => h.elim hl.2 hr.2
  rw [arithmetic_of_int hjoins hint, ha, hb]
  change (op.onInt a b >>= fun n => pure (int n)) = _
  cases op.onInt a b <;> rfl

/-- Sums, differences and products of the two operands, which are the two integers. -/
structure WrapsAround (l r : Identifier) (a b : Int64) : Prop where
  left : l.toInt64 = .ok a
  right : r.toInt64 = .ok b
  add : ∃ n, arithmetic .add l r = .ok (.int n) ∧ ReducesTo (a.toInt + b.toInt) n
  sub : ∃ n, arithmetic .sub l r = .ok (.int n) ∧ ReducesTo (a.toInt - b.toInt) n
  mul : ∃ n, arithmetic .mul l r = .ok (.int n) ∧ ReducesTo (a.toInt * b.toInt) n
  add_sub : ∃ n, arithmetic .add l r = .ok (.int n) ∧ arithmetic .sub (.int n) r = .ok (.int a)

/-- The quotient of the two operands, its product with the right one, and the remainder that is left
of the left one. -/
structure Division (l r : Identifier) (a b q p m : Int64) : Prop where
  quotient : arithmetic .div l r = .ok (.int q)
  reduced : ReducesTo (a.toInt.tdiv b.toInt) q
  truncated : q.toInt = a.toInt.tdiv b.toInt ∨ a = Int64.minValue ∧ b = -1
  product : arithmetic .mul (.int q) r = .ok (.int p)
  remainder : arithmetic .sub l (.int p) = .ok (.int m)
  total : arithmetic .add (.int p) (.int m) = .ok (.int a)
  small : m.toInt.natAbs < b.toInt.natAbs
  sign : m = 0 ∨ m.toInt.sign = a.toInt.sign

theorem wrapsAround (hl : l.IsInteger) (hr : r.IsInteger) (ha : l.toInt64 = .ok a)
    (hb : r.toInt64 = .ok b) : WrapsAround l r a b where
  left := ha
  right := hb
  add := ⟨a + b, arithmetic_of_isInteger .add hl hr ha hb,
    Number.reducesTo_of_toInt_eq_bmod (Int64.toInt_add a b)⟩
  sub := ⟨a - b, arithmetic_of_isInteger .sub hl hr ha hb,
    Number.reducesTo_of_toInt_eq_bmod (Int64.toInt_sub a b)⟩
  mul := ⟨a * b, arithmetic_of_isInteger .mul hl hr ha hb,
    Number.reducesTo_of_toInt_eq_bmod (Int64.toInt_mul a b)⟩
  add_sub := by
    refine ⟨a + b, arithmetic_of_isInteger .add hl hr ha hb, ?_⟩
    rw [arithmetic_of_isInteger .sub (isInteger_int _) hr rfl hb]
    change Except.ok (int (a + b - b)) = _
    rw [Int64.add_sub_cancel]

theorem division (hl : l.IsInteger) (hr : r.IsInteger) (ha : l.toInt64 = .ok a)
    (hb : r.toInt64 = .ok b) (hne : b ≠ 0) :
    Division l r a b (a / b) (a / b * b) (a % b) where
  quotient := by
    rw [arithmetic_of_isInteger .div hl hr ha hb, Arithmetic.onInt, if_neg hne]
    rfl
  reduced := Number.reducesTo_of_toInt_eq_bmod (Int64.toInt_div a b)
  truncated := Number.toInt_div_or a b
  product := arithmetic_of_isInteger .mul (isInteger_int _) hr rfl hb
  remainder := by
    rw [arithmetic_of_isInteger .sub hl (isInteger_int _) ha rfl, ← Number.sub_div_mul]
    rfl
  total := by
    rw [arithmetic_of_isInteger .add (isInteger_int _) (isInteger_int _) rfl rfl,
      ← Number.sub_div_mul]
    change Except.ok (int (a / b * b + (a - a / b * b))) = _
    rw [Int64.add_comm, Int64.sub_add_cancel]
  small := Number.natAbs_toInt_mod_lt a hne
  sign := Number.sign_toInt_mod a b

end Identifier

/-! ## The ring of integer constants -/

/-- An integer constant. -/
structure IntegerConstant where
  constant : Identifier
  isInt : ∃ n : Int64, constant = .int n

namespace IntegerConstant

/-- The constant of an integer. -/
def of (n : Int64) : IntegerConstant := ⟨.int n, n, rfl⟩

/-- The integer of a constant. -/
def payload (c : IntegerConstant) : Int64 := c.constant.value.asInt

@[simp] theorem payload_of (n : Int64) : (of n).payload = n := rfl

@[simp] theorem of_payload (c : IntegerConstant) : of c.payload = c := by
  obtain ⟨_, n, rfl⟩ := c
  rfl

/-- The constants as integers of 64 bits. -/
def equivInt64 : IntegerConstant ≃ Int64 where
  toFun := payload
  invFun := of
  left_inv := of_payload
  right_inv := payload_of

/-- The integers of 64 bits are a ring. -/
@[reducible] def int64Ring : CommRing Int64 :=
  letI : Zero Int64 := ⟨0⟩
  letI : One Int64 := ⟨1⟩
  CommRing.ofMinimalAxioms Int64.add_assoc Int64.zero_add Int64.add_left_neg Int64.mul_assoc
    Int64.mul_comm Int64.one_mul fun _ _ _ => Int64.mul_add

/-- So the constants are one as well. -/
@[reducible] def ring : CommRing IntegerConstant :=
  letI := int64Ring
  equivInt64.commRing

theorem arithmetic_constants (op : Arithmetic) (c d : IntegerConstant) :
    Identifier.arithmetic op c.constant d.constant = (op.onInt c.payload d.payload).map .int := by
  obtain ⟨_, a, rfl⟩ := c
  obtain ⟨_, b, rfl⟩ := d
  exact Identifier.arithmetic_of_isInteger op (Identifier.isInteger_int a)
    (Identifier.isInteger_int b) rfl rfl

end IntegerConstant

/-- Arithmetic on operands that are neither texts nor floating point numbers is arithmetic modulo
`2 ^ 64`, where the sum less one of its terms is the other one; the integer constants are a
commutative ring under it. It divides by all integers other than zero, towards zero and leaving a
remainder, also where the quotient wraps around. -/
theorem integer_arithmetic_modular :
    (∀ l r : Identifier, l.IsInteger → r.IsInteger → ∃ a b : Int64,
      Identifier.WrapsAround l r a b ∧
      (b ≠ 0 → ∃ q p m : Int64, Identifier.Division l r a b q p m)) ∧
    ∃ _ : CommRing IntegerConstant, ∀ c d : IntegerConstant,
      Identifier.arithmetic .add c.constant d.constant = .ok (c + d).constant ∧
      Identifier.arithmetic .sub c.constant d.constant = .ok (c - d).constant ∧
      Identifier.arithmetic .mul c.constant d.constant = .ok (c * d).constant := by
  refine ⟨fun l r hl hr => ?_, IntegerConstant.ring, fun c d => ⟨?_, ?_, ?_⟩⟩
  · obtain ⟨a, ha⟩ := hl.exists_toInt64
    obtain ⟨b, hb⟩ := hr.exists_toInt64
    exact ⟨a, b, Identifier.wrapsAround hl hr ha hb,
      fun hne => ⟨_, _, _, Identifier.division hl hr ha hb hne⟩⟩
  · exact IntegerConstant.arithmetic_constants .add c d
  · rw [IntegerConstant.arithmetic_constants, Arithmetic.onInt, Int64.sub_eq_add_neg]
    rfl
  · exact IntegerConstant.arithmetic_constants .mul c d

/-- The least integer divided by minus one is the least integer, and nothing is left. -/
theorem integer_arithmetic_modular_least :
    (Identifier.int Int64.minValue).IsInteger ∧ (Identifier.int (-1)).IsInteger ∧
      ∃ p m : Int64, Identifier.Division (.int Int64.minValue) (.int (-1)) Int64.minValue (-1)
        Int64.minValue p m := by
  have hl := Identifier.isInteger_int Int64.minValue
  have hr := Identifier.isInteger_int (-1)
  obtain ⟨a, b, hwraps, hdivides⟩ := integer_arithmetic_modular.1 _ _ hl hr
  obtain rfl : Int64.minValue = a := Except.ok.inj hwraps.left
  obtain rfl : -1 = b := Except.ok.inj hwraps.right
  obtain ⟨q, p, m, hdivision⟩ := hdivides (by decide)
  obtain rfl : Int64.minValue = q := by
    exact Value.int.inj (congrArg Identifier.value (Except.ok.inj hdivision.quotient))
  exact ⟨hl, hr, p, m, hdivision⟩

end WordScript
