import Mathlib.Data.String.Basic
import WordScript.Proofs.Failing

/-!
# Comparisons

A comparison brings its operands into an order, and holds when it is one of the orders that it
stands for. Which values are put in order is chosen by the types of both operands alike, so to
exchange the operands turns the order around. Only floating point numbers can be without an order,
when one of them is not a number; among integers, and among texts, there is one that is total.
-/

namespace WordScript

open Number (Double)

/-! ## Orders of values -/

namespace Number.Double

variable {a b : Double}

/-- Two numbers that are exchanged compare the other way round. -/
theorem compare?_swap (a b : Double) : b.compare? a = (a.compare? b).map Ordering.swap := by
  unfold compare?
  cases a.units? <;> cases b.units? <;> simp [Int.compare_swap]

theorem units?_eq_none_iff : a.units? = none ↔ a = .nan := by
  cases a <;> simp [units?]

/-- Only what is not a number is in no order. -/
theorem compare?_eq_none_iff : a.compare? b = none ↔ a = .nan ∨ b = .nan := by
  rw [← units?_eq_none_iff, ← units?_eq_none_iff, compare?]
  cases a.units? <;> cases b.units? <;> simp

end Number.Double

namespace Comparison

/-- The comparison that holds when the operands are exchanged. -/
def mirrored : Comparison → Comparison
  | eq => eq
  | ne => ne
  | lt => gt
  | gt => lt
  | le => ge
  | ge => le

theorem holds_mirrored (op : Comparison) (o : Option Ordering) :
    op.mirrored.holds (o.map Ordering.swap) = op.holds o := by
  cases o with
  | none => cases op <;> rfl
  | some o => cases op <;> cases o <;> rfl

theorem holds_ne (o : Option Ordering) : ne.holds o = !eq.holds o := by
  cases o with
  | none => rfl
  | some o => cases o <;> rfl

theorem holds_le (o : Option Ordering) : le.holds o = (lt.holds o || eq.holds o) := by
  cases o with
  | none => rfl
  | some o => cases o <;> rfl

theorem holds_ge (o : Option Ordering) : ge.holds o = (gt.holds o || eq.holds o) := by
  cases o with
  | none => rfl
  | some o => cases o <;> rfl

/-- The comparison that stands for one order alone. -/
def ofOrdering : Ordering → Comparison
  | .lt => lt
  | .eq => eq
  | .gt => gt

theorem holds_ofOrdering {o : Ordering} {o' : Option Ordering} :
    (ofOrdering o).holds o' = true ↔ o' = some o := by
  cases o' with
  | none => cases o <;> simp [ofOrdering, holds]
  | some o' => cases o <;> cases o' <;> simp [ofOrdering, holds]

end Comparison

namespace Identifier

variable {l r : Identifier} {o : Option Ordering}

theorem textOrder_eq_compare (a b : String) : textOrder a b = compare a b := rfl

/-! ## Orders of identifiers -/

/-- How two identifiers are brought into an order: as texts when one of them is a text, else as
floating point numbers when one of them is such a number, else as integers. -/
inductive OrderedAs (l r : Identifier) : Option Ordering → Prop
  | texts (htext : l.type = "string" ∨ r.type = "string") :
      OrderedAs l r (some (textOrder l.toText r.toText))
  | doubles {x y : Double} (htext : ¬ (l.type = "string" ∨ r.type = "string"))
      (hdouble : l.type = "double" ∨ r.type = "double") (hx : l.toDouble = .ok x)
      (hy : r.toDouble = .ok y) : OrderedAs l r (x.compare? y)
  | integers {m n : Int64} (htext : ¬ (l.type = "string" ∨ r.type = "string"))
      (hdouble : ¬ (l.type = "double" ∨ r.type = "double")) (hm : l.toInt64 = .ok m)
      (hn : r.toInt64 = .ok n) : OrderedAs l r (some (compare m.toInt n.toInt))

theorem order?_of_orderedAs (h : OrderedAs l r o) : order? l r = .ok o := by
  cases h with
  | texts htext => simp [order?, eitherIs, htext]
  | doubles htext hdouble hx hy =>
    simp only [order?, eitherIs, Bool.or_eq_true, decide_eq_true_eq, htext, hdouble, if_false,
      if_true, hx, hy]
    rfl
  | integers htext hdouble hm hn =>
    simp only [order?, eitherIs, Bool.or_eq_true, decide_eq_true_eq, htext, hdouble, if_false,
      hm, hn]
    rfl

/-- Any two identifiers are brought into an order in one of these ways. -/
theorem exists_orderedAs (l r : Identifier) : ∃ o, OrderedAs l r o := by
  by_cases htext : l.type = "string" ∨ r.type = "string"
  · exact ⟨_, .texts htext⟩
  obtain ⟨hl, hr⟩ := not_or.mp htext
  by_cases hdouble : l.type = "double" ∨ r.type = "double"
  · obtain ⟨x, hx⟩ := exists_toDouble_iff.mpr (hasNumber_of_ne hl .double)
    obtain ⟨y, hy⟩ := exists_toDouble_iff.mpr (hasNumber_of_ne hr .double)
    exact ⟨_, .doubles htext hdouble hx hy⟩
  · obtain ⟨m, hm⟩ := exists_toInt64_iff.mpr (hasNumber_of_ne hl .int)
    obtain ⟨n, hn⟩ := exists_toInt64_iff.mpr (hasNumber_of_ne hr .int)
    exact ⟨_, .integers htext hdouble hm hn⟩

theorem OrderedAs.swap (h : OrderedAs l r o) : OrderedAs r l (o.map Ordering.swap) := by
  cases h with
  | texts htext =>
    rw [Option.map_some, textOrder_eq_compare, ← Std.OrientedOrd.eq_swap]
    exact .texts htext.symm
  | doubles htext hdouble hx hy =>
    rw [← Double.compare?_swap]
    exact .doubles (fun h => htext h.symm) hdouble.symm hy hx
  | integers htext hdouble hm hn =>
    rw [Option.map_some, Int.compare_swap]
    exact .integers (fun h => htext h.symm) (fun h => hdouble h.symm) hn hm

/-- The two are compared as floating point numbers, and one of these is not a number. -/
def IsUnordered (l r : Identifier) : Prop :=
  ¬ (l.type = "string" ∨ r.type = "string") ∧ (l.type = "double" ∨ r.type = "double") ∧
    (l.toDouble = .ok .nan ∨ r.toDouble = .ok .nan)

theorem OrderedAs.eq_none_iff (h : OrderedAs l r o) : o = none ↔ IsUnordered l r := by
  cases h with
  | texts htext => simp [IsUnordered, htext]
  | doubles htext hdouble hx hy =>
    simp [IsUnordered, htext, hdouble, hx, hy, Double.compare?_eq_none_iff]
  | integers htext hdouble => simp [IsUnordered, hdouble]

/-! ## Comparisons -/

/-- The comparison of the two holds. -/
def Compares (op : Comparison) (l r : Identifier) : Prop :=
  compared op l r = .ok (.bool true)

theorem compared_of_order? (h : order? l r = .ok o) (op : Comparison) :
    compared op l r = .ok (.bool (op.holds o)) := by
  rw [compared, h]
  rfl

theorem compares_of_order? (h : order? l r = .ok o) :
    Compares op l r ↔ op.holds o = true := by
  rw [Compares, compared_of_order? h]
  simp [Identifier.bool, Identifier.constant]

/-- To exchange the operands is to mirror the comparison. -/
theorem compared_mirrored (op : Comparison) (l r : Identifier) :
    compared op.mirrored r l = compared op l r := by
  obtain ⟨o, ho⟩ := exists_orderedAs l r
  rw [compared_of_order? (order?_of_orderedAs ho), compared_of_order? (order?_of_orderedAs ho.swap),
    Comparison.holds_mirrored]

/-- Of the three orders, no more than one holds. -/
theorem eq_of_compares {o o' : Ordering} (h : Compares (.ofOrdering o) l r)
    (h' : Compares (.ofOrdering o') l r) : o = o' := by
  obtain ⟨found, hfound⟩ := exists_order? l r
  rw [compares_of_order? hfound, Comparison.holds_ofOrdering] at h h'
  exact Option.some.inj (h.symm.trans h')

/-- One of them does, unless the two are without an order. -/
theorem exists_compares_iff : (∃ o, Compares (.ofOrdering o) l r) ↔ ¬ IsUnordered l r := by
  obtain ⟨o, ho⟩ := exists_orderedAs l r
  simp only [← ho.eq_none_iff, compares_of_order? (order?_of_orderedAs ho),
    Comparison.holds_ofOrdering]
  exact Option.ne_none_iff_exists'.symm

/-! ## Integers and texts -/

theorem order?_int (hl : l.type = "int") (hr : r.type = "int") :
    order? l r = .ok (some (compare l.value.asInt.toInt r.value.asInt.toInt)) := by
  have hcast : ∀ {i : Identifier}, i.type = "int" → i.toInt64 = .ok i.value.asInt := by
    intro i hi
    simp [toInt64, castValue, hi]
  refine order?_of_orderedAs (.integers ?_ ?_ (hcast hl) (hcast hr)) <;> simp [hl, hr]

theorem order?_string (hl : l.type = "string") (hr : r.type = "string") :
    order? l r = .ok (some (textOrder l.value.asString r.value.asString)) := by
  have hcast : ∀ {i : Identifier}, i.type = "string" → i.toText = i.value.asString := by
    intro i hi
    simp [toText, castValue, hi]
  rw [order?_of_orderedAs (.texts (.inl hl)), hcast hl, hcast hr]

/-- On the identifiers of a type, to be less is a strict total order of their payloads, as they are
read. -/
structure OrdersPayloads {α : Type} [LT α] (payload : Value → α) (type : String) : Prop where
  less_iff : ∀ {l r : Identifier}, l.type = type → r.type = type →
    (Compares .lt l r ↔ payload l.value < payload r.value)
  equal_iff : ∀ {l r : Identifier}, l.type = type → r.type = type →
    (Compares .eq l r ↔ payload l.value = payload r.value)
  irrefl : ∀ {i : Identifier}, i.type = type → ¬ Compares .lt i i
  trans : ∀ {i j k : Identifier}, i.type = type → j.type = type → k.type = type →
    Compares .lt i j → Compares .lt j k → Compares .lt i k
  trichotomous : ∀ {l r : Identifier}, l.type = type → r.type = type →
    Compares .lt l r ∨ payload l.value = payload r.value ∨ Compares .lt r l

/-- So it is when the payloads are what is brought into an order. -/
theorem ordersPayloads_of_order? {α : Type} [LinearOrder α] {payload : Value → α} {type : String}
    (h : ∀ {l r : Identifier}, l.type = type → r.type = type →
      order? l r = .ok (some (compare (payload l.value) (payload r.value)))) :
    OrdersPayloads payload type := by
  have hless : ∀ {l r : Identifier}, l.type = type → r.type = type →
      (Compares .lt l r ↔ payload l.value < payload r.value) := by
    intro l r hl hr
    simp [compares_of_order? (h hl hr), Comparison.holds, compare_lt_iff_lt]
  refine ⟨hless, ?_, ?_, ?_, ?_⟩
  · intro l r hl hr
    simp [compares_of_order? (h hl hr), Comparison.holds]
  · intro i hi
    rw [hless hi hi]
    exact lt_irrefl _
  · intro i j k hi hj hk
    rw [hless hi hj, hless hj hk, hless hi hk]
    exact lt_trans
  · intro l r hl hr
    rw [hless hl hr, hless hr hl]
    exact lt_trichotomy _ _

theorem ordersPayloads_int : OrdersPayloads (fun value => value.asInt.toInt) "int" :=
  ordersPayloads_of_order? order?_int

theorem ordersPayloads_string : OrdersPayloads Value.asString "string" :=
  ordersPayloads_of_order? order?_string

/-- Any two identifiers can be compared. To be unequal is the opposite of being equal, and a
comparison holds exactly when the mirrored one holds of the exchanged operands. What is less or
equal, or greater or equal, is one of the two. No two of less, equal and greater hold at once, and
one of them does unless floating point numbers are compared of which one is not a number. Among
integers, and among texts, to be less is a strict total order of the payloads. -/
theorem comparisons_coherent (l r : Identifier) :
    (∃ b, compared .eq l r = .ok (.bool b) ∧ compared .ne l r = .ok (.bool !b)) ∧
    (compared .lt l r = compared .gt r l ∧ compared .le l r = compared .ge r l ∧
      compared .eq l r = compared .eq r l ∧ compared .ne l r = compared .ne r l) ∧
    ((Compares .le l r ↔ Compares .lt l r ∨ Compares .eq l r) ∧
      (Compares .ge l r ↔ Compares .gt l r ∨ Compares .eq l r)) ∧
    (∀ o o', Compares (.ofOrdering o) l r → Compares (.ofOrdering o') l r → o = o') ∧
    ((∃ o, Compares (.ofOrdering o) l r) ↔ ¬ IsUnordered l r) ∧
    OrdersPayloads (fun value => value.asInt.toInt) "int" ∧
    OrdersPayloads Value.asString "string" := by
  obtain ⟨o, ho⟩ := exists_order? l r
  refine ⟨⟨Comparison.eq.holds o, compared_of_order? ho _, ?_⟩, ?_, ⟨?_, ?_⟩,
    fun _ _ => eq_of_compares, exists_compares_iff, ordersPayloads_int, ordersPayloads_string⟩
  · rw [compared_of_order? ho, Comparison.holds_ne]
  · have hmirrored := fun op => (compared_mirrored op l r).symm
    exact ⟨hmirrored .lt, hmirrored .le, hmirrored .eq, hmirrored .ne⟩
  · simp only [compares_of_order? ho, Comparison.holds_le, Bool.or_eq_true]
  · simp only [compares_of_order? ho, Comparison.holds_ge, Bool.or_eq_true]

/-- Three integers, the one in the middle with a truth value as its payload; and an integer against
what is not a number. -/
theorem comparisons_coherent_payloads :
    let truth : Identifier := { int 0 with value := .bool true }
    (Compares .lt (int (-1)) truth ∧ Compares .lt truth (int 2) ∧
      Compares .lt (int (-1)) (int 2)) ∧
    (IsUnordered (int 2) (double .nan) ∧
      ¬ ∃ o, Compares (.ofOrdering o) (int 2) (double .nan)) := by
  intro truth
  have hless : Compares .lt (int (-1)) truth := rfl
  have hless' : Compares .lt truth (int 2) := rfl
  have hunordered : IsUnordered (int 2) (double .nan) := ⟨by decide, .inr rfl, .inr rfl⟩
  obtain ⟨-, -, -, -, -, hint, -⟩ := comparisons_coherent (int (-1)) (int 2)
  obtain ⟨-, -, -, -, hordered, -, -⟩ := comparisons_coherent (int 2) (double .nan)
  exact ⟨⟨hless, hless', hint.trans rfl rfl rfl hless hless'⟩, hunordered,
    fun hexists => hordered.mp hexists hunordered⟩

end Identifier

end WordScript
