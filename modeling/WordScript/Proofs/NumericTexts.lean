import WordScript.Proofs.Assignments
import WordScript.Proofs.Numerals

/-!
# Words and texts that write numbers

A number can be written as a word of the program, or as a text that is cast to a number. The two are
read in ways of their own: a word has to begin like a number and becomes an integer when it is one,
and a text may stand between blanks and is cut off. They come to the same integer all the same.
-/

namespace WordScript

namespace Number

variable {cs : List Char} {c : Char}

/-- The character may occur in a numeral. -/
def IsNumeralChar (c : Char) : Prop := c.isDigit = true ∨ c ∈ ['+', '-', '.', 'e', 'E']

theorem isBlank_of_isNumeralChar (h : IsNumeralChar c) : Text.isBlank c = false := by
  rcases h with h | h
  · simp only [Char.isDigit, Bool.and_eq_true, decide_eq_true_eq] at h
    have hlow : 48 ≤ c.toNat := UInt32.le_iff_toNat_le.mp h.1
    have hhigh : c.toNat ≤ 57 := UInt32.le_iff_toNat_le.mp h.2
    simp [Text.isBlank, Text.blankRanges]
    omega
  · simp only [List.mem_cons, List.not_mem_nil, or_false] at h
    rcases h with rfl | rfl | rfl | rfl | rfl <;> decide

theorem isNumeralChar_of_digits {ds : List Char} (h : ∀ c ∈ ds, c.isDigit = true) :
    ∀ c ∈ ds, IsNumeralChar c :=
  fun c hc => .inl (h c hc)

theorem WritesInteger.isNumeralChar {i : Int} (h : WritesInteger cs i) :
    ∀ c ∈ cs, IsNumeralChar c := by
  cases h with
  | bare hne hds => exact isNumeralChar_of_digits hds
  | plus hne hds => exact List.forall_mem_cons.mpr ⟨.inr (by decide), isNumeralChar_of_digits hds⟩
  | minus hne hds => exact List.forall_mem_cons.mpr ⟨.inr (by decide), isNumeralChar_of_digits hds⟩

theorem WritesExponent.isNumeralChar {e : Int} (h : WritesExponent cs e) :
    ∀ c ∈ cs, IsNumeralChar c := by
  cases h with
  | none => nofun
  | letter hl h =>
    refine List.forall_mem_cons.mpr ⟨.inr ?_, h.isNumeralChar⟩
    rcases hl with rfl | rfl <;> decide

theorem WritesMagnitude.isNumeralChar {n : Nat} {e : Int} (h : WritesMagnitude cs n e) :
    ∀ c ∈ cs, IsNumeralChar c := by
  cases h with
  | whole hne hds hrest =>
    exact List.forall_mem_append.mpr ⟨isNumeralChar_of_digits hds, hrest.isNumeralChar⟩
  | point hne hds hfs hrest =>
    refine List.forall_mem_append.mpr ⟨isNumeralChar_of_digits hds, ?_⟩
    refine List.forall_mem_cons.mpr ⟨.inr (by decide), ?_⟩
    exact List.forall_mem_append.mpr ⟨isNumeralChar_of_digits hfs, hrest.isNumeralChar⟩

theorem WritesNumeral.isNumeralChar {n : Numeral} (h : WritesNumeral cs n) :
    ∀ c ∈ cs, IsNumeralChar c := by
  cases h with
  | bare h => exact h.isNumeralChar
  | plus h => exact List.forall_mem_cons.mpr ⟨.inr (by decide), h.isNumeralChar⟩
  | minus h => exact List.forall_mem_cons.mpr ⟨.inr (by decide), h.isNumeralChar⟩

/-- There are no blanks in a numeral to be trimmed. -/
theorem WritesNumeral.trim {n : Numeral} (h : WritesNumeral cs n) : Text.trim cs = cs :=
  Text.trim_eq_self fun c hc => isBlank_of_isNumeralChar (h.isNumeralChar c hc)

end Number

namespace Identifier

variable {word : String} {x : Number.Double}

/-- The number that a word is read as is finite, and its text writes it. -/
theorem number?_eq_some (h : number? word.toList = some x) :
    Number.Double.ofText? word.toList = some x ∧ x.isFinite = true := by
  unfold number? at h
  split at h
  · cases h
  · next lead cs hsplit =>
    obtain ⟨-, h⟩ := Option.ite_none_right_eq_some.mp h
    split at h
    · next y hy =>
      obtain ⟨hfinite, hxy⟩ := Option.ite_none_right_eq_some.mp h
      obtain rfl := Option.some.inj hxy
      exact ⟨hy, hfinite⟩
    · cases h

/-- The integer part of a whole number of 64 bits is the number. -/
theorem toInt64_of_integer? {i : Int} (hi : x.integer? = some i) (hfits : Number.FitsInt64 i) :
    x.toInt64 = Int64.ofInt i := by
  cases x with
  | finite s u =>
    obtain ⟨-, hi⟩ := Option.ite_none_right_eq_some.mp hi
    simp only [Number.Double.toInt64, Option.some.inj hi]
    rw [if_neg (Int.not_lt.mpr hfits.1), if_neg (Int.not_le.mpr hfits.2)]
  | _ => cases hi

/-- The constant for a number is cast to its integer part, whichever of the two types it is of. -/
theorem castValue_ofNumber (x : Number.Double) :
    (ofNumber x).castValue "int" = .ok (.int x.toInt64) := by
  unfold ofNumber
  split
  · next i hi =>
    split
    · next hfits =>
      rw [toInt64_of_integer? hi hfits]
      rfl
    · rfl
  · rfl

/-- The text is cast to the integer that it writes. -/
theorem castValue_string_int {text : String} {n : Int64} (h : textToInt text = .ok n) :
    (string text).castValue "int" = .ok (.int n) := by
  change convert (.string text) .string .int = _
  simp only [convert, Value.asString, h]

/-- A word that is a number and the text of the word are cast to the same integer. -/
theorem exists_castValue_of_constant (h : (ofWord word).role = .constant) :
    ∃ n, (ofWord word).castValue "int" = .ok (.int n) ∧
      (string word).castValue "int" = .ok (.int n) := by
  unfold ofWord at h ⊢
  cases hn : Number.int64? word.toList with
  | some n =>
    obtain ⟨s, c, hwrites, -⟩ := (Number.int64?_eq_some_iff.mp hn).exists_writesNumeral
    refine ⟨n, rfl, castValue_string_int ?_⟩
    simp only [textToInt, hwrites.trim, hn]
  | none =>
    cases hx : number? word.toList with
    | some x =>
      obtain ⟨hread, hfinite⟩ := number?_eq_some hx
      obtain ⟨m, hwrites, -⟩ := Number.Double.ofText?_finite_iff.mp ⟨hread, hfinite⟩
      refine ⟨x.toInt64, castValue_ofNumber x, castValue_string_int ?_⟩
      simp only [textToInt, hwrites.trim, hn, hread, hfinite, if_true]
    | none =>
      rw [hn, hx] at h
      cases h

/-- The printed text of an integer constant is its digits. -/
theorem toText_int (n : Int64) : (int n).toText = Number.integerText n.toInt := rfl

theorem castTo_of_castValue {i : Identifier} {type : String} {value : Value}
    (h : i.castValue type = .ok value) : i.castTo type = .ok (constant type value) := by
  rw [castTo, h]

/-- The printed text of an integer is read back, as a word and as a text. -/
theorem read_toText_int (n : Int64) :
    ofWord (int n).toText = .int n ∧ (string (int n).toText).castTo "int" = .ok (.int n) := by
  have hword := ofWord_integerText n
  obtain ⟨m, hm, htext⟩ := @exists_castValue_of_constant (int n).toText
    (by rw [toText_int, hword]; rfl)
  rw [toText_int, hword] at hm
  obtain rfl : n = m := Value.int.inj (Except.ok.inj hm)
  exact ⟨hword, castTo_of_castValue htext⟩

end Identifier

namespace Evaluation

variable {host : Host} {m : Machine} {x o v k : Handle} {i j : Identifier} {value : Value}

/-- An assignment of a constant to a variable stores the constant cast to the type of the
variable. -/
theorem perform_assign_constant (host : Host) (steps : Nat) (ho : m.store.Between o .assign)
    (hx : m.store.StandsFor x k) (hi : m.store.arena.get? k = some i)
    (hvariable : i.isVariable = true) (hcontainer : isContainer i.type = false)
    (hj : m.store.arena.get? v = some j) (hconstant : j.role = .constant)
    (hvalue : j.castValue i.type = .ok value) :
    perform host (steps + 4) (.evaluate (.group [.leaf x, .leaf o, .leaf v])) m =
      .value [k] { m.noted [.leaf x, .leaf o, .leaf v] with store :=
        { m.store with arena := m.store.arena.put k.index { i with value } } } := by
  have hv : m.store.StandsFor v v :=
    Store.standsFor_self hj (by simp [Identifier.isUndefined, hconstant])
  have hfunction : j.isFunction = false := by simp [Identifier.isFunction, hconstant]
  have hassign : Builtin.assign.assignment? = some Identifier.assigned := rfl
  obtain ⟨each, hone, heach⟩ := exists_assignEach hassign
  have hwaits : Waits (m.noted [.leaf x, .leaf o, .leaf v]) (m.noted [.leaf x, .leaf o, .leaf v])
      (.leaf v) (.leaf v) :=
    .leaf (resolveLeaf_of_standsFor hv) hj hfunction
  obtain ⟨f, hend⟩ := perform_between host (steps + 1) hwaits ho
  have hassigned : i.assigned j = .ok (some value) := by
    simp only [Identifier.assigned, hvariable, hcontainer, if_true, hvalue]
    rfl
  have hpairs : pairs (perform host (steps + 1)) [.leaf x, .leaf v]
      (m.noted [.leaf x, .leaf o, .leaf v]) =
        .value [(k, v)] (m.noted [.leaf x, .leaf o, .leaf v]) :=
    pairs_of_value (perform_evaluate_leaf host steps (resolveLeaf_of_standsFor hx))
      (perform_evaluate_leaf host steps (resolveLeaf_of_standsFor hv))
  have hone := hone (m := m.noted [.leaf x, .leaf o, .leaf v]) hi hj
  rw [hassigned] at hone
  rw [hend, heach, List.tail_cons, Action.bind_apply, hpairs]
  exact (congrFun (concatMap_singleton each (k, v)) _).trans hone

end Evaluation

/-- For every word that is a number, the constant that it is read as and the text of the word are
cast to the same integer; so assigning the one or the other to an integer variable, which a leaf
stands for, leaves the same in the store: this integer in the variable, and nothing else has
changed. And the printed text of an integer is read back as this integer, as a word and as a
text. -/
theorem number_readers_agree :
    (∀ word : String, (Identifier.ofWord word).role = .constant → ∃ n : Int64,
      (Identifier.ofWord word).castTo "int" = .ok (.int n) ∧
      (Identifier.string word).castTo "int" = .ok (.int n) ∧
      ∀ (host : Host) (m : Machine) (o x k v : Handle) (i j : Identifier),
        m.store.Between o .assign → m.store.StandsFor x k → m.store.arena.get? k = some i →
        i.isVariable = true → i.type = "int" → m.store.arena.get? v = some j →
        j = .ofWord word ∨ j = .string word → ∀ steps, 4 ≤ steps →
        perform host steps (.evaluate (.group [.leaf x, .leaf o, .leaf v])) m =
          .value [k] { m.noted [.leaf x, .leaf o, .leaf v] with store :=
            { m.store with arena := m.store.arena.put k.index { i with value := .int n } } }) ∧
    ∀ n : Int64, Identifier.ofWord (Identifier.int n).toText = .int n ∧
      (Identifier.string (Identifier.int n).toText).castTo "int" = .ok (.int n) := by
  refine ⟨fun word hword => ?_, Identifier.read_toText_int⟩
  obtain ⟨n, hconstant, htext⟩ := Identifier.exists_castValue_of_constant hword
  refine ⟨n, Identifier.castTo_of_castValue hconstant, Identifier.castTo_of_castValue htext, ?_⟩
  intro host m o x k v i j ho hx hi hvariable htype hv hj steps hsteps
  obtain ⟨s, rfl⟩ : ∃ s, steps = s + 4 := ⟨steps - 4, by omega⟩
  have hcontainer : Evaluation.isContainer i.type = false := by
    rw [htype]
    decide
  rcases hj with rfl | rfl
  · exact Evaluation.perform_assign_constant host s ho hx hi hvariable hcontainer hv hword
      (htype ▸ hconstant)
  · exact Evaluation.perform_assign_constant host s ho hx hi hvariable hcontainer hv rfl
      (htype ▸ htext)

/-- In `x = -7.5` and in `x = "-7.5"` the variable comes to be `-7`. -/
theorem number_readers_agree_fraction :
    let host := Extension.Registry.host []
    let value : Identifier := { surface := "x", role := .var, type := "int", value := .int (-7) }
    ∃ m, perform host 14 (.runTextTopLevel "x :: int\nx = -7.5\nx = \"-7.5\"\n") (.initial {}) =
        .value (.ok ()) m ∧
      m.store.arena.get? ⟨43, 0⟩ = some (.ofWord "-7.5") ∧
      m.store.arena.get? ⟨46, 0⟩ = some (.string "-7.5") ∧
      ∀ v : Handle, v = ⟨43, 0⟩ ∨ v = ⟨46, 0⟩ →
        perform host 4 (.evaluate (.group [.leaf ⟨41, 0⟩, .leaf ⟨42, 0⟩, .leaf v])) m =
          .value [⟨47, 0⟩] { m.noted [.leaf ⟨41, 0⟩, .leaf ⟨42, 0⟩, .leaf v] with store :=
            { m.store with arena := m.store.arena.put 47 value } } := by
  intro host value
  have hrun : (perform host 14 (.runTextTopLevel "x :: int\nx = -7.5\nx = \"-7.5\"\n")
      (.initial {})).test (fun result m => result.toOption.any fun _ =>
        decide ([41, 42, 43, 46, 47, 14].map (fun index => m.store.arena.get? ⟨index, 0⟩) =
            [some (.name "x" 0), some (.name "=" 0), some (.ofWord "-7.5"), some (.string "-7.5"),
              some value, some (between "=" .assign)] ∧
          ["x", "="].map m.store.scopes.bound? = [some ⟨47, 0⟩, some ⟨14, 0⟩])) = true := by
    decide +kernel
  obtain ⟨result, m, hend, hrun⟩ := Outcome.exists_of_test hrun
  obtain ⟨_, rfl, hrun⟩ := Except.exists_of_any_toOption hrun
  obtain ⟨hget, hbound⟩ := of_decide_eq_true hrun
  simp only [List.map_cons, List.map_nil, List.cons.injEq, and_true] at hget hbound
  obtain ⟨hx, ho, hword, htext, hvalue, hassign⟩ := hget
  have hbetween : m.store.Between ⟨42, 0⟩ .assign :=
    ⟨⟨14, 0⟩, _, ⟨_, ho, Store.resolve_of_bound? hbound.2⟩, hassign, rfl, rfl, rfl⟩
  obtain ⟨n, hn, -, hstores⟩ := number_readers_agree.1 "-7.5" (by decide +kernel)
  obtain rfl : n = -7 := by
    have h : (Identifier.ofWord "-7.5").castTo "int" = .ok (.int (-7)) := by decide +kernel
    exact Value.int.inj (congrArg Identifier.value (Except.ok.inj (hn.symm.trans h)))
  refine ⟨m, hend, hword, htext, ?_⟩
  have hstores := fun v j hv hj => hstores host m ⟨42, 0⟩ ⟨41, 0⟩ ⟨47, 0⟩ v _ j hbetween
    ⟨_, hx, Store.resolve_of_bound? hbound.1⟩ hvalue rfl rfl hv hj 4 (Nat.le_refl 4)
  rintro v (rfl | rfl)
  · exact hstores _ _ hword (.inl rfl)
  · exact hstores _ _ htext (.inr rfl)

end WordScript
