import WordScript.Proofs.Programs

/-!
# Types of payloads

Every identifier has a payload of the kind that its type says, and everything that can be called has
a callable payload. Declarations start a variable with the value of its type, assignments cast to
the type of the variable, and operators give constants; so no program ever changes that.
-/

namespace WordScript

/-- The type whose values the payload is one of; arrays and maps have no members. -/
def Value.type? : Value → Option ValueType
  | .int _ => some .int
  | .double _ => some .double
  | .bool _ => some .bool
  | .string _ => some .string
  | .array [] => some .array
  | .map [] => some .map
  | _ => none

@[simp] theorem ValueType.type?_zero (t : ValueType) : t.zero.type? = some t := by
  cases t <;> rfl

namespace Identifier

/-- The payload fits the role and the type. -/
structure WellTyped (i : Identifier) : Prop where
  typed : i.role = .var ∨ i.role = .constant → (ValueType.ofName? i.type).isSome
  payload : ∀ {t}, ValueType.ofName? i.type = some t → i.value.type? = some t
  callable : i.role = .function ∨ i.role = .control → i.callable?.isSome
  namesType : i.role = .typeName → (ValueType.ofName? i.surface).isSome

/-- A conversion gives a value of the type that is asked for. -/
theorem type?_convert {value value' : Value} {t t' : ValueType}
    (h : convert value t t' = .ok value') : value'.type? = some t' := by
  unfold convert at h
  split at h
  case h_10 =>
    split at h
    · cases h
      rfl
    · cases h
  case h_11 =>
    split at h
    · cases h
      rfl
    · cases h
  case h_13 =>
    obtain rfl := Except.ok.inj h
    exact ValueType.type?_zero _
  all_goals
    cases h
    rfl

/-- So does a cast, of whatever is well typed. -/
theorem WellTyped.type?_castValue {i : Identifier} (hi : i.WellTyped) {type : String}
    {t : ValueType} (htype : ValueType.ofName? type = some t) {value : Value}
    (h : i.castValue type = .ok value) : value.type? = some t := by
  unfold castValue at h
  split at h
  · next heq =>
    obtain rfl := Except.ok.inj h
    apply hi.payload
    rw [heq]
    exact htype
  · split at h
    · next t₁ t₂ _ ht₂ =>
      rw [htype] at ht₂
      obtain rfl := Option.some.inj ht₂
      exact type?_convert h
    · obtain rfl := Except.ok.inj h
      unfold Value.zero
      rw [htype]
      exact t.type?_zero

/-! ## What programs store -/

theorem wellTyped_name (name : String) (scope : Nat) : (Identifier.name name scope).WellTyped := by
  refine ⟨?_, ?_, ?_, ?_⟩
  · simp [Identifier.name]
  · intro t ht
    have hnone : ValueType.ofName? "undefined" = none := by decide
    change ValueType.ofName? "undefined" = some t at ht
    rw [hnone] at ht
    cases ht
  · simp [Identifier.name]
  · simp [Identifier.name]

theorem wellTyped_constant {t : ValueType} {value : Value} (hvalue : value.type? = some t) :
    (Identifier.constant t.name value).WellTyped := by
  refine ⟨?_, ?_, ?_, ?_⟩
  · intro _
    change (ValueType.ofName? t.name).isSome
    rw [ValueType.ofName?_name]
    rfl
  · intro t' ht'
    change ValueType.ofName? t.name = some t' at ht'
    rw [ValueType.ofName?_name] at ht'
    obtain rfl := Option.some.inj ht'
    exact hvalue
  · simp [Identifier.constant]
  · simp [Identifier.constant]

theorem IsLiteral.wellTyped {i : Identifier} (hi : i.IsLiteral) : i.WellTyped := by
  cases hi with
  | int n => exact wellTyped_constant (t := .int) rfl
  | double x => exact wellTyped_constant (t := .double) rfl
  | bool b => exact wellTyped_constant (t := .bool) rfl
  | string text => exact wellTyped_constant (t := .string) rfl

theorem IsWritten.wellTyped {i : Identifier} (hi : i.IsWritten) : i.WellTyped := by
  cases hi with
  | name word => exact wellTyped_name word 0
  | literal hi => exact hi.wellTyped

/-- A variable with a payload of its type. -/
theorem wellTyped_of_isVariable {i : Identifier} (hvariable : i.isVariable = true) {t : ValueType}
    (htype : ValueType.ofName? i.type = some t) (hvalue : i.value.type? = some t) :
    i.WellTyped := by
  have hrole : i.role = .var := by simpa [isVariable] using hvariable
  refine ⟨?_, ?_, ?_, ?_⟩
  · intro _
    rw [htype]
    rfl
  · intro t' ht'
    rw [htype] at ht'
    obtain rfl := Option.some.inj ht'
    exact hvalue
  · simp [hrole]
  · simp [hrole]

/-- A new variable starts with the value of its type. -/
theorem wellTyped_asVariable (i : Identifier) {type : String} (scope : Nat)
    (htype : (ValueType.ofName? type).isSome) : (i.asVariable type scope).WellTyped := by
  obtain ⟨t, ht⟩ := Option.isSome_iff_exists.mp htype
  refine wellTyped_of_isVariable (by simp [isVariable, asVariable]) ht ?_
  change (Value.zero type).type? = some t
  unfold Value.zero
  rw [ht]
  exact t.type?_zero

theorem wellTyped_of_mem_vocabulary {i : Identifier} (hi : i ∈ vocabulary) : i.WellTyped := by
  have hall : ∀ i ∈ vocabulary,
      (i.role = .var ∨ i.role = .constant → (ValueType.ofName? i.type).isSome) ∧
      (ValueType.ofName? i.type = none ∨ i.value.type? = ValueType.ofName? i.type) ∧
      (i.role = .function ∨ i.role = .control → i.callable?.isSome) ∧
      (i.role = .typeName → (ValueType.ofName? i.surface).isSome) := by decide
  obtain ⟨htyped, hpayload, hcallable, hname⟩ := hall i hi
  refine ⟨htyped, ?_, hcallable, hname⟩
  intro t ht
  rcases hpayload with hnone | heq
  · rw [hnone] at ht
    cases ht
  · rw [heq, ht]

end Identifier

/-- What a variable may be assigned is of its type. -/
theorem Store.Assigns.type? {s : Store} (hall : s.arena.All Identifier.WellTyped) {i : Identifier}
    {value : Value} (h : s.Assigns i value) {t : ValueType}
    (ht : ValueType.ofName? i.type = some t) : value.type? = some t := by
  cases h with
  | value _ hj hcast => exact (hall _ _ hj).type?_castValue ht hcast
  | result hj hcast => exact hj.wellTyped.type?_castValue ht hcast

namespace Contract

/-- Everything is well typed, and only built-in functions are called. -/
def typing : Contract where
  Inv s := s.Sound ∧ s.arena.All Identifier.WellTyped ∧ s.arena.All Identifier.IsNotNative
  Fits _ _ := True
  Lasts _ _ := True
  Calls s h := ∃ i, s.arena.get? h = some i ∧ i.isFunction = true
  Evaluates _ _ := True
  Blocks _ _ := True
  Runs _ _ := True
  Raises e := ∀ name, e ≠ .notCallable name
  Types type := (ValueType.ofName? type).isSome
  Reads _ := True
  Asks _ op := ∃ path space args, op = .loadModule path space args

variable {s s' : Store} {h k : Handle}

theorem typing_resolve {name : String} (hs : typing.Inv s) (hr : s.resolve name = .ok (k, s')) :
    typing.Inv s' := by
  obtain ⟨hsound, htyped, hnative⟩ := hs
  exact ⟨hsound.resolve hr, Store.all_resolve hsound htyped Identifier.wellTyped_name hr,
    Store.isNotNative_resolve hsound hnative hr⟩

theorem typing_push {i : Identifier} (hs : typing.Inv s) (hi : i.IsLiteral) :
    typing.Inv (s.pushTemporary i).2 := by
  obtain ⟨hsound, htyped, hnative⟩ := hs
  exact ⟨hsound.pushTemporary i, htyped.push hsound.tidy hi.wellTyped,
    hnative.push hsound.tidy hi.isNotNative⟩

/-- A variable is declared with one of the types of values. -/
theorem typing_declare {surface type : String} (hs : typing.Inv s)
    (htype : (ValueType.ofName? type).isSome)
    (hd : s.declare ((Identifier.name surface 0).asVariable type 0) = .ok (some (k, s'))) :
    typing.Inv s' := by
  obtain ⟨hsound, htyped, hnative⟩ := hs
  refine ⟨hsound.declare hd, ?_, ?_⟩
  · apply Store.all_declare hsound htyped _ hd
    exact Identifier.wellTyped_asVariable (Identifier.name surface 0) s.depth htype
  · exact Store.isNotNative_declare hsound hnative (by simp [Identifier.asVariable]) hd

theorem declare_ne_notCallable {i : Identifier} (name : String) :
    s.declare i ≠ .error (.notCallable name) := by
  intro hd
  obtain ⟨h, -, -, heq⟩ := Store.declare_error hd
  cases heq

/-- What a variable is assigned has been cast to its type. -/
theorem typing_setValue {i : Identifier} {value : Value} (hs : typing.Inv s)
    (hi : s.arena.get? h = some i) (hvariable : i.isVariable = true) (hvalue : s.Assigns i value) :
    typing.Inv { s with arena := s.arena.put h.index { i with value } } := by
  obtain ⟨hsound, htyped, hnative⟩ := hs
  have hrole : i.role = .var := by simpa [Identifier.isVariable] using hvariable
  obtain ⟨t, ht⟩ := Option.isSome_iff_exists.mp ((htyped h i hi).typed (.inl hrole))
  refine ⟨hsound.put hi rfl rfl, ?_, Store.isNotNative_put hsound hnative hi hvariable⟩
  apply htyped.put hsound.tidy (Arena.isLive_of_get? hi)
  exact Identifier.wellTyped_of_isVariable hvariable ht (hvalue.type? htyped ht)

theorem typing_leave {arrange : List Handle → List Handle}
    (harrange : ∀ hs, (arrange hs).Perm hs) (hs : typing.Inv s) :
    typing.Inv (s.leave arrange).2 := by
  obtain ⟨hsound, htyped, hnative⟩ := hs
  exact ⟨hsound.leave harrange, Store.all_leave hsound htyped _,
    Store.all_leave hsound hnative _⟩

theorem leave_ne_notCallable (arrange : List Handle → List Handle) (name : String) :
    (s.leave arrange).1 ≠ .error (.notCallable name) := by
  unfold Store.leave
  split
  · nofun
  · split <;> nofun

theorem typing_ofText (hs : typing.Inv s) (text : String) :
    typing.Inv { s with arena := (Statement.ofText text s.arena).2 } := by
  obtain ⟨hsound, htyped, hnative⟩ := hs
  exact ⟨hsound.ofText text, Store.all_ofText hsound.tidy htyped (fun _ hi => hi.wellTyped) text,
    Store.all_ofText hsound.tidy hnative (fun _ hi => hi.isNotNative) text⟩

/-- A function that is well typed can be called. -/
theorem typing_callable {i : Identifier} (hs : typing.Inv s) (hcalls : typing.Calls s h)
    (hi : s.arena.get? h = some i) : i.callable? ≠ none := by
  obtain ⟨j, hj, hfunction⟩ := hcalls
  obtain rfl : i = j := Option.some.inj (hi.symm.trans hj)
  have hrole : i.role = .function := by simpa [Identifier.isFunction] using hfunction
  have hcallable := (hs.2.1 h i hi).callable (.inl hrole)
  intro hnone
  rw [hnone] at hcallable
  cases hcallable

/-- The contract is lawful for every host without modules. -/
theorem lawful_typing {host : Host} (hhost : host.HasNoModules) : typing.Lawful host where
  evaluates := ⟨fun _ => trivial, fun _ _ => trivial⟩
  runs := ⟨fun _ => trivial, fun _ _ => trivial⟩
  evaluates_runs := id
  blocks_runs := id
  fits_mono := fun _ _ => trivial
  lasts_mono := fun _ _ => trivial
  lasts_fits := fun _ _ => trivial
  missing := fun _ _ _ => nofun
  raises := by
    rintro e he name rfl
    exact he (.inr ⟨name, rfl⟩)
  calls := fun _ _ hi hfunction => ⟨_, hi, hfunction⟩
  resolve := fun hs _ _ _ hr => ⟨typing_resolve hs hr, trivial, trivial⟩
  push := fun hs hi => ⟨typing_push hs hi, trivial, trivial⟩
  typeName := fun hs hi hrole => (hs.2.1 _ _ hi).namesType hrole
  typeOf := by
    intro s h i hs hi hvariable
    apply (hs.2.1 h i hi).typed
    exact .inl (by simpa [Identifier.isVariable] using hvariable)
  declare := fun hs _ _ _ htype hd => ⟨typing_declare hs htype hd, trivial, trivial⟩
  declare_error := by
    rintro s i e _ hd name rfl
    exact declare_ne_notCallable name hd
  setValue := fun hs _ hi hvariable hvalue =>
    ⟨typing_setValue hs hi hvariable hvalue, trivial⟩
  enter := fun hs _ => ⟨hs.1.enter, hs.2⟩
  lasts_enter := fun _ _ => trivial
  leave := by
    intro s s' arrange harrange _ _ _ hs'
    refine ⟨typing_leave harrange hs', trivial, ?_⟩
    rintro e he name rfl
    exact leave_ne_notCallable arrange name he
  readText := fun text _ _ _ hs => ⟨typing_ofText hs text, trivial, fun _ _ _ _ => trivial⟩
  loads := fun _ _ _ _ _ path space args => ⟨path, space, args, rfl⟩
  callee := fun _ _ _ => nofun
  notCallable := fun hs hcalls hi hnone => absurd hnone (typing_callable hs hcalls hi)
  native := fun hs hcalls hi hlabel _ =>
    absurd hlabel (Store.not_native_of_calls hs.2.2 hcalls hi)
  moduleError := by
    rintro path e hopen name rfl
    exact hhost.not_isInternal hopen (.inr ⟨name, rfl⟩)
  entry := fun _ _ _ hopen => (hhost.not_opened hopen).elim
  asked := by
    rintro m op self steps hop _ _ ⟨path, space, args, rfl⟩
    exact hop.elim
  permits := fun _ _ => trivial

theorem typing_initial : typing.Inv Store.initial :=
  ⟨Store.sound_initial, Store.all_initial fun _ hi => Identifier.wellTyped_of_mem_vocabulary hi,
    Store.all_initial fun _ hi => Identifier.isNotNative_of_mem_vocabulary hi⟩

end Contract

/-- However programs are read and run on a new machine without modules, every variable and every
constant has one of the six types of values and a payload of just that type, without members if it
is an array or a map; every function and every control word has a callable payload. What programs
ask next never fails because something is not callable, and neither does any operation that it is
made of. -/
theorem well_typed {host : Host} (hhost : host.HasNoModules) {sink : Sink} {m : Machine}
    (hm : Machine.After host (.initial sink) m) :
    (∀ h i, m.store.arena.get? h = some i →
      (i.role = .var ∨ i.role = .constant →
        ∃ t : ValueType, i.type = t.name ∧ i.value.type? = some t) ∧
      (i.role = .function ∨ i.role = .control → ∃ c, i.value = .callable c)) ∧
    ∀ {op op' : Operation} {steps steps' : Nat} {m' m'' : Machine} {e : RuntimeError},
      op.OfPrograms m.store → During host steps op m steps' op' m' →
      perform host steps' op' m' = .failure e m'' → ∀ name, e ≠ .notCallable name := by
  have hC := Contract.lawful_typing hhost
  have hallowed := Contract.admits_of_ofPrograms hC (fun _ => trivial) fun _ _ _ _ => trivial
  have hinitial : Contract.typing.Inv (Machine.initial sink).store := by
    rw [Machine.store_initial]
    exact Contract.typing_initial
  have hinv : Contract.typing.Inv m.store := hC.later hallowed hinitial hm
  refine ⟨?_, ?_⟩
  · intro h i hi
    have htyped := hinv.2.1 h i hi
    refine ⟨?_, ?_⟩
    · intro hrole
      obtain ⟨t, ht⟩ := Option.isSome_iff_exists.mp (htyped.typed hrole)
      exact ⟨t, ValueType.ofName?_eq_some_iff.mp ht, htyped.payload ht⟩
    · intro hrole
      obtain ⟨c, hc⟩ := Option.isSome_iff_exists.mp (htyped.callable hrole)
      unfold Identifier.callable? at hc
      split at hc
      · next c' hvalue => exact ⟨c', hvalue⟩
      · cases hc
  · intro op op' steps steps' m' m'' e hop hduring hend name
    obtain ⟨hm', hadmits⟩ := hC.during hinv (hallowed _ _ hinv hop) hduring
    have hmeets := hC.perform_meets steps' hm' hadmits
    rw [hend] at hmeets
    exact hmeets.2.2 name

/-- A program has assigned a text to an integer, which is cast. -/
theorem well_typed_assigned :
    ∃ m : Machine, m = ((Machine.initial {}).attempt (perform (Extension.Registry.host []) 40
        (.runTextTopLevel "decas x :: int\nx = \"12\"\n"))).2 ∧
      ∃ h i, m.store.scopes.lookup? "x" = some h ∧ m.store.arena.get? h = some i ∧
        i.role = .var ∧ i.toText = "12" ∧
        ∃ t : ValueType, i.type = t.name ∧ i.value.type? = some t := by
  obtain ⟨m, hm⟩ : ∃ m : Machine, m = ((Machine.initial {}).attempt
      (perform (Extension.Registry.host []) 40
        (.runTextTopLevel "decas x :: int\nx = \"12\"\n"))).2 := ⟨_, rfl⟩
  have hfound : ((m.store.scopes.lookup? "x").bind fun h =>
      (m.store.arena.get? h).map fun i => (i.role, i.toText)) = some (.var, "12") := by
    rw [hm]
    decide +kernel
  obtain ⟨h, hlookup, hfound⟩ := Option.bind_eq_some_iff.mp hfound
  obtain ⟨i, hi, hshown⟩ := Option.map_eq_some_iff.mp hfound
  obtain ⟨hrole, htext⟩ := Prod.mk.inj hshown
  have hafter : Machine.After (Extension.Registry.host []) (.initial {}) m := by
    rw [hm]
    exact Machine.After.refl.attempt fun hend => Machine.After.refl.of_machine? hend trivial
  have htyped := (well_typed Extension.Registry.host_hasNoModules hafter).1 h i hi
  exact ⟨m, hm, h, i, hlookup, hi, hrole, htext, htyped.1 (.inl hrole)⟩

end WordScript
