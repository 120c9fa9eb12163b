import Mathlib.Logic.Relation
import WordScript.Proofs.Programs
import WordScript.Tree

/-!
# The life of an identifier

Programs do seven things to the store, one at a time. None of them changes what is behind a live
handle, but that an assignment changes the payload of a variable, that a declaration makes a variable
of a name that is bound in the current frame, and that leaving a block destroys what its frame holds.
The leaves of programs are held by no frame and are no variables, so nothing happens to them at all.
-/

namespace WordScript

/-- What programs do to the store, one thing at a time. -/
inductive Change where
  /-- An identifier that a text is read into is added. -/
  | read (i : Identifier)
  /-- A name is resolved, and gets bound if it is not bound yet. -/
  | mention (name : String)
  /-- The result of an operator becomes a temporary identifier. -/
  | compute (i : Identifier)
  | declare (name type : String)
  | assign (h : Handle) (value : Value)
  | enter
  | leave

/-- A change takes place. -/
inductive Change.Step : Change → Store → Store → Prop where
  | read {s : Store} {i : Identifier} (hi : i.IsWritten) : Step (.read i) s (s.push i).2
  | mention {s s' : Store} {name : String} {h : Handle} (hr : s.resolve name = .ok (h, s')) :
      Step (.mention name) s s'
  | compute {s : Store} {i : Identifier} (hi : i.IsLiteral) :
      Step (.compute i) s (s.pushTemporary i).2
  | declare {s s' : Store} {name type : String} {h : Handle}
      (hd : s.declare ((Identifier.name name 0).asVariable type 0) = .ok (some (h, s'))) :
      Step (.declare name type) s s'
  | assign {s : Store} {h : Handle} {i : Identifier} {value : Value}
      (hi : s.arena.get? h = some i) (hvariable : i.isVariable = true) :
      Step (.assign h value) s { s with arena := s.arena.put h.index { i with value } }
  | enter {s : Store} : Step .enter s s.enter
  | leave {s : Store} {arrange : List Handle → List Handle}
      (harrange : ∀ hs, (arrange hs).Perm hs) : Step .leave s (s.leave arrange).2

/-- What a change makes of the identifier behind a handle: `none` when it is destroyed. -/
inductive Change.Turns (s : Store) (h : Handle) (i : Identifier) :
    Change → Option Identifier → Prop where
  | kept {change : Change} : Turns s h i change (some i)
  /-- A variable has another payload. -/
  | assigned {value : Value} (hvariable : i.isVariable = true) :
      Turns s h i (.assign h value) (some { i with value })
  /-- A name that was not declared is declared in the frame that it is bound in. -/
  | declared {type : String} (hundefined : i.isUndefined = true)
      (hbound : s.scopes.currentFrame.names.find? i.surface = some h) :
      Turns s h i (.declare i.surface type) (some (i.asVariable type i.scope))
  /-- The block is left whose frame holds the handle. -/
  | destroyed {frame : Frame} {scopes : Scopes} (hleave : s.scopes.leave? = some (frame, scopes))
      (hheld : h ∈ frame.handles) : Turns s h i .leave none

/-- One change after the other, each of which makes of the live identifiers what it may. -/
abbrev Store.Passes : Store → Store → Prop :=
  Relation.ReflTransGen fun s s' => ∃ change : Change, change.Step s s' ∧
    ∀ h i, s.arena.get? h = some i → change.Turns s h i (s'.arena.get? h)

/-- A name that is not declared is nothing but a name in a frame. -/
def Identifier.IsNameOnly (i : Identifier) : Prop :=
  i.isUndefined = true → i = .name i.surface i.scope

theorem Identifier.isNameOnly_of_role {i : Identifier} (hrole : i.role ≠ .undefined) :
    i.IsNameOnly := by
  intro hundefined
  simp only [isUndefined, decide_eq_true_eq] at hundefined
  contradiction

theorem Identifier.IsWritten.isNameOnly {i : Identifier} (hi : i.IsWritten) : i.IsNameOnly := by
  cases hi with
  | name word => exact fun _ => rfl
  | literal hi => exact isNameOnly_of_role (by simp [hi.role])

theorem Identifier.isNameOnly_of_mem_vocabulary {i : Identifier} (hi : i ∈ vocabulary) :
    i.IsNameOnly := by
  have hall : ∀ i ∈ vocabulary, i.role ≠ .undefined := by decide
  exact isNameOnly_of_role (hall i hi)

namespace Store

/-- The store is sound, what is not declared is nothing but a name, and functions are built-in. -/
structure Regular (s : Store) : Prop where
  sound : s.Sound
  names : s.arena.All Identifier.IsNameOnly
  builtin : s.arena.All Identifier.IsNotNative

theorem regular_initial : initial.Regular where
  sound := sound_initial
  names := all_initial fun _ hi => Identifier.isNameOnly_of_mem_vocabulary hi
  builtin := all_initial fun _ hi => Identifier.isNotNative_of_mem_vocabulary hi

/-- A variable may take the place of any identifier of the same name and depth. -/
theorem Regular.put {s : Store} (hs : s.Regular) {h : Handle} {old i : Identifier}
    (hold : s.arena.get? h = some old) (hvariable : i.isVariable = true)
    (hsurface : i.surface = old.surface) (hscope : i.scope = old.scope) :
    Regular { s with arena := s.arena.put h.index i } := by
  have hl := Arena.isLive_of_get? hold
  have hrole : i.role = .var := by simpa [Identifier.isVariable] using hvariable
  refine ⟨hs.sound.put hold hsurface hscope, ?_, ?_⟩
  · exact hs.names.put hs.sound.tidy hl (Identifier.isNameOnly_of_role (by simp [hrole]))
  · exact Store.isNotNative_put hs.sound hs.builtin hold hvariable

end Store

namespace Change

variable {change : Change} {s s' : Store}

/-! ## One change -/

theorem Step.regular (h : change.Step s s') (hs : s.Regular) : s'.Regular := by
  obtain ⟨hsound, hnames, hbuiltin⟩ := hs
  cases h with
  | read hi =>
    exact ⟨hsound.push _, hnames.push hsound.tidy hi.isNameOnly,
      hbuiltin.push hsound.tidy hi.isNotNative⟩
  | mention hr =>
    refine ⟨hsound.resolve hr, ?_, ?_⟩
    · exact Store.all_resolve hsound hnames (fun _ _ _ => rfl) hr
    · exact Store.isNotNative_resolve hsound hbuiltin hr
  | compute hi =>
    refine ⟨hsound.pushTemporary _, ?_, ?_⟩
    · exact hnames.push hsound.tidy (Identifier.isNameOnly_of_role (by simp [hi.role]))
    · exact hbuiltin.push hsound.tidy hi.isNotNative
  | declare hd =>
    refine ⟨hsound.declare hd, ?_, ?_⟩
    · exact Store.all_declare hsound hnames
        (Identifier.isNameOnly_of_role (by simp [Identifier.asVariable])) hd
    · exact Store.isNotNative_declare hsound hbuiltin (by simp [Identifier.asVariable]) hd
  | assign hi hvariable => exact Store.Regular.put ⟨hsound, hnames, hbuiltin⟩ hi hvariable rfl rfl
  | enter => exact ⟨hsound.enter, hnames, hbuiltin⟩
  | leave harrange =>
    refine ⟨hsound.leave harrange, ?_, ?_⟩
    · exact Store.all_leave hsound hnames _
    · exact Store.all_leave hsound hbuiltin _

/-- What is live when an identifier is added stays as it is. -/
theorem turns_push (hs : s.Sound) (j : Identifier) {h : Handle} {i : Identifier}
    (hi : s.arena.get? h = some i) : change.Turns s h i ((s.arena.push j).2.get? h) := by
  rw [Arena.get?_push_of_isLive hs.tidy j (Arena.isLive_of_get? hi), hi]
  exact .kept

/-- A change makes of a live identifier what it may. -/
theorem Step.turns (h : change.Step s s') (hs : s.Regular) {k : Handle} {i : Identifier}
    (hi : s.arena.get? k = some i) : change.Turns s k i (s'.arena.get? k) := by
  have hsound := hs.sound
  cases h with
  | read _ => exact turns_push hsound _ hi
  | mention hr =>
    rcases Store.resolve_cases hr with ⟨rfl, -⟩ | ⟨space, member, -, -, -, heq⟩ | ⟨-, -, heq⟩
    · rw [hi]
      exact .kept
    · obtain ⟨-, rfl⟩ := Prod.mk.inj heq
      exact turns_push hsound _ hi
    · obtain ⟨-, rfl⟩ := Prod.mk.inj heq
      exact turns_push hsound _ hi
  | compute _ => exact turns_push hsound _ hi
  | @declare _ _ name type h hd =>
    rcases Store.declare_cases hd with ⟨-, heq⟩ | ⟨old, hfind, hold, hundefined, rfl⟩
    · obtain ⟨-, rfl⟩ := Prod.mk.inj heq
      exact turns_push hsound _ hi
    · have hl := Arena.isLive_of_get? hold
      by_cases hk : k = h
      · -- the name that is declared is that of the identifier, at the depth where it is bound
        subst hk
        rw [hold] at hi
        obtain rfl := Option.some.inj hi
        have hb : s.scopes.Binds s.depth name k :=
          Scopes.binds_of_frameAt (Bindings.mem_of_find? hfind)
        obtain ⟨hsurface, hscope⟩ := hsound.named hb hold
        have hname : old = .name old.surface old.scope := hs.names k old hold hundefined
        have hvariable : (Identifier.name name 0).asVariable type s.depth =
            old.asVariable type old.scope := by
          rw [hname, ← hsurface, ← hscope]
          rfl
        have hget := Arena.get?_put_self hl (i := (Identifier.name name 0).asVariable type s.depth)
          (by simp [Identifier.asVariable])
        change Turns s k old (.declare name type)
          ((s.arena.put k.index ((Identifier.name name 0).asVariable type s.depth)).get? k)
        rw [hget, hvariable, ← hsurface]
        refine .declared hundefined ?_
        rw [hsurface]
        exact hfind
      · change Turns s k i (.declare name type)
          ((s.arena.put h.index ((Identifier.name name 0).asVariable type s.depth)).get? k)
        rw [Arena.get?_put_of_ne_handle hsound.tidy hl hk, hi]
        exact .kept
  | @assign _ h j value hj hvariable =>
    have hl := Arena.isLive_of_get? hj
    by_cases hk : k = h
    · subst hk
      rw [hj] at hi
      obtain rfl := Option.some.inj hi
      have hrole : j.role ≠ .invalid := Arena.role_ne_invalid hj
      change Turns s k j (.assign k value) ((s.arena.put k.index { j with value }).get? k)
      rw [Arena.get?_put_self hl (i := { j with value }) hrole]
      exact .assigned hvariable
    · change Turns s k i (.assign h value) ((s.arena.put h.index { j with value }).get? k)
      rw [Arena.get?_put_of_ne_handle hsound.tidy hl hk, hi]
      exact .kept
  | enter =>
    change Turns s k i .enter (s.arena.get? k)
    rw [hi]
    exact .kept
  | @leave _ arrange harrange =>
    rcases Store.leave_cases arrange s with ⟨-, heq⟩ | ⟨frame, scopes, hleave, heq, -⟩
    · rw [heq, hi]
      exact .kept
    · rw [heq, Arena.get?_destroyAll hsound.tidy]
      split
      · next hmem => exact .destroyed hleave ((harrange _).mem_iff.mp hmem)
      · rw [hi]
        exact .kept

/-- No change takes a loose handle into a frame, or destroys what is behind it. -/
theorem Step.loose (h : change.Step s s') (hs : s.Sound) {k : Handle} (hk : s.Loose k) :
    s'.Loose k := by
  cases h with
  | read _ => exact (Store.grows_push hs _).loose hk
  | mention hr => exact (Store.grows_resolve hs hr).loose hk
  | compute _ => exact (Store.grows_hold hs (Frame.handles_adopt _ _)).loose hk
  | @declare _ _ name type _ hd =>
    have hvalid : ((Identifier.name name 0).asVariable type 0).IsValid := by
      simp [Identifier.IsValid, Identifier.asVariable]
    exact (Store.grows_declare hs hvalid hd).loose hk
  | @assign _ h i value hi hvariable =>
    have hrole : i.role ≠ .invalid := Arena.role_ne_invalid hi
    have hvalid : Identifier.IsValid { i with value } := hrole
    exact (Store.grows_put hs (Arena.isLive_of_get? hi) hvalid).loose hk
  | enter => exact ⟨hk.1, fun hmem => hk.2 ((Scopes.held_enter _).mem_iff.mp hmem)⟩
  | leave harrange => exact Store.loose_leave hs harrange hk

/-- Nothing is made of a loose identifier that is no variable: only variables are assigned to, and
only what a frame holds is declared or destroyed. -/
theorem Turns.eq_of_loose {h : Handle} {i : Identifier} {j : Option Identifier}
    (ht : change.Turns s h i j) (hl : s.Loose h) (hvariable : i.isVariable = false) :
    j = some i := by
  cases ht with
  | kept => rfl
  | assigned htrue =>
    rw [hvariable] at htrue
    cases htrue
  | declared _ hbound =>
    have hb : s.scopes.Binds s.depth i.surface h :=
      Scopes.binds_of_frameAt (Bindings.mem_of_find? hbound)
    exact absurd (Scopes.mem_held_of_binds hb) hl.2
  | destroyed hleave hheld =>
    have hmem := (Scopes.held_leave? hleave).mem_iff.mpr (List.mem_append_left _ hheld)
    exact absurd hmem hl.2

end Change

/-! ## One change after the other -/

namespace Store

theorem Passes.step {s₀ s s' : Store} {change : Change} (h : s₀.Passes s) (hs : s.Regular)
    (hstep : change.Step s s') : s₀.Passes s' :=
  h.tail ⟨change, hstep, fun _ _ hi => hstep.turns hs hi⟩

/-- A loose identifier that is no variable stays behind its handle, and the handle stays loose. -/
theorem Passes.loose {s s' : Store} (hpath : s.Passes s') (hs : s.Regular) {h : Handle}
    {i : Identifier} (hl : s.Loose h) (hi : s.arena.get? h = some i)
    (hvariable : i.isVariable = false) : s'.Loose h ∧ s'.arena.get? h = some i := by
  have hall : s'.Regular ∧ s'.Loose h ∧ s'.arena.get? h = some i := by
    induction hpath with
    | refl => exact ⟨hs, hl, hi⟩
    | tail _ hstep ih =>
      obtain ⟨hregular, hloose, hget⟩ := ih
      obtain ⟨change, hchange, hturns⟩ := hstep
      refine ⟨hchange.regular hregular, hchange.loose hregular.sound hloose, ?_⟩
      exact (hturns h i hget).eq_of_loose hloose hvariable
  exact hall.2

/-- Reading a text is one change for each identifier. -/
theorem Passes.pushAll {s₀ s : Store} (hpath : s₀.Passes s) (hs : s.Regular)
    {is : List Identifier} (his : ∀ i ∈ is, i.IsWritten) :
    s₀.Passes { s with arena := (s.arena.pushAll is).2 } ∧
      Regular { s with arena := (s.arena.pushAll is).2 } := by
  induction is generalizing s with
  | nil => exact ⟨hpath, hs⟩
  | cons i is ih =>
    have hstep : (Change.read i).Step s (s.push i).2 := .read (his i (by simp))
    exact ih (hpath.step hs hstep) (hstep.regular hs) fun j hj => his j (List.mem_cons_of_mem i hj)

end Store

namespace Contract

/-- The store has come to be from an earlier one by changes, whichever handles are used. -/
def history (s₀ : Store) : Contract where
  Inv s := s.Regular ∧ s₀.Passes s
  Fits _ _ := True
  Lasts _ _ := True
  Calls s h := ∃ i, s.arena.get? h = some i ∧ i.isFunction = true
  Evaluates _ _ := True
  Blocks _ _ := True
  Runs _ _ := True
  Raises _ := True
  Reads _ := True
  Asks _ op := ∃ path space args, op = .loadModule path space args

variable {s₀ : Store}

/-- A change keeps the invariant. -/
theorem history_step {s s' : Store} {change : Change} (hs : (history s₀).Inv s)
    (hstep : change.Step s s') : (history s₀).Inv s' :=
  ⟨hstep.regular hs.1, hs.2.step hs.1 hstep⟩

/-- The contract is lawful for every host without modules. -/
theorem lawful_history {host : Host} (hhost : host.HasNoModules) : (history s₀).Lawful host where
  evaluates := ⟨fun _ => trivial, fun _ _ => trivial⟩
  runs := ⟨fun _ => trivial, fun _ _ => trivial⟩
  evaluates_runs := id
  blocks_runs := id
  fits_mono := fun _ _ => trivial
  lasts_mono := fun _ _ => trivial
  lasts_fits := fun _ _ => trivial
  missing := fun _ _ _ => trivial
  raises := fun _ => trivial
  calls := fun _ _ hi hfunction => ⟨_, hi, hfunction⟩
  resolve := fun hs _ _ _ hr => ⟨history_step hs (.mention hr), trivial, trivial⟩
  push := fun hs hi => ⟨history_step hs (.compute hi), trivial, trivial⟩
  typeName := fun _ _ _ => trivial
  typeOf := fun _ _ _ => trivial
  declare := fun hs _ _ _ _ hd => ⟨history_step hs (.declare hd), trivial, trivial⟩
  declare_error := fun _ _ => trivial
  setValue := fun hs _ hi hvariable _ => ⟨history_step hs (.assign hi hvariable), trivial⟩
  enter := fun hs _ => history_step hs .enter
  lasts_enter := fun _ _ => trivial
  leave := fun harrange _ _ _ hs' =>
    ⟨history_step hs' (.leave harrange), trivial, fun _ _ => trivial⟩
  readText := by
    intro s op text _ _ _ hs
    obtain ⟨is, his, harena, -⟩ := Statement.ofText_adds text s.arena
    rw [harena]
    obtain ⟨hpath, hregular⟩ := hs.2.pushAll hs.1 his
    exact ⟨⟨hregular, hpath⟩, trivial, fun _ _ _ _ => trivial⟩
  loads := fun _ _ _ _ _ path space args => ⟨path, space, args, rfl⟩
  callee := fun _ _ _ => trivial
  notCallable := fun _ _ _ _ => trivial
  native := fun hs hcalls hi hlabel _ =>
    absurd hlabel (Store.not_native_of_calls hs.1.builtin hcalls hi)
  moduleError := fun _ => trivial
  entry := fun _ _ _ hopen => (hhost.not_opened hopen).elim
  asked := by
    rintro m op self steps hop _ _ ⟨path, space, args, rfl⟩
    exact hop.elim
  permits := fun _ _ => trivial

end Contract

/-- Programs take the store from one state to a later one by changes. -/
theorem Machine.After.passes {host : Host} (hhost : host.HasNoModules) {m m' : Machine}
    (h : Machine.After host m m') (hm : m.store.Regular) :
    m'.store.Regular ∧ m.store.Passes m'.store := by
  have hC : (Contract.history m.store).Lawful host := Contract.lawful_history hhost
  have hallowed := Contract.admits_of_ofPrograms hC (fun _ => trivial) fun _ _ _ _ => trivial
  exact hC.later hallowed ⟨hm, .refl⟩ h

theorem Machine.After.regular {host : Host} (hhost : host.HasNoModules) {sink : Sink} {m : Machine}
    (h : Machine.After host (.initial sink) m) : m.store.Regular := by
  refine (h.passes hhost ?_).1
  rw [Machine.store_initial]
  exact Store.regular_initial

/-! ## Trees of programs -/

/-- Where the leaves refer to the same identifiers, a statement is shown in the same way. -/
theorem Statement.toTree_of_leaves {a b : Arena} (s : Statement)
    (hleaves : ∀ h ∈ s.leaves, ∃ i, a.get? h = some i ∧ b.get? h = some i) :
    ∃ tree, s.toTree a = .ok tree ∧ s.toTree b = .ok tree :=
  (Statement.alike_self hleaves).toTree

/-! ## Statements that have been read -/

/-- Reading a text leaves behind what the text is read into, and nothing else. -/
theorem perform_readText (host : Host) (steps : Nat) (text : String) (m : Machine) :
    perform host (steps + 1) (.readText text) m =
      .value (Statement.ofText text m.store.arena).1
        { m with store := { m.store with arena := (Statement.ofText text m.store.arena).2 } } := rfl

theorem readText_value {host : Host} {steps : Nat} {text : String} {m m₁ : Machine}
    {result : Except SyntaxError Statement}
    (h : perform host steps (.readText text) m = .value result m₁) :
    result = (Statement.ofText text m.store.arena).1 ∧
      m₁.store = { m.store with arena := (Statement.ofText text m.store.arena).2 } := by
  cases steps with
  | zero => cases h
  | succ steps =>
    rw [perform_readText] at h
    obtain ⟨rfl, rfl⟩ := Outcome.value.inj h
    exact ⟨rfl, rfl⟩

/-- What reading a text has added is loose, and no variable is among it. -/
theorem Store.added_by_reading {s : Store} (hs : s.Sound) (text : String) {h : Handle}
    {i : Identifier} (hnew : s.arena.get? h = none)
    (hi : (Statement.ofText text s.arena).2.get? h = some i) :
    Loose { s with arena := (Statement.ofText text s.arena).2 } h ∧ i.isVariable = false := by
  obtain ⟨is, his, harena, -⟩ := Statement.ofText_adds text s.arena
  have hvalid : ∀ i ∈ is, i.IsValid := fun i hi => (his i hi).isValid
  rw [harena] at hi ⊢
  rcases Arena.get?_pushAll hs.tidy hi with hold | ⟨hmem, hwritten⟩
  · rw [hnew] at hold
    cases hold
  · refine ⟨(loose_pushAll hs hvalid).2 h hmem, ?_⟩
    have hrole := (his i hwritten).role
    simp only [Identifier.isVariable, decide_eq_false_iff_not]
    rcases hrole with hrole | hrole <;> simp [hrole]

/-- On a new machine without modules, programs change what is behind a live handle only in these
ways: the payload of a variable is assigned to; a name that is bound in the current frame is declared
there, and becomes a variable of the same name, depth and position between operands; and what the
frame of a block holds is destroyed when the block is left. What reading a text has added is never
changed, never bound and never destroyed, whatever is run afterwards, successfully or not; so the
tree of a statement that has been read can always be shown, and is always the same. -/
theorem identifier_life_cycle {host : Host} (hhost : host.HasNoModules) {sink : Sink} {m : Machine}
    (hm : Machine.After host (.initial sink) m) :
    (∀ m', Machine.After host m m' → m.store.Passes m'.store) ∧
    ∀ {text : String} {steps : Nat} {result : Except SyntaxError Statement} {m₁ m' : Machine},
      perform host steps (.readText text) m = .value result m₁ → Machine.After host m₁ m' →
      (∀ h i, m.store.arena.get? h = none → m₁.store.arena.get? h = some i →
        m'.store.arena.get? h = some i ∧ h ∉ m'.store.scopes.held) ∧
      ∀ st, result = .ok st →
        ∃ tree, st.toTree m₁.store.arena = .ok tree ∧ st.toTree m'.store.arena = .ok tree := by
  have hregular := hm.regular hhost
  have hsound := hregular.sound
  refine ⟨fun m' hm' => (hm'.passes hhost hregular).2, ?_⟩
  intro text steps result m₁ m' hread hm'
  have hop : Operation.OfPrograms m.store (.readText text) := trivial
  have hread' : Machine.After host m m₁ := .value .refl hop .here hread
  have hregular₁ := (hread'.passes hhost hregular).1
  have hpath := (hm'.passes hhost hregular₁).2
  obtain ⟨rfl, hstore⟩ := readText_value hread
  have hkept : ∀ h i, m.store.arena.get? h = none → m₁.store.arena.get? h = some i →
      m'.store.arena.get? h = some i ∧ h ∉ m'.store.scopes.held := by
    intro h i hnew hi
    have hadded : m₁.store.Loose h ∧ i.isVariable = false := by
      rw [hstore] at hi ⊢
      exact Store.added_by_reading hsound text hnew hi
    obtain ⟨hloose, hget⟩ := hpath.loose hregular₁ hadded.1 hi hadded.2
    exact ⟨hget, hloose.2⟩
  refine ⟨hkept, ?_⟩
  intro st hst
  refine Statement.toTree_of_leaves st ?_
  intro h hh
  obtain ⟨is, his, harena, hleaves⟩ := Statement.ofText_adds text m.store.arena
  rw [hleaves st hst] at hh
  have hvalid : ∀ i ∈ is, i.IsValid := fun i hi => (his i hi).isValid
  have hnew : m.store.arena.get? h = none := by
    rw [← Arena.not_isLive_iff]
    exact fun hl => Arena.not_inUse_pushAll hsound.tidy hh (hsound.tidy.inUse hl)
  have hlive : m₁.store.arena.IsLive h := by
    rw [hstore]
    change (Statement.ofText text m.store.arena).2.IsLive h
    rw [harena]
    exact ((Store.loose_pushAll hsound hvalid).2 h hh).1
  obtain ⟨i, hi⟩ := Arena.isLive_iff.mp hlive
  exact ⟨i, hi, (hkept h i hnew hi).1⟩

/-- A program that is read before another one is run, which uses the same names. -/
theorem identifier_life_cycle_assigned :
    ∃ st m₁, perform (Extension.Registry.host []) 1 (.readText "decas x :: int\nx = 1\n")
        (.initial {}) = .value (.ok st) m₁ ∧
      ∃ tree, st.toTree m₁.store.arena = .ok tree ∧
        st.toTree (m₁.attempt (perform (Extension.Registry.host []) 40
          (.runTextTopLevel "decas x :: int\nx = 2\n"))).2.store.arena = .ok tree := by
  have hok : (Statement.ofText "decas x :: int\nx = 1\n"
      (Machine.initial {}).store.arena).1.toOption.isSome := by decide +kernel
  have hperform := perform_readText (Extension.Registry.host []) 0 "decas x :: int\nx = 1\n"
    (.initial {})
  cases hread : (Statement.ofText "decas x :: int\nx = 1\n" (Machine.initial {}).store.arena).1 with
  | error e =>
    rw [hread] at hok
    cases hok
  | ok st =>
    rw [hread] at hperform
    refine ⟨st, _, hperform, ?_⟩
    have hnew : Machine.After (Extension.Registry.host []) (.initial {}) (.initial {}) := .refl
    have hlife := identifier_life_cycle Extension.Registry.host_hasNoModules hnew
    refine (hlife.2 hperform (Machine.After.refl.attempt fun hend => ?_)).2 st rfl
    exact Machine.After.refl.of_machine? hend trivial

end WordScript
