import WordScript.Proofs.Balance
import WordScript.Proofs.LifeCycle
import WordScript.Proofs.Relaying

/-!
# Termination

On a machine that knows no functions of the host, and cannot open modules, only loops can go on
forever. Every expression is evaluated in a number of steps that depends on its height alone, and so
is a statement run unless the run comes to a statement whose head makes a loop of it. Whether a head
does that depends on what its first word stands for at the time; a program without words for loops
never comes to one.
-/

namespace WordScript

open Evaluation

/-- The host has no modules. -/
def Host.OpensNothing (host : Host) : Prop :=
  ∀ path entry, host.openModule path ≠ .ok entry

/-- While the operation is carried out with some number of steps, no statement is run that is a loop
where it is run. -/
def Operation.AvoidsLoops (host : Host) (steps : Nat) (op : Operation) (m : Machine) : Prop :=
  ∀ steps' s ladder m', During host steps op m steps' (.runStep s ladder) m' → ¬ s.HeadsLoop m'

/-! ## Plain programs -/

namespace Contract

/-- What a program can come by: no functions of the host, words only of some kind, and whatever else
such words may stand for. -/
structure IsPlain (Word : String → Prop) (Fine : Identifier → Prop) (i : Identifier) : Prop where
  notNative : i.IsNotNative
  fine : Fine i
  word : i.isUndefined = true → Word i.surface

/-- The contract of programs with words of some kind, on a machine where such words stand for
something fine. -/
def plain (Word : String → Prop) (Fine : Identifier → Prop) : Contract where
  Inv s := s.Sound ∧ s.arena.All fun i => i.IsNotNative ∧ (Word i.surface → Fine i)
  Fits s h := ∀ i, s.arena.get? h = some i → IsPlain Word Fine i
  Lasts s h := ∀ i, s.arena.get? h = some i → IsPlain Word Fine i
  Calls s h := ∃ i, s.arena.get? h = some i ∧ i.isFunction = true ∧ Fine i
  Evaluates s s' := s.arena.Adds (IsPlain Word Fine) s'.arena
  Blocks s s' := s.arena.Adds (IsPlain Word Fine) s'.arena
  Runs s s' := s.arena.Adds (IsPlain Word Fine) s'.arena
  Raises _ := True
  Reads text := ∀ i ∈ Statement.written text, i.isUndefined = true → Word i.surface
  Asks _ op := ∃ path space args, op = .loadModule path space args

variable {Word : String → Prop} {Fine : Identifier → Prop}

/-- What is neither a function nor a control word nor undefined. -/
theorem isPlain_of_role (hfine : ∀ i, i.role ≠ .control → i.role ≠ .function → Fine i)
    {i : Identifier} (hrole : i.role = .var ∨ i.role = .constant) : IsPlain Word Fine i where
  notNative := Identifier.isNotNative_of_role (by rcases hrole with h | h <;> simp [h])
  fine := hfine i (by rcases hrole with h | h <;> simp [h]) (by
    rcases hrole with h | h <;> simp [h])
  word := by
    intro hundefined
    rcases hrole with h | h <;> simp [Identifier.isUndefined, h] at hundefined

theorem isPlain_name (hfine : ∀ i, i.role ≠ .control → i.role ≠ .function → Fine i)
    {word : String} (hword : Word word) (scope : Nat) : IsPlain Word Fine (.name word scope) where
  notNative := Identifier.isNotNative_of_role (by simp [Identifier.name])
  fine := hfine _ (by simp [Identifier.name]) (by simp [Identifier.name])
  word := fun _ => hword

/-- The invariant holds when everything that has been added is plain. -/
theorem plain_inv {s s' : Store} (hs : (plain Word Fine).Inv s) (hsound : s'.Sound)
    (hadds : s.arena.Adds (IsPlain Word Fine) s'.arena) : (plain Word Fine).Inv s' :=
  ⟨hsound, hs.2.of_adds (hadds.imp fun _ hi => ⟨hi.notNative, fun _ => hi.fine⟩)⟩

theorem lawful_plain {host : Host} (hhost : host.OpensNothing)
    (hwords : ClosedUnderMembers Word)
    (hfine : ∀ i, i.role ≠ .control → i.role ≠ .function → Fine i) :
    (plain Word Fine).Lawful host where
  evaluates := ⟨fun _ => .refl _ _, fun h h' => h.trans h'⟩
  runs := ⟨fun _ => .refl _ _, fun h h' => h.trans h'⟩
  evaluates_runs := id
  blocks_runs := id
  fits_mono := fun hadds hh i hi => (hadds _ i hi).elim (hh i) id
  lasts_mono := fun hadds hh i hi => (hadds _ i hi).elim (hh i) id
  lasts_fits := fun _ => id
  missing := fun _ _ _ => trivial
  raises := fun _ => trivial
  calls := fun _ hh hi hfunction => ⟨_, hi, hfunction, (hh _ hi).fine⟩
  resolve := by
    intro s s' h i k hs hh hi hundefined hr
    have hword : Word i.surface := (hh i hi).word hundefined
    have hadds : s.arena.Adds (IsPlain Word Fine) s'.arena :=
      Store.adds_resolve hs.1 (isPlain_name hfine hword)
        (fun space member hq => isPlain_name hfine (hwords _ space member hword hq) 0) hr
    have hs' := plain_inv hs (hs.1.resolve hr) hadds
    refine ⟨hs', hadds, fun j hj => ?_⟩
    have hword' : Word j.surface := by
      rcases Store.surface_of_resolve hs.1 hr hj with heq | ⟨space, hq⟩
      · rwa [heq]
      · exact hwords _ space _ hword hq
    obtain ⟨hnative, hfine⟩ := hs'.2 k j hj
    exact ⟨hnative, hfine hword', fun _ => hword'⟩
  push := by
    intro s i hs hi
    have hplain : IsPlain Word Fine i := isPlain_of_role hfine (.inr hi.role)
    have hadds : s.arena.Adds (IsPlain Word Fine) (s.pushTemporary i).2.arena :=
      Arena.adds_push hs.1.tidy hplain
    refine ⟨plain_inv hs (hs.1.pushTemporary i) hadds, hadds, fun j hj => ?_⟩
    obtain rfl := Arena.eq_of_get?_push hs.1.tidy hj
    exact hplain
  typeName := fun _ _ _ => trivial
  typeOf := fun _ _ _ => trivial
  declare := by
    intro s s' h i k type hs _ _ _ _ hd
    have hplain : ∀ scope, IsPlain Word Fine
        ({ (Identifier.name i.surface 0).asVariable type 0 with scope }) :=
      fun scope => isPlain_of_role hfine (.inl rfl)
    have hadds := Store.adds_declare hs.1 (hplain _) hd
    refine ⟨plain_inv hs (hs.1.declare hd) hadds, hadds, fun j hj => ?_⟩
    rw [Store.eq_of_declare hs.1 hd hj]
    exact hplain _
  declare_error := fun _ _ => trivial
  setValue := by
    intro s h i value hs _ hi hvariable _
    have hrole : i.role = .var := by simpa [Identifier.isVariable] using hvariable
    have hadds : s.arena.Adds (IsPlain Word Fine) (s.arena.put h.index { i with value }) :=
      Arena.adds_put hs.1.tidy (Arena.isLive_of_get? hi) (isPlain_of_role hfine (.inl hrole))
    exact ⟨plain_inv hs (hs.1.put hi rfl rfl) hadds, hadds⟩
  enter := fun hs _ => ⟨hs.1.enter, hs.2⟩
  lasts_enter := fun _ => id
  leave := by
    intro s s' arrange harrange _ _ hruns hs'
    have hadds : s'.arena.Adds (IsPlain Word Fine) (s'.leave arrange).2.arena :=
      Store.adds_leave hs'.1 arrange
    refine ⟨plain_inv hs' (hs'.1.leave harrange) hadds, ?_, fun _ _ => trivial⟩
    exact Arena.Adds.trans hruns hadds
  readText := by
    intro s op text _ _ hreads hs
    have hplain : ∀ i ∈ Statement.written text, IsPlain Word Fine i := by
      intro i hi
      have hwritten := Statement.isWritten_of_mem_written hi
      refine ⟨hwritten.isNotNative, ?_, hreads i hi⟩
      rcases hwritten.role with hrole | hrole <;> exact hfine i (by simp [hrole]) (by simp [hrole])
    have hadds := Store.adds_pushAll hs.1.tidy hplain
    have hsound := hs.1.pushAll (Statement.written text)
    rw [← Statement.arena_ofText text s.arena] at hadds hsound
    refine ⟨plain_inv hs hsound hadds, hadds, fun st hst h hh i hi => ?_⟩
    rw [Statement.leaves_of_ofText hst] at hh
    rw [Statement.arena_ofText] at hi
    rcases Arena.get?_pushAll hs.1.tidy hi with hold | ⟨-, hmem⟩
    · have hnew := Arena.not_inUse_pushAll hs.1.tidy hh
      exact absurd (hs.1.tidy.inUse (Arena.isLive_of_get? hold)) hnew
    · exact hplain i hmem
  loads := fun _ _ _ _ _ path space args => ⟨path, space, args, rfl⟩
  callee := fun _ _ _ => trivial
  notCallable := fun _ _ _ _ => trivial
  native := by
    rintro s h i label args hs ⟨j, hj, hfunction, -⟩ hi hlabel _
    rw [hi] at hj
    obtain rfl := Option.some.inj hj
    exact absurd hlabel ((hs.2 h i hi).1 hfunction label)
  moduleError := fun _ => trivial
  entry := fun _ _ _ hopen => absurd hopen (hhost _ _)
  asked := by
    rintro m op self steps hop _ _ ⟨path, space, args, rfl⟩
    exact hop.elim
  permits := fun _ _ => trivial

/-- Any word may be used, for anything but functions of the host. -/
abbrev builtins : Contract := plain (fun _ => True) fun _ => True

theorem lawful_builtins {host : Host} (hhost : host.OpensNothing) : builtins.Lawful host :=
  lawful_plain hhost (fun _ _ _ _ _ => trivial) fun _ _ _ => trivial

/-- No function of the host is called where none is known. -/
theorem callable?_ne_native {s : Store} {args : List Expression} {isInfix : Bool}
    {callee : Handle} {i : Identifier} (hs : builtins.Inv s)
    (hadmits : builtins.Admits s (.call args isInfix))
    (hcallee : args.head?.bind Expression.handle? = some callee)
    (hi : s.arena.get? callee = some i) (label : Native) :
    i.callable? ≠ some (.native label) := by
  obtain ⟨j, hj, hfunction, -⟩ := hadmits.2.1 callee hcallee
  rw [hi] at hj
  obtain rfl := Option.some.inj hj
  exact (hs.2 callee i hi).1 hfunction label

end Contract

/-! ## Enough steps -/

section Steps

open Contract

variable {host : Host} {m : Machine} {steps : Nat} {op : Operation}

/-- Where no function of the host is known, evaluations have enough steps. -/
theorem perform_evaluation_ne_cutOff (hhost : host.OpensNothing) (hm : builtins.Inv m.store)
    (hadmits : builtins.Admits m.store op) (hop : op.EvaluatesWithin steps) :
    perform host steps op m ≠ .cutOff := by
  induction steps generalizing op m with
  | zero => cases op <;> simp [Operation.EvaluatesWithin] at hop
  | succ steps ih =>
    intro hcut
    have hrelays : Relays (Operation.EvaluatesWithin steps) (perform host steps)
        (fun self => Evaluation.step host self steps op) m := by
      refine relays_evaluation steps hop ?_ hhost
      rintro args isInfix callee i label rfl hcallee hi
      exact callable?_ne_native hm hadmits hcallee hi label
    obtain ⟨op', m', hop', hcut', hasks⟩ := hrelays.asks hcut
    obtain ⟨hm', hadmits'⟩ := (lawful_builtins hhost).inside hm hadmits (.evaluation hasks)
    exact ih hm' hadmits' hop' hcut'

/-- Whatever does not come to a loop has enough steps. -/
theorem perform_running_ne_cutOff (hhost : host.OpensNothing) (hm : builtins.Inv m.store)
    (hadmits : builtins.Admits m.store op) (hop : op.RunsWithin steps)
    (hloops : op.AvoidsLoops host steps m) : perform host steps op m ≠ .cutOff := by
  induction steps generalizing op m with
  | zero =>
    cases op with
    | runStep s ladder =>
      have hzero : s.steps ≤ 0 := hop
      rw [Statement.steps_eq] at hzero
      omega
    | _ => simp [Operation.RunsWithin] at hop
  | succ steps ih =>
    intro hcut
    have hrelays : Relays (Operation.EndsWithin steps) (perform host steps)
        (fun self => Evaluation.step host self steps op) m := by
      refine relays_running steps hop ?_
      rintro s ladder rfl
      exact hloops _ s ladder m .here
    obtain ⟨op', m', hop', hcut', hasks⟩ := hrelays.asks hcut
    have hinside : Inside host steps op m op' m' := .evaluation hasks
    obtain ⟨hm', hadmits'⟩ := (lawful_builtins hhost).inside hm hadmits hinside
    rcases hop' with hop' | hop'
    · exact perform_evaluation_ne_cutOff hhost hm' hadmits' hop' hcut'
    · refine ih hm' hadmits' hop' ?_ hcut'
      exact fun steps' s ladder m'' h => hloops steps' s ladder m'' (.inside hinside h)

end Steps

/-! ## Programs without words for loops -/

section Words

open Contract

variable {host : Host} {m : Machine} {Word : String → Prop}

/-- The control operation that a control word stands for is no loop. -/
def IsNotLoop (i : Identifier) : Prop := i.controlOp? ≠ some .loopWord

theorem isNotLoop_of_role {i : Identifier} (hi : i.role ≠ .control) : IsNotLoop i := by
  unfold IsNotLoop Identifier.controlOp?
  split
  · next hrole _ => exact absurd hrole hi
  · nofun

/-- A word that does not stand for a loop is not told to be one. -/
theorem controlWord?_ne_loop (hhost : host.OpensNothing) (hwords : ClosedUnderMembers Word)
    {e? : Option Expression} (hm : (plain Word IsNotLoop).Inv m.store)
    (he : ∀ h, e? = some (.leaf h) → (plain Word IsNotLoop).Lasts m.store h) {m' : Machine} :
    controlWord? e? m ≠ .value (some .loopWord) m' := by
  have hC := lawful_plain hhost hwords fun _ h _ => isNotLoop_of_role h
  intro hend
  unfold controlWord? at hend
  split at hend
  · next h =>
    have hmeets := (hC.keeps_resolveLeaf hm (he h rfl)).meets
    rw [Action.bind_apply] at hend
    split at hend
    · next k m₁ hk =>
      rw [hk] at hmeets
      rw [Action.bind_apply, Machine.identifier] at hend
      cases hi : m₁.store.arena.get? k with
      | none => simp [hi] at hend
      | some i =>
        simp only [hi] at hend
        exact (hmeets.2.2 i hi).fine (Outcome.value.inj hend).1
    · cases hend
    · cases hend
  · cases hend

/-- Where no word that is used stands for a loop, no head makes one. -/
theorem not_headsLoop (hhost : host.OpensNothing) (hwords : ClosedUnderMembers Word)
    {s : Statement} (hm : (plain Word IsNotLoop).Inv m.store)
    (hs : ∀ h ∈ s.leaves, (plain Word IsNotLoop).Lasts m.store h) : ¬ s.HeadsLoop m := by
  rintro ⟨condition, m', hend⟩
  have hfirst : ∀ h, s.head.parts.head? = some (.leaf h) →
      (plain Word IsNotLoop).Lasts m.store h := by
    intro h hh
    refine hs h ?_
    rw [Statement.leaves_eq, ← Expression.leavesOf_parts]
    refine List.mem_append_left _ (Expression.mem_leavesOf.mpr ⟨_, List.mem_of_head? hh, ?_⟩)
    simp [Expression.leaves]
  rw [classify, Action.bind_apply] at hend
  split at hend
  · next op m₁ hop =>
    split at hend
    · cases hend
    · exact controlWord?_ne_loop hhost hwords hm hfirst hop
    · rw [Action.bind_apply] at hend
      split at hend
      · split at hend <;> cases hend
      · cases hend
      · cases hend
    · cases hend
  · cases hend
  · cases hend

/-- A program whose words never stand for a loop comes to none: those at its leaves do not, and
neither does anything that one of them could be the name of. -/
theorem avoidsLoops_of_words (hhost : host.OpensNothing) (hwords : ClosedUnderMembers Word)
    (hm : m.store.Sound) (hbuiltin : m.store.arena.All Identifier.IsNotNative)
    (hcontrol : m.store.arena.All fun i => Word i.surface → IsNotLoop i) {s : Statement}
    (hleaves : ∀ h ∈ s.leaves, ∀ i, m.store.arena.get? h = some i →
      IsNotLoop i ∧ (i.isUndefined = true → Word i.surface)) (steps : Nat) :
    (Operation.run s).AvoidsLoops host steps m ∧
      (Operation.runTopLevel s).AvoidsLoops host steps m := by
  have hC := lawful_plain hhost hwords fun _ h _ => isNotLoop_of_role h
  have hinv : (plain Word IsNotLoop).Inv m.store :=
    ⟨hm, fun h i hi => ⟨hbuiltin h i hi, hcontrol h i hi⟩⟩
  have hlasts : ∀ h ∈ s.leaves, (plain Word IsNotLoop).Lasts m.store h := fun h hh i hi =>
    ⟨hbuiltin h i hi, (hleaves h hh i hi).1, (hleaves h hh i hi).2⟩
  have havoids : ∀ op, (plain Word IsNotLoop).Admits m.store op → op.AvoidsLoops host steps m := by
    intro op hadmits steps' st ladder m' h
    obtain ⟨hinv', hadmits'⟩ := hC.during hinv hadmits h
    exact not_headsLoop hhost hwords hinv' hadmits'
  exact ⟨havoids _ hlasts, havoids _ hlasts⟩

/-- So does a text that has been read where only words of another kind stand for loops. -/
theorem avoidsLoops_of_readText (hhost : host.OpensNothing) (hwords : ClosedUnderMembers Word)
    (hm : m.store.Sound) (hbuiltin : m.store.arena.All Identifier.IsNotNative)
    (hcontrol : m.store.arena.All fun i => Word i.surface → IsNotLoop i) {text : String}
    (htext : ∀ i ∈ Statement.written text, i.isUndefined = true → Word i.surface) {st : Statement}
    (hst : (Statement.ofText text m.store.arena).1 = .ok st) (steps : Nat) :
    let m₁ := { m with store := { m.store with arena := (Statement.ofText text m.store.arena).2 } }
    (Operation.run st).AvoidsLoops host steps m₁ ∧
      (Operation.runTopLevel st).AvoidsLoops host steps m₁ := by
  intro m₁
  have hnotLoop : ∀ i, Identifier.IsWritten i → IsNotLoop i := by
    intro i hi
    rcases hi.role with hrole | hrole <;> exact isNotLoop_of_role (by simp [hrole])
  have harena : m₁.store.arena = (m.store.arena.pushAll (Statement.written text)).2 :=
    Statement.arena_ofText text m.store.arena
  have hsound : m₁.store.Sound := by
    have hpush := hm.pushAll (Statement.written text)
    rwa [← harena] at hpush
  refine avoidsLoops_of_words hhost hwords hsound
    (Store.all_ofText hm.tidy hbuiltin (fun _ hi => hi.isNotNative) text)
    (Store.all_ofText hm.tidy hcontrol (fun i hi _ => hnotLoop i hi) text) ?_ steps
  · intro h hh i hi
    rw [Statement.leaves_of_ofText hst] at hh
    rw [harena] at hi
    rcases Arena.get?_pushAll hm.tidy hi with hold | ⟨-, hmem⟩
    · have hnew := Arena.not_inUse_pushAll hm.tidy hh
      exact absurd (hm.tidy.inUse (Arena.isLive_of_get? hold)) hnew
    · exact ⟨hnotLoop i (Statement.isWritten_of_mem_written hmem), htext i hmem⟩

end Words

/-- On a machine in any state that is reached where no function of the host is known, with a host
that opens no modules, every expression is evaluated, with a value or with an error; and a statement
is run by itself or in the current frame, with or without an error, as long as the run comes to no
statement that is a loop where it is run. -/
theorem only_loops_diverge {host : Host} (hhost : host.OpensNothing) {m : Machine}
    (hm : Reached host (fun _ => True) m) (hbuiltin : m.store.arena.All Identifier.IsNotNative) :
    (∀ e, ¬ Diverges host (.evaluate e) m) ∧
    (∀ s, (∀ steps, (Operation.run s).AvoidsLoops host steps m) →
      ¬ Diverges host (.run s) m) ∧
    ∀ s, (∀ steps, (Operation.runTopLevel s).AvoidsLoops host steps m) →
      ¬ Diverges host (.runTopLevel s) m := by
  have hinv : Contract.builtins.Inv m.store :=
    ⟨hm.sound, fun h i hi => ⟨hbuiltin h i hi, fun _ => trivial⟩⟩
  have hplain : ∀ h, Contract.builtins.Lasts m.store h := fun h i hi =>
    ⟨hbuiltin h i hi, trivial, fun _ => trivial⟩
  refine ⟨fun e hdiverges => ?_, fun s hloops hdiverges => ?_, fun s hloops hdiverges => ?_⟩
  · have hadmits : Contract.builtins.Admits m.store (.evaluate e) := by
      cases e with
      | leaf h => exact hplain h
      | group es => exact fun h _ => hplain h
    exact perform_evaluation_ne_cutOff hhost hinv hadmits (Nat.le_refl (3 * e.height + 1))
      (hdiverges _)
  · have hadmits : Contract.builtins.Admits m.store (.run s) := fun h _ => hplain h
    exact perform_running_ne_cutOff hhost hinv hadmits (Nat.le_refl (s.steps + 1)) (hloops _)
      (hdiverges _)
  · have hadmits : Contract.builtins.Admits m.store (.runTopLevel s) := fun h _ => hplain h
    exact perform_running_ne_cutOff hhost hinv hadmits (Nat.le_refl (s.steps + 1)) (hloops _)
      (hdiverges _)

/-- A program with a conditional, in the state in which it has been read. -/
theorem only_loops_diverge_conditional :
    ∃ st m₁, perform (Extension.Registry.host []) 1
        (.readText "x :: int\nif x == 0 \x7b\nx = 1 / x\n\x7d\n") (.initial {}) =
          .value (.ok st) m₁ ∧
      (∀ e, ¬ Diverges (Extension.Registry.host []) (.evaluate e) m₁) ∧
      ¬ Diverges (Extension.Registry.host []) (.run st) m₁ ∧
      ¬ Diverges (Extension.Registry.host []) (.runTopLevel st) m₁ := by
  have hok : (Statement.ofText "x :: int\nif x == 0 \x7b\nx = 1 / x\n\x7d\n"
      (Machine.initial {}).store.arena).1.toOption.isSome := by decide +kernel
  have hperform := perform_readText (Extension.Registry.host []) 0
    "x :: int\nif x == 0 \x7b\nx = 1 / x\n\x7d\n" (.initial {})
  cases hread : (Statement.ofText "x :: int\nif x == 0 \x7b\nx = 1 / x\n\x7d\n"
      (Machine.initial {}).store.arena).1 with
  | error e =>
    rw [hread] at hok
    cases hok
  | ok st =>
    rw [hread] at hperform
    have hhost : (Extension.Registry.host []).OpensNothing := nofun
    have hsound : (Machine.initial {}).store.Sound := by
      rw [Machine.store_initial]
      exact Store.sound_initial
    have hnative : (Machine.initial {}).store.arena.All Identifier.IsNotNative := by
      rw [Machine.store_initial]
      exact Store.isNotNative_initial
    have hcontrol : (Machine.initial {}).store.arena.All fun i =>
        ¬ "loop".toList <:+ i.surface.toList → IsNotLoop i := by
      rw [Machine.store_initial]
      refine Store.all_initial ?_
      unfold IsNotLoop
      decide +kernel
    have hloops := avoidsLoops_of_readText hhost (closedUnderMembers_of_suffix "loop") hsound
      hnative hcontrol (by decide +kernel) hread
    have hreached : Reached (Extension.Registry.host []) (fun _ => True) _ :=
      .value (.initial {}) trivial .here hperform
    have hends := only_loops_diverge hhost hreached
      (Store.all_ofText hsound.tidy hnative (fun _ hi => hi.isNotNative) _)
    exact ⟨st, _, hperform, hends.1, hends.2.1 st fun steps => (hloops steps).1,
      hends.2.2 st fun steps => (hloops steps).2⟩

end WordScript
