import WordScript.Proofs.SideBySide
import WordScript.Proofs.Teardown
import WordScript.Proofs.Texts
import WordScript.Proofs.Twins

/-!
# A text in two parts

What is typed into a session line by line could as well be typed in at once. In one run the leaves
of both parts are pushed before the first statement is run, and how far a ladder has been climbed is
known beyond the end of the first part; in two runs the leaves of the second part come into slots
that the first part has freed, and every run starts outside of a ladder. Until the second part is
read the stores are twins, of which the left one has its leaves by itself; from then on they are
paired with those that the right one has pushed.
-/

namespace WordScript

/-! ## Programs without dumps and modules -/

/-- What programs may use that neither dump nor load modules. -/
def Repertoire.selfContained : Repertoire where
  Word := fun name => ¬ IsCalled "dump" name ∧ ¬ IsCalled "include" name
  Op := fun op => op ≠ .dump ∧ op ≠ .loadModule

/-- No name that the text writes is one for dumping or for loading modules. -/
def SelfContained (text : String) : Prop :=
  ∀ i ∈ Statement.written text, i.isUndefined = true →
    ¬ IsCalled "dump" i.surface ∧ ¬ IsCalled "include" i.surface

instance (text : String) : Decidable (SelfContained text) :=
  inferInstanceAs (Decidable (∀ i ∈ _, _))

theorem Identifier.isOrdinary_of_vocabulary {i : Identifier}
    (hi : i.isFunction = true → i ∈ vocabulary) : i.IsOrdinary .selfContained := by
  intro hfunction
  obtain ⟨op, hop, hdump, hload⟩ := builtin_of_mem_vocabulary (hi hfunction) hfunction
  exact ⟨op, hop, fun hword => ⟨fun heq => hword.1 (.inl (hdump heq)),
    fun heq => hword.2 (.inl (hload heq))⟩⟩

namespace Twins

variable {R : Repertoire} {t : Twins}

theorem lawful_selfContained : (coupling .selfContained).Lawful :=
  lawful ((closedUnderMembers_of_isCalled "dump").and (closedUnderMembers_of_isCalled "include"))
    fun hdump => hdump.1 rfl

/-! ## Leaves that one of the stores has ahead of the other -/

/-- A store with what two texts write and the same store with what the first one writes are twins,
of which the left one has the leaves of the second text by itself. -/
theorem exists_ahead {s : Store} (hs : s.Sound) (hlive : ∀ h ∈ s.scopes.held, s.arena.IsLive h)
    (hordinary : s.arena.All (Identifier.IsOrdinary R)) {is js : List Identifier}
    (his : ∀ i ∈ is, i.IsWritten) (hwords : ∀ i ∈ is, i.isUndefined = true → R.Word i.surface)
    (hjs : ∀ i ∈ js, i.IsWritten) :
    ∃ t : Twins, t.left = ⟨((s.arena.pushAll is).2.pushAll js).2, s.scopes⟩ ∧
      t.right = ⟨(s.arena.pushAll is).2, s.scopes⟩ ∧ t.Valid R ∧
      t.own = (· ∈ ((s.arena.pushAll is).2.pushAll js).1) ∧ (t.own' = fun _ => False) ∧
      List.Forall₂ (t.Lasts R) (s.arena.pushAll is).1 (s.arena.pushAll is).1 := by
  obtain ⟨t, hl, hr, ht, hgrows, hlasts⟩ := (valid_ofStore hs hlive hordinary).pushAll his hwords
  have hleft : t.left = ⟨(s.arena.pushAll is).2, s.scopes⟩ := hl
  have hvalid : ∀ i ∈ js, i.IsValid := fun i hi => (hjs i hi).isValid
  have hsound := ht.alike.left.sound
  have hahead := ht.alike.pushAll_left hvalid
  have hown : (fun k => t.own k ∨ k ∈ (t.left.arena.pushAll js).1) =
      (· ∈ (t.left.arena.pushAll js).1) := by
    funext k
    rw [hgrows.keeps.own]
    exact propext (or_iff_right id)
  rw [hown] at hahead
  obtain ⟨hstore, -⟩ := Store.loose_pushAll hsound hvalid
  refine ⟨⟨⟨(t.left.arena.pushAll js).2, t.left.scopes⟩, t.right, t.pairs,
      (· ∈ (t.left.arena.pushAll js).1), t.own'⟩, ?_, hr, ⟨hahead, ?_⟩, ?_, hgrows.keeps.own', ?_⟩
  · simp only [hleft]
  · refine Store.all_pushAll hsound.tidy ht.ordinary fun j hj => Identifier.isOrdinary_of_role ?_
    rcases (hjs j hj).role with hrole | hrole <;> simp [hrole]
  · simp only [hleft]
  · refine hlasts.imp fun h k hh => ⟨⟨hh.fits.paired, fun {i} hi => hh.fits.discreet ?_⟩,
      hstore.loose hh.loose⟩
    rwa [← Arena.get?_pushAll_of_isLive hsound.tidy js hh.loose.1]

/-- The right store pushes what the left one has had by itself. -/
theorem Valid.pushAll_right (ht : t.Valid R) {ks : List Handle} {is : List Identifier}
    (hown : t.own = (· ∈ ks)) (hnodup : ks.Nodup) (hks : ks.map t.left.arena.get? = is.map some)
    (his : ∀ i ∈ is, i.IsWritten) (hwords : ∀ i ∈ is, i.isUndefined = true → R.Word i.surface) :
    ∃ t' : Twins, t'.left = t.left ∧
      t'.right = ⟨(t.right.arena.pushAll is).2, t.right.scopes⟩ ∧ t'.Valid R ∧
      t'.own' = t.own' ∧ List.Forall₂ (t'.Lasts R) ks (t.right.arena.pushAll is).1 := by
  have halike := ht.alike
  rw [hown] at halike
  obtain ⟨ρ, halike', -, hpaired⟩ := halike.pushAll_right hnodup hks
  refine ⟨⟨t.left, ⟨(t.right.arena.pushAll is).2, t.right.scopes⟩, ρ, fun _ => False, t.own'⟩, rfl,
    rfl, ⟨halike', ht.ordinary⟩, rfl, ?_⟩
  refine forall₂_imp_of_mem (fun k hk k' hkk => ⟨⟨hkk, fun {i} hi => ?_⟩, ?_, fun hheld => ?_⟩)
    hpaired
  · have hmem : some i ∈ is.map some := by
      rw [← hks, ← hi]
      exact List.mem_map_of_mem hk
    obtain ⟨j, hj, heq⟩ := List.mem_map.mp hmem
    obtain rfl := Option.some.inj heq
    refine ⟨fun hfunction => ?_, hwords j hj⟩
    rcases (his j hj).role with hrole | hrole <;>
      simp [Identifier.isFunction, hrole] at hfunction
  · exact halike.left.own hk
  · -- what is held is paired, but this was not
    obtain ⟨k', -, hpair⟩ := exists_of_forall₂ halike.scopes.held hheld
    exact (halike.left.paired.mp ⟨k', hpair⟩).2 hk

end Twins

/-! ## Both ways of running the text -/

namespace Evaluation

/-- Runs one text in the current frame and then, unless that fails, another one. -/
def runInTurn (host : Host) (steps : Nat) (text text' : String) :
    Action (Except SyntaxError Unit) := do
  match ← perform host steps (.runTextTopLevel text) with
  | .error e => return .error e
  | .ok () => perform host steps (.runTextTopLevel text')

variable {host : Host} {m : Machine} {text text' : String} {s s' : Statement}

theorem perform_runTextTopLevel_of_ok (hs : (Statement.ofText text m.store.arena).1 = .ok s)
    (steps : Nat) :
    perform host (steps + 2) (.runTextTopLevel text) m =
      (runAll (perform host steps) s.body none >>= fun _ => pure (.ok ()))
        (afterReading text m) := by
  change withText text (fun s => perform host (steps + 1) (.runTopLevel s)) m = _
  rw [withText_of_ok hs, perform_runTopLevel_of_head (Statement.head_of_ofText hs)]

/-- Running two texts at once is to run the statements of both. -/
theorem perform_append (hend : EndsLine text) (hne : text' ≠ "")
    (hs : (Statement.ofText text m.store.arena).1 = .ok s)
    (hs' : (Statement.ofText text' (afterReading text m).store.arena).1 = .ok s') (steps : Nat) :
    perform host (steps + 2) (.runTextTopLevel (text ++ text')) m =
      (runRungs (perform host steps) s.body none >>= fun ladder =>
        runAll (perform host steps) s'.body ladder >>= fun _ => pure (.ok ()))
        (afterReading text' (afterReading text m)) := by
  have hwhole := Statement.ofText_append hend hne hs hs'
  have hreading : afterReading (text ++ text') m = afterReading text' (afterReading text m) := by
    simp only [afterReading, hwhole]
  rw [perform_runTextTopLevel_of_ok (congrArg Prod.fst hwhole), hreading, Statement.body_mk,
    runAll_append, bind_assoc]

theorem runInTurn_of_ok (hs : (Statement.ofText text m.store.arena).1 = .ok s) (steps : Nat) :
    runInTurn host (steps + 2) text text' m =
      (runRungs (perform host steps) s.body none >>= fun _ =>
        perform host (steps + 2) (.runTextTopLevel text')) (afterReading text m) := by
  unfold runInTurn
  rw [Action.bind_apply, perform_runTextTopLevel_of_ok hs, ← Action.bind_apply,
    runAll_eq_runRungs, bind_assoc, bind_assoc]
  rfl

end Evaluation

/-- Both machines have written the same, and their stores hold the same under other handles, but for
what only the left one has read and not run. -/
def Machine.Resembles (m m' : Machine) : Prop :=
  m.sink = m'.sink ∧ ∃ own ρ, m.store.Alike own (fun _ => False) ρ m'.store

namespace Twins

open Evaluation

variable {t : Twins} {host : Host} {text text' : String} {s s' : Statement}

/-- Machines whose stores have become twins resemble each other when the right one has nothing by
itself. -/
theorem resembles_of_reaches {R : Repertoire} {m m' : Machine} (hown : t.own' = fun _ => False)
    (hsink : m.sink = m'.sink)
    (h : (coupling R).Reaches t (Runs R) (fun _ _ _ => True) m.store m'.store () ()) :
    m.Resembles m' := by
  obtain ⟨t', hl, hr, ht, hruns, -⟩ := h
  have halike := ht.alike
  rw [hruns.keeps.own', hown, show t'.left = m.store from hl, show t'.right = m'.store from hr]
    at halike
  exact ⟨hsink, _, _, halike⟩

/-- Where the second part is run with leaves that have been there from the beginning, it ends as it
does when it is read only then. -/
theorem agrees_second (ht : t.Valid .selfContained) (hown' : t.own' = fun _ => False)
    {a : Arena} (hown : t.own = (· ∈ (a.pushAll (Statement.written text')).1))
    (hkept : ∀ k ∈ (a.pushAll (Statement.written text')).1,
      t.left.arena.get? k = (a.pushAll (Statement.written text')).2.get? k) (ha : a.Tidy)
    (hwords : SelfContained text') (hs' : (Statement.ofText text' a).1 = .ok s')
    {m m' : Machine} (hm : m.store = t.left) (hm' : m'.store = t.right) (hsink : m.sink = m'.sink)
    (hfresh : ∀ s, (Statement.ofText text' m'.store.arena).1 = .ok s →
      StartsAfresh s.body (afterReading text' m')) (ladder : Option Bool) (steps : Nat) :
    ((runAll (perform host steps) s'.body ladder >>= fun _ => pure (.ok ())) m).Agrees
      Machine.Resembles (perform host (steps + 2) (.runTextTopLevel text') m') := by
  have hwritten : ∀ i ∈ Statement.written text', i.IsWritten :=
    fun _ => Statement.isWritten_of_mem_written
  have hks : (a.pushAll (Statement.written text')).1.map t.left.arena.get? =
      (Statement.written text').map some := by
    rw [← Arena.map_get?_pushAll ha fun i hi => (hwritten i hi).isValid]
    exact List.map_congr_left hkept
  obtain ⟨t', hl, hr, ht', hown'', hlasts⟩ :=
    ht.pushAll_right hown (Arena.nodup_pushAll ha _) hks hwritten hwords
  rw [← hm'] at hlasts
  obtain ⟨s₂, hs₂, halike⟩ := Statement.exists_alike_of_ofText hs' hlasts
  have hself : (coupling .selfContained).Agree (perform host steps) (perform host steps) :=
    lawful_selfContained.agree_perform (fun hloads => absurd rfl hloads.2) steps
  have hstore : (afterReading text' m').store = t'.right := by
    rw [hr, ← hm', afterReading, Statement.arena_ofText]
  have hends := lawful_selfContained.simulates_runAll hself ladder ht' halike.body m
    (afterReading text' m') (hm.trans hl.symm) hstore hsink
  rw [perform_runTextTopLevel_of_ok hs₂]
  refine Outcome.Agrees.bind_pure ?_ _
  rw [← runAll_of_startsAfresh host steps (hfresh s₂ hs₂) ladder]
  exact hends.agrees fun _ _ => resembles_of_reaches (hown''.trans hown')

/-- With steps enough to come to the statements, running two texts at once ends as running one after
the other. -/
theorem agrees_append {m : Machine} (hm : m.store.Sound)
    (hlive : ∀ h ∈ m.store.scopes.held, m.store.arena.IsLive h)
    (hordinary : m.store.arena.All (Identifier.IsOrdinary .selfContained))
    (hwords : SelfContained text) (hwords' : SelfContained text')
    (hend : EndsLine text) (hne : text' ≠ "")
    (hs : (Statement.ofText text m.store.arena).1 = .ok s)
    (hs' : (Statement.ofText text' (afterReading text m).store.arena).1 = .ok s') (steps : Nat)
    (hfresh : ∀ m₁, perform host (steps + 2) (.runTextTopLevel text) m = .value (.ok ()) m₁ →
      ∀ s, (Statement.ofText text' m₁.store.arena).1 = .ok s →
        StartsAfresh s.body (afterReading text' m₁)) :
    (perform host (steps + 2) (.runTextTopLevel (text ++ text')) m).Agrees Machine.Resembles
      (runInTurn host (steps + 2) text text' m) := by
  have hwritten : ∀ text, ∀ i ∈ Statement.written text, i.IsWritten :=
    fun _ _ => Statement.isWritten_of_mem_written
  obtain ⟨t, hl, hr, ht, hown, hown', hlasts⟩ :=
    exists_ahead hm hlive hordinary (hwritten text) hwords (hwritten text')
  have harena : (afterReading text m).store.arena =
      (m.store.arena.pushAll (Statement.written text)).2 := Statement.arena_ofText _ _
  rw [← harena] at hl hr hown
  have hleft : (afterReading text' (afterReading text m)).store = t.left := by
    rw [hl, ← Statement.arena_ofText]
    rfl
  have hself : (coupling .selfContained).Agree (perform host steps) (perform host steps) :=
    lawful_selfContained.agree_perform (fun hloads => absurd rfl hloads.2) steps
  have hbody : s.Alike (t.Lasts .selfContained) s := by
    obtain ⟨s₁, hs₁, halike⟩ := Statement.exists_alike_of_ofText hs hlasts
    rwa [Except.ok.inj (hs.symm.trans hs₁)] at halike ⊢
  have hfirst := lawful_selfContained.simulates_runRungs hself none ht hbody.body
    (afterReading text' (afterReading text m)) (afterReading text m) hleft hr.symm rfl
  rw [perform_append hend hne hs hs', runInTurn_of_ok hs]
  refine hfirst.bind_agrees (fun _ _ => resembles_of_reaches hown') ?_
  rintro ladder _ m₁ m₁' hy hsink ⟨t₁, hl₁, hr₁, ht₁, hruns, -⟩
  refine agrees_second ht₁ (hruns.keeps.own'.trans hown') (hruns.keeps.own.trans hown) ?_ ?_
    hwords' hs' hl₁.symm hr₁.symm hsink (hfresh m₁' ?_) ladder steps
  · intro k hk
    rw [hruns.keeps.kept (by rw [hown]; exact hk), hl]
  · rw [harena]
    exact hm.tidy.pushAll _
  · rw [perform_runTextTopLevel_of_ok hs, runAll_eq_runRungs, Action.bind_apply,
      Action.bind_apply, hy]
    rfl

end Twins

/-- A text can be run in parts. With the builtins as the only functions, two texts that can be read
and mention neither dumps nor modules are run at once as one after the other, if the first one ends
with a line and the second one, which is not empty, does not go on with a ladder there: with the
same steps both are cut off, or both end with the same result or the same error, have written the
same, and leave the same names with the same payloads behind, under other handles. -/
theorem session_in_parts {host : Host} (hhost : host.AsksOnly Operation.StoresValid) {m : Machine}
    (hm : Reached host Operation.StoresValid m)
    (hbuiltin : m.store.arena.All fun i => i.isFunction = true → i ∈ vocabulary)
    {text text' : String} (hwords : SelfContained text) (hwords' : SelfContained text')
    (hparses : Parses text) (hparses' : Parses text') (hend : EndsLine text) (hne : text' ≠ "")
    (steps : Nat)
    (hfresh : ∀ m₁, perform host steps (.runTextTopLevel text) m = .value (.ok ()) m₁ →
      ∀ s, (Statement.ofText text' m₁.store.arena).1 = .ok s →
        StartsAfresh s.body (Evaluation.afterReading text' m₁)) :
    (perform host steps (.runTextTopLevel (text ++ text')) m).Agrees Machine.Resembles
      (Evaluation.runInTurn host steps text text' m) := by
  obtain ⟨s, hs⟩ := Statement.exists_of_parses hparses m.store.arena
  obtain ⟨s', hs'⟩ :=
    Statement.exists_of_parses hparses' (Evaluation.afterReading text m).store.arena
  have hwhole := congrArg Prod.fst (Statement.ofText_append hend hne hs hs')
  match steps with
  | 0 => trivial
  | 1 =>
    -- the step is spent on reading
    have hcut : ∀ {text : String} {s : Statement}, (Statement.ofText text m.store.arena).1 = .ok s →
        perform host 1 (.runTextTopLevel text) m = .cutOff := by
      intro text s hs
      change Evaluation.withText text (fun s => perform host 0 (.runTopLevel s)) m = _
      rw [Evaluation.withText_of_ok hs]
      rfl
    rw [hcut hwhole, Evaluation.runInTurn, Action.bind_apply, hcut hs]
    trivial
  | steps + 2 =>
    obtain ⟨hsound, hfull⟩ :=
      Contract.kept_full.reached hhost ⟨Store.sound_initial, Store.full_initial⟩ hm
    exact Twins.agrees_append hsound (fun h hh => hfull h (hsound.inUse h hh))
      (fun h i hi => Identifier.isOrdinary_of_vocabulary (hbuiltin h i hi)) hwords hwords' hend hne
      hs hs' steps hfresh

/-- The first part ends with a rung that is taken, and the second one goes on without a ladder. -/
theorem session_in_parts_rung :
    ∃ text text', SelfContained text ∧ SelfContained text' ∧ EndsLine text ∧
      ((Machine.initial {}).attempt (perform (Extension.Registry.host []) 30
        (.runTextTopLevel (text ++ text')))).2.sink.text = "7\n2\n" ∧
      (perform (Extension.Registry.host []) 30 (.runTextTopLevel (text ++ text'))
          (.initial {})).Agrees Machine.Resembles
        (Evaluation.runInTurn (Extension.Registry.host []) 30 text text' (.initial {})) := by
  have hhost : (Extension.Registry.host []).AsksOnly Operation.StoresValid :=
    Extension.Registry.host_asksOnly nofun
  have hbuiltin : (Machine.initial {}).store.arena.All fun i =>
      i.isFunction = true → i ∈ vocabulary := by
    rw [Machine.store_initial]
    exact Store.all_initial fun _ hi _ => hi
  have hwords : SelfContained "x :: int\nif x == 0 \x7b\nprintln 7\n\x7d\n" := by
    decide +kernel
  have hwords' : SelfContained "\nx = 2\nprintln x\n" := by decide +kernel
  have hend : EndsLine "x :: int\nif x == 0 \x7b\nprintln 7\n\x7d\n" := by decide +kernel
  refine ⟨_, _, hwords, hwords', hend, by decide +kernel,
    session_in_parts hhost (.initial {}) hbuiltin hwords hwords' (by decide +kernel)
      (by decide +kernel) hend (by decide) 30 fun m₁ hm₁ s hs => ?_⟩
  obtain rfl : ((Machine.initial {}).attempt (perform (Extension.Registry.host []) 30
      (.runTextTopLevel "x :: int\nif x == 0 \x7b\nprintln 7\n\x7d\n"))).2 = m₁ := by
    simp only [Machine.attempt, hm₁]
  have hfresh : ∀ s ∈ (Statement.ofText "\nx = 2\nprintln x\n" ((Machine.initial {}).attempt
        (perform (Extension.Registry.host []) 30 (.runTextTopLevel
          "x :: int\nif x == 0 \x7b\nprintln 7\n\x7d\n"))).2.store.arena).1.toOption,
      StartsAfresh s.body (Evaluation.afterReading "\nx = 2\nprintln x\n"
        ((Machine.initial {}).attempt (perform (Extension.Registry.host []) 30 (.runTextTopLevel
          "x :: int\nif x == 0 \x7b\nprintln 7\n\x7d\n"))).2) := by
    decide +kernel
  exact hfresh s (by rw [hs]; rfl)

end WordScript
