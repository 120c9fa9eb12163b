import WordScript.Proofs.Increments
import WordScript.Proofs.Insertion
import WordScript.Proofs.Unobservable

/-!
# Blank lines

A newline that is put in at the start of a text or right behind a newline or a brace adds an empty
statement there. Where blocks always destroy what they hold in the same order, the text is then run
just as before. Otherwise every block more that is left may change the order for those after it; but
programs that only call built-in functions and do not dump cannot tell, since a host with a fixed
order runs them the same way, up to handles. There is one position where a newline does matter:
between the braces of `{ }` with nothing in front. These are an empty statement, and with the
newline they are a block, which ends a ladder.
-/

namespace WordScript

/-! ## Ending alike -/

/-- The machines have written the same, and their stores hold the same under other handles. -/
def Machine.SameUpToHandles (m m' : Machine) : Prop :=
  m.sink = m'.sink ∧
    ∃ ρ, m.store.Alike (fun _ => False) (fun _ => False) ρ m'.store

namespace Outcome

variable {α : Type} {R S T : Machine → Machine → Prop} {o o' o'' : Outcome α}

/-- It has come upon a rung without a ladder. -/
def LacksLadder : Outcome α → Prop
  | .failure e _ => e = .elseWithoutIf
  | _ => False

theorem Agrees.trans (hT : ∀ m m' m'', R m m' → S m' m'' → T m m'') (h : o.Agrees R o')
    (h' : o'.Agrees S o'') : o.Agrees T o'' := by
  cases o <;> cases o' <;> first | exact h.elim | skip
  all_goals cases o'' <;> first | exact h'.elim | skip
  · exact ⟨h.1.trans h'.1, hT _ _ _ h.2 h'.2⟩
  · exact ⟨h.1.trans h'.1, hT _ _ _ h.2 h'.2⟩
  · trivial

/-- The first and the last one of four that agree in turn. -/
theorem Agrees.across {o₁ o₂ o₃ o₄ : Outcome α} (h₁ : o₁.Agrees S o₂) (h₂ : o₂.Agrees R o₃)
    (h₃ : o₃.Agrees S o₄)
    (hT : ∀ m₁ m₂ m₃ m₄, S m₁ m₂ → R m₂ m₃ → S m₃ m₄ → T m₁ m₄) : o₁.Agrees T o₄ := by
  have h := h₁.trans (T := fun m₁ m₃ => ∃ m₂, S m₁ m₂ ∧ R m₂ m₃)
    (fun _ m₂ _ hS hR => ⟨m₂, hS, hR⟩) h₂
  refine h.trans ?_ h₃
  rintro m₁ m₃ m₄ ⟨m₂, hS, hR⟩ hS'
  exact hT m₁ m₂ m₃ m₄ hS hR hS'

theorem LacksLadder.of_agrees (h : o.LacksLadder) (hagrees : o.Agrees R o') : o'.LacksLadder := by
  cases o <;> cases o' <;> first | exact h.elim | exact hagrees.elim | skip
  exact hagrees.1 ▸ h

end Outcome

/-- What becomes of two programs that are given more and more steps: when one of them comes to an
end, so does the other, and in the same way, unless the second one comes upon a rung without a
ladder where that is allowed. -/
structure EndAlike {α : Type} (R : Machine → Machine → Prop) (allowed : Prop)
    (x y : Nat → Outcome α) : Prop where
  forth : ∀ n, x n ≠ .cutOff → ∃ n', (x n).Agrees R (y n') ∨ allowed ∧ (y n').LacksLadder
  back : ∀ n, y n ≠ .cutOff → ∃ n', (x n').Agrees R (y n) ∨ allowed ∧ (y n).LacksLadder

namespace EndAlike

variable {α : Type} {R S T : Machine → Machine → Prop} {allowed : Prop}
  {x x' y y' : Nat → Outcome α}

theorem of_matches (h : ∀ n, (x n).Matches False allowed Eq (y (n + 2)))
    (h' : ∀ n, (y n).Matches allowed False Eq (x (n + 2))) :
    EndAlike Machine.SameButBooks allowed x y where
  forth := by
    intro n hx
    refine ⟨n + 2, ?_⟩
    have hn := h n
    generalize x n = o at hx hn
    generalize y (n + 2) = o' at hn
    cases hn with
    | cutOff => exact absurd rfl hx
    | value hV hm => exact .inl ⟨hV, hm⟩
    | failure hm => exact .inl ⟨rfl, hm⟩
    | left h => exact h.elim
    | right h => exact .inr ⟨h, rfl⟩
  back := by
    intro n hy
    refine ⟨n + 2, ?_⟩
    have hn := h' n
    generalize y n = o at hy hn
    generalize x (n + 2) = o' at hn
    cases hn with
    | cutOff => exact absurd rfl hy
    | value hV hm => exact .inl ⟨hV.symm, hm.symm⟩
    | failure hm => exact .inl ⟨rfl, hm.symm⟩
    | left h => exact .inr ⟨h, rfl⟩
    | right h => exact h.elim

/-- Each of the programs may be exchanged for one that always ends in the same way. -/
theorem exchange (h : EndAlike R allowed x y) (hx : ∀ n, (x' n).Agrees S (x n))
    (hy : ∀ n, (y n).Agrees S (y' n))
    (hT : ∀ m₁ m₂ m₃ m₄, S m₁ m₂ → R m₂ m₃ → S m₃ m₄ → T m₁ m₄) : EndAlike T allowed x' y' where
  forth := by
    intro n hn
    have hends : x n ≠ .cutOff := fun hcut => hn ((hx n).cutOff_iff.mpr hcut)
    obtain ⟨n', hagrees | ⟨hallowed, hlacks⟩⟩ := h.forth n hends
    · exact ⟨n', .inl ((hx n).across hagrees (hy n') hT)⟩
    · exact ⟨n', .inr ⟨hallowed, hlacks.of_agrees (hy n')⟩⟩
  back := by
    intro n hn
    have hends : y n ≠ .cutOff := fun hcut => hn ((hy n).cutOff_iff.mp hcut)
    obtain ⟨n', hagrees | ⟨hallowed, hlacks⟩⟩ := h.back n hends
    · exact ⟨n', .inl ((hx n').across hagrees (hy n) hT)⟩
    · exact ⟨n', .inr ⟨hallowed, hlacks.of_agrees (hy n)⟩⟩

end EndAlike

/-! ## Other orders of destruction -/

namespace Host

/-- The hosts provide the same functions and modules; blocks may destroy what they hold in other
orders. -/
structure ProvidesAs (host host' : Host) : Prop where
  native : host.native = host'.native
  openModule : host.openModule = host'.openModule

/-- The host that destroys what blocks leave behind as it is listed. -/
def orderly (host : Host) : Host :=
  { host with
    arrange := fun _ hs => hs
    arrange_perm := fun _ _ => .refl _ }

theorem providesAs_orderly (host : Host) : host.orderly.ProvidesAs host := ⟨rfl, rfl⟩

theorem steady_orderly (host : Host) : host.orderly.Steady := fun _ _ => rfl

end Host

/-- In whichever orders blocks destroy what they hold, the text is run the same way, up to
handles. -/
def OrderUnseen (host : Host) (m : Machine) (text : String) : Prop :=
  ∀ host₁ host₂ : Host, host₁.ProvidesAs host → host₂.ProvidesAs host → ∀ steps,
    (perform host₁ steps (.runText text) m).Agrees Machine.SameUpToHandles
        (perform host₂ steps (.runText text) m) ∧
      (perform host₁ steps (.runTextTopLevel text) m).Agrees Machine.SameUpToHandles
        (perform host₂ steps (.runTextTopLevel text) m)

namespace Twins

/-- What a store has become on two sides that started with the same handles. -/
theorem sameUpToHandles_of_reaches {R : Repertoire} {s : Store} {m m' : Machine}
    (hsink : m.sink = m'.sink)
    (h : (coupling R).Reaches (ofStore s) (Runs R) (fun _ _ _ => True) m.store m'.store () ()) :
    m.SameUpToHandles m' := by
  obtain ⟨t, hl, hr, ht, hruns, -⟩ := h
  have halike := ht.alike
  rw [hruns.keeps.own, hruns.keeps.own', show t.left = m.store from hl,
    show t.right = m'.store from hr] at halike
  exact ⟨hsink, _, halike⟩

/-- A program that keeps to what it may use cannot tell the order. -/
theorem orderUnseen {R : Repertoire} (hR : (coupling R).Lawful) {host : Host}
    (hhost : R.Op .loadModule → NoModules host host) {m : Machine}
    (hm : (ofStore m.store).Valid R) {text : String} (htext : (coupling R).Reads text) :
    OrderUnseen host m text := by
  intro host₁ host₂ h₁ h₂ steps
  have hhosts : R.Op .loadModule → NoModules host₁ host₂ := by
    intro hloads path
    rw [h₁.openModule, h₂.openModule]
    exact hhost hloads path
  exact ⟨(hR.simulates_runText hhosts steps htext hm m m rfl rfl rfl).agrees
      fun _ _ => sameUpToHandles_of_reaches,
    (hR.simulates_runTextTopLevel hhosts steps htext hm m m rfl rfl rfl).agrees
      fun _ _ => sameUpToHandles_of_reaches⟩

end Twins

/-! ## Texts with a blank line more -/

/-- The program calls built-in functions only, and none of those that show handles or bring in other
functions: it cannot tell one order of destruction from another. -/
structure Oblivious (host : Host) (m : Machine) (text : String) : Prop where
  valid : host.AsksOnly Operation.StoresValid
  reached : Reached host Operation.StoresValid m
  builtin : m.store.arena.All fun i => i.isFunction = true → i ∈ vocabulary
  words : SelfContained text ∨ Quiet text ∧ Twins.NoModules host host

/-- A text and the same one with a newline put in end alike, run as a block and in the current
frame, unless a bare block has been made one that is not empty, and ends a ladder. -/
def RunAlike (R : Machine → Machine → Prop) (host : Host) (m : Machine) (before after : String) :
    Prop :=
  EndAlike R (BetweenBareBraces before after)
      (fun steps => perform host steps (.runText (before ++ after)) m)
      (fun steps => perform host steps (.runText (before ++ "\n" ++ after)) m) ∧
    EndAlike R (BetweenBareBraces before after)
      (fun steps => perform host steps (.runTextTopLevel (before ++ after)) m)
      (fun steps => perform host steps (.runTextTopLevel (before ++ "\n" ++ after)) m)

section RunAlike

variable {host : Host} {m : Machine} {before after : String}

theorem runAlike_of_steady (hhost : host.Steady) (hplaced : m.store.scopes.Placed)
    (hparses : Parses (before ++ after)) (hbreak : EndsInBreak before) :
    RunAlike Machine.SameButBooks host m before after := by
  obtain ⟨s, hs⟩ := Statement.exists_of_parses hparses m.store.arena
  obtain ⟨s', hs', hbody⟩ := Statement.exists_ofText_insert hbreak hs
  have hback : Statement.ofText (before ++ after) m.store.arena =
      (.ok s, (Statement.ofText (before ++ "\n" ++ after) m.store.arena).2) := by
    rw [hs', ← hs]
  have hforth := Evaluation.matches_text hhost hs hs' hbody hplaced
  -- with more steps the text with the newline ends as the other one, and the other way round
  have hmirrored := Evaluation.matches_text hhost (congrArg Prod.fst hs') hback hbody.symm hplaced
  exact ⟨.of_matches (fun n => (hforth n).1) fun n => (hmirrored n).1,
    .of_matches (fun n => (hforth n).2) fun n => (hmirrored n).2⟩

/-- An empty line writes nothing. -/
theorem written_insert (hparses : Parses (before ++ after)) (hbreak : EndsInBreak before) :
    Statement.written (before ++ "\n" ++ after) = Statement.written (before ++ after) := by
  obtain ⟨s, hs⟩ := Statement.exists_of_parses hparses .empty
  obtain ⟨s', hs', -⟩ := Statement.exists_ofText_insert hbreak hs
  unfold Statement.written
  rw [hs']

theorem sameUpToHandles_across {m₁ m₂ m₃ m₄ : Machine} (h : m₁.SameUpToHandles m₂)
    (hbooks : m₂.SameButBooks m₃) (h' : m₃.SameUpToHandles m₄) : m₁.SameUpToHandles m₄ := by
  obtain ⟨n, journal, rfl⟩ := hbooks
  obtain ⟨hsink, ρ, hstore⟩ := h
  obtain ⟨hsink', σ, hstore'⟩ := h'
  exact ⟨hsink.trans hsink', ρ.comp σ, hstore.trans hstore'⟩

/-- Each text is run as it is by a host that always destroys in the same order. -/
theorem runAlike_of_orderUnseen (hplaced : m.store.scopes.Placed)
    (hparses : Parses (before ++ after)) (hbreak : EndsInBreak before)
    (h : OrderUnseen host m (before ++ after))
    (h' : OrderUnseen host m (before ++ "\n" ++ after)) :
    RunAlike Machine.SameUpToHandles host m before after := by
  have hleft := h host host.orderly ⟨rfl, rfl⟩ host.providesAs_orderly
  have hright := h' host.orderly host host.providesAs_orderly ⟨rfl, rfl⟩
  obtain ⟨hblock, htop⟩ := runAlike_of_steady host.steady_orderly hplaced hparses hbreak
  exact ⟨hblock.exchange (fun n => (hleft n).1) (fun n => (hright n).1)
      fun _ _ _ _ => sameUpToHandles_across,
    htop.exchange (fun n => (hleft n).2) (fun n => (hright n).2)
      fun _ _ _ _ => sameUpToHandles_across⟩

/-- Neither of the texts writes a name that the other one does not write. -/
theorem orderUnseen_of_lawful {R : Repertoire} (hR : (Twins.coupling R).Lawful)
    (hhost : R.Op .loadModule → Twins.NoModules host host)
    (hm : (Twins.ofStore m.store).Valid R) (htext : (Twins.coupling R).Reads (before ++ after))
    (hparses : Parses (before ++ after)) (hbreak : EndsInBreak before) :
    OrderUnseen host m (before ++ after) ∧ OrderUnseen host m (before ++ "\n" ++ after) := by
  have htext' : (Twins.coupling R).Reads (before ++ "\n" ++ after) := by
    change ∀ i ∈ Statement.written _, _
    rw [written_insert hparses hbreak]
    exact htext
  exact ⟨Twins.orderUnseen hR hhost hm htext, Twins.orderUnseen hR hhost hm htext'⟩

theorem Oblivious.orderUnseen (hm : Oblivious host m (before ++ after))
    (hparses : Parses (before ++ after)) (hbreak : EndsInBreak before) :
    OrderUnseen host m (before ++ after) ∧ OrderUnseen host m (before ++ "\n" ++ after) := by
  obtain ⟨hsound, hfull⟩ :=
    Contract.kept_full.reached hm.valid ⟨Store.sound_initial, Store.full_initial⟩ hm.reached
  have hlive : ∀ h ∈ m.store.scopes.held, m.store.arena.IsLive h :=
    fun h hh => hfull h (hsound.inUse h hh)
  -- either no word for loading modules is written, or there are no modules to be loaded
  rcases hm.words with hwords | ⟨hquiet, hmodules⟩
  · have hordinary : m.store.arena.All (Identifier.IsOrdinary .selfContained) :=
      fun h i hi => Identifier.isOrdinary_of_vocabulary (hm.builtin h i hi)
    exact orderUnseen_of_lawful Twins.lawful_selfContained (fun hloads => absurd rfl hloads.2)
      (Twins.valid_ofStore hsound hlive hordinary) hwords hparses hbreak
  · have hordinary : m.store.arena.All (Identifier.IsOrdinary .quiet) := by
      intro h i hi hfunction
      obtain ⟨op, hop, hdump, -⟩ :=
        Identifier.builtin_of_mem_vocabulary (hm.builtin h i hi hfunction) hfunction
      exact ⟨op, hop, fun hword heq => hword (.inl (hdump heq))⟩
    exact orderUnseen_of_lawful Twins.lawful_quiet (fun _ => hmodules)
      (Twins.valid_ofStore hsound hlive hordinary) hquiet hparses hbreak

end RunAlike

/-- **Blank lines are insignificant.** A newline that is put in at the start of a text that parses,
or right behind a newline or a brace, leaves a text that parses. If blocks always destroy in the
same order, it ends as the other one does and leaves the same store. In whichever orders they
destroy, it ends in the same way up to handles, if those orders do not show in the two texts
themselves; they do not in programs of built-in functions that do not dump. Only in a bare `{ }` may
the newline make a rung lose its ladder. -/
theorem blank_line_insignificant {host : Host} {m : Machine} (hm : Reached host (fun _ => True) m)
    {before after : String} (hparses : Parses (before ++ after)) (hbreak : EndsInBreak before) :
    Parses (before ++ "\n" ++ after) ∧
      (host.Steady → RunAlike Machine.SameButBooks host m before after) ∧
      (OrderUnseen host m (before ++ after) → OrderUnseen host m (before ++ "\n" ++ after) →
        RunAlike Machine.SameUpToHandles host m before after) ∧
      (Oblivious host m (before ++ after) →
        RunAlike Machine.SameUpToHandles host m before after) := by
  have hunseen : OrderUnseen host m (before ++ after) →
      OrderUnseen host m (before ++ "\n" ++ after) →
        RunAlike Machine.SameUpToHandles host m before after :=
    runAlike_of_orderUnseen hm.placed hparses hbreak
  refine ⟨?_, fun hhost => runAlike_of_steady hhost hm.placed hparses hbreak, hunseen, ?_⟩
  · obtain ⟨s, hs⟩ := Statement.exists_of_parses hparses .empty
    obtain ⟨s', hs', -⟩ := Statement.exists_ofText_insert hbreak hs
    rw [Parses, hs']
    rfl
  · intro hoblivious
    obtain ⟨h, h'⟩ := hoblivious.orderUnseen hparses hbreak
    exact hunseen h h'

/-- The line between a rung and the next one, in a block that is run with a host of which all of
this is true. -/
theorem blank_line_insignificant_between_rungs :
    ∃ before after, EndsInBreak before ∧ ¬ BetweenBareBraces before after ∧
      ((Machine.initial {}).attempt (perform (Extension.Registry.host []) 30
        (.runText (before ++ "\n" ++ after)))).2.sink.text = "2\n" ∧
      Parses (before ++ "\n" ++ after) ∧
      RunAlike Machine.SameButBooks (Extension.Registry.host []) (.initial {}) before after ∧
      RunAlike Machine.SameUpToHandles (Extension.Registry.host []) (.initial {}) before after := by
  have hhost : (Extension.Registry.host []).AsksOnly Operation.StoresValid :=
    Extension.Registry.host_asksOnly nofun
  have hbuiltin : (Machine.initial {}).store.arena.All fun i =>
      i.isFunction = true → i ∈ vocabulary := by
    rw [Machine.store_initial]
    exact Store.all_initial fun _ hi _ => hi
  have hmodules : Twins.NoModules (Extension.Registry.host []) (Extension.Registry.host []) :=
    fun _ => ⟨_, rfl, rfl⟩
  have hbreak : EndsInBreak "if false \x7b\nprintln 1\n\x7d\n" := by decide +kernel
  have hparses : Parses ("if false \x7b\nprintln 1\n\x7d\n" ++ "else \x7b\nprintln 2\n\x7d\n") := by
    decide +kernel
  have hquiet : Quiet ("if false \x7b\nprintln 1\n\x7d\n" ++ "else \x7b\nprintln 2\n\x7d\n") := by
    decide +kernel
  have hm : Reached (Extension.Registry.host []) (fun _ => True) (.initial {}) := .initial {}
  obtain ⟨hspaced, hsteady, -, hoblivious⟩ := blank_line_insignificant hm hparses hbreak
  refine ⟨_, _, hbreak, ?_, ?_, hspaced, hsteady fun _ _ => rfl, hoblivious ?_⟩
  · decide +kernel
  · decide +kernel
  · exact ⟨hhost, .initial {}, hbuiltin, .inr ⟨hquiet, hmodules⟩⟩

/-- A blank line between bare braces makes a block of them, which ends the ladder: the rung that
comes next is left without one. -/
theorem bare_block_ends_ladder :
    ∃ before after, EndsInBreak before ∧ Parses (before ++ after) ∧
      ((Machine.initial {}).attempt (perform (Extension.Registry.host []) 30
        (.runTextTopLevel (before ++ after)))).1 = none ∧
      ((Machine.initial {}).attempt (perform (Extension.Registry.host []) 30
        (.runTextTopLevel (before ++ after)))).2.sink.text = "1" ∧
      ((Machine.initial {}).attempt (perform (Extension.Registry.host []) 30
        (.runTextTopLevel (before ++ "\n" ++ after)))).1 = some (.failed .elseWithoutIf) := by
  refine ⟨"if false \x7b\n\x7d\n\x7b", "\x7d\nelse \x7b\nprint 1\n\x7d\n", ?_⟩
  decide +kernel

end WordScript
