import WordScript.Proofs.Balance
import WordScript.Proofs.Recording
import WordScript.Proofs.Texts

/-!
# Statements with other empty lines between them

Empty statements do nothing, and leave a ladder as it is. What they can do is to make a statement a
block that is none without them: its body is run then, but has nothing to run. Only where such a
statement has no head does that show, since a block ends a ladder, and a rung that comes next is
left without one. The relation `Spaced` says of statements that they are the same up to empty ones,
and `blocksMatch` that blocks of them are run alike, with two steps more for the blocks that one
side has by itself.
-/

namespace WordScript

/-- Leaving a block that holds nothing gives back the store that it was opened in. -/
theorem Store.leave_enter {s : Store} (hs : s.scopes.Placed) {arrange : List Handle → List Handle}
    (harrange : arrange [] = []) : s.enter.leave arrange = (.ok (), s) := by
  obtain ⟨fs, hfs, -⟩ := hs.current
  have hname : s.scopes.enter.place.name = s.scopes.place.name := rfl
  have hframes : s.scopes.enter.frames s.scopes.place.name = fs ++ [.empty] := by
    change (s.scopes.setFrames s.scopes.place.name _).frames s.scopes.place.name = _
    rw [Scopes.frames_of_find? (Scopes.find?_setFrames _ _ _ _ |>.trans (if_pos rfl)),
      Scopes.frames_of_find? hfs]
  have hback : s.scopes.enter.setFrames s.scopes.place.name fs =
      { s.scopes with place := s.scopes.enter.place } := by
    simp [Scopes.enter, Scopes.setFrames, Bindings.insert_insert, Bindings.insert_eq_self hfs]
  have hleave : s.scopes.enter.leave? = some (.empty, s.scopes) := by
    have hdepth : s.scopes.enter.place.depth ≠ 0 := Nat.succ_ne_zero _
    rw [Scopes.leave?, if_neg hdepth]
    simp only [hname, hframes, hback, List.getLast?_concat, List.dropLast_concat]
    simp [Scopes.enter, Nat.max_eq_left hs.visible]
  simp only [Store.leave, Store.enter, hleave]
  rw [show Frame.empty.handles = [] from rfl, harrange]
  rfl

/-- Identifiers are destroyed in the same order whenever a block is left. -/
def Host.Steady (host : Host) : Prop := ∀ n n', host.arrange n = host.arrange n'

theorem Host.arrange_nil (host : Host) (n : Nat) : host.arrange n [] = [] :=
  List.perm_nil.mp (host.arrange_perm n [])

/-! ## Statements up to empty ones -/

/-- The same statements, up to empty ones. A statement without a head may be a block on one side
only if that is allowed for that side. -/
inductive Spaced (left right : Prop) : List Statement → List Statement → Prop where
  | nil : Spaced left right [] []
  | blankLeft {s : Statement} {ss ss' : List Statement} (hs : s.isBlank = true)
    (h : Spaced left right ss ss') : Spaced left right (s :: ss) ss'
  | blankRight {s' : Statement} {ss ss' : List Statement} (hs' : s'.isBlank = true)
    (h : Spaced left right ss ss') : Spaced left right ss (s' :: ss')
  | cons {s s' : Statement} {ss ss' : List Statement} (hhead : s.head = s'.head)
    (hbody : Spaced left right s.body s'.body)
    (hblock : s.head.isEmpty = true → s.isBlock = s'.isBlock ∨
      (s.isBlock = true ∧ left) ∨ (s'.isBlock = true ∧ right))
    (h : Spaced left right ss ss') : Spaced left right (s :: ss) (s' :: ss')

namespace Spaced

variable {left right : Prop} {ss ss' ts ts' : List Statement}

theorem refl : ∀ ss : List Statement, Spaced left right ss ss
  | [] => .nil
  | .mk _ body :: ss => .cons rfl (refl body) (fun _ => .inl rfl) (refl ss)

theorem append (h : Spaced left right ss ss') (h' : Spaced left right ts ts') :
    Spaced left right (ss ++ ts) (ss' ++ ts') := by
  induction h with
  | nil => exact h'
  | blankLeft hs _ ih => exact .blankLeft hs ih
  | blankRight hs' _ ih => exact .blankRight hs' ih
  | cons hhead hbody hblock _ _ ih => exact .cons hhead hbody hblock ih

/-- An empty statement has been added at the end. -/
theorem push_empty (ss : List Statement) : Spaced left right ss (ss ++ [.empty]) := by
  have hadded : Spaced left right [] [.empty] := .blankRight rfl .nil
  simpa using (refl ss).append hadded

theorem symm (h : Spaced left right ss ss') : Spaced right left ss' ss := by
  induction h with
  | nil => exact .nil
  | blankLeft hs _ ih => exact .blankRight hs ih
  | blankRight hs _ ih => exact .blankLeft hs ih
  | cons hhead _ hblock _ ihbody ih =>
    refine .cons hhead.symm ihbody (fun hempty => ?_) ih
    rcases hblock (hhead ▸ hempty) with hsame | hleft | hright
    · exact .inl hsame.symm
    · exact .inr (.inr hleft)
    · exact .inr (.inl hright)

/-- Beside no statements there are only empty ones. -/
theorem isBlank_of_nil (h : Spaced left right [] ss') : ∀ s' ∈ ss', s'.isBlank = true := by
  generalize hss : ([] : List Statement) = ss at h
  induction h with
  | nil => simp
  | blankLeft => cases hss
  | blankRight hs' _ ih => exact List.forall_mem_cons.mpr ⟨hs', ih hss⟩
  | cons => cases hss

end Spaced

/-! ## Ending alike -/

/-- Unless the left one was cut off, both have ended with related values or with the same error, on
machines that are the same but for their books; or a side for which that is allowed has come upon a
rung without a ladder. -/
inductive Outcome.Matches {α β : Type} (left right : Prop) (V : α → β → Prop) :
    Outcome α → Outcome β → Prop where
  | cutOff {o' : Outcome β} : Matches left right V .cutOff o'
  | value {a : α} {b : β} {m m' : Machine} (hV : V a b) (hm : m.SameButBooks m') :
    Matches left right V (.value a m) (.value b m')
  | failure {e : RuntimeError} {m m' : Machine} (hm : m.SameButBooks m') :
    Matches left right V (.failure e m) (.failure e m')
  | left {m : Machine} {o' : Outcome β} (h : left) :
    Matches left right V (.failure .elseWithoutIf m) o'
  | right {o : Outcome α} {m' : Machine} (h : right) :
    Matches left right V o (.failure .elseWithoutIf m')

namespace Outcome.Matches

variable {left right : Prop} {α β α' β' : Type} {V : α → β → Prop} {W : α' → β' → Prop}
  {m m' : Machine}

theorem of_agrees {V : α → α → Prop} (hV : ∀ a, V a a) {o o' : Outcome α}
    (h : o.Agrees Machine.SameButBooks o') : o.Matches left right V o' := by
  cases o <;> cases o' <;> first | exact h.elim | skip
  case value.value a m b m' =>
    obtain ⟨rfl, hm⟩ := h
    exact .value (hV a) hm
  case failure.failure e m e' m' =>
    obtain ⟨rfl, hm⟩ := h
    exact .failure hm
  case cutOff.cutOff => exact .cutOff

theorem bind {x : Action α} {y : Action β} {f : α → Action α'} {g : β → Action β'}
    (h : (x m).Matches left right V (y m'))
    (hf : ∀ a b m₁ m₁', x m = .value a m₁ → V a b → m₁.SameButBooks m₁' →
      (f a m₁).Matches left right W (g b m₁')) :
    ((x >>= f) m).Matches left right W ((y >>= g) m') := by
  rw [Action.bind_apply, Action.bind_apply]
  generalize hx : x m = o at h
  generalize y m' = o' at h
  cases h with
  | cutOff => exact .cutOff
  | value hV hm => exact hf _ _ _ _ hx hV hm
  | failure hm => exact .failure hm
  | left h => exact .left h
  | right h => exact .right h

/-- What is done next does not look at the values. -/
theorem bind_pure {x : Action α} {y : Action β} (h : (x m).Matches left right V (y m'))
    {a : α'} {b : β'} (hab : W a b) :
    ((x >>= fun _ => pure a) m).Matches left right W ((y >>= fun _ => pure b) m') :=
  h.bind fun _ _ _ _ _ _ hm => .value hab hm

end Outcome.Matches

namespace Evaluation

open WordScript.Action WordScript.Machine

variable {left right : Prop} {host : Host} {steps steps' : Nat} {m m' : Machine}

/-- Frames are left alike when what runs in them ends alike. -/
theorem matches_inFrame {α β : Type} {V : α → β → Prop} (hhost : host.Steady) {x : Action α}
    {y : Action β}
    (h : (x { m with store := m.store.enter }).Matches left right V
      (y { m' with store := m'.store.enter })) :
    (inFrame host x m).Matches left right V (inFrame host y m') := by
  unfold inFrame
  have hleave : ∀ {m₁ m₁' : Machine}, m₁.SameButBooks m₁' →
      m₁'.store.leave (host.arrange m₁'.blocksLeft) =
        m₁.store.leave (host.arrange m₁.blocksLeft) := by
    intro m₁ m₁' hm
    rw [← Bookkeeping.store hm, hhost m₁'.blocksLeft m₁.blocksLeft]
  generalize x { m with store := m.store.enter } = o at h
  generalize y { m' with store := m'.store.enter } = o' at h
  cases h with
  | cutOff => exact .cutOff
  | @value a b m₁ m₁' hV hm =>
    have hleft := Bookkeeping.leave (Bookkeeping.withStore
      (m₁.store.leave (host.arrange m₁.blocksLeft)).2 hm)
    simp only [hleave hm]
    cases (m₁.store.leave (host.arrange m₁.blocksLeft)).1 with
    | ok _ => exact .value hV hleft
    | error e => exact .failure hleft
  | failure hm =>
    simp only [hleave hm]
    exact .failure (Bookkeeping.leave (Bookkeeping.withStore _ hm))
  | left h => exact .left h
  | right h => exact .right h

/-! ## Staying placed -/

/-- The place of execution is still there afterwards. -/
def Stays {α : Type} (x : Action α) : Prop :=
  ∀ m : Machine, m.store.scopes.Placed → (x m).EndsIn fun m' => m'.store.scopes.Placed

theorem stays_perform (host : Host) (steps : Nat) (op : Operation) :
    Stays (perform host steps op) := by
  intro m hm
  have hC := Contract.kept_balanced.lawful host.asksOnly_stores_true
  exact (hC.perform_meets steps hm (Contract.admits_uniform op.stores_true)).endsIn
    fun _ hm' _ => hm'

theorem stays_classify (head : Expression) : Stays (classify head) := by
  intro m hm
  have hC := Contract.kept_balanced.lawful (Extension.Registry.host []).asksOnly_stores_true
  exact (hC.keeps_classify hm fun _ _ => trivial).meets.endsIn fun _ hm' _ => hm'

theorem Stays.of_value {α : Type} {x : Action α} (hx : Stays x) (hm : m.store.scopes.Placed)
    {a : α} {m₁ : Machine} (h : x m = .value a m₁) : m₁.store.scopes.Placed := by
  have hends := hx m hm
  rw [h] at hends
  exact hends

/-! ## The same thing done twice -/

theorem Unrecorded.matches_same {α : Type} {x : Action α} (hx : Unrecorded SameButBooks x)
    (hm : m.SameButBooks m') : (x m).Matches left right Eq (x m') :=
  .of_agrees (fun _ => rfl) (hx m m' hm)

/-- An operation ends alike with more steps and with other books. -/
theorem matches_perform (hhost : host.Steady) (hsteps : steps ≤ steps') (op : Operation)
    (hm : m.SameButBooks m') :
    (perform host steps op m).Matches left right Eq (perform host steps' op m') := by
  by_cases hcut : perform host steps op m = .cutOff
  · rw [hcut]
    exact .cutOff
  · rw [← completes_perform host hsteps op m hcut]
    exact (unrecorded_perform_of_arrange (fun m m' _ => hhost _ _) steps' op).matches_same hm

/-- Loops run alike when their conditions and bodies do, and the one on the right may run at least
as often. -/
theorem matches_repeatWhile {condition condition' : Action Bool} {body body' : Action Unit}
    (hstays : Stays condition) (hstays' : Stays body)
    (hcondition : ∀ {m m' : Machine}, m.store.scopes.Placed → m.SameButBooks m' →
      (condition m).Matches left right Eq (condition' m'))
    (hbody : ∀ {m m' : Machine}, m.store.scopes.Placed → m.SameButBooks m' →
      (body m).Matches left right Eq (body' m'))
    {n n' : Nat} (hn : n ≤ n') (hplaced : m.store.scopes.Placed) (hm : m.SameButBooks m') :
    (repeatWhile condition body n m).Matches left right Eq
      (repeatWhile condition' body' n' m') := by
  induction n generalizing n' m m' with
  | zero => exact .cutOff
  | succ n ih =>
    obtain ⟨n', rfl⟩ := Nat.exists_eq_add_of_lt hn
    refine (hcondition hplaced hm).bind fun holds holds' m₁ m₁' hvalue hsame hm₁ => ?_
    subst hsame
    have hplaced₁ := hstays.of_value hplaced hvalue
    cases holds with
    | false => exact .value rfl hm₁
    | true =>
      refine (hbody hplaced₁ hm₁).bind fun _ _ m₂ m₂' hvalue _ hm₂ => ?_
      exact ih (by omega) (hstays'.of_value hplaced₁ hvalue) hm₂

/-! ## Statements -/

/-- A ladder is climbed alike, or a side for which that is allowed has been brought to its end. -/
def SameLadder (left right : Prop) (ladder ladder' : Option Bool) : Prop :=
  ladder = ladder' ∨ (left ∧ ladder = none) ∨ (right ∧ ladder' = none)

theorem perform_runStep_of_isBlank {s : Statement} (hs : s.isBlank = true) (host : Host)
    (steps : Nat) (ladder : Option Bool) :
    perform host (steps + 1) (.runStep s ladder) = pure ladder :=
  if_pos hs

theorem runAll_of_isBlank {ss : List Statement} (hss : ∀ s ∈ ss, s.isBlank = true) (host : Host)
    (steps : Nat) (ladder : Option Bool) :
    runAll (perform host (steps + 1)) ss ladder = pure () := by
  induction ss generalizing ladder with
  | nil => rfl
  | cons s ss ih =>
    obtain ⟨hs, hss⟩ := List.forall_mem_cons.mp hss
    rw [runAll, perform_runStep_of_isBlank hs, pure_bind, ih hss]

/-- A block of empty statements does nothing. -/
theorem perform_runBlock_of_isBlank {ss : List Statement} (hss : ∀ s ∈ ss, s.isBlank = true)
    (host : Host) (steps : Nat) (hm : m.store.scopes.Placed) :
    perform host (steps + 2) (.runBlock ss) m =
      .value () { m with blocksLeft := m.blocksLeft + 1 } := by
  change inFrame host (runAll (perform host (steps + 1)) ss none) m = _
  rw [runAll_of_isBlank hss]
  simp only [inFrame, pure, Store.leave_enter hm (host.arrange_nil _)]

/-- A block of empty statements is run like nothing at all. -/
theorem matches_of_isBlank {ss : List Statement} (hss : ∀ s ∈ ss, s.isBlank = true)
    (hplaced : m.store.scopes.Placed) (hm : m.SameButBooks m') :
    (perform host steps (.runBlock ss) m).Matches left right Eq ((pure () : Action Unit) m') := by
  obtain ⟨n, journal, rfl⟩ := hm
  by_cases hcut : perform host steps (.runBlock ss) m = .cutOff
  · rw [hcut]
    exact .cutOff
  · rw [← completes_perform host (Nat.le_add_right steps 2) _ m hcut,
      perform_runBlock_of_isBlank hss host steps hplaced]
    exact .value rfl ⟨n, journal, rfl⟩

/-- With so many steps on the left, and two more on the right, blocks whose statements are the same
up to empty ones are run alike. -/
def BlocksMatch (host : Host) (left right : Prop) (steps : Nat) : Prop :=
  ∀ {body body' : List Statement} {m m' : Machine}, Spaced left right body body' →
    m.store.scopes.Placed → m.SameButBooks m' →
    (perform host steps (.runBlock body) m).Matches left right Eq
      (perform host (steps + 2) (.runBlock body') m')

variable {s s' : Statement} {ladder ladder' : Option Bool}

/-- Running the body of a statement, if that is a block. -/
theorem matches_ifBlock (hblocks : BlocksMatch host left right steps)
    (hbody : Spaced left right s.body s'.body) (hplaced : m.store.scopes.Placed)
    (hm : m.SameButBooks m')
    (hladder : SameLadder left right (if s.isBlock then none else ladder)
      (if s'.isBlock then none else ladder')) :
    ((if s.isBlock then perform host steps (.runBlock s.body) >>= fun _ => pure none
        else pure ladder) m).Matches left right (SameLadder left right)
      ((if s'.isBlock then perform host (steps + 2) (.runBlock s'.body) >>= fun _ => pure none
        else pure ladder') m') := by
  have hnil : ∀ {s : Statement}, s.isBlock = false → s.body = [] := by
    simp [Statement.isBlock]
  cases hs : s.isBlock <;> cases hs' : s'.isBlock <;>
    simp only [hs, hs', if_true, if_false, Bool.false_eq_true] at hladder ⊢
  case false.false => exact .value hladder hm
  case true.true => exact (hblocks hbody hplaced hm).bind_pure hladder
  -- where only one side has a block, nothing but empty statements is in it
  case true.false =>
    have hblank := Spaced.isBlank_of_nil (hnil hs' ▸ hbody.symm)
    exact (matches_of_isBlank hblank hplaced hm).bind_pure hladder
  case false.true =>
    have hblank := Spaced.isBlank_of_nil (hnil hs ▸ hbody)
    have hplaced' : m'.store.scopes.Placed := Bookkeeping.store hm ▸ hplaced
    obtain ⟨n, journal, rfl⟩ := hm
    rw [Action.bind_apply, perform_runBlock_of_isBlank hblank host steps hplaced']
    exact .value hladder ⟨n + 1, journal, rfl⟩

/-- Running the rung of a ladder. -/
theorem matches_rung (hhost : host.Steady) (hblocks : BlocksMatch host left right steps)
    (hbody : Spaced left right s.body s'.body) (hplaced : m.store.scopes.Placed)
    (hm : m.SameButBooks m') (condition : List Expression) :
    ((runRung (perform host steps) condition s.body >>= fun taken => pure (some taken)) m).Matches
      left right (SameLadder left right)
      ((runRung (perform host (steps + 2)) condition s'.body >>=
        fun taken => pure (some taken)) m') := by
  have hrung : (runRung (perform host steps) condition s.body m).Matches left right Eq
      (runRung (perform host (steps + 2)) condition s'.body m') := by
    refine (matches_perform hhost (Nat.le_add_right steps 2) (.decide condition) hm).bind
      fun taken taken' m₁ m₁' hvalue htaken hm₁ => ?_
    subst htaken
    cases taken with
    | false => exact .value rfl hm₁
    | true =>
      have hplaced₁ := (stays_perform host steps _).of_value hplaced hvalue
      exact (hblocks hbody hplaced₁ hm₁).bind_pure rfl
  refine hrung.bind fun taken taken' m₁ m₁' _ htaken hm₁ => ?_
  exact .value (.inl (congrArg some htaken)) hm₁

/-- Statements with the same head are run alike, if blocks are. -/
theorem matches_runStep (hhost : host.Steady) (hblocks : BlocksMatch host left right steps)
    (hhead : s.head = s'.head) (hbody : Spaced left right s.body s'.body)
    (hblock : s.head.isEmpty = true → s.isBlock = s'.isBlock ∨
      (s.isBlock = true ∧ left) ∨ (s'.isBlock = true ∧ right))
    (hladder : SameLadder left right ladder ladder') (hplaced : m.store.scopes.Placed)
    (hm : m.SameButBooks m') :
    (perform host (steps + 1) (.runStep s ladder) m).Matches left right (SameLadder left right)
      (perform host (steps + 3) (.runStep s' ladder') m') := by
  change (runStep (perform host steps) steps s ladder m).Matches left right _
    (runStep (perform host (steps + 2)) (steps + 2) s' ladder' m')
  cases hempty : s.head.isEmpty with
  | true =>
    have hnil := Expression.isEmpty_iff.mp hempty
    rw [runStep_of_head hnil, runStep_of_head (hhead ▸ hnil)]
    apply matches_ifBlock hblocks hbody hplaced hm
    -- a block without a head ends the ladder on its side, and only there if it is one only there
    rcases hblock hempty with hsame | ⟨hs, hleft⟩ | ⟨hs', hright⟩
    · rw [hsame]
      cases s'.isBlock with
      | true => exact .inl rfl
      | false => exact hladder
    · exact .inr (.inl ⟨hleft, by rw [if_pos hs]⟩)
    · exact .inr (.inr ⟨hright, by rw [if_pos hs']⟩)
  | false =>
    have hword : ∀ s : Statement, s.head.isEmpty = false →
        ¬ (s.head.isEmpty && !s.isBlock) = true := by
      intro s hs
      rw [hs]
      nofun
    unfold runStep
    rw [if_neg (hword s hempty), if_neg (hword s' (hhead ▸ hempty)), ← hhead]
    refine ((unrecorded_classify s.head).matches_same hm).bind
      fun found found' m₁ m₁' hvalue hfound hm₁ => ?_
    subst hfound
    have hplaced₁ := (stays_classify s.head).of_value hplaced hvalue
    have hrung := matches_rung hhost hblocks hbody hplaced₁ hm₁
    cases found with
    | ifTrue condition => exact hrung condition
    | elseIf condition =>
      rcases hladder with rfl | ⟨hleft, rfl⟩ | ⟨hright, rfl⟩
      · cases ladder with
        | none => exact .failure hm₁
        | some taken =>
          cases taken with
          | true => exact .value (.inl rfl) hm₁
          | false => exact hrung condition
      · exact .left hleft
      · exact .right hright
    | otherwise =>
      rcases hladder with rfl | ⟨hleft, rfl⟩ | ⟨hright, rfl⟩
      · cases ladder with
        | none => exact .failure hm₁
        | some taken =>
          cases taken with
          | true => exact .value (.inl rfl) hm₁
          | false => exact (hblocks hbody hplaced₁ hm₁).bind_pure (.inl rfl)
      · exact .left hleft
      · exact .right hright
    | whileTrue condition =>
      have hloop := matches_repeatWhile (stays_perform host steps (.decide condition))
        (stays_perform host steps (.runBlock s.body))
        (fun _ hm => matches_perform hhost (Nat.le_add_right steps 2) (.decide condition) hm)
        (fun hplaced hm => hblocks hbody hplaced hm) (Nat.le_add_right steps 2) hplaced₁ hm₁
      exact hloop.bind_pure (.inl rfl)
    | plain =>
      simp only [hempty, Bool.not_false, if_true]
      refine (matches_perform hhost (Nat.le_add_right steps 2) (.evaluate s.head) hm₁).bind
        fun _ _ m₂ m₂' hvalue _ hm₂ => ?_
      have hplaced₂ := (stays_perform host steps _).of_value hplaced₁ hvalue
      -- the ladder has ended on both sides, whether there is a block or not
      exact matches_ifBlock hblocks hbody hplaced₂ hm₂ (.inl (by simp))

/-- Statements that are the same up to empty ones are run alike, one after the other. -/
theorem matches_runAll (hhost : host.Steady) (hblocks : BlocksMatch host left right steps)
    {ss ss' : List Statement} (h : Spaced left right ss ss')
    (hladder : SameLadder left right ladder ladder') (hplaced : m.store.scopes.Placed)
    (hm : m.SameButBooks m') :
    (runAll (perform host (steps + 1)) ss ladder m).Matches left right Eq
      (runAll (perform host (steps + 3)) ss' ladder' m') := by
  induction h generalizing ladder ladder' m m' with
  | nil => exact .value rfl hm
  | blankLeft hs _ ih =>
    rw [runAll, perform_runStep_of_isBlank hs, pure_bind]
    exact ih hladder hplaced hm
  | blankRight hs' _ ih =>
    rw [runAll, perform_runStep_of_isBlank hs', pure_bind]
    exact ih hladder hplaced hm
  | cons hhead hbody hblock _ _ ih =>
    refine (matches_runStep hhost hblocks hhead hbody hblock hladder hplaced hm).bind
      fun ladder₁ ladder₁' m₁ m₁' hvalue hladder₁ hm₁ => ?_
    exact ih hladder₁ ((stays_perform host _ _).of_value hplaced hvalue) hm₁

/-- By induction on the steps: blocks whose statements are the same up to empty ones are run alike.
-/
theorem blocksMatch (hhost : host.Steady) (left right : Prop) (steps : Nat) :
    BlocksMatch host left right steps := by
  -- the blocks among the statements of a block have two steps less than it
  induction steps using Nat.strongRecOn with
  | ind steps ih =>
  intro body body' m m' h hplaced hm
  match steps with
  | 0 => exact .cutOff
  | 1 =>
    -- so few steps are enough for an empty body only
    cases body with
    | cons s ss => exact .cutOff
    | nil =>
      have hplaced' : m'.store.scopes.Placed := Bookkeeping.store hm ▸ hplaced
      rw [perform_runBlock_of_isBlank h.isBlank_of_nil host 1 hplaced']
      obtain ⟨n, journal, rfl⟩ := hm
      exact matches_of_isBlank (List.forall_mem_nil _) hplaced ⟨n + 1, journal, rfl⟩
  | steps + 2 =>
    have hentered : Machine.SameButBooks { m with store := m.store.enter }
        { m' with store := m'.store.enter } := by
      rw [← Bookkeeping.store hm]
      exact Bookkeeping.withStore m.store.enter hm
    have hruns := matches_runAll hhost (ih steps (by omega)) h (.inl (Eq.refl none))
      hplaced.enter hentered
    exact matches_inFrame hhost hruns

/-! ## Texts -/

/-- What texts are read into is run alike, as a block of its own. -/
theorem matches_run (hhost : host.Steady) (hs : s.head = .group []) (hs' : s'.head = .group [])
    (hbody : Spaced left right s.body s'.body) (hplaced : m.store.scopes.Placed)
    (hm : m.SameButBooks m') (steps : Nat) :
    (perform host steps (.run s) m).Matches left right Eq
      (perform host (steps + 2) (.run s') m') := by
  match steps with
  | 0 => exact .cutOff
  | 1 => exact .cutOff
  | steps + 2 =>
    change ((runStep (perform host steps) steps s none >>= fun _ => pure ()) m).Matches left right _
      ((runStep (perform host (steps + 2)) (steps + 2) s' none >>= fun _ => pure ()) m')
    rw [runStep_of_head hs, runStep_of_head hs']
    have hladder : SameLadder left right (if s.isBlock then none else none)
        (if s'.isBlock then none else none) := .inl (by rw [ite_self, ite_self])
    have hblocks : BlocksMatch host left right steps := blocksMatch hhost left right steps
    exact (matches_ifBlock hblocks hbody hplaced hm hladder).bind_pure rfl

/-- What texts are read into is run alike, in the current frame. -/
theorem matches_runTopLevel (hhost : host.Steady) (hs : s.head = .group [])
    (hs' : s'.head = .group []) (hbody : Spaced left right s.body s'.body)
    (hplaced : m.store.scopes.Placed) (hm : m.SameButBooks m') (steps : Nat) :
    (perform host steps (.runTopLevel s) m).Matches left right Eq
      (perform host (steps + 2) (.runTopLevel s') m') := by
  match steps with
  | 0 => exact .cutOff
  | 1 =>
    rw [perform_runTopLevel_of_head hs, perform_runTopLevel_of_head hs']
    generalize s.body = ss at hbody
    cases ss with
    | cons s ss => exact .cutOff
    | nil =>
      rw [runAll_of_isBlank hbody.isBlank_of_nil]
      exact .value rfl hm
  | steps + 2 =>
    rw [perform_runTopLevel_of_head hs, perform_runTopLevel_of_head hs']
    exact matches_runAll hhost (blocksMatch hhost left right steps) hbody (.inl rfl) hplaced hm

/-- Two texts that are read into the same arena are run alike when what they are read into is. -/
theorem matches_withText {text text' : String} {next next' : Statement → Action Unit}
    (hs : (Statement.ofText text m.store.arena).1 = .ok s)
    (hs' : Statement.ofText text' m.store.arena =
      (.ok s', (Statement.ofText text m.store.arena).2))
    (hnext : (next s (afterReading text m)).Matches left right Eq
      (next' s' (afterReading text m))) :
    (withText text next m).Matches left right Eq (withText text' next' m) := by
  have hreading : afterReading text' m = afterReading text m := by simp only [afterReading, hs']
  rw [withText_of_ok hs, withText_of_ok (congrArg Prod.fst hs'), hreading]
  exact hnext.bind_pure rfl

/-- Two texts whose statements are the same up to empty ones are run alike. -/
theorem matches_text (hhost : host.Steady) {text text' : String}
    (hs : (Statement.ofText text m.store.arena).1 = .ok s)
    (hs' : Statement.ofText text' m.store.arena =
      (.ok s', (Statement.ofText text m.store.arena).2))
    (hbody : Spaced left right s.body s'.body) (hplaced : m.store.scopes.Placed) (steps : Nat) :
    (perform host steps (.runText text) m).Matches left right Eq
        (perform host (steps + 2) (.runText text') m) ∧
      (perform host steps (.runTextTopLevel text) m).Matches left right Eq
        (perform host (steps + 2) (.runTextTopLevel text') m) := by
  have hhead := Statement.head_of_ofText hs
  have hhead' := Statement.head_of_ofText (congrArg Prod.fst hs')
  have hplaced' : (afterReading text m).store.scopes.Placed := hplaced
  have hsame : (afterReading text m).SameButBooks (afterReading text m) := ⟨_, _, rfl⟩
  cases steps with
  | zero => exact ⟨.cutOff, .cutOff⟩
  | succ steps =>
    constructor
    · exact matches_withText hs hs' (matches_run hhost hhead hhead' hbody hplaced' hsame steps)
    · exact matches_withText hs hs'
        (matches_runTopLevel hhost hhead hhead' hbody hplaced' hsame steps)

end Evaluation

end WordScript
