import WordScript.Proofs.Environment

/-!
# What is refused changes nothing

A declaration is refused when its name is declared in the current frame, a name when its namespace is
missing, a module when it cannot be opened, and a handle when it refers to nothing. Whatever is done
to the store in place before it comes to that, the machine is as it was. A declaration that is not
refused binds one name in the current frame, and when the name was bound there to a name that was
only mentioned so far, the handle stays the same.
-/

namespace WordScript

/-! ## Failing with a changed store -/

/-- Does something to the store in place; what it did stays done when it fails. -/
def Action.inPlace {α : Type} (f : Store → Except RuntimeError α × Store) : Action α := fun m =>
  match f m.store with
  | (.ok a, store) => .value a { m with store }
  | (.error e, store) => .failure e { m with store }

namespace Machine

/-- Finds out what a name stands for, in place. -/
def resolveInPlace (name : String) : Action Handle :=
  Action.inPlace (·.resolveInPlace name)

/-- Declares an identifier in place. -/
def declareInPlace (i : Identifier) : Action Handle :=
  Action.inPlace fun s =>
    match s.declareInPlace i with
    | (.ok (some h), s') => (.ok h, s')
    | (.ok none, s') => (.error (.redefinition i.surface), s')
    | (.error e, s') => (.error e, s')

theorem resolve_eq_inPlace (name : String) : resolve name = resolveInPlace name := by
  funext m
  rw [resolve, resolveInPlace, Action.tryStore, Action.inPlace, Store.resolveInPlace_eq]
  rcases m.store.resolve name with e | ⟨h, s'⟩ <;> rfl

theorem declare_eq_inPlace (i : Identifier) : declare i = declareInPlace i := by
  funext m
  rw [declare, declareInPlace, Action.tryStore, Action.inPlace, Store.declareInPlace_eq]
  rcases m.store.declare i with e | _ | ⟨h, s'⟩ <;> rfl

end Machine

theorem Action.eq_of_tryStore_failure {α : Type} {f : Store → Except RuntimeError (α × Store)}
    {m m' : Machine} {e : RuntimeError} (h : Action.tryStore f m = .failure e m') :
    m' = m ∧ f m.store = .error e := by
  unfold Action.tryStore at h
  split at h
  · cases h
  · next heq =>
    cases h
    exact ⟨rfl, heq⟩

theorem Action.eq_of_tryStore_value {α : Type} {f : Store → Except RuntimeError (α × Store)}
    {m m' : Machine} {a : α} (h : Action.tryStore f m = .value a m') :
    f m.store = .ok (a, m'.store) ∧ m' = { m with store := m'.store } := by
  unfold Action.tryStore at h
  split at h
  · next heq =>
    cases h
    exact ⟨heq, rfl⟩
  · cases h

/-! ## Declarations -/

namespace Store

variable {s s' : Store} {i : Identifier} {h : Handle}

/-- The current frame binds a name to something that is declared. -/
def DeclaresHere (s : Store) (name : String) : Prop :=
  ∃ h old, s.scopes.currentFrame.names.find? name = some h ∧ s.arena.get? h = some old ∧
    ¬ old.isUndefined

theorem declare_eq_none_iff : s.declare i = .ok none ↔ s.DeclaresHere i.surface := by
  unfold declare DeclaresHere
  simp only
  cases s.scopes.currentFrame.names.find? i.surface with
  | none => simp
  | some h =>
    cases hold : s.arena.get? h with
    | none => simp [hold]
    | some old => cases hundefined : old.isUndefined <;> simp [hold, hundefined]

/-- A name can be declared that is not bound in the current frame, or only mentioned there. -/
theorem exists_declare (h : ∀ k, s.scopes.currentFrame.names.find? i.surface = some k →
    ∃ old, s.arena.get? k = some old ∧ old.isUndefined) :
    ∃ k s', s.declare i = .ok (some (k, s')) := by
  unfold declare
  simp only
  cases hname : s.scopes.currentFrame.names.find? i.surface with
  | none => exact ⟨_, _, rfl⟩
  | some k =>
    obtain ⟨old, hold, hundefined⟩ := h k hname
    simp only [hold, hundefined, if_true]
    exact ⟨_, _, rfl⟩

/-- An identifier is declared in the current frame. -/
structure DeclaresAs (s : Store) (i : Identifier) (h : Handle) (s' : Store) : Prop where
  /-- Its name is bound there, and nothing else changes. -/
  bindsOnly : s.BindsOnly s.scopes.place.name s.scopes.place.depth i.surface h s'
  declared : i.IsValid → s'.arena.get? h = some { i with scope := s.depth }
  /-- What was bound to the name before is what is bound to it now. -/
  upgraded : ∀ k, s.scopes.currentFrame.names.find? i.surface = some k → h = k ∧
    s'.scopes = s.scopes ∧ ∃ old, s.arena.get? k = some old ∧ old.isUndefined
  fresh : s.scopes.currentFrame.names.find? i.surface = none → ¬ s.arena.InUse h

theorem declaresAs_of_declare (hs : s.arena.Tidy) (hhas : s.scopes.Has s.scopes.place.name)
    (hd : s.declare i = .ok (some (h, s'))) : s.DeclaresAs i h s' := by
  rcases declare_cases hd with ⟨hname, heq⟩ | ⟨old, hname, hold, hundefined, rfl⟩
  · obtain ⟨rfl, rfl⟩ := Prod.mk.inj heq
    refine ⟨bindsOnly_push hs hhas _ _ _, fun hi => Arena.get?_push_self hs hi, ?_,
      fun _ => Arena.not_inUse_push hs _⟩
    intro k hk
    rw [hname] at hk
    cases hk
  · have hl := Arena.isLive_of_get? hold
    refine ⟨bindsOnly_put hs hl hname _, fun hi => Arena.get?_put_self hl hi, ?_, ?_⟩
    · intro k hk
      rw [hname] at hk
      obtain rfl := Option.some.inj hk
      exact ⟨rfl, rfl, old, hold, hundefined⟩
    · intro hnone
      rw [hname] at hnone
      cases hnone

end Store

/-! ## Refusals -/

/-- What a machine refuses leaves it as it is, and what it declares leaves the rest as it is. -/
structure RefusesCleanly (host : Host) (m : Machine) : Prop where
  /-- Both are carried out in place: what is done to the store before they are refused stays done. -/
  inPlace : ∀ steps, (∀ i, perform host (steps + 1) (.declare i) = Machine.declareInPlace i) ∧
    ∀ name, perform host (steps + 1) (.resolve name) = Machine.resolveInPlace name
  redefinition : ∀ (steps : Nat) (i : Identifier) (name : String),
    (∃ m', perform host (steps + 1) (.declare i) m = .failure (.redefinition name) m') ↔
      name = i.surface ∧ m.store.DeclaresHere i.surface
  declare : ∀ (steps : Nat) (i : Identifier) (e : RuntimeError) (m' : Machine),
    perform host (steps + 1) (.declare i) m = .failure e m' → m' = m
  resolve : ∀ (steps : Nat) (name : String) (e : RuntimeError) (m' : Machine),
    perform host (steps + 1) (.resolve name) m = .failure e m' →
      (∃ space, e = .unknownNamespace space) ∧ m' = m
  loadModule : ∀ (steps : Nat) (path space : String) (args : List Expression) (e : RuntimeError),
    host.openModule path = .error e →
      perform host (steps + 1) (.loadModule path space args) m = .failure e m
  identifier : ∀ (steps : Nat) (h : Handle), ¬ m.store.arena.IsLive h →
    perform host (steps + 1) (.identifier h) m = .failure (.invalidReference h) m
  setValue : ∀ (steps : Nat) (h : Handle) (value : Value), ¬ m.store.arena.IsLive h →
    perform host (steps + 1) (.setValue h value) m = .failure (.invalidReference h) m
  /-- So it is for whatever else the arena is asked for about a handle. -/
  arena : ∀ (r : Arena.Request) (h : Handle), r.handle? = some h → ¬ m.store.arena.IsLive h →
    m.store.arena.serve r = (.refused, m.store.arena)
  /-- A name that is not bound in the current frame, or only mentioned there, is not refused. -/
  accepted : ∀ (steps : Nat) (i : Identifier),
    (∀ k, m.store.scopes.currentFrame.names.find? i.surface = some k →
      ∃ old, m.store.arena.get? k = some old ∧ old.isUndefined) →
    ∃ h m', perform host (steps + 1) (.declare i) m = .value h m'
  declared : ∀ (steps : Nat) (i : Identifier) (h : Handle) (m' : Machine),
    perform host (steps + 1) (.declare i) m = .value h m' →
      m.store.DeclaresAs i h m'.store ∧ m' = { m with store := m'.store }

section Refusals

variable {host : Host} {m m' : Machine}

theorem declare_failure {i : Identifier} {e : RuntimeError}
    (h : Machine.declare i m = .failure e m') : m' = m ∧
      ((m.store.declare i = .ok none ∧ e = .redefinition i.surface) ∨
        m.store.declare i = .error e) := by
  obtain ⟨hm, hf⟩ := Action.eq_of_tryStore_failure h
  refine ⟨hm, ?_⟩
  split at hf
  · cases hf
  · next hd =>
    cases hf
    exact .inl ⟨hd, rfl⟩
  · next hd =>
    cases hf
    exact .inr hd

theorem declare_redefinition_iff {i : Identifier} {name : String} :
    (∃ m', Machine.declare i m = .failure (.redefinition name) m') ↔
      name = i.surface ∧ m.store.DeclaresHere i.surface := by
  rw [← Store.declare_eq_none_iff]
  constructor
  · rintro ⟨m', h⟩
    obtain ⟨-, ⟨hd, heq⟩ | hd⟩ := declare_failure h
    · cases heq
      exact ⟨rfl, hd⟩
    · obtain ⟨k, -, -, heq⟩ := Store.declare_error hd
      cases heq
  · rintro ⟨rfl, hd⟩
    exact ⟨m, by simp only [Machine.declare, Action.tryStore, hd]⟩

theorem serve_of_not_isLive {a : Arena} {r : Arena.Request} {h : Handle}
    (hr : r.handle? = some h) (hh : ¬ a.IsLive h) : a.serve r = (.refused, a) := by
  have hrefused : (a.serve r).1 = .refused := by
    by_contra hne
    exact hh ((Arena.serve_ne_refused_iff hr).mp hne)
  exact Prod.ext hrefused (Arena.serve_of_refused hrefused)

end Refusals

/-- In any state that is reached, what is refused changes nothing, and what is declared nothing
else. -/
theorem refused_unchanged {host : Host} {m : Machine} (hm : Reached host (fun _ => True) m) :
    RefusesCleanly host m where
  inPlace steps := ⟨Machine.declare_eq_inPlace, Machine.resolve_eq_inPlace⟩
  redefinition steps i name := declare_redefinition_iff
  declare steps i e m' h := (declare_failure h).1
  resolve steps name e m' h := by
    change Machine.resolve name m = _ at h
    obtain ⟨hm', hr⟩ := Action.eq_of_tryStore_failure h
    exact ⟨Store.resolve_error hr, hm'⟩
  loadModule steps path space args e hopen := by
    change Evaluation.loadModule host (perform host steps) path space args m = _
    rw [Evaluation.loadModule, hopen]
    rfl
  identifier steps h hh := by
    change Machine.identifier h m = _
    rw [Machine.identifier, Arena.not_isLive_iff.mp hh]
  setValue steps h value hh := by
    change Machine.setValue h value m = _
    simp only [Machine.setValue, Action.tryStore, Arena.setValue?, Arena.not_isLive_iff.mp hh]
  arena r h := serve_of_not_isLive
  accepted _ i hundefined := by
    obtain ⟨h, s', hd⟩ := Store.exists_declare hundefined
    refine ⟨h, { m with store := s' }, ?_⟩
    change Machine.declare i m = _
    simp only [Machine.declare, Action.tryStore, hd]
  declared steps i h m' hend := by
    change Machine.declare i m = _ at hend
    obtain ⟨-, hm'⟩ := Action.eq_of_tryStore_value hend
    obtain ⟨fs, hfs, -⟩ := hm.placed.current
    exact ⟨Store.declaresAs_of_declare hm.sound.tidy (Option.isSome_of_eq_some hfs)
      (Evaluation.store_declare_of_value hend), hm'⟩

/-- A variable is declared, and cannot be declared once more. -/
theorem refused_unchanged_variable :
    let host := Extension.Registry.host .constantModule
    let i := (Identifier.name "x" 0).asVariable "int" 0
    ∃ m, Reached host (fun _ => True) m ∧
      perform host 1 (.declare i) m = .failure (.redefinition "x") m := by
  intro host i
  have hrun : (perform host 1 (.declare i) (.initial {})).test (fun _ _ => true) = true := by
    decide +kernel
  obtain ⟨h, m, hend, -⟩ := Outcome.exists_of_test hrun
  have hm : Reached host (fun _ => True) m := .value (.initial {}) trivial .here hend
  have hinitial : RefusesCleanly host (.initial {}) := refused_unchanged (.initial {})
  obtain ⟨⟨hbinds, hdeclared, -, -⟩, -⟩ := hinitial.declared 0 i h m hend
  have hname : m.store.scopes.currentFrame.names.find? "x" = some h := by
    change (m.store.scopes.frameAt m.store.scopes.place.name
      m.store.scopes.place.depth).names.find? "x" = some h
    rw [hbinds.place, hbinds.names]
    exact if_pos ⟨rfl, rfl, rfl⟩
  have hhere : m.store.DeclaresHere "x" :=
    ⟨h, _, hname, hdeclared (fun h => by cases h), by decide⟩
  obtain ⟨m', hrefused⟩ := ((refused_unchanged hm).redefinition 0 i "x").mpr ⟨rfl, hhere⟩
  obtain rfl := (refused_unchanged hm).declare 0 i _ m' hrefused
  exact ⟨m', hm, hrefused⟩

end WordScript
