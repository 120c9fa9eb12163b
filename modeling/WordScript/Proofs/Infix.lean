import WordScript.Proofs.Standing

/-!
# Functions between two operands

An infix function that finds one value waiting takes it together with its left neighbour. So a group
of a function between two operands comes to what the call of the function comes to. A function that
nothing stands in front of takes all that waits instead.
-/

namespace WordScript

/-- The leaf stands for an infix function that carries out the operation. -/
def Store.Between (s : Store) (o : Handle) (op : Builtin) : Prop :=
  ∃ k f, s.StandsFor o k ∧ s.arena.get? k = some f ∧ f.isFunction = true ∧ f.isInfix = true ∧
    f.callable? = some (.builtin op)

theorem Store.Between.widen {s s' : Store} {o : Handle} {op : Builtin} (hs : s.Ready)
    (hw : s.Widens s') (ho : s.Between o op) : s'.Between o op := by
  obtain ⟨k, f, hk, hf, hrest⟩ := ho
  exact ⟨k, f, hk.widen hs hw, hw.kept hf, hrest⟩

/-- The leaf stands for a function that carries out the operation, which is behind the handle. -/
def Store.StandsForBuiltin (s : Store) (c k : Handle) (op : Builtin) : Prop :=
  s.StandsFor c k ∧ ∃ f, s.arena.get? k = some f ∧ f.isFunction = true ∧
    f.callable? = some (.builtin op)

theorem Store.StandsForBuiltin.widen {s s' : Store} {c k : Handle} {op : Builtin} (hs : s.Ready)
    (hw : s.Widens s') (hc : s.StandsForBuiltin c k op) : s'.StandsForBuiltin c k op := by
  obtain ⟨hk, f, hf, hrest⟩ := hc
  exact ⟨hk.widen hs hw, f, hw.kept hf, hrest⟩

/-- The machine with the group entered into its journal, when one is kept. -/
def Machine.noted (m : Machine) (group : List Expression) : Machine :=
  { m with journal := m.journal.map (group :: ·) }

@[simp] theorem Machine.store_noted (m : Machine) (group : List Expression) :
    (m.noted group).store = m.store := rfl

theorem Machine.noted_of_none {m : Machine} (h : m.journal = none) (group : List Expression) :
    m.noted group = m := by
  rw [Machine.noted, h, Option.map_none, ← h]

namespace Evaluation

open WordScript.Action WordScript.Machine

variable {host : Host} {steps : Nat} {self : Performer} {m m' : Machine} {o h k : Handle}
  {op : Builtin}

/-- A group is evaluated by going through its members and collecting what is left over. -/
theorem perform_evaluate_group (host : Host) (steps : Nat) (es : List Expression) (m : Machine) :
    perform host (steps + 2) (.evaluate (.group es)) m =
      (scan (perform host steps) es.reverse [] >>= concatMap (collect (perform host steps)))
        (m.noted es) := rfl

/-- A leaf is evaluated by resolving it. -/
theorem perform_evaluate_leaf (host : Host) (steps : Nat) (hk : resolveLeaf h m = .value k m') :
    perform host (steps + 1) (.evaluate (.leaf h)) m = .value [k] m' := by
  change (resolveLeaf h >>= fun k => pure [k]) m = _
  rw [Action.bind_apply, hk]
  rfl

/-- Leaves that are left over are the values. -/
theorem concatMap_collect_leaf (self : Performer) (hs : List Handle) (m : Machine) :
    concatMap (collect self) (hs.map .leaf) m = .value hs m := by
  induction hs with
  | nil => rfl
  | cons h hs ih =>
    have hleaf : collect self (.leaf h) m = .value [h] m := rfl
    simp only [List.map_cons, concatMap, Action.bind_apply, hleaf, ih]
    rfl

/-- What the last call gives is what is left over. -/
theorem collect_results (self : Performer) (x : Action (List Handle)) (m : Machine) :
    ((x >>= fun results => scan self [] (results.map .leaf)) >>= concatMap (collect self)) m =
      x m := by
  simp only [Action.bind_apply, scan]
  cases x m with
  | value results m₁ => exact concatMap_collect_leaf self results m₁
  | failure e m₁ => rfl
  | cutOff => rfl

/-- A leaf that resolves to no function waits. -/
theorem scan_value {i : Identifier} (hk : resolveLeaf h m = .value k m')
    (hi : m'.store.arena.get? k = some i) (hvalue : i.isFunction = false)
    (before waiting : List Expression) :
    scan self (.leaf h :: before) waiting m = scan self before (.leaf k :: waiting) m' := by
  simp only [scan, Action.bind_apply, hk, identifier_of_get? hi, hvalue, Bool.not_false, if_true]

/-- A function that finds one value waiting is called with it and the left neighbour. -/
theorem scan_infix (self : Performer) (ho : m.store.Between o op) (left right : Expression) :
    ∃ k f, m.store.arena.get? k = some f ∧ f.callable? = some (.builtin op) ∧
      ∀ before, scan self (.leaf o :: left :: before) [right] m =
        (self (.call [.leaf k, left, right] true) >>= fun results =>
          scan self before (results.map .leaf)) m := by
  obtain ⟨k, f, hk, hf, hfunction, hinfix, hcallable⟩ := ho
  refine ⟨k, f, hf, hcallable, fun before => ?_⟩
  simp only [scan, Action.bind_apply, resolveLeaf_of_standsFor hk, identifier_of_get? hf,
    hfunction, hinfix, Bool.not_true, Bool.false_eq_true, if_false]

/-- Calling a handle of a built-in function. -/
theorem perform_call {f : Identifier} (hf : m.store.arena.get? k = some f)
    (hcallable : f.callable? = some (.builtin op)) (operands : List Expression) (isInfix : Bool) :
    perform host (steps + 1) (.call (.leaf k :: operands) isInfix) m =
      callBuiltin (perform host steps) (.leaf k :: operands) isInfix op m := by
  change (identifier k >>= fun i => _) m = _
  rw [Action.bind_apply, identifier_of_get? hf]
  simp only [hcallable]

theorem concatMap_singleton {α β : Type} (f : α → Action (List β)) (a : α) :
    concatMap f [a] = f a := by
  simp [concatMap]

theorem evaluateEach_singleton (self : Performer) (e : Expression) :
    evaluateEach self [e] = self (.evaluate e) :=
  concatMap_singleton _ e

/-- The values on the two sides are paired when there are as many on the one side as on the other. -/
theorem pairs_of_left {self : Performer} {left : Expression} {ls : List Handle} {m₁ : Machine}
    (hleft : self (.evaluate left) m = .value ls m₁) (right : Expression) :
    pairs self [left, right] m = (self (.evaluate right) >>= fun rs =>
      if ls.length = rs.length then pure (ls.zip rs)
      else fail (.lengthMismatch ls.length rs.length)) m₁ := by
  unfold pairs
  simp only [List.take_succ_cons, List.take_zero, List.drop_succ_cons, List.drop_zero,
    evaluateEach_singleton]
  rw [Action.bind_apply, hleft]

theorem pairs_of_values {self : Performer} {left right : Expression} {ls rs : List Handle}
    {m₁ m₂ : Machine} (hleft : self (.evaluate left) m = .value ls m₁)
    (hright : self (.evaluate right) m₁ = .value rs m₂) :
    pairs self [left, right] m =
      if ls.length = rs.length then .value (ls.zip rs) m₂
      else .failure (.lengthMismatch ls.length rs.length) m₂ := by
  rw [pairs_of_left hleft, Action.bind_apply, hright]
  by_cases hlength : ls.length = rs.length
  · simp only [if_pos hlength]
    rfl
  · simp only [if_neg hlength]
    rfl

theorem pairs_of_value {self : Performer} {left right : Expression} {l r : Handle}
    {m₁ m₂ : Machine} (hleft : self (.evaluate left) m = .value [l] m₁)
    (hright : self (.evaluate right) m₁ = .value [r] m₂) :
    pairs self [left, right] m = .value [(l, r)] m₂ :=
  pairs_of_values hleft hright

/-- What waits in the place of the right operand when a function between two operands is called:
a group waits as it is, and a leaf has been resolved. -/
inductive Waits (m m' : Machine) : Expression → Expression → Prop where
  | group (es : List Expression) (hm : m' = m) : Waits m m' (.group es) (.group es)
  | leaf {h k : Handle} {i : Identifier} (hk : resolveLeaf h m = .value k m')
      (hi : m'.store.arena.get? k = some i) (hvalue : i.isFunction = false) :
      Waits m m' (.leaf h) (.leaf k)

theorem Waits.scan {right waiting : Expression} (h : Waits m m' right waiting)
    (before : List Expression) :
    Evaluation.scan self (right :: before) [] m = Evaluation.scan self before [waiting] m' := by
  cases h with
  | group es hm => rw [hm, Evaluation.scan]
  | leaf hk hi hvalue => exact scan_value hk hi hvalue before []

/-- A group of a function between two operands comes to what the function makes of them. -/
theorem perform_between (host : Host) (steps : Nat) {left right waiting : Expression}
    (hright : Waits (m.noted [left, .leaf o, right]) m' right waiting)
    (ho : m'.store.Between o op) :
    ∃ k, perform host (steps + 3) (.evaluate (.group [left, .leaf o, right])) m =
      callBuiltin (perform host steps) [.leaf k, left, waiting] true op m' := by
  obtain ⟨k, f, hf, hcallable, hscan⟩ := scan_infix (perform host (steps + 1)) ho left waiting
  refine ⟨k, ?_⟩
  rw [perform_evaluate_group, Action.bind_apply, List.reverse_cons, List.reverse_cons,
    List.reverse_singleton, List.cons_append, List.cons_append, List.nil_append]
  rw [hright.scan, List.singleton_append, hscan, ← Action.bind_apply, collect_results,
    perform_call hf hcallable]

/-! ## Functions in front of all operands -/

/-- The first member of a group finds no left neighbour, so it takes all that waits, even if it may
stand between operands. -/
theorem scan_first (self : Performer) (ho : m.store.StandsForBuiltin o k op)
    (waiting : List Expression) :
    scan self [.leaf o] waiting m =
      (self (.call (.leaf k :: waiting) false) >>= fun results =>
        scan self [] (results.map .leaf)) m := by
  obtain ⟨hk, f, hf, hfunction, -⟩ := ho
  have hcallee : ∀ g : Handle → Action (List Expression), (resolveLeaf o >>= g) m = g k m := by
    intro g
    rw [Action.bind_apply, resolveLeaf_of_standsFor hk]
  have hread : ∀ g : Identifier → Action (List Expression), (identifier k >>= g) m = g f m := by
    intro g
    rw [Action.bind_apply, identifier_of_get? hf]
  rw [scan, hcallee, hread, hfunction, Bool.not_true, if_neg Bool.false_ne_true]
  cases f.isInfix with
  | false => rfl
  | true => rcases waiting with _ | ⟨e, _ | ⟨e', es⟩⟩ <;> rfl

/-- A group comes to what the function at its front makes of the others, once these wait. -/
theorem perform_in_front (host : Host) (steps : Nat) {operands waiting : List Expression}
    (ho : m'.store.StandsForBuiltin o k op)
    (hwaiting : scan (perform host steps) (operands.reverse ++ [.leaf o]) []
        (m.noted (.leaf o :: operands)) =
      scan (perform host steps) [.leaf o] waiting m') :
    perform host (steps + 2) (.evaluate (.group (.leaf o :: operands))) m =
      perform host steps (.call (.leaf k :: waiting) false) m' := by
  rw [perform_evaluate_group, Action.bind_apply, List.reverse_cons, hwaiting, scan_first _ ho,
    ← Action.bind_apply, collect_results]

end Evaluation

end WordScript
