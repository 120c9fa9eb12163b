import WordScript.Proofs.Infix
import WordScript.Proofs.Operators

/-!
# Chains of infix functions

There is no precedence, and a chain of infix functions associates to the right: each function finds
exactly one value waiting, which is what the rest of the chain comes to, and takes its left
neighbour with it. So a chain without parentheses comes to the same as one in which they all are
written.
-/

namespace WordScript

/-- How a function makes a new identifier of the two on its sides. -/
abbrev Combination : Type := Identifier → Identifier → Except RuntimeError Identifier

/-- What the operations of arithmetic, comparison and logic make of their two sides. -/
def Builtin.combination? : Builtin → Option Combination
  | .arithmetic op => some (Identifier.arithmetic op)
  | .compare op => some (Identifier.compared op)
  | .connect op => some fun l r => .ok (Identifier.connected op l r)
  | _ => none

namespace Identifier

/-- The identifier is a variable or a constant. -/
def IsOperand (i : Identifier) : Prop := i.role = .var ∨ i.role = .constant

/-- What a chain comes to, from right to left: its first operand, and for each link the combination
and the next operand. -/
def chained (first : Identifier) : List (Combination × Identifier) → Except RuntimeError Identifier
  | [] => .ok first
  | (combine, next) :: rest => do combine first (← chained next rest)

end Identifier

namespace Expression

/-- The members of a group in which infix functions and their operands take turns. -/
def chain (first : Handle) : List (Handle × Handle) → List Expression
  | [] => [.leaf first]
  | (op, next) :: links => .leaf first :: .leaf op :: chain next links

/-- The same chain with all its parentheses. -/
def nested (first : Handle) : List (Handle × Handle) → Expression
  | [] => .leaf first
  | (op, next) :: links => .group [.leaf first, .leaf op, nested next links]

end Expression

namespace Store

/-- The leaf stands for a variable or a constant. -/
def Operand (s : Store) (h : Handle) (i : Identifier) : Prop :=
  ∃ k, s.StandsFor h k ∧ s.arena.get? k = some i ∧ i.IsOperand

/-- The leaf stands for an infix function of arithmetic, comparison or logic. -/
def Operator (s : Store) (h : Handle) (combine : Combination) : Prop :=
  ∃ k i op, s.StandsFor h k ∧ s.arena.get? k = some i ∧ i.isFunction = true ∧ i.isInfix = true ∧
    i.callable? = some (.builtin op) ∧ op.combination? = some combine

/-- The links of a chain stand for these combinations and operands. -/
def Links (s : Store) : List (Handle × Handle) → List (Combination × Identifier) → Prop :=
  List.Forall₂ fun link term => s.Operator link.1 term.1 ∧ s.Operand link.2 term.2

variable {s s' : Store} {h k : Handle} {i : Identifier}

theorem Operand.widen (hs : s.Ready) (hw : s.Widens s') (h : s.Operand k i) : s'.Operand k i := by
  obtain ⟨r, hr, hi, hoperand⟩ := h
  exact ⟨r, hr.widen hs hw, hw.kept hi, hoperand⟩

theorem Operator.widen (hs : s.Ready) (hw : s.Widens s') {combine : Combination}
    (h : s.Operator k combine) : s'.Operator k combine := by
  obtain ⟨r, i, op, hr, hi, hrest⟩ := h
  exact ⟨r, i, op, hr.widen hs hw, hw.kept hi, hrest⟩

/-- A leaf that stands for an operator stands for an infix function. -/
theorem Operator.between {combine : Combination} (h : s.Operator k combine) :
    ∃ op, s.Between k op ∧ op.combination? = some combine := by
  obtain ⟨r, i, op, hr, hi, hfunction, hinfix, hcallable, hcombine⟩ := h
  exact ⟨op, ⟨r, i, hr, hi, hfunction, hinfix, hcallable⟩, hcombine⟩

/-- A variable or a constant is an operand under its own handle. -/
theorem operand_self (hi : s.arena.get? k = some i) (hoperand : i.IsOperand) : s.Operand k i := by
  refine ⟨k, standsFor_self hi ?_, hi, hoperand⟩
  rcases hoperand with hrole | hrole <;> simp [Identifier.isUndefined, hrole]

end Store

/-- How an evaluation ends that is to come to one identifier, or to fail: nothing has happened but
that identifiers and bindings were added. -/
def Outcome.ComesTo (s : Store) : Except RuntimeError Identifier → Outcome (List Handle) → Prop
  | .ok i, .value handles m => s.Widens m.store ∧
      ∃ k, handles = [k] ∧ m.store.arena.get? k = some i ∧ i.IsOperand
  | .error e, .failure e' m => e' = e ∧ s.Widens m.store
  | _, _ => False

namespace Evaluation

open WordScript.Action WordScript.Machine

variable {host : Host} {steps : Nat} {self : Performer} {m : Machine}
variable {x o : Handle} {i : Identifier} {combine : Combination}

theorem isResult_combination {op : Builtin} (h : op.combination? = some combine)
    (l r : Identifier) : Identifier.IsResult (combine l r) := by
  cases op with
  | arithmetic op =>
    obtain rfl := Option.some.inj h
    exact Identifier.isResult_arithmetic op l r
  | compare op =>
    obtain rfl := Option.some.inj h
    exact Identifier.isResult_compared op l r
  | connect op =>
    obtain rfl := Option.some.inj h
    exact Identifier.isResult_connected op l r
  | _ => cases h

/-- Such a function combines its two sides member by member. -/
theorem callBuiltin_of_combination {op : Builtin} (h : op.combination? = some combine)
    (args : List Expression) (isInfix : Bool) :
    callBuiltin self args isInfix op = pairwise self args.tail combine := by
  cases op with
  | arithmetic op =>
    obtain rfl := Option.some.inj h
    rfl
  | compare op =>
    obtain rfl := Option.some.inj h
    rfl
  | connect op =>
    obtain rfl := Option.some.inj h
    rfl
  | _ => cases h

/-- A leaf that stands for an operand comes to it. -/
theorem perform_operand (host : Host) (steps : Nat) (hx : m.store.Operand x i) :
    ∃ k, perform host (steps + 1) (.evaluate (.leaf x)) m = .value [k] m ∧
      m.store.arena.get? k = some i ∧ i.IsOperand := by
  obtain ⟨k, hk, hi, hoperand⟩ := hx
  exact ⟨k, perform_evaluate_leaf host steps (resolveLeaf_of_standsFor hk), hi, hoperand⟩

/-- What comes to one identifier on either side is combined to a new one. -/
theorem pairwise_of_value {left e : Expression} {l r : Handle} {j : Identifier} {m₁ : Machine}
    (hleft : self (.evaluate left) m = .value [l] m) (hl : m₁.store.arena.get? l = some i)
    (hright : self (.evaluate e) m = .value [r] m₁) (hr : m₁.store.arena.get? r = some j) :
    pairwise self [left, e] combine m =
      match combine i j with
      | .ok result => .value [(m₁.store.pushTemporary result).1]
          { m₁ with store := (m₁.store.pushTemporary result).2 }
      | .error error => .failure error m₁ := by
  unfold pairwise
  simp only [Action.bind_apply, pairs_of_value hleft hright, concatMap, identifier_of_get? hl,
    identifier_of_get? hr]
  cases combine i j with
  | ok result => rfl
  | error error => rfl

/-- When the right side fails, so does the operation. -/
theorem pairwise_of_failure {left e : Expression} {l : Handle} {error : RuntimeError}
    {m₁ : Machine} (hleft : self (.evaluate left) m = .value [l] m)
    (hright : self (.evaluate e) m = .failure error m₁) :
    pairwise self [left, e] combine m = .failure error m₁ := by
  unfold pairwise pairs
  simp only [List.take_succ_cons, List.take_zero, List.drop_succ_cons, List.drop_zero,
    evaluateEach_singleton, Action.bind_apply, hleft, hright]

/-- A function combines its left neighbour with what waits on its right. -/
theorem comesTo_call {k : Handle} {f : Identifier} {op : Builtin}
    (hf : m.store.arena.get? k = some f) (hcallable : f.callable? = some (.builtin op))
    (hcombine : op.combination? = some combine) (hx : m.store.Operand x i) {e : Expression}
    {right : Except RuntimeError Identifier}
    (hright : (perform host (steps + 1) (.evaluate e) m).ComesTo m.store right) :
    (perform host (steps + 2) (.call [.leaf k, .leaf x, e] true) m).ComesTo m.store
      (right >>= combine i) := by
  obtain ⟨l, hleft, hl, -⟩ := perform_operand host steps hx
  have hcall : perform host (steps + 2) (.call [.leaf k, .leaf x, e] true) m =
      pairwise (perform host (steps + 1)) [.leaf x, e] combine m := by
    rw [perform_call hf hcallable, callBuiltin_of_combination hcombine, List.tail_cons]
  rw [hcall]
  cases hend : perform host (steps + 1) (.evaluate e) m with
  | value handles m₁ =>
    rw [hend] at hright
    cases right with
    | error error => exact hright.elim
    | ok j =>
      obtain ⟨hw, r, rfl, hr, -⟩ := hright
      rw [pairwise_of_value hleft (hw.kept hl) hend hr]
      change Outcome.ComesTo m.store (combine i j) _
      have hresult := isResult_combination hcombine i j
      cases hj : combine i j with
      | error error => exact ⟨rfl, hw⟩
      | ok result =>
        rw [hj] at hresult
        have hw₁ := Store.widens_pushTemporary hw.ready result
        refine ⟨hw.trans hw₁, _, rfl, ?_, .inr hresult.role⟩
        exact Arena.get?_push_self hw.ready.sound.tidy hresult.isValid
  | failure error m₁ =>
    rw [hend] at hright
    cases right with
    | error error' =>
      obtain ⟨rfl, hw⟩ := hright
      rw [pairwise_of_failure hleft hend]
      exact ⟨rfl, hw⟩
    | ok j => exact hright.elim
  | cutOff =>
    rw [hend] at hright
    cases right <;> exact hright.elim

/-! ## Groups that come to one value -/

/-- Going through these members, from right to left, only one value is left waiting, or an error
comes up. -/
def Reduces (self : Performer) (members waiting : List Expression) (m : Machine) :
    Except RuntimeError Identifier → Prop
  | .ok i => ∃ k m', m.store.Widens m'.store ∧ m'.store.arena.get? k = some i ∧ i.IsOperand ∧
      ∀ before, scan self (members ++ before) waiting m = scan self before [.leaf k] m'
  | .error e => ∃ m', m.store.Widens m'.store ∧
      ∀ before, scan self (members ++ before) waiting m = .failure e m'

/-- The rest of the members go on from the value. -/
theorem Reduces.append {members members' : List Expression} {waiting : List Expression}
    {result : Except RuntimeError Identifier} {f : Identifier → Except RuntimeError Identifier}
    (h : Reduces self members waiting m result)
    (hf : ∀ j k m', m.store.Widens m'.store → m'.store.arena.get? k = some j → j.IsOperand →
      Reduces self members' [.leaf k] m' (f j)) :
    Reduces self (members ++ members') waiting m (result >>= f) := by
  cases result with
  | error e =>
    obtain ⟨m₁, hw, hscan⟩ := h
    refine ⟨m₁, hw, fun before => ?_⟩
    rw [List.append_assoc, hscan]
  | ok j =>
    obtain ⟨k, m₁, hw, hj, hoperand, hscan⟩ := h
    have hrest := hf j k m₁ hw hj hoperand
    change Reduces _ _ _ _ (f j)
    cases hfj : f j with
    | error e =>
      rw [hfj] at hrest
      obtain ⟨m₂, hw₂, hscan₂⟩ := hrest
      refine ⟨m₂, hw.trans hw₂, fun before => ?_⟩
      rw [List.append_assoc, hscan, hscan₂]
    | ok i =>
      rw [hfj] at hrest
      obtain ⟨k₂, m₂, hw₂, hi, hoperand₂, hscan₂⟩ := hrest
      refine ⟨k₂, m₂, hw.trans hw₂, hi, hoperand₂, fun before => ?_⟩
      rw [List.append_assoc, hscan, hscan₂]

theorem reduces_operand (hs : m.store.Ready) (hx : m.store.Operand x i) :
    Reduces self [.leaf x] [] m (.ok i) := by
  obtain ⟨k, hk, hi, hoperand⟩ := hx
  refine ⟨k, m, .refl hs, hi, hoperand, fun before => ?_⟩
  have hvalue : i.isFunction = false := by
    rcases hoperand with hrole | hrole <;> simp [Identifier.isFunction, hrole]
  exact scan_value (resolveLeaf_of_standsFor hk) hi hvalue before []

/-- A function and its left neighbour take what waits on their right. -/
theorem reduces_link (ho : m.store.Operator o combine) (hx : m.store.Operand x i)
    {e : Expression} {right : Except RuntimeError Identifier}
    (hright : (perform host (steps + 1) (.evaluate e) m).ComesTo m.store right) :
    Reduces (perform host (steps + 2)) [.leaf o, .leaf x] [e] m (right >>= combine i) := by
  obtain ⟨op, hbetween, hcombine⟩ := ho.between
  obtain ⟨k, f, hf, hcallable, hinfix⟩ := scan_infix (perform host (steps + 2)) hbetween (.leaf x) e
  have hcall := comesTo_call hf hcallable hcombine hx hright
  have hscan : ∀ before, scan (perform host (steps + 2)) ([.leaf o, .leaf x] ++ before) [e] m =
      (perform host (steps + 2) (.call [.leaf k, .leaf x, e] true) >>= fun results =>
        scan (perform host (steps + 2)) before (results.map .leaf)) m := hinfix
  cases hend : perform host (steps + 2) (.call [.leaf k, .leaf x, e] true) m with
  | value handles m₁ =>
    rw [hend] at hcall
    cases hresult : right >>= combine i with
    | error e' =>
      rw [hresult] at hcall
      exact hcall.elim
    | ok j =>
      rw [hresult] at hcall
      obtain ⟨hw, r, rfl, hr, hoperand⟩ := hcall
      refine ⟨r, m₁, hw, hr, hoperand, fun before => ?_⟩
      rw [hscan, Action.bind_apply, hend]
      rfl
  | failure e' m₁ =>
    rw [hend] at hcall
    cases hresult : right >>= combine i with
    | error e'' =>
      rw [hresult] at hcall
      obtain ⟨rfl, hw⟩ := hcall
      refine ⟨m₁, hw, fun before => ?_⟩
      rw [hscan, Action.bind_apply, hend]
    | ok j =>
      rw [hresult] at hcall
      exact hcall.elim
  | cutOff =>
    rw [hend] at hcall
    cases hresult : right >>= combine i <;> rw [hresult] at hcall <;> exact hcall.elim

/-- A group comes to the one value that is left waiting. -/
theorem comesTo_group {es : List Expression} {result : Except RuntimeError Identifier}
    (h : ∀ journal, Reduces (perform host steps) es.reverse [] { m with journal } result) :
    (perform host (steps + 2) (.evaluate (.group es)) m).ComesTo m.store result := by
  have hreduces : Reduces (perform host steps) es.reverse [] (m.noted es) result :=
    h (m.journal.map (es :: ·))
  rw [perform_evaluate_group, Action.bind_apply]
  cases result with
  | ok i =>
    obtain ⟨k, m₁, hw, hi, hoperand, hscan⟩ := hreduces
    rw [← List.append_nil es.reverse, hscan, scan]
    exact ⟨hw, k, rfl, hi, hoperand⟩
  | error e =>
    obtain ⟨m₁, hw, hscan⟩ := hreduces
    rw [← List.append_nil es.reverse, hscan]
    exact ⟨rfl, hw⟩

/-! ## Chains -/

variable {links : List (Handle × Handle)} {terms : List (Combination × Identifier)}

/-- Without parentheses, by induction on the links: what the rest of the chain has come to waits on
the right of the first function. -/
theorem reduces_chain (hs : m.store.Ready) (hx : m.store.Operand x i)
    (hlinks : m.store.Links links terms) :
    Reduces (perform host (steps + 2)) (Expression.chain x links).reverse [] m
      (i.chained terms) := by
  induction links generalizing x i terms with
  | nil =>
    cases hlinks
    exact reduces_operand hs hx
  | cons link links ih =>
    cases hlinks with
    | @cons _ term _ terms hlink hrest =>
      obtain ⟨ho, hnext⟩ := hlink
      have hmembers : (Expression.chain x (link :: links)).reverse =
          (Expression.chain link.2 links).reverse ++ [.leaf link.1, .leaf x] := by
        simp [Expression.chain]
      rw [hmembers]
      apply (ih hnext hrest).append
      intro j k m₁ hw hj hoperand
      have hright : (perform host (steps + 1) (.evaluate (.leaf k)) m₁).ComesTo m₁.store
          (.ok j) := by
        obtain ⟨k', hend, hj', hoperand'⟩ :=
          perform_operand host steps (Store.operand_self hj hoperand)
        rw [hend]
        exact ⟨.refl hw.ready, k', rfl, hj', hoperand'⟩
      exact reduces_link (ho.widen hs hw) (hx.widen hs hw) hright

/-- A group among the members waits as it is. -/
theorem reduces_group {es : List Expression} {members : List Expression}
    {result : Except RuntimeError Identifier} (h : Reduces self members [.group es] m result) :
    Reduces self (.group es :: members) [] m result := by
  have hscan : ∀ before, scan self (.group es :: members ++ before) [] m =
      scan self (members ++ before) [.group es] m := by
    intro before
    rw [List.cons_append, scan]
  cases result with
  | ok i =>
    obtain ⟨k, m₁, hw, hi, hoperand, hrest⟩ := h
    exact ⟨k, m₁, hw, hi, hoperand, fun before => (hscan before).trans (hrest before)⟩
  | error e =>
    obtain ⟨m₁, hw, hrest⟩ := h
    exact ⟨m₁, hw, fun before => (hscan before).trans (hrest before)⟩

/-- With all parentheses, by induction on the links: the rest of the chain is a group that the first
function evaluates. -/
theorem comesTo_nested (hs : m.store.Ready) (hx : m.store.Operand x i)
    (hlinks : m.store.Links links terms) (hsteps : 3 * links.length + 1 ≤ steps) :
    (perform host steps (.evaluate (Expression.nested x links)) m).ComesTo m.store
      (i.chained terms) := by
  induction links generalizing x i terms steps m with
  | nil =>
    cases hlinks
    obtain ⟨steps, rfl⟩ : ∃ n, steps = n + 1 := ⟨steps - 1, by omega⟩
    obtain ⟨k, hend, hi, hoperand⟩ := perform_operand host steps hx
    rw [Expression.nested, hend]
    exact ⟨.refl hs, k, rfl, hi, hoperand⟩
  | cons link links ih =>
    cases hlinks with
    | @cons _ term _ terms hlink hrest =>
      obtain ⟨combine, j⟩ := term
      obtain ⟨ho, hnext⟩ := hlink
      rw [List.length_cons] at hsteps
      obtain ⟨steps, rfl⟩ : ∃ n, steps = n + 4 := ⟨steps - 4, by omega⟩
      apply comesTo_group
      intro journal
      cases links with
      | nil =>
        -- the last operand is a leaf, and there is nothing to put in parentheses
        exact reduces_chain (m := { m with journal }) hs hx (.cons ⟨ho, hnext⟩ hrest)
      | cons link' links =>
        have hright := ih (m := { m with journal }) hs hnext hrest
          (by omega : 3 * (link' :: links).length + 1 ≤ steps + 1)
        have hreduces := reduces_link (m := { m with journal }) ho hx hright
        exact reduces_group hreduces

end Evaluation

/-- In any state that is reached, a chain of infix functions of arithmetic, comparison and logic, of
any length and mix, between leaves that stand for variables or constants comes to one identifier:
what its operands are combined to from right to left. It fails exactly when that does, with the
error that comes up first from the right. The same chain with all its parentheses comes to the same.
Nothing that was there before is changed by either. -/
theorem chain_associates_right {host : Host} {m : Machine} (hm : Reached host (fun _ => True) m)
    {x : Handle} {i : Identifier} (hx : m.store.Operand x i) {links : List (Handle × Handle)}
    {terms : List (Combination × Identifier)} (hlinks : m.store.Links links terms) {steps : Nat}
    (hsteps : 3 * links.length + 4 ≤ steps) :
    (perform host steps (.evaluate (.group (Expression.chain x links))) m).ComesTo m.store
        (i.chained terms) ∧
      (perform host steps (.evaluate (Expression.nested x links)) m).ComesTo m.store
        (i.chained terms) := by
  have hs := hm.ready
  constructor
  · obtain ⟨steps, rfl⟩ : ∃ n, steps = n + 4 := ⟨steps - 4, by omega⟩
    apply Evaluation.comesTo_group
    intro journal
    exact Evaluation.reduces_chain (m := { m with journal }) hs hx hlinks
  · exact Evaluation.comesTo_nested hs hx hlinks (by omega)

/-- `true - true * false < true` is `true - (true * (false < true))`, which is zero. -/
theorem chain_associates_right_mixed :
    let chain := [(⟨16, 0⟩, ⟨7, 0⟩), (⟨17, 0⟩, ⟨8, 0⟩), (⟨25, 0⟩, ⟨7, 0⟩)]
    let m := Machine.initial {}
    (perform (Extension.Registry.host []) 13 (.evaluate (.group (Expression.chain ⟨7, 0⟩ chain)))
        m).ComesTo m.store (.ok (.int 0)) ∧
      (perform (Extension.Registry.host []) 13 (.evaluate (Expression.nested ⟨7, 0⟩ chain))
        m).ComesTo m.store (.ok (.int 0)) := by
  intro chain m
  have hget : ∀ h ∈ [7, 8, 16, 17, 25],
      m.store.arena.get? ⟨h, 0⟩ = vocabulary[h - 1]? := by decide +kernel
  have hoperator : ∀ h ∈ [7, 8, 16, 17, 25], ∀ word op combine,
      vocabulary[h - 1]? = some (between word op) → op.combination? = some combine →
      m.store.Operator ⟨h, 0⟩ combine := by
    intro h hmem word op combine hi hcombine
    have hfound := (hget h hmem).trans hi
    exact ⟨_, _, op, Store.standsFor_self hfound rfl, hfound, rfl, rfl, rfl, hcombine⟩
  have htrue : m.store.Operand ⟨7, 0⟩ { Identifier.bool true with surface := "true" } :=
    Store.operand_self (hget 7 (by decide)) (.inr rfl)
  have hfalse : m.store.Operand ⟨8, 0⟩ { Identifier.bool false with surface := "false" } :=
    Store.operand_self (hget 8 (by decide)) (.inr rfl)
  have hminus : m.store.Operator ⟨16, 0⟩ (Identifier.arithmetic .sub) :=
    hoperator 16 (by decide) "-" (.arithmetic .sub) _ rfl rfl
  have htimes : m.store.Operator ⟨17, 0⟩ (Identifier.arithmetic .mul) :=
    hoperator 17 (by decide) "*" (.arithmetic .mul) _ rfl rfl
  have hless : m.store.Operator ⟨25, 0⟩ (Identifier.compared .lt) :=
    hoperator 25 (by decide) "<" (.compare .lt) _ rfl rfl
  have hlinks : m.store.Links chain [(Identifier.arithmetic .sub, _),
      (Identifier.arithmetic .mul, _), (Identifier.compared .lt, _)] :=
    .cons ⟨hminus, htrue⟩ (.cons ⟨htimes, hfalse⟩ (.cons ⟨hless, htrue⟩ .nil))
  have hreached : Reached (Extension.Registry.host []) (fun _ => True) m := .initial {}
  exact chain_associates_right hreached htrue hlinks (Nat.le_refl 13)

end WordScript
