import WordScript.Proofs.Assignments
import WordScript.Proofs.Elementwise
import WordScript.Proofs.Revising

/-!
# Updates and what they stand for

An update such as `x += (e)` does what `x = x + (e)` does. Both evaluate the right side once, before
they read the variable, and both cast the result of the operation to the type of the variable. The
longer form keeps the result as a temporary constant in between.
-/

namespace WordScript

/-- The machines cannot be told apart by their variables, what names are bound to, or the output. -/
structure Machine.SameVariables (m m' : Machine) : Prop where
  payloads : ∀ {h : Handle} {i : Identifier}, i.isVariable = true →
    (m.store.arena.get? h = some i ↔ m'.store.arena.get? h = some i)
  names : ∀ name, m.store.scopes.bound? name = m'.store.scopes.bound? name
  sink : m.sink = m'.sink
  blocksLeft : m.blocksLeft = m'.blocksLeft

namespace Machine

variable {m m' : Machine} {h : Handle} {i : Identifier}

theorem SameButJournal.sameVariables (h : m.SameButJournal m') : m.SameVariables m' := by
  obtain ⟨journal, rfl⟩ := h
  exact ⟨fun _ => Iff.rfl, fun _ => rfl, rfl, rfl⟩

/-- A temporary constant makes no difference. -/
theorem SameVariables.pushTemporary (hm : m.SameVariables m') (hs : m'.store.Ready)
    {c : Identifier} (hc : c.role = .constant) :
    m.SameVariables { m' with store := (m'.store.pushTemporary c).2 } where
  payloads := by
    intro h i hvariable
    rw [hm.payloads hvariable]
    refine ⟨fun hi => (Store.widens_pushTemporary hs c).kept hi, fun hi => ?_⟩
    by_cases hnew : h = (m'.store.arena.push c).1
    · subst hnew
      obtain rfl := Arena.eq_of_get?_push hs.sound.tidy hi
      simp [Identifier.isVariable, hc] at hvariable
    · exact (Arena.get?_push_of_ne hs.sound.tidy c hnew).symm.trans hi
  names := fun name => (hm.names name).trans (Store.bound?_pushTemporary hs.placed c name).symm
  sink := hm.sink
  blocksLeft := hm.blocksLeft

/-- The payload of a variable is written in both. -/
theorem SameVariables.put (hm : m.SameVariables m') (hs : m.store.Ready) (hs' : m'.store.Ready)
    (hi : m.store.arena.get? h = some i) (hvariable : i.isVariable = true) (value : Value) :
    SameVariables
      { m with store := { m.store with arena := m.store.arena.put h.index { i with value } } }
      { m' with store := { m'.store with arena := m'.store.arena.put h.index { i with value } } }
    where
  payloads := by
    intro k j hj
    have hi' := (hm.payloads hvariable).mp hi
    have hrole : i.role = .var := of_decide_eq_true hvariable
    by_cases hk : k = h
    · subst hk
      have hput := Arena.get?_put_self (i := { i with value }) (Arena.isLive_of_get? hi)
        (by simp [hrole])
      have hput' := Arena.get?_put_self (i := { i with value }) (Arena.isLive_of_get? hi')
        (by simp [hrole])
      exact (Eq.congr_left (hput.trans hput'.symm))
    · have hput := Arena.get?_put_of_ne_handle (i := { i with value }) hs.sound.tidy
        (Arena.isLive_of_get? hi) hk
      have hput' := Arena.get?_put_of_ne_handle (i := { i with value }) hs'.sound.tidy
        (Arena.isLive_of_get? hi') hk
      exact (Eq.congr_left hput).trans ((hm.payloads hj).trans (Eq.congr_left hput'.symm))
  names := hm.names
  sink := hm.sink
  blocksLeft := hm.blocksLeft

end Machine

namespace Evaluation

open WordScript.Action WordScript.Machine

variable {host : Host} {m m' : Machine} {k t x o : Handle} {i c : Identifier} {op : Arithmetic}
  {es : List Expression}

/-- The one value on the right is paired with the variable. -/
def pairWith (k : Handle) (rs : List Handle) : Action (List (Handle × Handle)) :=
  if [k].length = rs.length then pure ([k].zip rs)
  else fail (.lengthMismatch [k].length rs.length)

/-- An update evaluates the right side, and then updates the variable. -/
theorem perform_update (host : Host) (steps : Nat) (hx : m.store.StandsFor x k)
    (ho : m.store.Between o (.update op)) (es : List Expression) :
    perform host (steps + 4) (.evaluate (.group [.leaf x, .leaf o, .group es])) m =
      (perform host (steps + 1) (.evaluate (.group es)) >>= fun rs =>
        pairWith k rs >>= concatMap (updatePair op)) (m.noted [.leaf x, .leaf o, .group es]) := by
  obtain ⟨f, hend⟩ := perform_between host (steps + 1) (.group es rfl) ho
  have hleft : perform host (steps + 1) (.evaluate (.leaf x))
      (m.noted [.leaf x, .leaf o, .group es]) = .value [k] (m.noted [.leaf x, .leaf o, .group es]) :=
    perform_evaluate_leaf host steps (resolveLeaf_of_standsFor hx)
  rw [hend]
  change (pairs _ [.leaf x, .group es] >>= concatMap (updatePair op)) _ = _
  rw [Action.bind_apply, pairs_of_left hleft, ← Action.bind_apply, bind_assoc]
  rfl

/-- The longer form evaluates the right side, keeps what the operation makes of it and the variable,
and then assigns that. -/
theorem perform_expansion (host : Host) (steps : Nat) {x' o' : Handle}
    (hx : m.store.StandsFor x k) (ho : m.store.Between o (.arithmetic op)) (es : List Expression) :
    perform host (steps + 4)
        (.evaluate (.group [.leaf x', .leaf o', .leaf x, .leaf o, .group es])) m =
      (perform host (steps + 1) (.evaluate (.group es)) >>= fun rs =>
        pairWith k rs >>= concatMap (combinePair (Identifier.arithmetic op)) >>= fun ts =>
          scan (perform host (steps + 2)) [.leaf o', .leaf x'] (ts.map .leaf) >>=
            concatMap (collect (perform host (steps + 2))))
        (m.noted [.leaf x', .leaf o', .leaf x, .leaf o, .group es]) := by
  have ho₁ : (m.noted [.leaf x', .leaf o', .leaf x, .leaf o, .group es]).store.Between o
      (.arithmetic op) := ho
  obtain ⟨f, i, hf, hcallable, hscan⟩ := scan_infix (perform host (steps + 2)) ho₁ (.leaf x)
    (.group es)
  have hleft : perform host (steps + 1) (.evaluate (.leaf x))
      (m.noted [.leaf x', .leaf o', .leaf x, .leaf o, .group es]) =
        .value [k] (m.noted [.leaf x', .leaf o', .leaf x, .leaf o, .group es]) :=
    perform_evaluate_leaf host steps (resolveLeaf_of_standsFor hx)
  have hcall : perform host (steps + 2) (.call [.leaf f, .leaf x, .group es] true)
      (m.noted [.leaf x', .leaf o', .leaf x, .leaf o, .group es]) =
        (perform host (steps + 1) (.evaluate (.group es)) >>= fun rs =>
          pairWith k rs >>= concatMap (combinePair (Identifier.arithmetic op)))
          (m.noted [.leaf x', .leaf o', .leaf x, .leaf o, .group es]) := by
    rw [perform_call hf hcallable]
    change (pairs _ [.leaf x, .group es] >>= concatMap (combinePair _)) _ = _
    rw [Action.bind_apply, pairs_of_left hleft, ← Action.bind_apply, bind_assoc]
    rfl
  have hwaits : Waits (m.noted [.leaf x', .leaf o', .leaf x, .leaf o, .group es])
    (m.noted [.leaf x', .leaf o', .leaf x, .leaf o, .group es]) (.group es) (.group es) :=
    .group es rfl
  have hreverse : ([.leaf x', .leaf o', .leaf x, .leaf o, .group es] : List Expression).reverse =
      [.group es, .leaf o, .leaf x, .leaf o', .leaf x'] := rfl
  rw [perform_evaluate_group, Action.bind_apply, hreverse, hwaits.scan, hscan, ← Action.bind_apply,
    bind_assoc, Action.bind_apply, hcall, ← Action.bind_apply, bind_assoc]

/-- An update asks for nothing more once the right side has been evaluated. -/
theorem settles_updateWith (k : Handle) (rs : List Handle) (op : Arithmetic) :
    Settles (pairWith k rs >>= concatMap (updatePair op)) := by
  have hpair : ∀ p, Settles (updatePair op p) := fun p =>
    (settles_identifier _).bind fun target => (settles_requireVariable target).bind fun _ =>
      (settles_identifier _).bind fun right => (settles_ofExcept _).bind fun result =>
        (settles_ofExcept _).bind fun value => (settles_setValue _ _).bind fun _ => settles_pure _
  refine Settles.bind ?_ fun ps => settles_concatMap hpair ps
  unfold pairWith
  split
  · exact settles_pure _
  · exact settles_fail _

/-- The constant that was kept is assigned to the variable. -/
theorem assign_result (host : Host) (steps : Nat) (hx : m.store.StandsFor x k)
    (ho : m.store.Between o .assign) (hi : m.store.arena.get? k = some i)
    (hc : m.store.arena.get? t = some c) (hconstant : c.role = .constant) :
    (scan (perform host (steps + 2)) [.leaf o, .leaf x] [.leaf t] >>=
      concatMap (collect (perform host (steps + 2)))) m = conclude k i (i.assigned c) m := by
  have ht : m.store.StandsFor t t :=
    Store.standsFor_self hc (by simp [Identifier.isUndefined, hconstant])
  obtain ⟨f, j, hf, hcallable, hscan⟩ := scan_infix (perform host (steps + 2)) ho (.leaf x) (.leaf t)
  have hcall : perform host (steps + 2) (.call [.leaf f, .leaf x, .leaf t] true) m =
      conclude k i (i.assigned c) m := by
    rw [perform_call hf hcallable]
    change (pairs _ [.leaf x, .leaf t] >>= concatMap assignPair) m = _
    rw [Action.bind_apply,
      pairs_of_value (perform_evaluate_leaf host steps (resolveLeaf_of_standsFor hx))
        (perform_evaluate_leaf host steps (resolveLeaf_of_standsFor ht))]
    change concatMap assignPair [(k, t)] m = _
    rw [concatMap_singleton, assignsBy_assignPair hi hc]
  rw [Action.bind_apply, hscan, ← Action.bind_apply, collect_results, hcall]

/-- What is made of the same result ends the same way. -/
theorem agrees_conclude {m' : Machine} (hm : m.SameVariables m') (hs : m.store.Ready)
    (hs' : m'.store.Ready) (hi : m.store.arena.get? k = some i) (hvariable : i.isVariable = true)
    (result : Except RuntimeError (Option Value)) :
    (conclude k i result m).Agrees SameVariables (conclude k i result m') := by
  cases result with
  | error e => exact ⟨rfl, hm⟩
  | ok written =>
    cases written with
    | none => exact ⟨rfl, hm⟩
    | some value => exact ⟨rfl, hm.put hs hs' hi hvariable value⟩

/-- Once the right side has been evaluated, both forms end the same way. -/
theorem agrees_update (host : Host) (steps : Nat) {x' o' : Handle} {rs : List Handle}
    (hs : m.store.Ready) (hx' : m.store.StandsFor x' k) (ho' : m.store.Between o' .assign)
    (hi : m.store.arena.get? k = some i) (hvariable : i.isVariable = true)
    (hcontainer : isContainer i.type = false) (journal : Option (List (List Expression))) :
    ((pairWith k rs >>= concatMap (updatePair op)) m).Agrees SameVariables
      ((pairWith k rs >>= concatMap (combinePair (Identifier.arithmetic op)) >>= fun ts =>
        scan (perform host (steps + 2)) [.leaf o', .leaf x'] (ts.map .leaf) >>=
          concatMap (collect (perform host (steps + 2)))) { m with journal }) := by
  have hsame : m.SameVariables { m with journal } := SameButJournal.sameVariables ⟨journal, rfl⟩
  rcases rs with _ | ⟨r, _ | ⟨r', rest⟩⟩
  · exact ⟨rfl, hsame⟩
  · change (concatMap (updatePair op) [(k, r)] m).Agrees SameVariables
      ((concatMap (combinePair (Identifier.arithmetic op)) [(k, r)] >>= _) { m with journal })
    rw [concatMap_singleton, concatMap_singleton, updatePair_of_isVariable op hi hvariable,
      Action.bind_apply (combinePair _ _), combinePair_apply, Store.combined]
    cases hj : m.store.arena.get? r with
    | none =>
      simp only [Action.bind_apply, identifier, hi, hj]
      exact ⟨rfl, hsame⟩
    | some j =>
      rw [bind_identifier_apply hj]
      simp only [hi]
      cases hresult : Identifier.arithmetic op i j with
      | error e =>
        simp only [Identifier.updated, hvariable, if_true, hresult]
        exact ⟨rfl, hsame⟩
      | ok c =>
        have hliteral := Identifier.isResult_arithmetic op i j
        rw [hresult] at hliteral
        have hw := Store.widens_pushTemporary hs c
        have hassigned : Identifier.updated op i j = Identifier.assigned i c := by
          simp only [Identifier.updated, Identifier.assigned, hvariable, hcontainer, if_true, hresult]
          rfl
        have hc : (m.store.pushTemporary c).2.arena.get? (m.store.pushTemporary c).1 = some c :=
          Arena.get?_push_self hs.sound.tidy hliteral.isValid
        have hend := assign_result host steps
          (m := { m with store := (m.store.pushTemporary c).2, journal }) (hx'.widen hs hw)
          (ho'.widen hs hw) (hw.kept hi) hc hliteral.role
        have hagrees := agrees_conclude (hsame.pushTemporary hs hliteral.role) hs hw.ready hi
          hvariable (i.assigned c)
        rw [← hend] at hagrees
        rwa [hassigned]
  · exact ⟨rfl, hsame⟩

end Evaluation

/-- In any state that is reached, an update `x op= (e)` of a variable that is no array or map ends the
way that `x = x op (e)` does: with the same handle, or with the same error; either way the variables
have the same payloads, names are bound to the same, and the output is the same. The expression may
call any built-in function but those that declare names or load modules, so it may print, fail, or
assign to the variable itself. With enough steps for the groups in it, neither form is cut off. -/
theorem update_agrees_with_expansion {host : Host} {m : Machine}
    (hm : Reached host (fun _ => True) m) {k : Handle} {i : Identifier}
    (hi : m.store.arena.get? k = some i) (hvariable : i.isVariable = true)
    (hcontainer : Evaluation.isContainer i.type = false) {x x₁ x₂ : Handle}
    (hx : m.store.StandsFor x k) (hx₁ : m.store.StandsFor x₁ k) (hx₂ : m.store.StandsFor x₂ k)
    {op : Arithmetic} {o o₁ o₂ : Handle} (ho : m.store.Between o (.update op))
    (ho₁ : m.store.Between o₁ .assign) (ho₂ : m.store.Between o₂ (.arithmetic op))
    {es : List Expression}
    (hes : ∀ h ∈ Expression.leavesOf es, m.store.ResolvesTo Identifier.Stays h) {steps : Nat}
    (hsteps : 4 ≤ steps) :
    (perform host steps (.evaluate (.group [.leaf x, .leaf o, .group es])) m).Agrees
        Machine.SameVariables
        (perform host steps
          (.evaluate (.group [.leaf x₁, .leaf o₁, .leaf x₂, .leaf o₂, .group es])) m) ∧
      (3 * Expression.heightOf es + 7 ≤ steps →
        perform host steps (.evaluate (.group [.leaf x, .leaf o, .group es])) m ≠ .cutOff) := by
  obtain ⟨n, rfl⟩ : ∃ n, steps = n + 4 := ⟨steps - 4, by omega⟩
  rw [Evaluation.perform_update host n hx ho, Evaluation.perform_expansion host n hx₂ ho₂]
  constructor
  · rw [Action.bind_apply, Action.bind_apply]
    have hrevising := (Evaluation.revising_perform host (n + 1) (.evaluate (.group es))
      (m := m.noted [.leaf x, .leaf o, .group es]) hes hm.ready).2
    have hnoted : (m.noted [.leaf x, .leaf o, .group es]).SameButJournal
      (m.noted [.leaf x₁, .leaf o₁, .leaf x₂, .leaf o₂, .group es]) := ⟨_, rfl⟩
    have hright := (Evaluation.unrecorded_perform host (n + 1) (.evaluate (.group es))).agrees hnoted
    cases hend : perform host (n + 1) (.evaluate (.group es))
        (m.noted [.leaf x, .leaf o, .group es])
      <;> cases hend' : perform host (n + 1) (.evaluate (.group es))
        (m.noted [.leaf x₁, .leaf o₁, .leaf x₂, .leaf o₂, .group es])
      <;> rw [hend, hend'] at hright
    case value.value rs m₁ rs' m₁' =>
      obtain ⟨rfl, journal, rfl⟩ := hright
      have hr := (hrevising rs m₁ hend).1.reassigns hm.ready
      obtain ⟨value, hi₁, -⟩ := hr.kept hi
      exact Evaluation.agrees_update host n hr.ready (hr.standsFor hm.ready hx₁)
        (ho₁.reassigns hm.ready hr) hi₁ hvariable hcontainer journal
    case failure.failure e m₁ e' m₁' => exact ⟨hright.1, hright.2.sameVariables⟩
    case cutOff.cutOff => trivial
    all_goals exact hright.elim
  · intro hsteps
    have hright : perform host (n + 1) (.evaluate (.group es))
        (m.noted [.leaf x, .leaf o, .group es]) ≠ .cutOff := by
      refine Evaluation.perform_ne_cutOff_of_admits hm.ready hes ?_
      change 3 * (Expression.heightOf es + 1) + 1 ≤ n + 1
      omega
    rw [Action.bind_apply]
    cases hend : perform host (n + 1) (.evaluate (.group es))
        (m.noted [.leaf x, .leaf o, .group es]) with
    | value rs m₁ => exact Evaluation.settles_updateWith k rs op m₁
    | failure e m₁ => nofun
    | cutOff => exact absurd hend hright

/-- In `a -= (a = 3)` and `a = a - (a = 3)` the variable is read after it has been assigned to: it is
zero in the end, although it is two before. -/
theorem update_agrees_with_expansion_assigning :
    let host := Extension.Registry.host []
    let right : List Expression := [.leaf ⟨41, 0⟩, .leaf ⟨42, 0⟩, .leaf ⟨43, 0⟩]
    let update : Operation := .evaluate (.group [.leaf ⟨38, 0⟩, .leaf ⟨45, 0⟩, .group right])
    let expansion : Operation :=
      .evaluate (.group [.leaf ⟨41, 0⟩, .leaf ⟨42, 0⟩, .leaf ⟨44, 0⟩, .leaf ⟨16, 0⟩, .group right])
    ∃ m, perform host 14 (.runTextTopLevel "a :: int\na = 3\na -= 1\n") (.initial {}) =
        .value (.ok ()) m ∧
      m.store.arena.get? ⟨47, 0⟩ =
        some { surface := "a", role := .var, type := "int", value := .int 2 } ∧
      (perform host 7 update m).Agrees Machine.SameVariables (perform host 7 expansion m) ∧
      perform host 7 update m ≠ .cutOff ∧
      [perform host 7 update m, perform host 7 expansion m].map (fun o =>
        (o.machine?.bind fun m₁ => m₁.store.arena.get? ⟨47, 0⟩).map Identifier.value) =
        [some (.int 0), some (.int 0)] := by
  intro host right update expansion
  have hrun : (perform host 14 (.runTextTopLevel "a :: int\na = 3\na -= 1\n")
      (.initial {})).test (fun result m => result.toOption.any fun _ =>
          decide ([38, 41, 42, 43, 44, 45, 47, 14, 16, 20].map
              (fun index => m.store.arena.get? ⟨index, 0⟩) =
              [some (.name "a" 0), some (.name "a" 0), some (.name "=" 0),
                some { role := .constant, type := "int", value := .int 3 }, some (.name "a" 0),
                some (.name "-=" 0),
                some { surface := "a", role := .var, type := "int", value := .int 2 },
                some (between "=" .assign), some (between "-" (.arithmetic .sub)),
                some (between "-=" (.update .sub))] ∧
            ["a", "=", "-="].map m.store.scopes.bound? =
              [some ⟨47, 0⟩, some ⟨14, 0⟩, some ⟨20, 0⟩] ∧
            [perform host 7 update m, perform host 7 expansion m].map (fun o =>
              (o.machine?.bind fun m₁ => m₁.store.arena.get? ⟨47, 0⟩).map Identifier.value) =
              [some (.int 0), some (.int 0)])) = true := by
    decide +kernel
  obtain ⟨result, m, hend, hrun⟩ := Outcome.exists_of_test hrun
  obtain ⟨_, rfl, hrun⟩ := Except.exists_of_any_toOption hrun
  obtain ⟨hget, hbound, hzero⟩ := of_decide_eq_true hrun
  simp only [List.map_cons, List.map_nil, List.cons.injEq, and_true] at hget hbound
  obtain ⟨hx, hx₁, ho₁, hthree, hx₂, ho, hi, hassign, hsub, hupdate⟩ := hget
  obtain ⟨hbounda, hboundassign, hboundupdate⟩ := hbound
  have hreached : Reached host (fun _ => True) m := .value (.initial {}) trivial .here hend
  have hstands : ∀ {h : Handle}, m.store.arena.get? h = some (.name "a" 0) →
      m.store.StandsFor h ⟨47, 0⟩ := fun hh => ⟨_, hh, Store.resolve_of_bound? hbounda⟩
  have hbetween : m.store.Between ⟨45, 0⟩ (.update .sub) :=
    ⟨⟨20, 0⟩, _, ⟨_, ho, Store.resolve_of_bound? hboundupdate⟩, hupdate, rfl, rfl, rfl⟩
  have hbetween₁ : m.store.Between ⟨42, 0⟩ .assign :=
    ⟨⟨14, 0⟩, _, ⟨_, ho₁, Store.resolve_of_bound? hboundassign⟩, hassign, rfl, rfl, rfl⟩
  have hbetween₂ : m.store.Between ⟨16, 0⟩ (.arithmetic .sub) :=
    ⟨⟨16, 0⟩, _, Store.standsFor_self hsub rfl, hsub, rfl, rfl, rfl⟩
  have hright : ∀ h ∈ Expression.leavesOf right, m.store.ResolvesTo Identifier.Stays h := by
    simp only [right, Expression.leavesOf, Expression.leaves, List.append_nil, List.cons_append,
      List.nil_append, List.forall_mem_cons, List.not_mem_nil, false_imp_iff, implies_true, and_true]
    have hs := hreached.ready
    exact ⟨Store.resolvesTo_of_bound? hs hx₁ rfl hbounda hi
        (Identifier.stays_of_not_isFunction _ rfl),
      Store.resolvesTo_of_bound? hs ho₁ rfl hboundassign hassign
        fun _ => ⟨.assign, rfl, by decide⟩,
      Store.resolvesTo_self hs hthree rfl (Identifier.stays_of_not_isFunction _ rfl)⟩
  have hagrees := update_agrees_with_expansion hreached hi rfl (by decide) (hstands hx)
    (hstands hx₁) (hstands hx₂) hbetween hbetween₁ hbetween₂ hright (show 4 ≤ 7 by decide)
  exact ⟨m, hend, hi, hagrees.1, hagrees.2 (by decide), hzero⟩

end WordScript
