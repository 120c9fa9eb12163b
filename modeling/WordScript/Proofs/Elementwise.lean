import WordScript.Proofs.Chains
import WordScript.Proofs.Recording
import WordScript.Proofs.ValueLeaves

/-!
# Operators on several values

An operator of arithmetic, comparison or logic combines the values on its two sides one by one. All
of them are there before the first result is made, and results are only added: so every pair is
combined as it was when both sides had been evaluated, up to the first one that fails.
-/

namespace WordScript

namespace Store

/-- What is made of the identifiers behind a pair of handles. -/
def combined (s : Store) (combine : Combination) (pair : Handle × Handle) :
    Except RuntimeError Identifier :=
  match s.arena.get? pair.1, s.arena.get? pair.2 with
  | some l, some r => combine l r
  | none, _ => .error (.invalidReference pair.1)
  | some _, none => .error (.invalidReference pair.2)

/-- Nothing has happened but that these constants were added, under handles that had not been given
out before, and given to the current frame in this order. -/
structure AddsConstants (s s' : Store) (handles : List Handle) (results : List Identifier) :
    Prop where
  constants : ∀ i ∈ results, i.role = .constant
  values : handles.map s'.arena.get? = results.map some
  nodup : handles.Nodup
  fresh : ∀ h ∈ handles, ¬ s.arena.HandedOut h
  kept : ∀ {h : Handle}, h ∉ handles → s'.arena.get? h = s.arena.get? h
  balanced : s.scopes.Balanced s'.scopes
  owned : s'.scopes.frameAt s.scopes.place.name s.scopes.place.depth =
    { s.scopes.frameAt s.scopes.place.name s.scopes.place.depth with
      temporaries := handles.reverse ++
        (s.scopes.frameAt s.scopes.place.name s.scopes.place.depth).temporaries }
  elsewhere : ∀ {space : String} {index : Nat},
    ¬ (space = s.scopes.place.name ∧ index = s.scopes.place.depth) →
      s'.scopes.frameAt space index = s.scopes.frameAt space index

variable {s s' : Store} {handles : List Handle} {results : List Identifier} {combine : Combination}

theorem AddsConstants.refl (s : Store) : s.AddsConstants s [] [] where
  constants := nofun
  values := rfl
  nodup := List.nodup_nil
  fresh := nofun
  kept := fun _ => rfl
  balanced := .refl _
  owned := rfl
  elsewhere := fun _ => rfl

theorem not_handedOut_push {a : Arena} (ha : a.Tidy) (i : Identifier) :
    ¬ a.HandedOut (a.push i).1 :=
  fun h => h.ne_push ha i rfl

/-- One constant first, and then the others. -/
theorem AddsConstants.cons (hs : s.Ready) {i : Identifier} (hi : i.role = .constant)
    (h : (s.pushTemporary i).2.AddsConstants s' handles results) :
    s.AddsConstants s' ((s.pushTemporary i).1 :: handles) (i :: results) := by
  have hfirst : (s.pushTemporary i).2.arena.get? (s.pushTemporary i).1 = some i :=
    Arena.get?_push_self hs.sound.tidy (by simp [hi])
  have hready := (widens_pushTemporary hs i).ready
  have hnew : (s.pushTemporary i).1 ∉ handles := fun hmem =>
    h.fresh _ hmem (Arena.handedOut_of_get? hready.sound.tidy hfirst)
  have hbalanced : s.scopes.Balanced (s.pushTemporary i).2.scopes := hs.placed.balanced_current _
  have hplace := hbalanced.place
  refine ⟨?_, ?_, ?_, ?_, ?_, hbalanced.trans h.balanced, ?_, ?_⟩
  · exact List.forall_mem_cons.mpr ⟨hi, h.constants⟩
  · rw [List.map_cons, List.map_cons, h.kept hnew, hfirst, h.values]
  · exact List.nodup_cons.mpr ⟨hnew, h.nodup⟩
  · refine List.forall_mem_cons.mpr ⟨not_handedOut_push hs.sound.tidy i, fun k hk hgiven => ?_⟩
    exact h.fresh k hk (hgiven.push hs.sound.tidy i)
  · intro k hk
    obtain ⟨hne, hrest⟩ := not_or.mp (mt List.mem_cons.mpr hk)
    exact (h.kept hrest).trans (Arena.get?_push_of_ne hs.sound.tidy i hne)
  · have howned := h.owned
    rw [hplace] at howned
    have hfirst : (s.pushTemporary i).2.scopes.frameAt s.scopes.place.name s.scopes.place.depth =
        { s.scopes.frameAt s.scopes.place.name s.scopes.place.depth with
          temporaries := (s.pushTemporary i).1 ::
            (s.scopes.frameAt s.scopes.place.name s.scopes.place.depth).temporaries } :=
      Scopes.frameAt_modifyFrame_self ..
    rw [howned, hfirst, List.reverse_cons, List.append_assoc, List.singleton_append]
  · intro space index hne
    have hother : s'.scopes.frameAt space index = (s.pushTemporary i).2.scopes.frameAt space index :=
      h.elsewhere (by rwa [hplace])
    exact hother.trans (Scopes.frameAt_modifyFrame_of_ne (by tauto) _)

theorem isLiteral_combined (hcombine : ∀ l r, Identifier.IsResult (combine l r))
    {pair : Handle × Handle} {i : Identifier} (h : s.combined combine pair = .ok i) :
    i.IsLiteral := by
  rw [combined] at h
  split at h
  · next l r _ _ =>
    have hresult := hcombine l r
    rwa [h] at hresult
  · cases h
  · cases h

/-- A pair of handles that have been given out is combined to the same when a constant has been
added. -/
theorem combined_pushTemporary (hs : s.Ready) {pair : Handle × Handle}
    (hl : s.arena.HandedOut pair.1) (hr : s.arena.HandedOut pair.2) (i : Identifier) :
    (s.pushTemporary i).2.combined combine pair = s.combined combine pair := by
  have hkept : ∀ h, s.arena.HandedOut h → (s.pushTemporary i).2.arena.get? h = s.arena.get? h :=
    fun h hh => Arena.get?_push_of_ne hs.sound.tidy i (hh.ne_push hs.sound.tidy i)
  rw [combined, combined, hkept _ hl, hkept _ hr]

end Store

/-- How an operator ends on these pairs of values: with a new constant for each pair, in their order,
or with the error of the first pair that cannot be combined. -/
def Outcome.Combines (combine : Combination) (pairs : List (Handle × Handle)) (m : Machine) :
    Outcome (List Handle) → Prop
  | .value handles m' => ∃ results,
      pairs.map (m.store.combined combine) = results.map .ok ∧
      m.store.AddsConstants m'.store handles results ∧ m'.sink = m.sink ∧
      m'.blocksLeft = m.blocksLeft
  | .failure e m' => ∃ before pair after results handles, pairs = before ++ pair :: after ∧
      before.map (m.store.combined combine) = results.map .ok ∧
      m.store.combined combine pair = .error e ∧
      m.store.AddsConstants m'.store handles results ∧ m'.sink = m.sink ∧
      m'.blocksLeft = m.blocksLeft
  | .cutOff => False

namespace Evaluation

open WordScript.Action WordScript.Machine

variable {host : Host} {steps : Nat} {m m₁ m₂ : Machine} {combine : Combination}

/-- What is done for one pair. -/
def combinePair (combine : Combination) (pair : Handle × Handle) : Action (List Handle) := do
  let left ← identifier pair.1
  let right ← identifier pair.2
  let i ← ofExcept (combine left right)
  return [← pushTemporary i]

theorem combinePair_apply (combine : Combination) (pair : Handle × Handle) (m : Machine) :
    combinePair combine pair m = match m.store.combined combine pair with
      | .ok i => .value [(m.store.pushTemporary i).1] { m with store := (m.store.pushTemporary i).2 }
      | .error e => .failure e m := by
  unfold combinePair
  rw [Store.combined, Action.bind_apply]
  cases hl : m.store.arena.get? pair.1 with
  | none => simp only [identifier, hl]
  | some l =>
    cases hr : m.store.arena.get? pair.2 with
    | none => simp only [Action.bind_apply, identifier, hl, hr]
    | some r =>
      simp only [identifier_of_get? hl, Action.bind_apply, identifier_of_get? hr]
      cases combine l r with
      | ok i => rfl
      | error e => rfl

/-- By induction on the pairs: what a pair is combined to does not depend on the results for the
pairs before it. -/
theorem combines_pairs (hs : m.store.Ready)
    (hcombine : ∀ l r, Identifier.IsResult (combine l r)) {pairs : List (Handle × Handle)}
    (hgiven : ∀ pair ∈ pairs, m.store.arena.HandedOut pair.1 ∧ m.store.arena.HandedOut pair.2) :
    (concatMap (combinePair combine) pairs m).Combines combine pairs m := by
  induction pairs generalizing m with
  | nil => exact ⟨[], rfl, .refl _, rfl, rfl⟩
  | cons pair pairs ih =>
    obtain ⟨⟨hl, hr⟩, hrest⟩ := List.forall_mem_cons.mp hgiven
    simp only [concatMap, Action.bind_apply, combinePair_apply]
    cases hpair : m.store.combined combine pair with
    | error e =>
      exact ⟨[], pair, pairs, [], [], rfl, rfl, hpair, .refl _, rfl, rfl⟩
    | ok i =>
      have hready := (Store.widens_pushTemporary hs i).ready
      have hconstant : i.role = .constant := (Store.isLiteral_combined hcombine hpair).role
      have hsame : ∀ p ∈ pairs, (m.store.pushTemporary i).2.combined combine p =
          m.store.combined combine p := fun p hp =>
        Store.combined_pushTemporary hs (hrest p hp).1 (hrest p hp).2 i
      have htail := ih (m := { m with store := (m.store.pushTemporary i).2 }) hready fun p hp =>
        ⟨(hrest p hp).1.push hs.sound.tidy i, (hrest p hp).2.push hs.sound.tidy i⟩
      cases hend : concatMap (combinePair combine) pairs
          { m with store := (m.store.pushTemporary i).2 } with
      | value handles m' =>
        rw [hend] at htail
        obtain ⟨results, hpairs, hadds, hsink, hblocks⟩ := htail
        simp only [hend]
        refine ⟨i :: results, ?_, hadds.cons hs hconstant, hsink, hblocks⟩
        rw [List.map_cons, List.map_cons, hpair, ← hpairs, List.map_congr_left hsame]
      | failure e m' =>
        rw [hend] at htail
        obtain ⟨before, p, after, results, handles, rfl, hbefore, hp, hadds, hsink, hblocks⟩ := htail
        simp only [hend]
        refine ⟨pair :: before, p, after, i :: results, _ :: handles, rfl, ?_, ?_,
          hadds.cons hs hconstant, hsink, hblocks⟩
        · rw [List.map_cons, List.map_cons, hpair, ← hbefore]
          exact congrArg _ (List.map_congr_left fun q hq =>
            (hsame q (List.mem_append_left _ hq)).symm)
        · rwa [← hsame p (by simp)]
      | cutOff =>
        rw [hend] at htail
        exact htail.elim

/-- Each pair is combined by itself. -/
theorem pairwise_eq (self : Performer) (operands : List Expression) (combine : Combination) :
    pairwise self operands combine = pairs self operands >>= concatMap (combinePair combine) := rfl

end Evaluation

/-- In any state that is reached, an operator of arithmetic, comparison or logic between two groups
fails when they come to different numbers of values, and nothing has happened then but that they were
evaluated, the left one first. When they come to as many values, the operator makes a new constant
of each pair, in their order, and gives it to the current frame; a pair is combined as the
identifiers are when both sides have been evaluated, and none of these is changed. It fails exactly
when some pair cannot be combined, with the error of the first such pair. (A handle that has never
been given out can only have been made up by the host.) -/
theorem operators_elementwise {host : Host} {m m₁ m₂ : Machine}
    (hm : Reached host (fun _ => True) m) {o : Handle} {combine : Combination}
    (ho : m.store.Operator o combine) {left right : List Expression} {steps : Nat}
    {ls rs : List Handle}
    (hleft : perform host steps (.evaluate (.group left)) m = .value ls m₁)
    (hright : perform host steps (.evaluate (.group right)) m₁ = .value rs m₂) :
    (ls.length ≠ rs.length → ∃ journal,
      perform host (steps + 3) (.evaluate (.group [.group left, .leaf o, .group right])) m =
        .failure (.lengthMismatch ls.length rs.length) { m₂ with journal }) ∧
    (ls.length = rs.length → (∀ h ∈ ls ++ rs, m₂.store.arena.HandedOut h) →
      (perform host (steps + 3)
        (.evaluate (.group [.group left, .leaf o, .group right])) m).Combines combine
          (ls.zip rs) m₂) := by
  obtain ⟨op, hbetween, hcombine⟩ := ho.between
  have hwaits : Evaluation.Waits (m.noted [.group left, .leaf o, .group right])
    (m.noted [.group left, .leaf o, .group right]) (.group right) (.group right) := .group right rfl
  obtain ⟨k, hend⟩ := Evaluation.perform_between host steps hwaits hbetween
  -- both sides are evaluated when the whole group is in the journal already
  have hnoted : m.SameButJournal (m.noted [.group left, .leaf o, .group right]) := ⟨_, rfl⟩
  obtain ⟨m₁', hleft', hsame₁⟩ :=
    (Evaluation.unrecorded_perform host steps _).of_value hleft hnoted
  obtain ⟨_, hright', journal, rfl⟩ :=
    (Evaluation.unrecorded_perform host steps _).of_value hright hsame₁
  have hready : m₂.store.Ready :=
    (Reached.value (.value hm trivial .here hleft) trivial .here hright).ready
  rw [hend, Evaluation.callBuiltin_of_combination hcombine, List.tail_cons,
    Evaluation.pairwise_eq, Action.bind_apply, Evaluation.pairs_of_values hleft' hright']
  constructor
  · intro hlength
    rw [if_neg hlength]
    exact ⟨journal, rfl⟩
  · intro hlength hgiven
    rw [if_pos hlength]
    refine Evaluation.combines_pairs (m := { m₂ with journal }) hready
      (Evaluation.isResult_combination hcombine) fun pair hpair => ?_
    obtain ⟨hl, hr⟩ := List.of_mem_zip hpair
    exact ⟨hgiven _ (List.mem_append_left _ hl), hgiven _ (List.mem_append_right _ hr)⟩

/-- In `(true true) / (true false)` the first pair gives one, and the second one cannot be combined.
`(true) / (true false)` does not get that far. -/
theorem operators_elementwise_quotient :
    let m := Machine.initial {}
    let quotient (left right : List Handle) : Outcome (List Handle) :=
      perform (Extension.Registry.host []) 5
        (.evaluate (.group [.group (left.map .leaf), .leaf ⟨18, 0⟩, .group (right.map .leaf)])) m
    (quotient [⟨7, 0⟩, ⟨7, 0⟩] [⟨7, 0⟩, ⟨8, 0⟩]).Combines (Identifier.arithmetic .div)
        [(⟨7, 0⟩, ⟨7, 0⟩), (⟨7, 0⟩, ⟨8, 0⟩)] m ∧
      [(⟨7, 0⟩, ⟨7, 0⟩), (⟨7, 0⟩, ⟨8, 0⟩)].map (m.store.combined (Identifier.arithmetic .div)) =
        [.ok (.int 1), .error .divisionByZero] ∧
      ∃ journal, quotient [⟨7, 0⟩] [⟨7, 0⟩, ⟨8, 0⟩] =
        .failure (.lengthMismatch 1 2) { m with journal } := by
  intro m quotient
  have hreached : Reached (Extension.Registry.host []) (fun _ => True) m := .initial {}
  have hget : ∀ h ∈ [7, 8, 18], m.store.arena.get? ⟨h, 0⟩ = vocabulary[h - 1]? := by
    decide +kernel
  have htrue := hget 7 (by decide)
  have hfalse := hget 8 (by decide)
  have hquotient : m.store.Operator ⟨18, 0⟩ (Identifier.arithmetic .div) :=
    ⟨_, _, .arithmetic .div, Store.standsFor_self (hget 18 (by decide)) rfl, hget 18 (by decide),
      rfl, rfl, rfl, rfl⟩
  have hvalues : ∀ hs : List Handle, hs ⊆ [⟨7, 0⟩, ⟨8, 0⟩] →
      perform (Extension.Registry.host []) 2 (.evaluate (.group (hs.map .leaf))) m =
        .value hs m := by
    intro hs hsub
    have hself : ∀ h ∈ [(⟨7, 0⟩ : Handle), ⟨8, 0⟩],
        m.store.StandsFor h h ∧ m.store.ValueLeaf h := by
      simp only [List.forall_mem_cons, List.not_mem_nil, false_imp_iff, implies_true, and_true]
      exact ⟨⟨Store.standsFor_self htrue rfl, _, htrue, rfl⟩,
        ⟨Store.standsFor_self hfalse rfl, _, hfalse, rfl⟩⟩
    have hend := Evaluation.evaluate_leaves_of_standsFor (Extension.Registry.host []) 0
      hreached.ready (fun h hh => (hself h (hsub hh)).2)
      (List.forall₂_same.mpr fun h hh => (hself h (hsub hh)).1)
    rwa [Machine.noted_of_none rfl] at hend
  have hgiven : ∀ h ∈ [(⟨7, 0⟩ : Handle), ⟨7, 0⟩, ⟨7, 0⟩, ⟨8, 0⟩], m.store.arena.HandedOut h := by
    have htidy := hreached.ready.sound.tidy
    simp only [List.forall_mem_cons, List.not_mem_nil, false_imp_iff, implies_true, and_true]
    exact ⟨Arena.handedOut_of_get? htidy htrue, Arena.handedOut_of_get? htidy htrue,
      Arena.handedOut_of_get? htidy htrue, Arena.handedOut_of_get? htidy hfalse⟩
  have hpair := hvalues [⟨7, 0⟩, ⟨8, 0⟩] (by simp)
  refine ⟨?_, ?_, ?_⟩
  · exact (operators_elementwise hreached hquotient (hvalues [⟨7, 0⟩, ⟨7, 0⟩] (by simp)) hpair).2
      rfl hgiven
  · decide +kernel
  · exact (operators_elementwise hreached hquotient (hvalues [⟨7, 0⟩] (by simp)) hpair).1 (by decide)

end WordScript
