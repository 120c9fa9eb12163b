import WordScript.Proofs.LifeCycle
import WordScript.Proofs.Standing
import WordScript.Proofs.Written

/-!
# What leaves resolve to

What a leaf resolves to is what it refers to, or, for a name that is not declared, what the name is
bound to. An evaluation may add identifiers and bindings and make variables of identifiers, but it
makes no function of anything: so what holds of all that is no function goes on to hold of what a
leaf resolves to.
-/

namespace WordScript

namespace Arena

/-- The handle has been given out, whether or not its slot has been freed since: nothing that is
added will be referred to by it. -/
def HandedOut (a : Arena) (h : Handle) : Prop :=
  ∃ s, a.slots[h.index]? = some s ∧ (h.index ∈ a.free → s.generation ≠ h.generation)

variable {a : Arena} {h : Handle}

theorem InUse.handedOut (hu : a.InUse h) : a.HandedOut h := by
  obtain ⟨-, hfree, s, hs, -⟩ := hu
  exact ⟨s, hs, fun hmem => absurd hmem hfree⟩

theorem handedOut_of_get? (ha : a.Tidy) {i : Identifier} (hi : a.get? h = some i) :
    a.HandedOut h :=
  (ha.inUse (isLive_of_get? hi)).handedOut

theorem HandedOut.put (hh : a.HandedOut h) (index : Nat) (i : Identifier) :
    (a.put index i).HandedOut h := by
  obtain ⟨s, hs, hgen⟩ := hh
  by_cases hindex : index = h.index
  · exact ⟨{ s with content := i }, by simp [slots_put, hindex, hs], hgen⟩
  · exact ⟨s, by rw [slots_put, if_neg hindex, hs], hgen⟩

theorem HandedOut.push (ha : a.Tidy) (hh : a.HandedOut h) (i : Identifier) :
    (a.push i).2.HandedOut h := by
  rcases push_cases ha i with ⟨k, free, s, hfree, -, -, heq⟩ | ⟨hfree, heq⟩
  · rw [heq]
    obtain ⟨s', hs', hgen⟩ := hh
    have hless : ({ a with free } : Arena).HandedOut h :=
      ⟨s', hs', fun hmem => hgen (hfree ▸ List.mem_cons_of_mem k hmem)⟩
    exact hless.put k i
  · rw [heq]
    obtain ⟨s', hs', hgen⟩ := hh
    have hlt : h.index < a.slots.size := (Array.getElem?_eq_some_iff.mp hs').1
    refine ⟨s', ?_, hgen⟩
    rw [Array.getElem?_push, if_neg (by omega), hs']

/-- What is added is not referred to by a handle from before. -/
theorem HandedOut.ne_push (ha : a.Tidy) (hh : a.HandedOut h) (i : Identifier) :
    h ≠ (a.push i).1 := by
  rintro rfl
  obtain ⟨s', hs', hgen⟩ := hh
  rcases push_cases ha i with ⟨k, free, s, hfree, hs, -, heq⟩ | ⟨-, heq⟩
  · rw [heq] at hs' hgen
    rw [hs] at hs'
    obtain rfl := Option.some.inj hs'
    exact hgen (hfree ▸ List.mem_cons_self) rfl
  · rw [heq] at hs'
    simp at hs'

end Arena

namespace Store

/-- What the leaf resolves to is such a one, if it resolves to anything; a name that is not bound is
just a name. -/
def ResolvesTo (P : Identifier → Prop) (s : Store) (h : Handle) : Prop :=
  s.arena.HandedOut h ∧ ∀ i, s.arena.get? h = some i →
    if i.isUndefined then ∀ k j, s.scopes.bound? i.surface = some k → s.arena.get? k = some j → P j
    else P i

variable {P : Identifier → Prop} {s s' s'' : Store} {name : String} {h k : Handle}

/-- What such a leaf stands for is such a one. -/
theorem ResolvesTo.of_standsFor (hs : s.Ready) (hh : s.ResolvesTo P h) (hk : s.StandsFor h k)
    {j : Identifier} (hj : s.arena.get? k = some j) : P j := by
  obtain ⟨i, hi, hstands⟩ := hk
  have hresolves := hh.2 i hi
  by_cases hundefined : i.isUndefined
  · rw [if_pos hundefined] at hstands hresolves
    exact hresolves k j ((resolve_eq_iff hs).mp hstands) hj
  · rw [if_neg hundefined] at hstands hresolves
    subst hstands
    obtain rfl : j = i := Option.some.inj (hj.symm.trans hi)
    exact hresolves

/-- A name that is bound to such a one resolves to it. -/
theorem resolvesTo_of_bound? (hs : s.Ready) {i j : Identifier} (hi : s.arena.get? h = some i)
    (hundefined : i.isUndefined = true) (hk : s.scopes.bound? i.surface = some k)
    (hj : s.arena.get? k = some j) (hP : P j) : s.ResolvesTo P h := by
  refine ⟨Arena.handedOut_of_get? hs.sound.tidy hi, fun i' hi' => ?_⟩
  obtain rfl := Option.some.inj (hi.symm.trans hi')
  rw [if_pos hundefined]
  intro k' j' hk' hj'
  obtain rfl := Option.some.inj (hk.symm.trans hk')
  obtain rfl := Option.some.inj (hj.symm.trans hj')
  exact hP

/-- Such a one that is no mere name resolves to itself. -/
theorem resolvesTo_self (hs : s.Ready) {i : Identifier} (hi : s.arena.get? h = some i)
    (hdefined : i.isUndefined = false) (hP : P i) : s.ResolvesTo P h := by
  refine ⟨Arena.handedOut_of_get? hs.sound.tidy hi, fun i' hi' => ?_⟩
  obtain rfl := Option.some.inj (hi.symm.trans hi')
  rwa [if_neg (Bool.eq_false_iff.mp hdefined)]

/-! ## What makes no functions -/

/-- Nothing has happened but that identifiers were added or made variables, and names bound, to
nothing that is a function. -/
structure MakesNoFunction (s s' : Store) : Prop where
  ready : s'.Ready
  handedOut : ∀ {h : Handle}, s.arena.HandedOut h → s'.arena.HandedOut h
  kept : ∀ {h : Handle}, s.arena.HandedOut h → s'.arena.get? h = s.arena.get? h ∨
    ∃ i, s'.arena.get? h = some i ∧ i.isVariable = true
  bound : ∀ {name : String} {k : Handle}, s'.scopes.bound? name = some k →
    s.scopes.bound? name = some k ∨ ∃ i, s'.arena.get? k = some i ∧ i.isFunction = false

theorem MakesNoFunction.refl (hs : s.Ready) : s.MakesNoFunction s where
  ready := hs
  handedOut := id
  kept := fun _ => .inl rfl
  bound := .inl

theorem MakesNoFunction.trans (h : s.MakesNoFunction s') (h' : s'.MakesNoFunction s'') :
    s.MakesNoFunction s'' where
  ready := h'.ready
  handedOut := fun hk => h'.handedOut (h.handedOut hk)
  kept := by
    intro k hk
    rcases h'.kept (h.handedOut hk) with heq | hvariable
    · rw [heq]
      exact h.kept hk
    · exact .inr hvariable
  bound := by
    intro name k hk
    rcases h'.bound hk with hk' | hvalue
    · rcases h.bound hk' with hold | ⟨i, hi, hvalue⟩
      · exact .inl hold
      · rcases h'.kept (Arena.handedOut_of_get? h.ready.sound.tidy hi) with heq | ⟨j, hj, hvariable⟩
        · exact .inr ⟨i, heq.trans hi, hvalue⟩
        · exact .inr ⟨j, hj, Identifier.not_isFunction_of_isVariable hvariable⟩
    · exact .inr hvalue

/-- What holds of all that is no function goes on to hold of what a leaf resolves to. -/
theorem ResolvesTo.mono (hP : ∀ i, i.isFunction = false → P i) (hs : s.Ready)
    (hm : s.MakesNoFunction s') (hh : s.ResolvesTo P h) : s'.ResolvesTo P h := by
  obtain ⟨hgiven, hresolves⟩ := hh
  refine ⟨hm.handedOut hgiven, fun i hi => ?_⟩
  rcases hm.kept hgiven with heq | ⟨j, hj, hvariable⟩
  · specialize hresolves i (heq ▸ hi)
    by_cases hundefined : i.isUndefined
    · rw [if_pos hundefined] at hresolves ⊢
      intro k j hk hj
      rcases hm.bound hk with hold | ⟨j', hj', hvalue⟩
      · have hu := hs.sound.inUse k (Scopes.mem_held_of_bound? hold)
        rcases hm.kept hu.handedOut with heq' | ⟨j', hj', hvar⟩
        · exact hresolves k j hold (heq' ▸ hj)
        · obtain rfl := Option.some.inj (hj.symm.trans hj')
          exact hP j (Identifier.not_isFunction_of_isVariable hvar)
      · obtain rfl := Option.some.inj (hj.symm.trans hj')
        exact hP j hvalue
    · rw [if_neg hundefined] at hresolves ⊢
      exact hresolves
  · obtain rfl := Option.some.inj (hi.symm.trans hj)
    rw [if_neg (by simp [Identifier.not_isUndefined_of_isVariable hvariable])]
    exact hP i (Identifier.not_isFunction_of_isVariable hvariable)

/-! ## The operations on the store -/

/-- Binding a new identifier that is no function to its name in the current frame. -/
theorem makesNoFunction_define (hs : s.Ready) {i : Identifier} (hvalid : i.IsValid)
    (hi : i.isFunction = false) (hsound : (s.define i).2.Sound) :
    s.MakesNoFunction (s.define i).2 where
  ready := ⟨hsound, hs.placed.of_balanced (hs.placed.balanced_current _)⟩
  handedOut := fun hk => hk.push hs.sound.tidy i
  kept := fun hk => .inl (Arena.get?_push_of_ne hs.sound.tidy i (hk.ne_push hs.sound.tidy i))
  bound := by
    intro name k hk
    rcases hs.placed.bound?_bind hk with rfl | hold
    · exact .inr ⟨i, Arena.get?_push_self hs.sound.tidy hvalid, hi⟩
    · exact .inl hold

theorem makesNoFunction_resolve (hs : s.Ready) (hr : s.resolve name = .ok (h, s')) :
    s.MakesNoFunction s' where
  ready := (widens_resolve hs hr).ready
  handedOut := by
    intro k hk
    rcases resolve_bound?_cases hr with ⟨-, rfl⟩ | ⟨-, ⟨space, member, -, heq⟩ | ⟨-, heq⟩⟩
    · exact hk
    · obtain ⟨-, rfl⟩ := Prod.mk.inj heq
      exact hk.push hs.sound.tidy _
    · obtain ⟨-, rfl⟩ := Prod.mk.inj heq
      exact hk.push hs.sound.tidy _
  kept := by
    intro k hk
    rcases resolve_bound?_cases hr with ⟨-, rfl⟩ | ⟨-, ⟨space, member, -, heq⟩ | ⟨-, heq⟩⟩
    · exact .inl rfl
    · obtain ⟨-, rfl⟩ := Prod.mk.inj heq
      exact .inl (Arena.get?_push_of_ne hs.sound.tidy _ (hk.ne_push hs.sound.tidy _))
    · obtain ⟨-, rfl⟩ := Prod.mk.inj heq
      exact .inl (Arena.get?_push_of_ne hs.sound.tidy _ (hk.ne_push hs.sound.tidy _))
  bound := by
    intro other k hk
    cases hfree : s.scopes.bound? other with
    | some k' =>
      rw [bound?_resolve hs.placed hr hfree] at hk
      exact .inl hk
    | none =>
      obtain ⟨i, hi, hundefined⟩ := isUndefined_of_bound?_resolve hs.sound hs.placed hr hfree hk
      have hrole : i.role = .undefined := of_decide_eq_true hundefined
      exact .inr ⟨i, hi, by simp [Identifier.isFunction, hrole]⟩

theorem makesNoFunction_pushTemporary (hs : s.Ready) (i : Identifier) :
    s.MakesNoFunction (s.pushTemporary i).2 where
  ready := (widens_pushTemporary hs i).ready
  handedOut := fun hk => hk.push hs.sound.tidy i
  kept := fun hk => .inl (Arena.get?_push_of_ne hs.sound.tidy i (hk.ne_push hs.sound.tidy i))
  bound := by
    intro other k hk
    rw [bound?_pushTemporary hs.placed] at hk
    exact .inl hk

/-- Making a variable of an identifier. -/
theorem makesNoFunction_put (hs : s.Ready) {old i : Identifier} (hold : s.arena.get? h = some old)
    (hi : i.isVariable = true)
    (hsound : ({ s with arena := s.arena.put h.index i } : Store).Sound) :
    s.MakesNoFunction { s with arena := s.arena.put h.index i } where
  ready := ⟨hsound, hs.placed⟩
  handedOut := fun hk => hk.put h.index i
  kept := by
    intro k _
    have hl := Arena.isLive_of_get? hold
    by_cases hkh : k = h
    · subst hkh
      have hrole : i.role = .var := of_decide_eq_true hi
      exact .inr ⟨i, Arena.get?_put_self hl (by simp [hrole]), hi⟩
    · exact .inl (Arena.get?_put_of_ne_handle hs.sound.tidy hl hkh)
  bound := .inl

theorem makesNoFunction_declare (hs : s.Ready) {i : Identifier} (hi : i.isVariable = true)
    (hd : s.declare i = .ok (some (h, s'))) : s.MakesNoFunction s' := by
  have hrole : i.role = .var := of_decide_eq_true hi
  have hsound := hs.sound.declare hd
  rcases declare_cases hd with ⟨-, heq⟩ | ⟨old, -, hold, -, rfl⟩
  · obtain ⟨-, rfl⟩ := Prod.mk.inj heq
    apply makesNoFunction_define hs
    · simp [Identifier.IsValid, hrole]
    · exact Identifier.not_isFunction_of_isVariable hi
    · exact hsound
  · exact makesNoFunction_put hs hold hi hsound

/-! ## Texts that have just been read -/

/-- The leaves of a text resolve to what its names are bound to when it is read. -/
theorem resolvesTo_ofText (hP : ∀ i, i.isFunction = false → P i) (hs : s.Sound) {text : String}
    {st : Statement} (hst : (Statement.ofText text s.arena).1 = .ok st)
    (hnames : ∀ i ∈ Statement.written text, i.isUndefined = true →
      ∀ j ∈ (s.scopes.bound? i.surface).bind s.arena.get?, P j) :
    ∀ h ∈ st.leaves,
      ({ s with arena := (Statement.ofText text s.arena).2 } : Store).ResolvesTo P h := by
  intro h hh
  have hwritten : ∀ i ∈ Statement.written text, i.IsWritten :=
    fun i => Statement.isWritten_of_mem_written
  rw [Statement.leaves_of_ofText hst] at hh
  have hget := List.mem_map_of_mem
    (f := (s.arena.pushAll (Statement.written text)).2.get?) hh
  rw [Arena.map_get?_pushAll hs.tidy fun i hi => (hwritten i hi).isValid] at hget
  obtain ⟨i, hi, hfound⟩ := List.mem_map.mp hget
  have hlive := hfound.symm
  rw [← Statement.arena_ofText text s.arena] at hlive
  have hsound := hs.pushAll (Statement.written text)
  rw [← Statement.arena_ofText text s.arena] at hsound
  refine ⟨Arena.handedOut_of_get? hsound.tidy hlive, fun i' hi' => ?_⟩
  obtain rfl : i = i' := Option.some.inj (hlive.symm.trans hi')
  rw [Statement.arena_ofText]
  by_cases hundefined : i.isUndefined
  · rw [if_pos hundefined]
    intro k j hk hj
    rcases Arena.get?_pushAll hs.tidy hj with hold | ⟨hnew, -⟩
    · exact hnames i hi hundefined j (Option.bind_eq_some_iff.mpr ⟨k, hk, hold⟩)
    · have hu := hs.inUse k (Scopes.mem_held_of_bound? hk)
      exact absurd hu (Arena.not_inUse_pushAll hs.tidy hnew)
  · rw [if_neg hundefined]
    apply hP
    rcases (hwritten i hi).role with hrole | hrole <;> simp [Identifier.isFunction, hrole]

end Store

/-- The expression that a text consists of, and the machine when it has been read: the text is a
single line. -/
def Machine.readLine? (m : Machine) (text : String) : Option (Expression × Machine) :=
  match (Statement.ofText text m.store.arena).1 with
  | .ok (.mk _ [.mk e []]) =>
    some (e, { m with store := { m.store with arena := (Statement.ofText text m.store.arena).2 } })
  | _ => none

/-- Such a text is read into one line, whose leaves resolve to what its names are bound to. -/
theorem Machine.of_readLine? {P : Identifier → Prop} {m m₁ : Machine} {text : String}
    {e : Expression} (hP : ∀ i, i.isFunction = false → P i) (hs : m.store.Sound)
    (hnames : ∀ i ∈ Statement.written text, i.isUndefined = true →
      ∀ j ∈ (m.store.scopes.bound? i.surface).bind m.store.arena.get?, P j)
    (hline : m.readLine? text = some (e, m₁)) (host : Host) :
    (∃ head, perform host 1 (.readText text) m = .value (.ok (.mk head [.line e])) m₁) ∧
      ∀ h ∈ e.leaves, m₁.store.ResolvesTo P h := by
  rw [Machine.readLine?] at hline
  split at hline
  · next head e' hst =>
    obtain ⟨rfl, rfl⟩ := Prod.mk.inj (Option.some.inj hline)
    refine ⟨⟨head, ?_⟩, fun h hh => ?_⟩
    · rw [perform_readText, hst]
      rfl
    · apply Store.resolvesTo_ofText hP hs hst hnames
      rw [Statement.leaves, Statement.leavesOf, Statement.leaves]
      exact List.mem_append_right _ (List.mem_append_left _ (List.mem_append_left _ hh))
  · cases hline

end WordScript
