import WordScript.Proofs.Handles

/-!
# When the arena grows

A slot is added only when no other one is free, whatever is asked of the arena and whichever
requests it refuses. So apart from the first slot there are never more slots than there have been
identifiers at one time. The first slot stays out of all this.
-/

namespace WordScript

namespace Arena

/-- Carries out requests one after the other. -/
def serveAll (a : Arena) : List Request → Arena
  | [] => a
  | r :: rs => (a.serve r).2.serveAll rs

/-- The states that an arena goes through as requests are carried out, from the present one to the
last one. -/
def states (a : Arena) : List Request → List Arena
  | [] => [a]
  | r :: rs => a :: (a.serve r).2.states rs

/-- The first slot is empty, and no request has to do with it. -/
structure SparesFirst (a : Arena) : Prop where
  /-- It holds no identifier, and has not been freed. -/
  vacant : a.slots[0]? = some ⟨.invalid, 0⟩
  /-- It is not among the slots that are used again. -/
  not_free : 0 ∉ a.free
  /-- An identifier that is added gets another one of the slots, so that its index is smaller than
  their number. -/
  given : ∀ i, (a.push i).1.index ≠ 0 ∧ (a.push i).1.index < (a.push i).2.capacity
  /-- What is asked about a handle of it is refused. -/
  refused : ∀ r h, r.handle? = some h → h.index = 0 → (a.serve r).1 = .refused

section Served

variable {a : Arena}

theorem mem_states_self (a : Arena) (rs : List Request) : a ∈ a.states rs := by
  cases rs <;> simp [states]

/-- What every request keeps holds in all states. -/
theorem forall_mem_states {P : Arena → Prop} (hserve : ∀ a r, P a → P (a.serve r).2) (ha : P a)
    (rs : List Request) : ∀ b ∈ a.states rs, P b := by
  induction rs generalizing a with
  | nil => simpa [states] using ha
  | cons r rs ih =>
    rw [states, List.forall_mem_cons]
    exact ⟨ha, ih (hserve a r ha)⟩

/-! ## The number of slots -/

/-- All slots are the first one, those that are in use, and those that are free. -/
theorem Tidy.live_add (ha : a.Tidy) : a.live + a.free.length + 1 = a.capacity := by
  have hlt := ha.length_free_lt
  rw [live, capacity]
  omega

/-- A request adds a slot only for an identifier, and only when none is free. -/
theorem capacity_serve (ha : a.Tidy) (r : Request) : (a.serve r).2.capacity = a.capacity ∨
    ((a.serve r).2.capacity = a.capacity + 1 ∧ (a.serve r).2.free = []) := by
  rcases serve_cases a r with
    ⟨i, rfl, hserve⟩ | ⟨k, i, -, -, -, -, hput⟩ | ⟨k, b, rfl, hb, hserve⟩ | ⟨k, -, -, -, hsame⟩
  · rw [hserve]
    rcases push_cases ha i with ⟨index, free, s, -, -, -, heq⟩ | ⟨hfree, heq⟩
    · exact .inl (by simp [heq, capacity, put])
    · exact .inr (by simp [heq, capacity, hfree])
  · exact .inl (by simp [hput, capacity, put])
  · exact .inl (by rw [hserve, capacity, size_destroy? hb, capacity])
  · exact .inl (by rw [hsame])

theorem capacity_le_serve (ha : a.Tidy) (r : Request) : a.capacity ≤ (a.serve r).2.capacity := by
  rcases capacity_serve ha r with h | ⟨h, -⟩ <;> omega

theorem capacity_le_serveAll (ha : a.Tidy) (rs : List Request) :
    ∀ b ∈ a.states rs, b.capacity ≤ (a.serveAll rs).capacity := by
  induction rs generalizing a with
  | nil => simp [states, serveAll]
  | cons r rs ih =>
    have hrest := ih (ha.serve r)
    rw [states, List.forall_mem_cons]
    exact ⟨Nat.le_trans (capacity_le_serve ha r) (hrest _ (mem_states_self _ rs)), hrest⟩

/-- Where slots have been added there was a state with as many slots as in the end, and none of them
free. -/
theorem exists_full_of_states (ha : a.Tidy) (rs : List Request) :
    (a.serveAll rs).capacity = a.capacity ∨
      ∃ b ∈ a.states rs, b.free = [] ∧ b.capacity = (a.serveAll rs).capacity := by
  induction rs generalizing a with
  | nil => exact .inl rfl
  | cons r rs ih =>
    rcases ih (ha.serve r) with hsame | ⟨b, hb, hfull, hcap⟩
    · -- after `r` no slot is added, so the state looked for is the one that `r` leads to
      rcases capacity_serve ha r with hserve | ⟨-, hfull⟩
      · exact .inl (hsame.trans hserve)
      · exact .inr ⟨_, List.mem_cons_of_mem a (mem_states_self _ rs), hfull, hsame.symm⟩
    · exact .inr ⟨b, List.mem_cons_of_mem a hb, hfull, hcap⟩

/-! ## The first slot -/

theorem slots_zero_serve (ha : a.Tidy) (r : Request) :
    (a.serve r).2.slots[0]? = a.slots[0]? := by
  rcases serve_cases a r with
    ⟨i, rfl, hserve⟩ | ⟨k, i, -, hl, -, -, hput⟩ | ⟨k, b, rfl, hb, hserve⟩ | ⟨k, -, -, -, hsame⟩
  · rw [hserve]
    obtain ⟨hzero, z, hz, -⟩ := ha.sentinel
    rcases push_cases ha i with ⟨index, free, s, hfree, -, -, heq⟩ | ⟨-, heq⟩
    · rw [hfree] at hzero
      rw [heq, slots_put, if_neg (by rintro rfl; simp at hzero)]
    · have hsize : 0 < a.slots.size := (Array.getElem?_eq_some_iff.mp hz).1
      rw [heq, Array.getElem?_push, if_neg (by omega)]
  · rw [hput, slots_put, if_neg (ha.inUse hl).1]
  · rw [hserve, slots_destroy? hb, if_neg (ha.inUse (destroy?_isLive hb)).1]
  · rw [hsame]

theorem Tidy.sparesFirst (ha : a.Tidy) (hvacant : a.slots[0]? = some ⟨.invalid, 0⟩) :
    a.SparesFirst := by
  refine ⟨hvacant, ha.sentinel.1, fun i => ?_, fun r h hr hzero => ?_⟩
  · obtain ⟨hne, -, s, hs, -⟩ := (inUse_push ha i).mpr (.inl rfl)
    exact ⟨hne, (Array.getElem?_eq_some_iff.mp hs).1⟩
  · apply Decidable.byContradiction
    intro hserved
    exact (ha.inUse ((serve_ne_refused_iff hr).mp hserved)).1 hzero

end Served

/-! ## An arena that was empty at first -/

theorem tidy_of_mem_states (rs : List Request) :
    ∀ a ∈ empty.states rs, a.Tidy ∧ a.slots[0]? = some ⟨.invalid, 0⟩ := by
  refine forall_mem_states (fun a r ha => ?_) ⟨tidy_empty, rfl⟩ rs
  exact ⟨ha.1.serve r, (slots_zero_serve ha.1 r).trans ha.2⟩

/-- Some state had as many slots as there are in the end, and none of them free. Without any request
for an identifier it is the empty arena. -/
theorem exists_full (rs : List Request) :
    ∃ a ∈ empty.states rs, a.free = [] ∧ a.capacity = (empty.serveAll rs).capacity := by
  rcases exists_full_of_states tidy_empty rs with hsame | hfull
  · exact ⟨empty, mem_states_self empty rs, rfl, hsame.symm⟩
  · exact hfull

/-- Whatever an arena that was empty at first has been asked, it has one slot besides as many as
there were identifiers in the state with most of them. In all states the slots are the first one,
which nothing is ever done with, those in use and those that are free. That the first slot is spared
takes fewer than `2 ^ 32` slots where indices are kept in 32 bits: with more, a new index would start
again at zero. -/
theorem capacity_is_peak (rs : List Request) :
    ((empty.states rs).map live).max? = some ((empty.serveAll rs).capacity - 1) ∧
      ∀ a ∈ empty.states rs, a.live + a.free.length + 1 = a.capacity ∧ a.SparesFirst := by
  have hsum : ∀ a ∈ empty.states rs, a.live + a.free.length + 1 = a.capacity :=
    fun a ha => (tidy_of_mem_states rs a ha).1.live_add
  refine ⟨List.max?_eq_some_iff.mpr ⟨?_, ?_⟩, fun a ha => ⟨hsum a ha, ?_⟩⟩
  · obtain ⟨a, ha, hfree, hcap⟩ := exists_full rs
    have hlive := hsum a ha
    rw [hfree, List.length_nil] at hlive
    exact List.mem_map.mpr ⟨a, ha, by omega⟩
  · intro n hn
    obtain ⟨a, ha, rfl⟩ := List.mem_map.mp hn
    have hlive := hsum a ha
    have hle := capacity_le_serveAll tidy_empty rs a ha
    omega
  · obtain ⟨htidy, hvacant⟩ := tidy_of_mem_states rs a ha
    exact htidy.sparesFirst hvacant

/-- Three identifiers, of which there are never more than two at one time. -/
example : (empty.serveAll [.push (.name "x" 0), .push (.name "y" 0), .destroy ⟨1, 0⟩,
    .destroy ⟨1, 0⟩, .push (.name "z" 0)]).capacity = 3 := by
  decide

end Arena

end WordScript
