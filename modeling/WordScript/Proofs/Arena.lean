import WordScript.Arena

/-!
# The arena as a map

What the operations of the arena do to its two views: which identifier a handle refers to, and
whether its slot has been given out and not freed since. In a tidy arena each operation touches
exactly one handle.
-/

namespace WordScript

namespace Arena

/-- The handle was given out, and its slot has not been freed since. What it refers to may still be
no identifier, if that is what was stored. -/
def InUse (a : Arena) (h : Handle) : Prop :=
  h.index ≠ 0 ∧ h.index ∉ a.free ∧ ∃ s, a.slots[h.index]? = some s ∧ s.generation = h.generation

/-- The free list holds distinct slots without an identifier, and never the first slot. -/
structure Tidy (a : Arena) : Prop where
  nodup : a.free.Nodup
  vacant : ∀ index ∈ a.free, ∃ s, a.slots[index]? = some s ∧ s.content.role = .invalid
  sentinel : 0 ∉ a.free ∧ ∃ s, a.slots[0]? = some s ∧ s.content.role = .invalid

/-- Every slot in use holds an identifier. -/
def Full (a : Arena) : Prop :=
  ∀ h, a.InUse h → a.IsLive h

theorem get?_eq_some_iff {a : Arena} {h : Handle} {i : Identifier} :
    a.get? h = some i ↔ ∃ s, a.slots[h.index]? = some s ∧ s.generation = h.generation ∧
      s.content.role ≠ .invalid ∧ s.content = i := by
  unfold get?
  split
  · next s hs => grind
  · next hs => simp [hs]

theorem isLive_iff {a : Arena} {h : Handle} : a.IsLive h ↔ ∃ i, a.get? h = some i := by
  simp [IsLive, Option.isSome_iff_exists]

theorem isLive_of_get? {a : Arena} {h : Handle} {i : Identifier} (hi : a.get? h = some i) :
    a.IsLive h :=
  isLive_iff.mpr ⟨i, hi⟩

theorem not_isLive_iff {a : Arena} {h : Handle} : ¬ a.IsLive h ↔ a.get? h = none := by
  simp [IsLive]

theorem role_ne_invalid {a : Arena} {h : Handle} {i : Identifier} (hi : a.get? h = some i) :
    i.role ≠ .invalid := by
  obtain ⟨s, -, -, hrole, rfl⟩ := get?_eq_some_iff.mp hi
  exact hrole

theorem Tidy.inUse {a : Arena} (ha : a.Tidy) {h : Handle} (hl : a.IsLive h) : a.InUse h := by
  obtain ⟨i, hi⟩ := isLive_iff.mp hl
  obtain ⟨s, hs, hgen, hrole, rfl⟩ := get?_eq_some_iff.mp hi
  refine ⟨?_, ?_, s, hs, hgen⟩
  · intro hzero
    obtain ⟨-, s', hs', hrole'⟩ := ha.sentinel
    grind
  · intro hfree
    obtain ⟨s', hs', hrole'⟩ := ha.vacant _ hfree
    grind

/-- The slots that are free are fewer than all slots, since the first one is not among them. -/
theorem Tidy.length_free_lt {a : Arena} (ha : a.Tidy) : a.free.length < a.slots.size := by
  have hsub : 0 :: a.free ⊆ List.range a.slots.size := by
    intro index hindex
    rw [List.mem_range]
    rcases List.mem_cons.mp hindex with rfl | hindex
    · obtain ⟨-, s, hs, -⟩ := ha.sentinel
      exact (Array.getElem?_eq_some_iff.mp hs).1
    · obtain ⟨s, hs, -⟩ := ha.vacant index hindex
      exact (Array.getElem?_eq_some_iff.mp hs).1
  have hle := (List.nodup_cons.mpr ⟨ha.sentinel.1, ha.nodup⟩).length_le_of_subset hsub
  rw [List.length_cons, List.length_range] at hle
  exact hle

/-- Two handles in use of one slot are the same. -/
theorem InUse.eq_of_index {a : Arena} {h h' : Handle} (hu : a.InUse h) (hu' : a.InUse h')
    (heq : h.index = h'.index) : h = h' := by
  obtain ⟨-, -, s, hs, hgen⟩ := hu
  obtain ⟨-, -, s', hs', hgen'⟩ := hu'
  obtain ⟨index, generation⟩ := h
  obtain ⟨index', generation'⟩ := h'
  simp_all

/-! ## Overwriting -/

theorem slots_put (a : Arena) (index : Nat) (i : Identifier) (k : Nat) :
    (a.put index i).slots[k]? =
      if index = k then a.slots[k]?.map fun s => { s with content := i } else a.slots[k]? := by
  simp only [put, Array.getElem?_modify]

@[simp] theorem free_put (a : Arena) (index : Nat) (i : Identifier) :
    (a.put index i).free = a.free := rfl

@[simp] theorem inUse_put {a : Arena} {index : Nat} {i : Identifier} {h : Handle} :
    (a.put index i).InUse h ↔ a.InUse h := by
  unfold InUse
  rw [slots_put, free_put]
  split
  · cases a.slots[h.index]? <;> simp
  · rfl

theorem get?_put_of_ne {a : Arena} {index : Nat} {i : Identifier} {h : Handle}
    (hne : index ≠ h.index) : (a.put index i).get? h = a.get? h := by
  unfold get?
  rw [slots_put, if_neg hne]

theorem get?_put_self {a : Arena} {h : Handle} (hl : a.IsLive h) {i : Identifier}
    (hi : i.role ≠ .invalid) : (a.put h.index i).get? h = some i := by
  obtain ⟨old, hold⟩ := isLive_iff.mp hl
  obtain ⟨s, hs, hgen, -, -⟩ := get?_eq_some_iff.mp hold
  rw [get?_eq_some_iff]
  exact ⟨{ s with content := i }, by simp [slots_put, hs], hgen, hi, rfl⟩

/-- Behind an overwritten handle is the new identifier or nothing. -/
theorem eq_of_get?_put {a : Arena} {h : Handle} (hl : a.IsLive h) {i j : Identifier}
    (hj : (a.put h.index i).get? h = some j) : j = i := by
  obtain ⟨old, hold⟩ := isLive_iff.mp hl
  obtain ⟨s, hs, -, -, -⟩ := get?_eq_some_iff.mp hold
  obtain ⟨s', hs', -, -, rfl⟩ := get?_eq_some_iff.mp hj
  simp only [slots_put, hs, if_true, Option.map_some, Option.some.injEq] at hs'
  rw [← hs']

/-- Overwriting what a live handle refers to is seen through no other handle. -/
theorem get?_put_of_ne_handle {a : Arena} (ha : a.Tidy) {h h' : Handle} (hl : a.IsLive h)
    (hne : h' ≠ h) {i : Identifier} : (a.put h.index i).get? h' = a.get? h' := by
  by_cases hindex : h.index = h'.index
  · -- another generation of the slot refers to nothing, before and after
    have dead : ∀ b : Arena, b.InUse h → b.Tidy → b.get? h' = none := by
      intro b hb hbt
      rw [← not_isLive_iff]
      intro hl'
      exact hne ((hbt.inUse hl').eq_of_index hb hindex.symm)
    obtain ⟨old, hold⟩ := isLive_iff.mp hl
    obtain ⟨s, hs, hgen, -, -⟩ := get?_eq_some_iff.mp hold
    rw [dead a (ha.inUse hl) ha, ← not_isLive_iff]
    intro hl'
    obtain ⟨j, hj⟩ := isLive_iff.mp hl'
    obtain ⟨s', hs', hgen', -, -⟩ := get?_eq_some_iff.mp hj
    rw [slots_put, if_pos hindex, ← hindex, hs] at hs'
    obtain ⟨index, generation⟩ := h
    obtain ⟨index', generation'⟩ := h'
    simp only [Option.map_some, Option.some.injEq] at hs'
    subst hs'
    simp_all
  · exact get?_put_of_ne hindex

theorem isLive_put {a : Arena} (ha : a.Tidy) {h : Handle} (hl : a.IsLive h) {i : Identifier}
    (hi : i.role ≠ .invalid) {k : Handle} (hk : a.IsLive k) : (a.put h.index i).IsLive k := by
  by_cases heq : k = h
  · rw [heq]
    exact isLive_of_get? (get?_put_self hl hi)
  · rwa [IsLive, get?_put_of_ne_handle ha hl heq]

theorem Tidy.put {a : Arena} (ha : a.Tidy) {h : Handle} (hl : a.IsLive h) (i : Identifier) :
    (a.put h.index i).Tidy := by
  obtain ⟨hzero, hfree, -⟩ := ha.inUse hl
  refine ⟨ha.nodup, ?_, ha.sentinel.1, ?_⟩
  · intro index hindex
    rw [slots_put, if_neg (by rintro rfl; exact hfree hindex)]
    exact ha.vacant index hindex
  · rw [slots_put, if_neg hzero]
    exact ha.sentinel.2

/-! ## Adding -/

/-- The two ways of adding an identifier: to the slot freed last, or to a new one. -/
theorem push_cases {a : Arena} (ha : a.Tidy) (i : Identifier) :
    (∃ index free s, a.free = index :: free ∧ a.slots[index]? = some s ∧
        s.content.role = .invalid ∧
        a.push i = (⟨index, s.generation⟩, { a with free }.put index i)) ∨
      (a.free = [] ∧ a.push i = (⟨a.slots.size, 0⟩, { a with slots := a.slots.push ⟨i, 0⟩ })) := by
  cases hfree : a.free with
  | nil => exact .inr ⟨rfl, by simp [push, hfree]⟩
  | cons index free =>
    obtain ⟨s, hs, hrole⟩ := ha.vacant index (by simp [hfree])
    exact .inl ⟨index, free, s, rfl, hs, hrole, by simp [push, hfree, hs]⟩

theorem inUse_push {a : Arena} (ha : a.Tidy) (i : Identifier) {h : Handle} :
    (a.push i).2.InUse h ↔ h = (a.push i).1 ∨ a.InUse h := by
  have hzero := ha.sentinel.1
  have hnodup := ha.nodup
  obtain ⟨index, generation⟩ := h
  rcases push_cases ha i with ⟨k, free, s, hfree, hs, -, heq⟩ | ⟨hfree, heq⟩
  · rw [heq, inUse_put]
    simp only [InUse, hfree, Handle.mk.injEq, List.mem_cons, not_or] at hzero hnodup ⊢
    grind
  · obtain ⟨-, s, hs, -⟩ := ha.sentinel
    have hsize : 0 < a.slots.size := (Array.getElem?_eq_some_iff.mp hs).1
    rw [heq]
    simp only [InUse, hfree, Handle.mk.injEq, Array.getElem?_push, List.not_mem_nil,
      not_false_eq_true, true_and]
    grind

/-- The handle of a new identifier was not in use before. -/
theorem not_inUse_push {a : Arena} (ha : a.Tidy) (i : Identifier) : ¬ a.InUse (a.push i).1 := by
  rcases push_cases ha i with ⟨k, free, s, hfree, hs, -, heq⟩ | ⟨hfree, heq⟩
  · simp [heq, InUse, hfree]
  · simp [heq, InUse]

theorem not_isLive_push {a : Arena} (ha : a.Tidy) (i : Identifier) : ¬ a.IsLive (a.push i).1 :=
  fun hl => not_inUse_push ha i (ha.inUse hl)

theorem get?_push_self {a : Arena} (ha : a.Tidy) {i : Identifier} (hi : i.role ≠ .invalid) :
    (a.push i).2.get? (a.push i).1 = some i := by
  rw [get?_eq_some_iff]
  rcases push_cases ha i with ⟨k, free, s, hfree, hs, -, heq⟩ | ⟨hfree, heq⟩
  · exact ⟨{ s with content := i }, by simp [heq, slots_put, hs], by simp [heq], hi, rfl⟩
  · exact ⟨⟨i, 0⟩, by simp [heq], by simp [heq], hi, rfl⟩

/-- Behind the handle of a new identifier is that identifier or nothing. -/
theorem eq_of_get?_push {a : Arena} (ha : a.Tidy) {i j : Identifier}
    (hj : (a.push i).2.get? (a.push i).1 = some j) : j = i := by
  obtain ⟨s, hs, -, -, rfl⟩ := get?_eq_some_iff.mp hj
  rcases push_cases ha i with ⟨k, free, t, hfree, ht, -, heq⟩ | ⟨hfree, heq⟩
  · rw [heq] at hs
    simp only [slots_put, ht, if_true, Option.map_some, Option.some.injEq] at hs
    rw [← hs]
  · rw [heq] at hs
    simp only [Array.getElem?_push_size, Option.some.injEq] at hs
    rw [← hs]

theorem get?_push_of_ne {a : Arena} (ha : a.Tidy) (i : Identifier) {h : Handle}
    (hne : h ≠ (a.push i).1) : (a.push i).2.get? h = a.get? h := by
  obtain ⟨index, generation⟩ := h
  rcases push_cases ha i with ⟨k, free, s, hfree, hs, hrole, heq⟩ | ⟨hfree, heq⟩
  · rw [heq] at hne ⊢
    unfold get?
    rw [slots_put]
    simp only [ne_eq, Handle.mk.injEq, not_and] at hne ⊢
    by_cases hk : k = index
    · subst hk
      simp only [if_true, hs, Option.map_some]
      grind
    · simp [hk]
  · rw [heq] at hne ⊢
    unfold get?
    simp only [ne_eq, Handle.mk.injEq, not_and, Array.getElem?_push] at hne ⊢
    by_cases hk : index = a.slots.size
    · simp [hk]
      grind
    · simp [hk]

theorem isLive_push_self {a : Arena} (ha : a.Tidy) {i : Identifier} (hi : i.role ≠ .invalid) :
    (a.push i).2.IsLive (a.push i).1 :=
  isLive_of_get? (get?_push_self ha hi)

theorem get?_push_of_isLive {a : Arena} (ha : a.Tidy) (i : Identifier) {h : Handle}
    (hl : a.IsLive h) : (a.push i).2.get? h = a.get? h :=
  get?_push_of_ne ha i fun heq => not_isLive_push ha i (heq ▸ hl)

theorem isLive_push {a : Arena} (ha : a.Tidy) (i : Identifier) {h : Handle} (hl : a.IsLive h) :
    (a.push i).2.IsLive h := by
  rwa [IsLive, get?_push_of_isLive ha i hl]

theorem Tidy.push {a : Arena} (ha : a.Tidy) (i : Identifier) : (a.push i).2.Tidy := by
  obtain ⟨hzero, z, hz, hzrole⟩ := ha.sentinel
  rcases push_cases ha i with ⟨k, free, s, hfree, hs, hrole, heq⟩ | ⟨hfree, heq⟩
  · have hnodup := ha.nodup
    rw [hfree] at hnodup hzero
    obtain ⟨hk, hnodup⟩ := List.nodup_cons.mp hnodup
    rw [heq]
    refine ⟨hnodup, ?_, fun hmem => hzero (List.mem_cons_of_mem k hmem), z, ?_, hzrole⟩
    · intro index hindex
      rw [slots_put, if_neg (by rintro rfl; exact hk hindex)]
      exact ha.vacant index (by simp [hfree, show index ∈ free from hindex])
    · rw [slots_put, if_neg (by rintro rfl; simp at hzero)]
      exact hz
  · have hsize : 0 < a.slots.size := (Array.getElem?_eq_some_iff.mp hz).1
    rw [heq]
    refine ⟨ha.nodup, ?_, hzero, z, ?_, hzrole⟩
    · intro index hindex
      simp [hfree] at hindex
    · rw [Array.getElem?_push, if_neg (by omega), hz]

/-- Adding an identifier takes one slot more: a new one, or one off the free list. -/
theorem size_push {a : Arena} (ha : a.Tidy) (i : Identifier) :
    (a.push i).2.slots.size + a.free.length = a.slots.size + (a.push i).2.free.length + 1 := by
  rcases push_cases ha i with ⟨k, free, s, hfree, hs, -, heq⟩ | ⟨hfree, heq⟩
  · simp [heq, hfree, Arena.put]
    omega
  · simp [heq, hfree]

theorem Full.push {a : Arena} (ha : a.Tidy) (hf : a.Full) {i : Identifier}
    (hi : i.role ≠ .invalid) : (a.push i).2.Full := by
  intro h hu
  rcases (inUse_push ha i).mp hu with rfl | hu
  · exact isLive_of_get? (get?_push_self ha hi)
  · have hl := hf h hu
    rwa [IsLive, get?_push_of_isLive ha i hl]

theorem Full.put {a : Arena} (ha : a.Tidy) (hf : a.Full) {h : Handle} (hl : a.IsLive h)
    {i : Identifier} (hi : i.role ≠ .invalid) : (a.put h.index i).Full := by
  intro h' hu
  rw [inUse_put] at hu
  by_cases heq : h' = h
  · rw [heq]
    exact isLive_of_get? (get?_put_self hl hi)
  · rw [IsLive, get?_put_of_ne_handle ha hl heq]
    exact hf h' hu

/-! ## Destroying -/

theorem destroy?_of_isLive {a : Arena} {h : Handle} (hl : a.IsLive h) :
    a.destroy? h = some {
      slots := a.slots.modify h.index fun s => ⟨.invalid, s.generation + 1⟩
      free := h.index :: a.free } := by
  obtain ⟨i, hi⟩ := isLive_iff.mp hl
  simp [destroy?, hi]

section Destroyed

variable {a b : Arena} {h : Handle}

theorem not_isLive_of_destroy?_eq_none (hb : a.destroy? h = none) : ¬ a.IsLive h :=
  fun hl => by simp [destroy?_of_isLive hl] at hb

theorem destroy?_isLive (hb : a.destroy? h = some b) : a.IsLive h := by
  cases hi : a.get? h with
  | some i => exact isLive_of_get? hi
  | none => simp [destroy?, hi] at hb

theorem slots_destroy? (hb : a.destroy? h = some b) (k : Nat) :
    b.slots[k]? = if h.index = k then a.slots[k]?.map fun s => ⟨.invalid, s.generation + 1⟩
      else a.slots[k]? := by
  rw [destroy?_of_isLive (destroy?_isLive hb)] at hb
  cases hb
  simp only [Array.getElem?_modify]

theorem free_destroy? (hb : a.destroy? h = some b) : b.free = h.index :: a.free := by
  rw [destroy?_of_isLive (destroy?_isLive hb)] at hb
  cases hb
  rfl

theorem size_destroy? (hb : a.destroy? h = some b) : b.slots.size = a.slots.size := by
  rw [destroy?_of_isLive (destroy?_isLive hb)] at hb
  cases hb
  simp

theorem inUse_destroy? (ha : a.Tidy) (hb : a.destroy? h = some b) {h' : Handle} :
    b.InUse h' ↔ a.InUse h' ∧ h' ≠ h := by
  have hu := ha.inUse (destroy?_isLive hb)
  by_cases heq : h' = h
  · simp [heq, InUse, free_destroy? hb]
  · have hne : a.InUse h' → h.index ≠ h'.index := fun hu' hindex =>
      heq (hu'.eq_of_index hu hindex.symm)
    unfold InUse at hne ⊢
    rw [free_destroy? hb, slots_destroy? hb]
    grind

/-- Nothing is left in the slot that was freed. -/
theorem get?_destroy?_of_index_eq (hb : a.destroy? h = some b) {h' : Handle}
    (hindex : h.index = h'.index) : b.get? h' = none := by
  unfold get?
  rw [slots_destroy? hb, if_pos hindex]
  cases a.slots[h'.index]? <;> simp [Identifier.invalid]

theorem get?_destroy?_of_index_ne (hb : a.destroy? h = some b) {h' : Handle}
    (hindex : h.index ≠ h'.index) : b.get? h' = a.get? h' := by
  unfold get?
  rw [slots_destroy? hb, if_neg hindex]

theorem get?_destroy? (ha : a.Tidy) (hb : a.destroy? h = some b) (h' : Handle) :
    b.get? h' = if h' = h then none else a.get? h' := by
  have hl := destroy?_isLive hb
  by_cases hindex : h.index = h'.index
  · rw [get?_destroy?_of_index_eq hb hindex]
    split
    · rfl
    · next hne =>
      -- before, only `h` referred to something in the slot
      symm
      rw [← not_isLive_iff]
      intro hl'
      exact hne ((ha.inUse hl').eq_of_index (ha.inUse hl) hindex.symm)
  · rw [if_neg (by rintro rfl; exact hindex rfl), get?_destroy?_of_index_ne hb hindex]

theorem Tidy.destroy? (ha : a.Tidy) (hb : a.destroy? h = some b) : b.Tidy := by
  obtain ⟨hzero, hfree, s, hs, -⟩ := ha.inUse (destroy?_isLive hb)
  refine ⟨?_, ?_, ?_, ?_⟩
  · rw [free_destroy? hb]
    exact List.nodup_cons.mpr ⟨hfree, ha.nodup⟩
  · intro index hindex
    rw [free_destroy? hb, List.mem_cons] at hindex
    rw [slots_destroy? hb]
    rcases hindex with rfl | hindex
    · exact ⟨_, by simp [hs]; rfl, rfl⟩
    · rw [if_neg (by rintro rfl; exact hfree hindex)]
      exact ha.vacant index hindex
  · rw [free_destroy? hb]
    simp [ha.sentinel.1, Ne.symm hzero]
  · rw [slots_destroy? hb, if_neg hzero]
    exact ha.sentinel.2

end Destroyed

/-- Destroying handles one after the other, in whichever order, leaves nothing behind them, and
changes nothing behind any other handle. -/
theorem get?_destroyAll {a : Arena} (ha : a.Tidy) (hs : List Handle) (h : Handle) :
    (a.destroyAll hs).2.get? h = if h ∈ hs then none else a.get? h := by
  induction hs generalizing a with
  | nil => simp [destroyAll]
  | cons k hs ih =>
    cases hb : a.destroy? k with
    | some b =>
      rw [destroyAll, hb, ih (ha.destroy? hb), get?_destroy? ha hb]
      grind
    | none =>
      have hk := not_isLive_iff.mp (not_isLive_of_destroy?_eq_none hb)
      simp only [destroyAll, hb, ih ha]
      grind

theorem Tidy.destroyAll {a : Arena} (ha : a.Tidy) (hs : List Handle) :
    (a.destroyAll hs).2.Tidy := by
  induction hs generalizing a with
  | nil => exact ha
  | cons k hs ih =>
    cases hb : a.destroy? k with
    | some b => rw [Arena.destroyAll, hb]; exact ih (ha.destroy? hb)
    | none => simp only [Arena.destroyAll, hb]; exact ih ha

theorem inUse_destroyAll {a : Arena} (ha : a.Tidy) (hs : List Handle) {h : Handle} :
    (a.destroyAll hs).2.InUse h ↔ a.InUse h ∧ ¬ (h ∈ hs ∧ a.IsLive h) := by
  induction hs generalizing a with
  | nil => simp [destroyAll]
  | cons k hs ih =>
    cases hb : a.destroy? k with
    | some b =>
      have hl := destroy?_isLive hb
      rw [destroyAll, hb, ih (ha.destroy? hb), inUse_destroy? ha hb, IsLive, IsLive,
        get?_destroy? ha hb]
      rw [IsLive] at hl
      by_cases heq : h = k
      · simp [heq, hl]
      · simp [heq]
    | none =>
      have hk := not_isLive_of_destroy?_eq_none hb
      simp only [destroyAll, hb, ih ha, List.mem_cons]
      grind

theorem Full.destroyAll {a : Arena} (ha : a.Tidy) (hf : a.Full) (hs : List Handle) :
    (a.destroyAll hs).2.Full := by
  intro h hu
  rw [inUse_destroyAll ha] at hu
  have hl := hf h hu.1
  rw [IsLive, get?_destroyAll ha, if_neg fun hmem => hu.2 ⟨hmem, hl⟩]
  exact hl

/-- Distinct live handles are destroyed without an error, and as many slots become free. -/
theorem destroyAll_of_isLive {a : Arena} (ha : a.Tidy) {hs : List Handle} (hnodup : hs.Nodup)
    (hl : ∀ h ∈ hs, a.IsLive h) :
    (a.destroyAll hs).1 = none ∧ (a.destroyAll hs).2.slots.size = a.slots.size ∧
      (a.destroyAll hs).2.free.length = a.free.length + hs.length := by
  induction hs generalizing a with
  | nil => simp [destroyAll]
  | cons k hs ih =>
    obtain ⟨hk, hnodup⟩ := List.nodup_cons.mp hnodup
    cases hb : a.destroy? k with
    | some b =>
      have hlive : ∀ h ∈ hs, b.IsLive h := by
        intro h hmem
        rw [IsLive, get?_destroy? ha hb, if_neg (by rintro rfl; exact hk hmem)]
        exact hl h (List.mem_cons_of_mem k hmem)
      obtain ⟨hnone, hsize, hfree⟩ := ih (ha.destroy? hb) hnodup hlive
      rw [destroyAll, hb]
      refine ⟨hnone, hsize.trans (size_destroy? hb), ?_⟩
      rw [hfree, free_destroy? hb, List.length_cons, List.length_cons]
      omega
    | none => simp [destroy?_of_isLive (hl k (by simp))] at hb

/-! ## What is added -/

/-- Behind every handle is what was there before, or an identifier that meets a condition. -/
def Adds (P : Identifier → Prop) (a b : Arena) : Prop :=
  ∀ h i, b.get? h = some i → a.get? h = some i ∨ P i

/-- Every identifier of the arena meets a condition. -/
def All (P : Identifier → Prop) (a : Arena) : Prop :=
  ∀ h i, a.get? h = some i → P i

section Adds

variable {P : Identifier → Prop} {a b c : Arena}

theorem Adds.refl (P : Identifier → Prop) (a : Arena) : Adds P a a := fun _ _ hi => .inl hi

theorem Adds.trans (h : Adds P a b) (h' : Adds P b c) : Adds P a c := by
  intro k i hi
  rcases h' k i hi with hi | hi
  · exact h k i hi
  · exact .inr hi

/-- What all identifiers have in common, and those that are added as well, they go on to have in
common. -/
theorem All.of_adds (hall : a.All P) (h : Adds P a b) : b.All P := by
  intro k i hi
  rcases h k i hi with hi | hi
  · exact hall k i hi
  · exact hi

theorem Adds.imp {Q : Identifier → Prop} (h : Adds P a b) (himp : ∀ i, P i → Q i) : Adds Q a b :=
  fun k i hi => (h k i hi).imp_right (himp i)

theorem adds_push (ha : a.Tidy) {i : Identifier} (hi : P i) : Adds P a (a.push i).2 := by
  intro h j hj
  by_cases heq : h = (a.push i).1
  · rw [heq] at hj
    rw [eq_of_get?_push ha hj]
    exact .inr hi
  · rw [get?_push_of_ne ha i heq] at hj
    exact .inl hj

theorem adds_put (ha : a.Tidy) {h : Handle} (hl : a.IsLive h) {i : Identifier} (hi : P i) :
    Adds P a (a.put h.index i) := by
  intro k j hj
  by_cases heq : k = h
  · rw [heq] at hj
    rw [eq_of_get?_put hl hj]
    exact .inr hi
  · rw [get?_put_of_ne_handle ha hl heq] at hj
    exact .inl hj

theorem adds_destroyAll (ha : a.Tidy) (hs : List Handle) : Adds P a (a.destroyAll hs).2 := by
  intro h i hi
  rw [get?_destroyAll ha] at hi
  split at hi
  · contradiction
  · exact .inl hi

theorem All.push (ha : a.Tidy) (hall : a.All P) {i : Identifier} (hi : P i) :
    (a.push i).2.All P :=
  hall.of_adds (adds_push ha hi)

theorem All.put (ha : a.Tidy) (hall : a.All P) {h : Handle} (hl : a.IsLive h) {i : Identifier}
    (hi : P i) : (a.put h.index i).All P :=
  hall.of_adds (adds_put ha hl hi)

end Adds

/-! ## The empty arena -/

theorem tidy_empty : empty.Tidy where
  nodup := by simp [empty]
  vacant := by simp [empty]
  sentinel := by simp [empty, Identifier.invalid]

theorem not_inUse_empty (h : Handle) : ¬ empty.InUse h := by
  rintro ⟨hzero, -, s, hs, -⟩
  have hlt : h.index < 1 := (Array.getElem?_eq_some_iff.mp hs).1
  omega

theorem all_empty (P : Identifier → Prop) : empty.All P := fun h _ hi =>
  absurd (tidy_empty.inUse (isLive_of_get? hi)) (not_inUse_empty h)

theorem full_empty : empty.Full :=
  fun h hu => absurd hu (not_inUse_empty h)

end Arena

end WordScript
