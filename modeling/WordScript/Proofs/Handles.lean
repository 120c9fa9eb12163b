import WordScript.Proofs.Arena

/-!
# Handles are never given out twice

From outside an arena is known by what it answers. Its answers have effects: an identifier gets a
handle, another identifier is stored under a handle, or a handle is freed. The effects so far
describe a map from handles to identifiers in which every handle that is given out is a new one,
and the arena is that map: it answers for the handles that were given out and not freed since, with
what was stored under them last, and for no others. The generations of a slot are counted in 32
bits, so a slot must not be freed so often that they start again.
-/

namespace WordScript

namespace Arena

/-! ## Requests and their effects -/

/-- What can be asked of an arena. An update gets hold of an identifier and makes anything of it. -/
inductive Request where
  | push (i : Identifier)
  | get (h : Handle)
  | update (h : Handle) (f : Identifier → Identifier)
  | replace (h : Handle) (i : Identifier)
  | destroy (h : Handle)

/-- The handle that a request is about; an identifier that is added has none yet. -/
def Request.handle? : Request → Option Handle
  | push _ => none
  | get h | update h _ | replace h _ | destroy h => some h

/-- What an arena can answer. -/
inductive Answer where
  | handle (h : Handle)
  | identifier (i : Identifier)
  | done
  | refused
deriving DecidableEq

/-- Carries out a request. -/
def serve (a : Arena) : Request → Answer × Arena
  | .push i => (.handle (a.push i).1, (a.push i).2)
  | .get h =>
    match a.get? h with
    | some i => (.identifier i, a)
    | none => (.refused, a)
  | .update h f =>
    match a.get? h with
    | some i => (.identifier i, a.put h.index (f i))
    | none => (.refused, a)
  | .replace h i =>
    match a.replace? h i with
    | some b => (.done, b)
    | none => (.refused, a)
  | .destroy h =>
    match a.destroy? h with
    | some b => (.done, b)
    | none => (.refused, a)

/-- Overwriting a payload is an update of the identifier. -/
theorem serve_setValue (a : Arena) (h : Handle) (value : Value) :
    (a.serve (.update h fun i => { i with value })).2 = (a.setValue? h value).getD a := by
  simp only [serve, setValue?]
  cases a.get? h <;> rfl

/-- What a request has changed in the map from handles to identifiers. -/
inductive Effect where
  | given (h : Handle) (i : Identifier)
  | stored (h : Handle) (i : Identifier)
  | freed (h : Handle)
deriving DecidableEq

/-- The identifier that has been stored. -/
def Effect.identifier? : Effect → Option Identifier
  | given _ i | stored _ i => some i
  | freed _ => none

/-- The handle that has been given out. -/
def Effect.given? : Effect → Option Handle
  | given h _ => some h
  | stored _ _ | freed _ => none

/-- Whether the slot of an index has been freed. -/
def Effect.frees (index : Nat) : Effect → Bool
  | freed h => h.index = index
  | given _ _ | stored _ _ => false

/-- The effect of a request that got an answer, if it had one. -/
def effect? : Request → Answer → Option Effect
  | .push i, .handle h => some (.given h i)
  | .update h f, .identifier i => some (.stored h (f i))
  | .replace h i, .done => some (.stored h i)
  | .destroy h, .done => some (.freed h)
  | _, _ => none

/-- An arena that was empty at first, and the effects of all that has been asked of it since, the
last one first. -/
inductive Run : List Effect → Arena → Prop where
  | empty : Run [] empty
  | serve {past : List Effect} {a : Arena} (h : Run past a) (r : Request) :
      Run ((effect? r (a.serve r).1).toList ++ past) (a.serve r).2

/-- All handles that have been given out. -/
def given (past : List Effect) : List Handle :=
  past.filterMap Effect.given?

/-- How often the slot of an index has been freed. -/
def timesFreed (index : Nat) (past : List Effect) : Nat :=
  past.countP (Effect.frees index)

/-- The identifier stored last under a handle that has not been freed since. -/
def latest (h : Handle) : List Effect → Option Identifier
  | [] => none
  | .given k i :: past | .stored k i :: past => if k = h then some i else latest h past
  | .freed k :: past => if k = h then none else latest h past

/-- The handle was given out, and has not been freed since. -/
def Outstanding (h : Handle) (past : List Effect) : Prop :=
  ∃ since i before, past = since ++ .given h i :: before ∧ .freed h ∉ since

/-- The arena is the map that its past describes. -/
structure IsMap (past : List Effect) (a : Arena) : Prop where
  /-- No handle is given out twice. -/
  nodup_given : (given past).Nodup
  /-- A request about a handle succeeds when the handle was given out and not freed since. -/
  succeeds : ∀ r h, r.handle? = some h → ((a.serve r).1 ≠ .refused ↔ Outstanding h past)
  /-- What is behind a handle is what was stored under it last. -/
  get : ∀ h i, (a.serve (.get h)).1 = .identifier i ↔ latest h past = some i
  /-- What is updated is what was stored under the handle last. -/
  update : ∀ h f i, (a.serve (.update h f)).1 = .identifier i ↔ latest h past = some i
  /-- No request changes what is behind a handle that it is not about. -/
  others : ∀ r k, r.handle? ≠ some k → (a.serve r).1 ≠ .handle k →
    (a.serve r).2.get? k = a.get? k
  /-- A request that is refused changes nothing. -/
  refused : ∀ r, (a.serve r).1 = .refused → (a.serve r).2 = a
  /-- No slot is free twice. -/
  nodup_free : a.free.Nodup
  /-- The free slots are those that nothing is in, but for the first one. -/
  mem_free : ∀ index, index ∈ a.free ↔
    index ≠ 0 ∧ index < a.capacity ∧ ∀ generation, ¬ a.IsLive ⟨index, generation⟩

/-! ## What a request can do -/

section Served

variable {a : Arena}

/-- A request adds an identifier, stores another one under a live handle, frees a live handle, or
does nothing. -/
theorem serve_cases (a : Arena) (r : Request) :
    (∃ i, r = .push i ∧ a.serve r = (.handle (a.push i).1, (a.push i).2)) ∨
    (∃ h i, r.handle? = some h ∧ a.IsLive h ∧ (a.serve r).1 ≠ .refused ∧
      effect? r (a.serve r).1 = some (.stored h i) ∧ (a.serve r).2 = a.put h.index i) ∨
    (∃ h b, r = .destroy h ∧ a.destroy? h = some b ∧ a.serve r = (.done, b)) ∨
    (∃ h, r.handle? = some h ∧ ((a.serve r).1 ≠ .refused ↔ a.IsLive h) ∧
      effect? r (a.serve r).1 = none ∧ (a.serve r).2 = a) := by
  cases r with
  | push i => exact .inl ⟨i, rfl, rfl⟩
  | get h =>
    refine .inr (.inr (.inr ⟨h, rfl, ?_⟩))
    simp only [serve, IsLive]
    cases a.get? h <;> simp [effect?]
  | update h f =>
    cases hi : a.get? h with
    | some i => exact .inr (.inl ⟨h, f i, rfl, by simp [serve, IsLive, effect?, hi]⟩)
    | none => exact .inr (.inr (.inr ⟨h, rfl, by simp [serve, IsLive, effect?, hi]⟩))
  | replace h j =>
    cases hi : a.get? h with
    | some i => exact .inr (.inl ⟨h, j, rfl, by simp [serve, replace?, IsLive, effect?, hi]⟩)
    | none => exact .inr (.inr (.inr ⟨h, rfl, by simp [serve, replace?, IsLive, effect?, hi]⟩))
  | destroy h =>
    cases hb : a.destroy? h with
    | some b => exact .inr (.inr (.inl ⟨h, b, rfl, hb, by simp [serve, hb]⟩))
    | none =>
      have hl := not_isLive_of_destroy?_eq_none hb
      exact .inr (.inr (.inr ⟨h, rfl, by simp [serve, effect?, hb, hl]⟩))

/-- A request about a handle succeeds when the handle is live. -/
theorem serve_ne_refused_iff {r : Request} {h : Handle} (hr : r.handle? = some h) :
    (a.serve r).1 ≠ .refused ↔ a.IsLive h := by
  rcases serve_cases a r with
    ⟨i, rfl, -⟩ | ⟨k, i, hk, hl, hne, -⟩ | ⟨k, b, rfl, hb, hserve⟩ | ⟨k, hk, hiff, -⟩
  · cases hr
  · obtain rfl := Option.some.inj (hr.symm.trans hk)
    exact iff_of_true hne hl
  · cases hr
    exact iff_of_true (by simp [hserve]) (destroy?_isLive hb)
  · obtain rfl := Option.some.inj (hr.symm.trans hk)
    exact hiff

theorem serve_of_refused {r : Request} (h : (a.serve r).1 = .refused) : (a.serve r).2 = a := by
  rcases serve_cases a r with
    ⟨i, rfl, -⟩ | ⟨k, i, -, -, hne, -⟩ | ⟨k, b, rfl, -, hserve⟩ | ⟨k, -, -, -, hsame⟩
  · simp [serve] at h
  · exact absurd h hne
  · simp [hserve] at h
  · exact hsame

theorem Tidy.serve (ha : a.Tidy) (r : Request) : (a.serve r).2.Tidy := by
  rcases serve_cases a r with
    ⟨i, rfl, hserve⟩ | ⟨k, i, -, hl, -, -, hput⟩ | ⟨k, b, rfl, hb, hserve⟩ | ⟨k, -, -, -, hsame⟩
  · rw [hserve]
    exact ha.push i
  · rw [hput]
    exact ha.put hl i
  · rw [hserve]
    exact ha.destroy? hb
  · rwa [hsame]

/-- A request changes nothing behind a handle that it is not about. -/
theorem get?_serve (ha : a.Tidy) {r : Request} {k : Handle} (hk : r.handle? ≠ some k)
    (hnew : (a.serve r).1 ≠ .handle k) : (a.serve r).2.get? k = a.get? k := by
  rcases serve_cases a r with
    ⟨i, rfl, hserve⟩ | ⟨h, i, hh, hl, -, -, hput⟩ | ⟨h, b, rfl, hb, hserve⟩ | ⟨h, -, -, -, hsame⟩
  · rw [hserve] at hnew ⊢
    exact get?_push_of_ne ha i fun heq => hnew (by rw [heq])
  · rw [hput]
    exact get?_put_of_ne_handle ha hl fun heq => hk (by rw [heq, hh])
  · rw [hserve, get?_destroy? ha hb, if_neg fun heq => hk (by rw [heq, Request.handle?])]
  · rw [hsame]

end Served

theorem Run.tidy {past : List Effect} {a : Arena} (h : Run past a) : a.Tidy := by
  induction h with
  | empty => exact tidy_empty
  | serve _ r ih => exact ih.serve r

/-! ## What the effects tell about the arena -/

/-- A handle is outstanding after one more effect when it has just been given out, or was
outstanding before and has not just been freed. -/
theorem outstanding_cons {h : Handle} {e : Effect} {past : List Effect} :
    Outstanding h (e :: past) ↔
      (∃ i, e = .given h i) ∨ (e ≠ .freed h ∧ Outstanding h past) := by
  constructor
  · rintro ⟨since, i, before, hpast, hfreed⟩
    cases since with
    | nil =>
      obtain ⟨rfl, -⟩ := List.cons.inj hpast
      exact .inl ⟨i, rfl⟩
    | cons e' since =>
      obtain ⟨rfl, rfl⟩ := List.cons.inj hpast
      rw [List.mem_cons, not_or] at hfreed
      exact .inr ⟨Ne.symm hfreed.1, since, i, before, rfl, hfreed.2⟩
  · rintro (⟨i, rfl⟩ | ⟨hne, since, i, before, rfl, hfreed⟩)
    · exact ⟨[], i, past, rfl, by simp⟩
    · refine ⟨e :: since, i, before, rfl, ?_⟩
      rw [List.mem_cons, not_or]
      exact ⟨Ne.symm hne, hfreed⟩

/-- What the effects so far have to do with the slots of the arena: the identifiers behind the
handles, and the generations, which count how often a slot has been freed. A handle that was given
out has a generation that its slot has had, and no longer has when it is free. -/
structure Records (past : List Effect) (a : Arena) : Prop where
  tidy : a.Tidy
  full : a.Full
  get? : ∀ h, a.get? h = latest h past
  outstanding : ∀ h, a.IsLive h ↔ Outstanding h past
  unused : ∀ index, a.slots.size ≤ index → timesFreed index past = 0
  generation : ∀ (index : Nat) (s : Slot), a.slots[index]? = some s →
    s.generation = .ofNat (timesFreed index past)
  given : ∀ h ∈ given past, h.index < a.slots.size ∧
    ∃ n, h.generation = .ofNat n ∧ n ≤ timesFreed h.index past ∧
      (h.index ∈ a.free → n < timesFreed h.index past)

section Records

variable {past : List Effect} {a b : Arena} {h : Handle} {i : Identifier}

theorem records_empty : Records [] empty where
  tidy := tidy_empty
  full := full_empty
  get? h := not_isLive_iff.mp fun hl => not_inUse_empty h (tidy_empty.inUse hl)
  outstanding h := by
    refine iff_of_false (fun hl => not_inUse_empty h (tidy_empty.inUse hl)) ?_
    rintro ⟨since, i, before, hpast, -⟩
    simp at hpast
  unused _ _ := rfl
  generation index s hs := by
    cases index with
    | zero => cases hs; rfl
    | succ index => simp [empty] at hs
  given h hh := by simp [Arena.given] at hh

/-- Adding an identifier leaves the generations alone; a new slot starts with the first one. -/
theorem generation_push (ha : a.Tidy) {index : Nat} {s : Slot}
    (hs : (a.push i).2.slots[index]? = some s) :
    (∃ t, a.slots[index]? = some t ∧ s.generation = t.generation) ∨
      (index = a.slots.size ∧ s.generation = 0) := by
  rcases push_cases ha i with ⟨k, free, t, -, ht, -, heq⟩ | ⟨-, heq⟩
  · rw [heq, slots_put] at hs
    split at hs
    · obtain ⟨t, ht, rfl⟩ := Option.map_eq_some_iff.mp hs
      exact .inl ⟨t, ht, rfl⟩
    · exact .inl ⟨s, hs, rfl⟩
  · rw [heq, Array.getElem?_push] at hs
    split at hs
    · next hsize =>
      cases hs
      exact .inr ⟨hsize, rfl⟩
    · exact .inl ⟨s, hs, rfl⟩

/-- A new identifier gets a free slot, which is free no longer, or else a slot of its own. -/
theorem index_push (ha : a.Tidy) (i : Identifier) :
    ((a.push i).1.index ∈ a.free ∨ (a.push i).1.index = a.slots.size) ∧
      a.slots.size ≤ (a.push i).2.slots.size ∧ (a.push i).2.free ⊆ a.free := by
  rcases push_cases ha i with ⟨k, free, t, hfree, -, -, heq⟩ | ⟨hfree, heq⟩
  · simp [heq, hfree, Arena.put]
  · simp [heq]

theorem Records.generation_push (h : Records past a) {index : Nat} {s : Slot}
    (hs : (a.push i).2.slots[index]? = some s) : s.generation = .ofNat (timesFreed index past) := by
  rcases Arena.generation_push h.tidy hs with ⟨t, ht, heq⟩ | ⟨rfl, hzero⟩
  · rw [heq, h.generation index t ht]
  · rw [hzero, h.unused _ (Nat.le_refl _)]
    rfl

/-- A new handle has the present generation of its slot. -/
theorem Records.handle_push (h : Records past a) (i : Identifier) :
    (a.push i).1.index < (a.push i).2.slots.size ∧ (a.push i).1.index ∉ (a.push i).2.free ∧
      (a.push i).1.generation = .ofNat (timesFreed (a.push i).1.index past) := by
  obtain ⟨-, hfree, s, hs, hgen⟩ := (inUse_push h.tidy i).mpr (.inl rfl)
  exact ⟨(Array.getElem?_eq_some_iff.mp hs).1, hfree, by rw [← hgen, h.generation_push hs]⟩

theorem Records.push (h : Records past a) (hi : i.role ≠ .invalid) :
    Records (.given (a.push i).1 i :: past) (a.push i).2 := by
  obtain ⟨-, hsize, hfree⟩ := index_push h.tidy i
  refine ⟨h.tidy.push i, h.full.push h.tidy hi, ?_, ?_, ?_,
    fun index s hs => h.generation_push hs, ?_⟩
  · intro k
    rw [latest]
    split
    · next heq => rw [← heq, get?_push_self h.tidy hi]
    · next hne => rw [get?_push_of_ne h.tidy i (Ne.symm hne), h.get?]
  · intro k
    rw [outstanding_cons, ← h.outstanding]
    by_cases heq : k = (a.push i).1
    · subst heq
      exact iff_of_true (isLive_push_self h.tidy hi) (.inl ⟨i, rfl⟩)
    · have hne : ¬ ∃ j, Effect.given (a.push i).1 i = .given k j := by
        rintro ⟨j, heq'⟩
        cases heq'
        exact heq rfl
      simp only [IsLive, get?_push_of_ne h.tidy i heq, hne, false_or, ne_eq, reduceCtorEq,
        not_false_eq_true, true_and]
  · exact fun index hindex => h.unused index (Nat.le_trans hsize hindex)
  · intro k hk
    rcases List.mem_cons.mp hk with rfl | hk
    · obtain ⟨hlt, hnotFree, hgen⟩ := h.handle_push i
      exact ⟨hlt, _, hgen, Nat.le_refl _, fun hf => absurd hf hnotFree⟩
    · obtain ⟨hlt, n, hgen, hle, hold⟩ := h.given k hk
      exact ⟨Nat.lt_of_lt_of_le hlt hsize, n, hgen, hle, fun hf => hold (hfree hf)⟩

theorem Records.put (h : Records past a) {k : Handle} (hl : a.IsLive k) (hi : i.role ≠ .invalid) :
    Records (.stored k i :: past) (a.put k.index i) where
  tidy := h.tidy.put hl i
  full := h.full.put h.tidy hl hi
  get? j := by
    rw [latest]
    split
    · next heq => rw [← heq, get?_put_self hl hi]
    · next hne => rw [get?_put_of_ne_handle h.tidy hl (Ne.symm hne), h.get?]
  outstanding j := by
    rw [outstanding_cons, ← h.outstanding]
    by_cases heq : j = k
    · subst heq
      exact iff_of_true (isLive_put h.tidy hl hi hl) (.inr ⟨by simp, hl⟩)
    · simp [IsLive, get?_put_of_ne_handle h.tidy hl heq]
  unused index hindex := by
    rw [Arena.put, Array.size_modify] at hindex
    exact h.unused index hindex
  generation index s hs := by
    rw [slots_put] at hs
    split at hs
    · obtain ⟨t, ht, rfl⟩ := Option.map_eq_some_iff.mp hs
      exact h.generation index t ht
    · exact h.generation index s hs
  given j hj := by
    rw [Arena.put, Array.size_modify]
    exact h.given j hj

theorem timesFreed_freed (index : Nat) (k : Handle) (past : List Effect) :
    timesFreed index (.freed k :: past) =
      timesFreed index past + if k.index = index then 1 else 0 := by
  simp [timesFreed, List.countP_cons, Effect.frees]

theorem Records.destroy? (h : Records past a) {k : Handle} (hb : a.destroy? k = some b) :
    Records (.freed k :: past) b where
  tidy := h.tidy.destroy? hb
  full := by
    intro j hj
    obtain ⟨hj, hne⟩ := (inUse_destroy? h.tidy hb).mp hj
    rw [IsLive, get?_destroy? h.tidy hb, if_neg hne]
    exact h.full j hj
  get? j := by
    rw [latest, get?_destroy? h.tidy hb, h.get?]
    simp only [eq_comm]
  outstanding j := by
    rw [outstanding_cons, ← h.outstanding, IsLive, IsLive, get?_destroy? h.tidy hb]
    by_cases heq : j = k
    · simp [heq]
    · simp [heq, Ne.symm heq]
  unused index hindex := by
    have hlt : k.index < a.slots.size := by
      obtain ⟨-, -, s, hs, -⟩ := h.tidy.inUse (destroy?_isLive hb)
      exact (Array.getElem?_eq_some_iff.mp hs).1
    rw [size_destroy? hb] at hindex
    rw [timesFreed_freed, h.unused index hindex, if_neg (by omega)]
  generation index s hs := by
    rw [slots_destroy? hb] at hs
    rw [timesFreed_freed]
    split at hs
    · next heq =>
      obtain ⟨t, ht, rfl⟩ := Option.map_eq_some_iff.mp hs
      rw [if_pos heq, h.generation index t ht, UInt32.ofNat_add]
      rfl
    · next hne =>
      rw [if_neg hne]
      exact h.generation index s hs
  given j hj := by
    obtain ⟨hlt, n, hgen, hle, hold⟩ := h.given j hj
    rw [size_destroy? hb, free_destroy? hb, timesFreed_freed, List.mem_cons]
    refine ⟨hlt, n, hgen, by omega, ?_⟩
    rintro (heq | hfree)
    · rw [if_pos heq.symm]
      omega
    · have := hold hfree
      omega

end Records

theorem Run.records {past : List Effect} {a : Arena} (h : Run past a)
    (hvalid : ∀ e ∈ past, ∀ i ∈ e.identifier?, i.role ≠ .invalid) : Records past a := by
  induction h with
  | empty => exact records_empty
  | @serve past a _ r ih =>
    have hpast := ih fun e he => hvalid e (List.mem_append_right _ he)
    rcases serve_cases a r with
      ⟨i, rfl, hserve⟩ | ⟨k, i, -, hl, -, heffect, hput⟩ | ⟨k, b, rfl, hb, hserve⟩ |
        ⟨k, -, -, heffect, hsame⟩
    · rw [hserve] at hvalid ⊢
      exact hpast.push (hvalid _ (List.mem_cons_self) i rfl)
    · rw [heffect] at hvalid ⊢
      rw [hput]
      exact hpast.put hl (hvalid _ (List.mem_cons_self) i rfl)
    · rw [hserve]
      exact hpast.destroy? hb
    · rw [heffect, hsame]
      exact hpast

/-! ## The arena is a map -/

section Map

variable {past : List Effect} {a : Arena}

/-- A handle that is given out is a new one while its slot has not been freed so often that the
generations start again. -/
theorem Records.fresh (h : Records past a) (i : Identifier)
    (hwear : ∀ index, timesFreed index past < UInt32.size) : (a.push i).1 ∉ Arena.given past := by
  intro hmem
  obtain ⟨hlt, n, hgen, hle, hold⟩ := h.given _ hmem
  obtain ⟨hindex, -⟩ := index_push h.tidy i
  obtain ⟨-, -, hpresent⟩ := h.handle_push i
  -- the generation is the present one, which the slot has only had since it was freed last
  have hn : n = timesFreed (a.push i).1.index past := by
    have hlast := hwear (a.push i).1.index
    have heq := congrArg UInt32.toNat (hgen.symm.trans hpresent)
    rw [UInt32.toNat_ofNat_of_lt' (Nat.lt_of_le_of_lt hle hlast),
      UInt32.toNat_ofNat_of_lt' hlast] at heq
    exact heq
  rcases hindex with hfree | hsize
  · have := hold hfree
    omega
  · omega

theorem timesFreed_le_append (index : Nat) (new past : List Effect) :
    timesFreed index past ≤ timesFreed index (new ++ past) := by
  simp [timesFreed, List.countP_append]

theorem Run.nodup_given (h : Run past a)
    (hvalid : ∀ e ∈ past, ∀ i ∈ e.identifier?, i.role ≠ .invalid)
    (hwear : ∀ index, timesFreed index past < UInt32.size) : (Arena.given past).Nodup := by
  induction h with
  | empty => exact List.nodup_nil
  | @serve past a hrun r ih =>
    have hpast := fun e he => hvalid e (List.mem_append_right _ he)
    have hworn := fun index =>
      Nat.lt_of_le_of_lt (timesFreed_le_append index _ past) (hwear index)
    have hnodup := ih hpast hworn
    rcases serve_cases a r with
      ⟨i, rfl, hserve⟩ | ⟨k, i, -, -, -, heffect, -⟩ | ⟨k, b, rfl, -, hserve⟩ |
        ⟨k, -, -, heffect, -⟩
    · rw [hserve]
      exact List.nodup_cons.mpr ⟨(hrun.records hpast).fresh i hworn, hnodup⟩
    · rw [heffect]
      exact hnodup
    · rw [hserve]
      exact hnodup
    · rw [heffect]
      exact hnodup

theorem mem_free_iff (ha : a.Tidy) (hf : a.Full) (index : Nat) : index ∈ a.free ↔
    index ≠ 0 ∧ index < a.capacity ∧ ∀ generation, ¬ a.IsLive ⟨index, generation⟩ := by
  constructor
  · intro hfree
    obtain ⟨s, hs, hrole⟩ := ha.vacant index hfree
    refine ⟨by rintro rfl; exact ha.sentinel.1 hfree, (Array.getElem?_eq_some_iff.mp hs).1, ?_⟩
    intro generation hl
    obtain ⟨-, hnotFree, -⟩ := ha.inUse hl
    exact hnotFree hfree
  · rintro ⟨hzero, hlt, hdead⟩
    apply Decidable.byContradiction
    intro hfree
    exact hdead a.slots[index].generation
      (hf _ ⟨hzero, hfree, a.slots[index], Array.getElem?_eq_getElem hlt, rfl⟩)

/-- Whatever an arena that was empty has been asked, it is a map from the handles that it has given
out, which are all different, to what was stored under them last. No identifier that stands for an
empty slot may have been stored, and no slot freed so often that its generations, which have 32
bits, start again. -/
theorem isMap_of_run (h : Run past a)
    (hvalid : ∀ e ∈ past, ∀ i ∈ e.identifier?, i.role ≠ .invalid)
    (hwear : ∀ index, timesFreed index past < UInt32.size) : IsMap past a := by
  have hrecords := h.records hvalid
  refine ⟨h.nodup_given hvalid hwear, ?_, ?_, ?_, ?_, ?_, hrecords.tidy.nodup, ?_⟩
  · intro r k hk
    rw [serve_ne_refused_iff hk, hrecords.outstanding]
  · intro k i
    rw [← hrecords.get?, serve]
    cases a.get? k <;> simp
  · intro k f i
    rw [← hrecords.get?, serve]
    cases a.get? k <;> simp
  · exact fun r k hk hnew => get?_serve hrecords.tidy hk hnew
  · exact fun r hr => serve_of_refused hr
  · exact mem_free_iff hrecords.tidy hrecords.full

/-- A slot is freed and used again. Its first handle is refused from then on, though the second one
refers to the same slot. -/
theorem isMap_of_run_reused :
    ∃ past a, Run past a ∧ (a.serve (.get ⟨1, 0⟩)).1 = .refused ∧
      (a.serve (.get ⟨1, 1⟩)).1 = .identifier (.name "y" 0) ∧ IsMap past a := by
  have hrun := ((Run.empty.serve (.push (.name "x" 0))).serve (.destroy ⟨1, 0⟩)).serve
    (.push (.name "y" 0))
  refine ⟨_, _, hrun, by decide, by decide, isMap_of_run hrun (by decide) fun index => ?_⟩
  exact Nat.lt_of_le_of_lt List.countP_le_length (by decide)

end Map

end Arena

end WordScript
