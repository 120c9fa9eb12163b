import WordScript.Proofs.Arena
import WordScript.Proofs.Leaves
import WordScript.Statement.Reading

/-!
# What a text is read into

A reader does nothing to the arena but push identifiers, and it loses none of them: the leaves of
what has been read so far, from left to right, are the handles of the identifiers pushed so far.
So the leaves of a statement that a text is read into are exactly the handles that reading it gave
out, in the same order. Each of them is a constant or a name that nothing is declared under yet.
-/

namespace WordScript

/-- A computation that gives a result has given one half-way. -/
theorem exists_of_bind_ok {ε α β : Type} {x : Except ε α} {f : α → Except ε β} {b : β}
    (h : x >>= f = .ok b) : ∃ a, x = .ok a ∧ f a = .ok b := by
  cases x with
  | error e => cases h
  | ok a => exact ⟨a, rfl, h⟩

namespace Identifier

/-- The constants that programs write, and that operations give. -/
inductive IsLiteral : Identifier → Prop where
  | int (n : Int64) : IsLiteral (.int n)
  | double (x : Number.Double) : IsLiteral (.double x)
  | bool (b : Bool) : IsLiteral (.bool b)
  | string (text : String) : IsLiteral (.string text)

/-- The identifiers that a program text is read into. -/
inductive IsWritten : Identifier → Prop where
  | name (word : String) : IsWritten (.name word 0)
  | literal {i : Identifier} (hi : i.IsLiteral) : IsWritten i

theorem IsLiteral.role {i : Identifier} (hi : i.IsLiteral) : i.role = .constant := by
  cases hi <;> rfl

theorem IsWritten.role {i : Identifier} (hi : i.IsWritten) :
    i.role = .constant ∨ i.role = .undefined := by
  cases hi with
  | name word => exact .inr rfl
  | literal hi => exact .inl hi.role

theorem IsWritten.scope {i : Identifier} (hi : i.IsWritten) : i.scope = 0 := by
  rcases hi with _ | ⟨_ | _ | _ | _⟩ <;> rfl

/-- The identifier is not one of those that stand for an empty slot. -/
def IsValid (i : Identifier) : Prop := i.role ≠ .invalid

theorem IsLiteral.isValid {i : Identifier} (hi : i.IsLiteral) : i.IsValid := by
  simp [IsValid, hi.role]

theorem IsWritten.isValid {i : Identifier} (hi : i.IsWritten) : i.IsValid := by
  unfold IsValid
  rcases hi.role with h | h <;> simp [h]

theorem isLiteral_ofNumber (x : Number.Double) : (ofNumber x).IsLiteral := by
  unfold ofNumber
  split
  · split
    · exact .int _
    · exact .double x
  · exact .double x

theorem isWritten_ofWord (word : String) : (ofWord word).IsWritten := by
  unfold ofWord
  split
  · exact .literal (.int _)
  · split
    · exact .literal (isLiteral_ofNumber _)
    · exact .name word

end Identifier

namespace Arena

/-- Adds identifiers one after the other, and gives the handles that refer to them. -/
def pushAll (a : Arena) : List Identifier → List Handle × Arena
  | [] => ([], a)
  | i :: is =>
    let (h, a) := a.push i
    let (hs, a) := a.pushAll is
    (h :: hs, a)

theorem pushAll_cons (a : Arena) (i : Identifier) (is : List Identifier) :
    a.pushAll (i :: is) =
      ((a.push i).1 :: ((a.push i).2.pushAll is).1, ((a.push i).2.pushAll is).2) := rfl

theorem pushAll_append (a : Arena) (is js : List Identifier) :
    a.pushAll (is ++ js) =
      ((a.pushAll is).1 ++ ((a.pushAll is).2.pushAll js).1, ((a.pushAll is).2.pushAll js).2) := by
  induction is generalizing a with
  | nil => rfl
  | cons i is ih => simp only [List.cons_append, pushAll_cons, ih]

/-- Behind the handles of an arena with more identifiers are those from before and the new ones. -/
theorem get?_pushAll {a : Arena} (ha : a.Tidy) {is : List Identifier} {h : Handle} {i : Identifier}
    (hi : (a.pushAll is).2.get? h = some i) :
    a.get? h = some i ∨ (h ∈ (a.pushAll is).1 ∧ i ∈ is) := by
  induction is generalizing a with
  | nil => exact .inl hi
  | cons j is ih =>
    rw [pushAll_cons] at hi ⊢
    rcases ih (ha.push j) hi with hj | ⟨hh, hmem⟩
    · by_cases heq : h = (a.push j).1
      · subst heq
        obtain rfl := eq_of_get?_push ha hj
        exact .inr ⟨List.mem_cons_self, List.mem_cons_self⟩
      · rw [get?_push_of_ne ha j heq] at hj
        exact .inl hj
    · exact .inr ⟨List.mem_cons_of_mem _ hh, List.mem_cons_of_mem _ hmem⟩

theorem Tidy.pushAll {a : Arena} (ha : a.Tidy) (is : List Identifier) : (a.pushAll is).2.Tidy := by
  induction is generalizing a with
  | nil => exact ha
  | cons i is ih => exact ih (ha.push i)

theorem InUse.pushAll {a : Arena} (ha : a.Tidy) (is : List Identifier) {h : Handle}
    (hu : a.InUse h) : (a.pushAll is).2.InUse h := by
  induction is generalizing a with
  | nil => exact hu
  | cons i is ih => exact ih (ha.push i) ((inUse_push ha i).mpr (.inr hu))

/-- The handles of new identifiers were not in use before. -/
theorem not_inUse_pushAll {a : Arena} (ha : a.Tidy) {is : List Identifier} {h : Handle}
    (hh : h ∈ (a.pushAll is).1) : ¬ a.InUse h := by
  induction is generalizing a with
  | nil => cases hh
  | cons j is ih =>
    rw [pushAll_cons] at hh
    rcases List.mem_cons.mp hh with rfl | hh
    · exact not_inUse_push ha j
    · intro hu
      exact ih (ha.push j) hh ((inUse_push ha j).mpr (.inr hu))

end Arena

namespace Reader

/-- The leaves of all that has been read so far, from left to right. -/
def leaves (r : Reader) : List Handle :=
  r.root.leaves ++ r.blocks.reverse.flatMap (·.block.leaves) ++ r.line.leaves ++
    r.groups.reverse.flatMap (·.contents.leaves)

/-- The identifiers have been added to the arena, and their handles to the leaves. -/
def Adds (is : List Identifier) (r r' : Reader) : Prop :=
  r'.arena = (r.arena.pushAll is).2 ∧ r'.leaves = r.leaves ++ (r.arena.pushAll is).1

theorem Adds.refl (r : Reader) : Adds [] r r :=
  ⟨rfl, (List.append_nil _).symm⟩

theorem Adds.trans {is js : List Identifier} {r r' r'' : Reader} (h : Adds is r r')
    (h' : Adds js r' r'') : Adds (is ++ js) r r'' := by
  obtain ⟨harena, hleaves⟩ := h
  obtain ⟨harena', hleaves'⟩ := h'
  rw [harena] at harena' hleaves'
  refine ⟨?_, ?_⟩
  · rw [Arena.pushAll_append, harena']
  · rw [Arena.pushAll_append, hleaves', hleaves, List.append_assoc]

/-- Nothing is added when the leaves are only put somewhere else. -/
theorem adds_nil {r r' : Reader} (harena : r'.arena = r.arena) (hleaves : r'.leaves = r.leaves) :
    Adds [] r r' :=
  ⟨harena, hleaves.trans (List.append_nil _).symm⟩

/-- One identifier is added. -/
theorem adds_one {r r' : Reader} {i : Identifier} (harena : r'.arena = (r.arena.push i).2)
    (hleaves : r'.leaves = r.leaves ++ [(r.arena.push i).1]) : Adds [i] r r' :=
  ⟨harena, hleaves⟩

/-- Two readers that have read the same, each into an arena of its own. -/
structure Alike (r r' : Reader) : Prop where
  word : r.word = r'.word
  line : r.line.SameShape r'.line
  groups : List.Forall₂ (fun g g' => g.contents.SameShape g'.contents ∧ g.opener = g'.opener ∧
    g.span = g'.span) r.groups r'.groups
  root : r.root.SameShape r'.root
  blocks : List.Forall₂ (fun b b' => b.block.SameShape b'.block ∧ b.span = b'.span)
    r.blocks r'.blocks
  afterQuote : r.afterQuote = r'.afterQuote

/-- What a step of reading adds for two readers that have read the same, whether it goes on or
stops: the same identifiers, such as a text writes. When it goes on their handles are the new
leaves, and the two have again read the same. -/
def Extends (r r' : Reader) : Except Refusal Reader → Except Refusal Reader → Prop
  | .ok t, .ok t' => Alike t t' ∧
      ∃ is, (∀ i ∈ is, i.IsWritten) ∧ Adds is r t ∧ Adds is r' t'
  | .error refusal, .error refusal' =>
      refusal.fault = refusal'.fault ∧ refusal.span = refusal'.span ∧
      ∃ is, (∀ i ∈ is, Identifier.IsWritten i) ∧
        refusal.arena = (r.arena.pushAll is).2 ∧ refusal'.arena = (r'.arena.pushAll is).2
  | _, _ => False

section Extends

variable {r r' t t' : Reader} {x x' : Except Refusal Reader} {is : List Identifier}

theorem Extends.of_adds (his : ∀ i ∈ is, i.IsWritten) (h : Adds is r t) (h' : Adds is r' t')
    (hx : Extends t t' x x') : Extends r r' x x' := by
  have written : ∀ js : List Identifier, (∀ i ∈ js, i.IsWritten) → ∀ i ∈ is ++ js, i.IsWritten := by
    intro js hjs i hi
    rcases List.mem_append.mp hi with hi | hi
    · exact his i hi
    · exact hjs i hi
  cases x with
  | ok u =>
    cases x' with
    | ok u' =>
      obtain ⟨halike, js, hjs, hadds, hadds'⟩ := hx
      exact ⟨halike, is ++ js, written js hjs, h.trans hadds, h'.trans hadds'⟩
    | error _ => exact hx.elim
  | error refusal =>
    cases x' with
    | ok _ => exact hx.elim
    | error refusal' =>
      obtain ⟨hfault, hspan, js, hjs, harena, harena'⟩ := hx
      refine ⟨hfault, hspan, is ++ js, written js hjs, ?_, ?_⟩
      · rw [Arena.pushAll_append, harena, h.1]
      · rw [Arena.pushAll_append, harena', h'.1]

theorem Extends.ok (halike : Alike t t') (his : ∀ i ∈ is, i.IsWritten) (h : Adds is r t)
    (h' : Adds is r' t') : Extends r r' (.ok t) (.ok t') :=
  ⟨halike, is, his, h, h'⟩

/-- Reading goes on without having added anything. -/
theorem Extends.moved (halike : Alike t t') (h : Adds [] r t) (h' : Adds [] r' t') :
    Extends r r' (.ok t) (.ok t') :=
  .ok halike (by simp) h h'

theorem Extends.refuse {fault fault' : SyntaxFault} {span span' : Span} (hfault : fault = fault')
    (hspan : span = span') : Extends r r' (r.refuse fault span) (r'.refuse fault' span') :=
  ⟨hfault, hspan, [], by simp, rfl, rfl⟩

theorem Extends.bind {f f' : Reader → Except Refusal Reader} (h : Extends r r' x x')
    (hf : ∀ t t', Alike t t' → Extends t t' (f t) (f' t')) :
    Extends r r' (x >>= f) (x' >>= f') := by
  cases x with
  | ok t =>
    cases x' with
    | ok t' =>
      obtain ⟨halike, is, his, hadds, hadds'⟩ := h
      exact .of_adds his hadds hadds' (hf t t' halike)
    | error _ => exact h.elim
  | error _ =>
    cases x' with
    | ok _ => exact h.elim
    | error _ => exact h

end Extends

/-! ## Putting expressions and statements where they belong -/

section Places

variable {r r' : Reader} {e e' : Expression} {s s' : Statement}

theorem Alike.addExpression (h : Alike r r') (he : e.SameShape e') :
    Alike (r.addExpression e) (r'.addExpression e') := by
  obtain ⟨arena, word, line, groups, root, blocks, quote⟩ := r
  obtain ⟨arena', word', line', groups', root', blocks', quote'⟩ := r'
  obtain ⟨hword, hline, hgroups, hroot, hblocks, hquote⟩ := h
  cases hgroups with
  | nil => exact ⟨hword, hline.push he, .nil, hroot, hblocks, hquote⟩
  | cons hg hgs => exact ⟨hword, hline, .cons ⟨hg.1.push he, hg.2⟩ hgs, hroot, hblocks, hquote⟩

theorem leaves_addExpression (r : Reader) (e : Expression) :
    (r.addExpression e).leaves = r.leaves ++ e.leaves := by
  unfold addExpression leaves
  split
  · next hgroups => simp [hgroups]
  · next g gs hgroups => simp [hgroups]

theorem arena_addExpression (r : Reader) (e : Expression) :
    (r.addExpression e).arena = r.arena := by
  unfold addExpression
  split <;> rfl

@[simp] theorem word_addExpression (r : Reader) (e : Expression) :
    (r.addExpression e).word = r.word := by
  unfold addExpression
  split <;> rfl

@[simp] theorem blocks_addExpression (r : Reader) (e : Expression) :
    (r.addExpression e).blocks = r.blocks := by
  unfold addExpression
  split <;> rfl

@[simp] theorem afterQuote_addExpression (r : Reader) (e : Expression) :
    (r.addExpression e).afterQuote = r.afterQuote := by
  unfold addExpression
  split <;> rfl

@[simp] theorem word_addLeaf (r : Reader) (i : Identifier) : (r.addLeaf i).word = r.word :=
  word_addExpression _ _

theorem Alike.newLeaf (h : Alike r r') (i : Identifier) :
    (r.newLeaf i).1.SameShape (r'.newLeaf i).1 ∧ Alike (r.newLeaf i).2 (r'.newLeaf i).2 :=
  ⟨.leaf trivial, h.word, h.line, h.groups, h.root, h.blocks, h.afterQuote⟩

theorem Alike.addLeaf (h : Alike r r') (i : Identifier) : Alike (r.addLeaf i) (r'.addLeaf i) :=
  (h.newLeaf i).2.addExpression (h.newLeaf i).1

theorem adds_addLeaf (r : Reader) (i : Identifier) : Adds [i] r (r.addLeaf i) := by
  refine adds_one ?_ ?_
  · exact arena_addExpression _ _
  · exact leaves_addExpression _ _

/-- The expression in front is taken off both readers or neither. -/
theorem Alike.takeExpression? (h : Alike r r') :
    Option.Rel (fun p p' => p.1.SameShape p'.1 ∧ Alike p.2 p'.2) r.takeExpression?
      r'.takeExpression? := by
  obtain ⟨arena, word, line, groups, root, blocks, quote⟩ := r
  obtain ⟨arena', word', line', groups', root', blocks', quote'⟩ := r'
  obtain ⟨hword, hline, hgroups, hroot, hblocks, hquote⟩ := h
  cases hgroups with
  | nil =>
    rcases optionRel_cases hline.pop? with ⟨hp, hp'⟩ | ⟨p, p', hp, hp', he, hrest⟩ <;>
      simp only [Reader.takeExpression?, hp, hp']
    · exact .none
    · exact .some ⟨he, hword, hrest, .nil, hroot, hblocks, hquote⟩
  | cons hg hgs =>
    rcases optionRel_cases hg.1.pop? with ⟨hp, hp'⟩ | ⟨p, p', hp, hp', he, hrest⟩ <;>
      simp only [Reader.takeExpression?, hp, hp']
    · exact .none
    · exact .some ⟨he, hword, hline, .cons ⟨hrest, hg.2⟩ hgs, hroot, hblocks, hquote⟩

theorem word_takeExpression? (h : r.takeExpression? = some (e, r')) : r'.word = r.word := by
  unfold Reader.takeExpression? at h
  split at h <;> split at h <;> cases h <;> rfl

/-- The expression is the last one that was read: identifiers were added for it, or none if it is
taken back. -/
structure Takes (is : List Identifier) (r : Reader) (e : Expression) (t : Reader) : Prop where
  arena : t.arena = (r.arena.pushAll is).2
  leaves : t.leaves ++ e.leaves = r.leaves ++ (r.arena.pushAll is).1

theorem takes_takeExpression? (h : r.takeExpression? = some (e, r')) : Takes [] r e r' := by
  unfold Reader.takeExpression? at h
  split at h
  · next hgroups =>
    split at h
    · next e line hpop =>
      cases h
      refine ⟨rfl, ?_⟩
      simp [leaves, hgroups, Expression.leaves_pop? hpop, Arena.pushAll]
    · contradiction
  · next g gs hgroups =>
    split at h
    · next e contents hpop =>
      cases h
      refine ⟨rfl, ?_⟩
      simp [leaves, hgroups, Expression.leaves_pop? hpop, Arena.pushAll]
    · contradiction

theorem Alike.addStatement (h : Alike r r') (hs : s.SameShape s') :
    Alike (r.addStatement s) (r'.addStatement s') := by
  obtain ⟨arena, word, line, groups, root, blocks, quote⟩ := r
  obtain ⟨arena', word', line', groups', root', blocks', quote'⟩ := r'
  obtain ⟨hword, hline, hgroups, hroot, hblocks, hquote⟩ := h
  cases hblocks with
  | nil => exact ⟨hword, hline, hgroups, hroot.push hs, .nil, hquote⟩
  | cons hb hbs => exact ⟨hword, hline, hgroups, hroot, .cons ⟨hb.1.push hs, hb.2⟩ hbs, hquote⟩

/-- A statement that is added comes before the line and the open groups. -/
theorem leaves_addStatement (r : Reader) (s : Statement) (hgroups : r.groups = [])
    (hline : r.line.leaves = []) : (r.addStatement s).leaves = r.leaves ++ s.leaves := by
  unfold addStatement leaves
  split
  · next hblocks => simp [hgroups, hblocks, hline]
  · next b bs hblocks => simp [hgroups, hblocks, hline]

theorem arena_addStatement (r : Reader) (s : Statement) : (r.addStatement s).arena = r.arena := by
  unfold addStatement
  split <;> rfl

@[simp] theorem word_addStatement (r : Reader) (s : Statement) :
    (r.addStatement s).word = r.word := by
  unfold addStatement
  split <;> rfl

end Places

/-! ## Tokens -/

section Tokens

variable {r r' : Reader}

theorem Alike.endWord (h : Alike r r') : Alike r.endWord r'.endWord := by
  have hended : Alike { r with word := none } { r' with word := none } :=
    ⟨rfl, h.line, h.groups, h.root, h.blocks, h.afterQuote⟩
  unfold Reader.endWord
  rw [← h.word]
  split
  · next word _ => exact hended.addLeaf (.ofWord word)
  · exact h

@[simp] theorem word_endWord (r : Reader) : r.endWord.word = none := by
  unfold Reader.endWord
  split
  · exact word_addLeaf _ _
  · assumption

theorem afterQuote_endWord (r : Reader) : r.endWord.afterQuote = r.afterQuote := by
  unfold Reader.endWord
  split
  · exact afterQuote_addExpression _ _
  · rfl

/-- The identifiers that ending the word adds. -/
def pending (r : Reader) : List Identifier :=
  match r.word with
  | some word => [.ofWord word]
  | none => []

theorem isWritten_of_mem_pending : ∀ i ∈ r.pending, i.IsWritten := by
  unfold pending
  split
  · next word _ => simpa using Identifier.isWritten_ofWord word
  · simp

theorem adds_endWord (r : Reader) : Adds r.pending r r.endWord := by
  unfold Reader.endWord pending
  cases r.word with
  | some word => exact adds_addLeaf { r with word := none } (.ofWord word)
  | none => exact .refl r

theorem Extends.of_endWord {x x' : Except Refusal Reader} (halike : Alike r r')
    (h : Alike r.endWord r'.endWord → Extends r.endWord r'.endWord x x') : Extends r r' x x' := by
  have hpending : r.pending = r'.pending := by
    unfold pending
    rw [halike.word]
  have hadds := adds_endWord r'
  rw [← hpending] at hadds
  exact .of_adds isWritten_of_mem_pending (adds_endWord r) hadds (h halike.endWord)

theorem Alike.openGroup {e e' : Expression} (h : Alike r r') (he : e.SameShape e') (opener : Opener)
    (span : Span) : Alike (r.openGroup e opener span) (r'.openGroup e' opener span) :=
  ⟨h.word, h.line, .cons ⟨he, rfl, rfl⟩ h.groups, h.root, h.blocks, h.afterQuote⟩

theorem adds_openGroup (r : Reader) (opener : Opener) (span : Span) :
    Adds [] r (r.openGroup (.group []) opener span) :=
  adds_nil rfl (by simp [openGroup, leaves, Expression.leaves, Expression.leavesOf])

/-- What stands in a group that is closed is added in its place. -/
theorem adds_closed {g : OpenGroup} {gs : List OpenGroup} (hgroups : r.groups = g :: gs) :
    Adds [] r ({ r with groups := gs }.addExpression g.contents) := by
  refine adds_nil ?_ ?_
  · exact arena_addExpression _ _
  · rw [leaves_addExpression]
    simp [leaves, hgroups]

theorem extends_closeGroup (h : Alike r r') (opener : Opener) (span : Span) :
    Extends r r' (r.closeGroup opener span) (r'.closeGroup opener span) := by
  rcases forall₂_cases h.groups with
    ⟨hg, hg'⟩ | ⟨g, gs, g', gs', hg, hg', ⟨hcontents, hopener, -⟩, hrest⟩ <;>
    simp only [closeGroup, hg, hg']
  · exact .refuse rfl rfl
  · rw [hopener]
    split
    · refine .moved (Alike.addExpression ?_ hcontents) (adds_closed hg) (adds_closed hg')
      exact ⟨h.word, h.line, hrest, h.root, h.blocks, h.afterQuote⟩
    · exact .refuse rfl rfl

/-- An index takes the expression before it into its group, so that its leaves stay the last ones
until the operator and the arguments follow. -/
theorem Takes.adds {is : List Identifier} {e : Expression} {t : Reader} (h : Takes is r e t)
    (span : Span) :
    Adds (is ++ [.ofWord indexWord]) r
      (((t.newLeaf (.ofWord indexWord)).2.openGroup
        (.group [e, (t.newLeaf (.ofWord indexWord)).1]) .index span).openGroup
          (.group []) .arguments span) := by
  refine ⟨?_, ?_⟩
  · rw [Arena.pushAll_append, ← h.arena]
    rfl
  · rw [Arena.pushAll_append, ← h.arena, ← List.append_assoc, ← h.leaves]
    simp [Reader.leaves, Reader.openGroup, newLeaf, Expression.leaves, Expression.leavesOf,
      Arena.pushAll]

theorem extends_openIndex (h : Alike r r') (span : Span) :
    Extends r r' (r.openIndex span) (r'.openIndex span) := by
  -- the expression in front is the last one read: a word that ends here, or one taken back
  have indexed : ∀ {is : List Identifier} {e e' : Expression} {t t' : Reader},
      (∀ i ∈ is, i.IsWritten) → e.SameShape e' → Alike t t' → Takes is r e t → Takes is r' e' t' →
      Extends r r'
        (.ok (((t.newLeaf (.ofWord indexWord)).2.openGroup
          (.group [e, (t.newLeaf (.ofWord indexWord)).1]) .index span).openGroup
            (.group []) .arguments span))
        (.ok (((t'.newLeaf (.ofWord indexWord)).2.openGroup
          (.group [e', (t'.newLeaf (.ofWord indexWord)).1]) .index span).openGroup
            (.group []) .arguments span)) := by
    intro is e e' t t' his he ht htakes htakes'
    obtain ⟨hleaf, ht⟩ := ht.newLeaf (.ofWord indexWord)
    have hindex := ht.openGroup (.group (.cons he (.cons hleaf .nil))) .index span
    refine .ok (hindex.openGroup (.group .nil) .arguments span) ?_ (htakes.adds span)
      (htakes'.adds span)
    intro i hi
    rcases List.mem_append.mp hi with hi | hi
    · exact his i hi
    · rw [List.mem_singleton.mp hi]
      exact Identifier.isWritten_ofWord indexWord
  unfold openIndex
  rw [← h.word]
  cases r.word with
  | some word =>
    have hended : Alike { r with word := none } { r' with word := none } :=
      ⟨rfl, h.line, h.groups, h.root, h.blocks, h.afterQuote⟩
    obtain ⟨hleaf, ht⟩ := hended.newLeaf (.ofWord word)
    have his : ∀ i ∈ [Identifier.ofWord word], i.IsWritten := by
      simpa using Identifier.isWritten_ofWord word
    exact indexed his hleaf ht ⟨rfl, rfl⟩ ⟨rfl, rfl⟩
  | none =>
    rcases optionRel_cases h.takeExpression? with
      ⟨hp, hp'⟩ | ⟨⟨e, t⟩, ⟨e', t'⟩, hp, hp', he, ht⟩ <;> simp only [hp, hp']
    · exact .refuse rfl rfl
    · exact indexed (by simp) he ht (takes_takeExpression? hp) (takes_takeExpression? hp')

/-- Where no group may be open, none is when reading goes on. -/
theorem closed_of_requireClosed {α : Type} {f : Reader → Except Refusal α} {a : α}
    (h : r.requireClosed >>= f = .ok a) : r.groups = [] ∧ f r = .ok a := by
  unfold requireClosed at h
  split at h
  · cases h
  · next hgroups => exact ⟨hgroups, h⟩

/-- What goes on only when no group is open, goes on from the same readers. -/
theorem extends_requireClosed {f f' : Reader → Except Refusal Reader} (h : Alike r r')
    (hf : r.groups = [] → r'.groups = [] → Extends r r' (f r) (f' r')) :
    Extends r r' (r.requireClosed >>= f) (r'.requireClosed >>= f') := by
  rcases forall₂_cases h.groups with
    ⟨hg, hg'⟩ | ⟨g, gs, g', gs', hg, hg', ⟨-, hopener, hspan⟩, -⟩ <;>
    simp only [requireClosed, hg, hg']
  · exact hf hg hg'
  · exact .refuse (by rw [hopener]) hspan

/-- The line becomes a statement. -/
theorem adds_line (hgroups : r.groups = []) :
    Adds [] r ({ r with line := .group [] }.addStatement (.line r.line)) := by
  refine adds_nil (arena_addStatement _ _) ((leaves_addStatement _ _ ?_ rfl).trans ?_)
  · exact hgroups
  · simp [leaves, hgroups, Expression.leaves, Expression.leavesOf]

theorem Alike.endLine (h : Alike r r') :
    Alike ({ r with line := .group [] }.addStatement (.line r.line))
      ({ r' with line := .group [] }.addStatement (.line r'.line)) :=
  Alike.addStatement ⟨h.word, .group .nil, h.groups, h.root, h.blocks, h.afterQuote⟩
    (Statement.alike_line h.line)

theorem extends_endLine (h : Alike r r') : Extends r r' r.endLine r'.endLine :=
  .of_endWord h fun h => extends_requireClosed h fun hgroups hgroups' =>
    .moved h.endLine (adds_line hgroups) (adds_line hgroups')

theorem adds_openBlock (hgroups : r.groups = []) (span : Span) :
    Adds [] r { r with line := .group [], blocks := ⟨.line r.line, span⟩ :: r.blocks } := by
  refine adds_nil rfl ?_
  simp [leaves, hgroups, Expression.leaves, Expression.leavesOf]

theorem extends_openBlock (h : Alike r r') (span : Span) :
    Extends r r' (r.openBlock span) (r'.openBlock span) := by
  refine .of_endWord h fun h => extends_requireClosed h fun hgroups hgroups' => ?_
  refine .moved ?_ (adds_openBlock hgroups span) (adds_openBlock hgroups' span)
  exact ⟨h.word, .group .nil, h.groups, h.root,
    .cons ⟨Statement.alike_line h.line, rfl⟩ h.blocks, h.afterQuote⟩

/-- The innermost block as it is when it is closed: what stands on the line is its last line. -/
theorem adds_closeBlock {b : OpenBlock} {bs : List OpenBlock} (hgroups : r.groups = [])
    (hblocks : r.blocks = b :: bs) :
    Adds [] r ({ r with line := .group [], blocks := bs }.addStatement
      (if r.line.isEmpty then b.block else b.block.push (.line r.line))) := by
  refine adds_nil (arena_addStatement _ _) ((leaves_addStatement _ _ ?_ rfl).trans ?_)
  · exact hgroups
  · split
    · next hempty =>
      simp [leaves, hgroups, hblocks, Expression.leaves_of_isEmpty hempty, Expression.leaves,
        Expression.leavesOf]
    · simp [leaves, hgroups, hblocks, Expression.leaves, Expression.leavesOf]

theorem extends_closeBlock (h : Alike r r') (span : Span) :
    Extends r r' (r.closeBlock span) (r'.closeBlock span) := by
  refine .of_endWord h fun h => extends_requireClosed h fun hgroups hgroups' => ?_
  rcases forall₂_cases h.blocks with
    ⟨hb, hb'⟩ | ⟨b, bs, b', bs', hb, hb', hblock, hrest⟩ <;> simp only [hb, hb']
  · exact .refuse rfl rfl
  · refine .moved ?_ (adds_closeBlock hgroups hb) (adds_closeBlock hgroups' hb')
    refine Alike.addStatement ⟨h.word, .group .nil, h.groups, h.root, hrest, h.afterQuote⟩ ?_
    rw [h.line.isEmpty]
    split
    · exact hblock.1
    · exact hblock.1.push (Statement.alike_line h.line)

theorem extends_readToken (h : Alike r r') (token : Token) (span : Span) :
    Extends r r' (r.readToken token span) (r'.readToken token span) := by
  have goesOn : ∀ {t t' : Reader}, Alike t t' → Extends t t' (.ok t) (.ok t') :=
    fun h => .moved h (.refl _) (.refl _)
  have addsToWord : ∀ text, Extends r r' (.ok (r.addToWord text)) (.ok (r'.addToWord text)) := by
    intro text
    refine .moved ⟨?_, h.line, h.groups, h.root, h.blocks, h.afterQuote⟩ (.refl r) (.refl r')
    simp only [addToWord, h.word]
  cases token with
  | word text => exact addsToWord text
  | escaped c => exact addsToWord c.toString
  | space => exact .of_endWord h goesOn
  | continuation => exact .of_endWord h goesOn
  | newline => exact extends_endLine h
  | quoted quote text =>
    refine .of_endWord h fun h => ?_
    have hleaf := h.addLeaf (.string text)
    have his : ∀ i ∈ [Identifier.string text], i.IsWritten := by
      simpa using Identifier.IsWritten.literal (.string text)
    refine .ok ?_ his (adds_addLeaf _ _) (adds_addLeaf _ _)
    exact ⟨hleaf.word, hleaf.line, hleaf.groups, hleaf.root, hleaf.blocks, rfl⟩
  | leftParen =>
    refine .of_endWord h fun h => ?_
    exact .moved (h.openGroup (.group .nil) _ _) (adds_openGroup _ _ _) (adds_openGroup _ _ _)
  | rightParen => exact .of_endWord h fun h => extends_closeGroup h _ _
  | leftBracket => exact extends_openIndex h span
  | rightBracket =>
    exact .of_endWord h fun h =>
      (extends_closeGroup h _ _).bind fun t t' h => extends_closeGroup h _ _
  | leftBrace => exact extends_openBlock h span
  | rightBrace => exact extends_closeBlock h span

/-! ## Texts -/

theorem extends_read (h : Alike r r') (l : Lexeme) : Extends r r' (r.read l) (r'.read l) := by
  unfold read
  rw [← h.afterQuote]
  split
  · split
    · have hlayout : Alike { r with afterQuote := none } { r' with afterQuote := none } :=
        ⟨h.word, h.line, h.groups, h.root, h.blocks, rfl⟩
      exact extends_readToken hlayout l.token l.span
    · exact .refuse rfl rfl
  · exact extends_readToken h l.token l.span

theorem extends_finish (h : Alike r r') : Extends r r' r.finish r'.finish := by
  refine .of_endWord h fun h => extends_requireClosed h fun hgroups hgroups' => ?_
  rcases forall₂_cases h.blocks with
    ⟨hb, hb'⟩ | ⟨b, bs, b', bs', hb, hb', hblock, -⟩
  · have hended := Extends.moved h.endLine (adds_line hgroups) (adds_line hgroups')
    simp only [hb, hb'] at hended ⊢
    rw [h.line.isEmpty]
    split
    · exact .moved h (.refl _) (.refl _)
    · exact hended
  · simp only [hb, hb']
    exact .refuse rfl hblock.2

theorem extends_foldlM (lexemes : List Lexeme) (h : Alike r r') :
    Extends r r' (lexemes.foldlM read r) (lexemes.foldlM read r') := by
  induction lexemes generalizing r r' with
  | nil => exact .moved h (.refl r) (.refl r')
  | cons l lexemes ih =>
    rw [List.foldlM_cons, List.foldlM_cons]
    exact (extends_read h l).bind fun t t' h => ih h

theorem extends_readAll (h : Alike r r') (lexemes : List Lexeme) :
    Extends r r' (r.readAll lexemes) (r'.readAll lexemes) :=
  (extends_foldlM lexemes h).bind fun _ _ h => extends_finish h

end Tokens

/-- A lexeme is read like its token, unless it is refused after a string. -/
theorem readToken_of_read {r t : Reader} {l : Lexeme} (h : r.read l = .ok t) :
    { r with afterQuote := none }.readToken l.token l.span = .ok t := by
  unfold read at h
  split at h
  · split at h
    · exact h
    · cases h
  · next hquote => rwa [← hquote]

theorem foldlM_read_concat (r : Reader) (ls : List Lexeme) (l : Lexeme) :
    (ls ++ [l]).foldlM read r = ls.foldlM read r >>= fun r => r.read l := by
  simp [List.foldlM_append]

/-- No word has begun, and the last token was not a string. -/
structure Ready (r : Reader) : Prop where
  word : r.word = none
  afterQuote : r.afterQuote = none

/-- Nothing stands on the line yet. -/
structure AtLine (r : Reader) : Prop extends r.Ready where
  groups : r.groups = []
  line : r.line = .group []

theorem AtLine.addStatement {r : Reader} (hr : r.AtLine) (s : Statement) :
    (r.addStatement s).AtLine := by
  unfold Reader.addStatement
  split
  · exact ⟨⟨hr.word, hr.afterQuote⟩, hr.groups, hr.line⟩
  · exact ⟨⟨hr.word, hr.afterQuote⟩, hr.groups, hr.line⟩

/-- When reading is done no group and no block is open, and nothing is left on the line. -/
theorem finish_closed {r r' : Reader} (h : r.finish = .ok r') :
    r'.groups = [] ∧ r'.blocks = [] ∧ r'.line.leaves = [] := by
  unfold finish requireClosed at h
  cases hgroups : r.endWord.groups with
  | cons g gs => simp [hgroups, refuse, bind, Except.bind] at h
  | nil =>
    simp only [hgroups, bind, Except.bind] at h
    split at h
    · contradiction
    · next hblocks =>
      split at h
      · next hempty =>
        cases h
        exact ⟨hgroups, hblocks, Expression.leaves_of_isEmpty hempty⟩
      · cases h
        simp [addStatement, hblocks, Expression.leaves, Expression.leavesOf]

/-- The leaves of a whole text are those of the statement that it is read into. -/
theorem leaves_readAll {r r' : Reader} {lexemes : List Lexeme} (h : r.readAll lexemes = .ok r') :
    r'.leaves = r'.root.leaves := by
  obtain ⟨last, -, hlast⟩ := exists_of_bind_ok h
  obtain ⟨hgroups, hblocks, hline⟩ := finish_closed hlast
  simp [leaves, hgroups, hblocks, hline]

end Reader

namespace Statement

/-- The identifiers that a text adds, in the order in which it is read: what it adds to an empty
arena. -/
def written (text : String) : List Identifier :=
  ((ofText text .empty).2.slots.toList.map Slot.content).tail

/-- Two readers of the same text add the same identifiers, and stop for the same reason, or come to
statements of the same shape whose leaves are the handles of all that was added. -/
theorem ofText_both (text : String) (a b : Arena) :
    ∃ is : List Identifier, (∀ i ∈ is, i.IsWritten) ∧
      (ofText text a).2 = (a.pushAll is).2 ∧ (ofText text b).2 = (b.pushAll is).2 ∧
      ((∃ e, (ofText text a).1 = .error e ∧ (ofText text b).1 = .error e) ∨
        ∃ s s', (ofText text a).1 = .ok s ∧ (ofText text b).1 = .ok s' ∧ s.SameShape s' ∧
          s'.leaves = (b.pushAll is).1) := by
  simp only [ofText]
  cases Lexeme.ofText (withFinalNewline text.toList) with
  | error e => exact ⟨[], by simp, rfl, rfl, .inl ⟨e, rfl, rfl⟩⟩
  | ok lexemes =>
    have hstart : Reader.Alike { arena := a } { arena := b } :=
      ⟨rfl, .group .nil, .nil, .mk (.group .nil) .nil, .nil, rfl⟩
    have hextends := Reader.extends_readAll hstart lexemes
    cases hread : Reader.readAll { arena := a } lexemes <;>
      cases hread' : Reader.readAll { arena := b } lexemes <;> rw [hread, hread'] at hextends <;>
      simp only [hread, hread']
    · obtain ⟨hfault, hspan, is, his, harena, harena'⟩ := hextends
      refine ⟨is, his, harena, harena', .inl ⟨_, rfl, ?_⟩⟩
      simp only [hfault, hspan]
    · exact hextends.elim
    · exact hextends.elim
    · next r r' =>
      obtain ⟨halike, is, his, ⟨harena, -⟩, harena', hleaves'⟩ := hextends
      refine ⟨is, his, harena, harena', .inr ⟨r.root, r'.root, rfl, rfl, halike.root, ?_⟩⟩
      rw [← Reader.leaves_readAll hread', hleaves']
      rfl

/-- What is added to an empty arena stands in its slots, behind the one that is always there. -/
theorem slots_pushAll_of_free {a : Arena} (ha : a.free = []) (is : List Identifier) :
    (a.pushAll is).2.slots.toList = a.slots.toList ++ is.map fun i => ⟨i, 0⟩ := by
  induction is generalizing a with
  | nil => simp [Arena.pushAll]
  | cons i is ih =>
    have hpush : (a.push i).2 = { a with slots := a.slots.push ⟨i, 0⟩ } := by
      simp only [Arena.push, ha]
    rw [Arena.pushAll_cons, ih (by rw [hpush, ha]), hpush]
    simp

theorem written_eq {text : String} {is : List Identifier}
    (h : (ofText text .empty).2 = (Arena.empty.pushAll is).2) : written text = is := by
  unfold written
  rw [h, slots_pushAll_of_free rfl]
  simp [Arena.empty, Function.comp_def]

/-- A text writes constants and undefined names only. -/
theorem isWritten_of_mem_written {text : String} {i : Identifier} (hi : i ∈ written text) :
    i.IsWritten := by
  obtain ⟨is, his, harena, -, -⟩ := ofText_both text .empty .empty
  rw [written_eq harena] at hi
  exact his i hi

/-- Reading a text pushes what it writes onto the arena and does nothing else to it, also when the
text is refused. -/
theorem arena_ofText (text : String) (a : Arena) :
    (ofText text a).2 = (a.pushAll (written text)).2 := by
  obtain ⟨is, -, harena, harena', -⟩ := ofText_both text .empty a
  rw [written_eq harena]
  exact harena'

theorem inUse_ofText {a : Arena} (ha : a.Tidy) (text : String) {h : Handle} (hu : a.InUse h) :
    (ofText text a).2.InUse h := by
  rw [arena_ofText]
  exact hu.pushAll ha _

/-- A text is read the same into every arena: it is refused for the same reason, or read into
statements that differ in nothing but the handles at their leaves, which are those of all that was
pushed. -/
theorem ofText_alike (text : String) (a b : Arena) :
    (∃ e, (ofText text a).1 = .error e ∧ (ofText text b).1 = .error e) ∨
      ∃ s s', (ofText text a).1 = .ok s ∧ (ofText text b).1 = .ok s' ∧ s.SameShape s' ∧
        s.leaves = (a.pushAll (written text)).1 ∧ s'.leaves = (b.pushAll (written text)).1 := by
  obtain ⟨is, -, harena, -, hleft⟩ := ofText_both text .empty a
  obtain ⟨js, -, harena', -, hright⟩ := ofText_both text .empty b
  obtain rfl := written_eq harena
  obtain rfl := written_eq harena'
  rcases hleft with ⟨e, he, hleft⟩ | ⟨s₀, s, hs₀, hleft, hshape, hleaves⟩
  · rcases hright with ⟨e', he', hright⟩ | ⟨s₀', s', hs₀', -⟩
    · rw [he] at he'
      cases he'
      exact .inl ⟨e, hleft, hright⟩
    · rw [he] at hs₀'
      contradiction
  · rcases hright with ⟨e', he', -⟩ | ⟨s₀', s', hs₀', hright, hshape', hleaves'⟩
    · rw [hs₀] at he'
      contradiction
    · rw [hs₀] at hs₀'
      cases hs₀'
      exact .inr ⟨s, s', hleft, hright, hshape.sameShape hshape', hleaves, hleaves'⟩

/-- Where what is pushed onto both arenas stands for each other, so do the leaves of the
statements. -/
theorem ofText_alike_of_pushed {R : Handle → Handle → Prop} {text : String} {a b : Arena}
    (hpushed : List.Forall₂ R (a.pushAll (written text)).1 (b.pushAll (written text)).1) :
    (∃ e, (ofText text a).1 = .error e ∧ (ofText text b).1 = .error e) ∨
      ∃ s s', (ofText text a).1 = .ok s ∧ (ofText text b).1 = .ok s' ∧ s.Alike R s' := by
  rcases ofText_alike text a b with herror | ⟨s, s', hs, hs', hshape, hleaves, hleaves'⟩
  · exact .inl herror
  · refine .inr ⟨s, s', hs, hs', hshape.of_leaves ?_⟩
    rwa [hleaves, hleaves']

theorem exists_alike_of_ofText {R : Handle → Handle → Prop} {text : String} {a b : Arena}
    {s : Statement} (hs : (ofText text a).1 = .ok s)
    (hpushed : List.Forall₂ R (a.pushAll (written text)).1 (b.pushAll (written text)).1) :
    ∃ s', (ofText text b).1 = .ok s' ∧ s.Alike R s' := by
  rcases ofText_alike_of_pushed hpushed with ⟨e, he, -⟩ | ⟨s₁, s', hs₁, hs', halike⟩
  · cases hs.symm.trans he
  · obtain rfl := Except.ok.inj (hs.symm.trans hs₁)
    exact ⟨s', hs', halike⟩

/-- The leaves of the statement that a text is read into are the handles of all that was pushed. -/
theorem leaves_of_ofText {text : String} {a : Arena} {s : Statement}
    (hs : (ofText text a).1 = .ok s) : s.leaves = (a.pushAll (written text)).1 := by
  rcases ofText_alike text a a with ⟨e, he, -⟩ | ⟨s', -, hs', -, -, hleaves, -⟩
  · rw [he] at hs
    contradiction
  · rw [hs'] at hs
    cases hs
    exact hleaves

/--
Reading a text pushes constants and undefined names onto the arena and does nothing else to it,
also when the text is refused. The leaves of the statement that it is read into are the handles of
all that was pushed.
-/
theorem ofText_adds (text : String) (arena : Arena) :
    ∃ is : List Identifier, (∀ i ∈ is, i.IsWritten) ∧
      (ofText text arena).2 = (arena.pushAll is).2 ∧
      ∀ s, (ofText text arena).1 = .ok s → s.leaves = (arena.pushAll is).1 :=
  ⟨written text, fun _ => isWritten_of_mem_written, arena_ofText text arena,
    fun _ => leaves_of_ofText⟩

end Statement

end WordScript
