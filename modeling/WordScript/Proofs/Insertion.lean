import WordScript.Proofs.RoundTrip
import WordScript.Proofs.Spacing

/-!
# A newline put into a text

A reader that comes to a newline at the start of a line adds an empty statement, and goes on as it
would have without it: `Beside` says of the statements that two readers have read so far that they
are the same up to empty ones, and each token is read alike by both. Whether a statement without a
head counts as a block is only known when it is closed. Unless the newline stands between braces
with nothing else inside and nothing in front of them, something comes into the block of either
reader before that, so that it counts as one on both sides.
-/

namespace WordScript

namespace Lexeme

/-- A newline put behind a break, or at the start, is one lexeme more; those behind it stand one
byte further on. -/
theorem exists_cutAll_insert {cs ds : List Char} {ls₁ ls : List Lexeme}
    (h₁ : cutAll 0 cs = .ok ls₁) (hlast : ∀ l ∈ ls₁.getLast?, l.token.isBreak = true)
    (h : cutAll 0 (cs ++ ds) = .ok ls) :
    ∃ newline rest, ls = ls₁ ++ rest ∧ newline.token = .newline ∧
      Lexes ds (rest.map token) ∧
      cutAll 0 (cs ++ '\n' :: ds) = .ok (ls₁ ++ newline :: rest.map (moved 1)) := by
  have hnewline : ∀ start, cutAll start ('\n' :: ds) =
      (movedResult 1 (cutAll start ds)).map (⟨.newline, start, start + 1⟩ :: ·) := by
    intro start
    rw [cutAll_of_cut rfl, ← cutAll_moved, Nat.add_comm 1]
    rfl
  rw [cutAll_append_eq h₁ hlast, ← cutAll_moved] at h
  rw [cutAll_append_eq h₁ hlast, ← cutAll_moved, hnewline]
  cases hds : cutAll (0 + Text.byteLength cs + 0) ds with
  | error e =>
    rw [hds] at h
    cases h
  | ok rest =>
    rw [hds] at h
    cases h
    exact ⟨_, rest, rfl, rfl, lexes_of_cutAll hds, rfl⟩

end Lexeme

namespace Reader

/-- The reader with other statements read so far. -/
def within (r : Reader) (root : Statement) (blocks : List OpenBlock) : Reader :=
  { r with root, blocks }

section Within

variable {root : Statement} {blocks : List OpenBlock}

theorem addExpression_within (r : Reader) (e : Expression) :
    (r.within root blocks).addExpression e = (r.addExpression e).within root blocks := by
  unfold addExpression within
  cases r.groups <;> rfl

theorem addLeaf_within (r : Reader) (i : Identifier) :
    (r.within root blocks).addLeaf i = (r.addLeaf i).within root blocks :=
  addExpression_within (r.newLeaf i).2 (r.newLeaf i).1

theorem endWord_within (r : Reader) :
    (r.within root blocks).endWord = r.endWord.within root blocks := by
  obtain ⟨arena, word, line, groups, root', blocks', quote⟩ := r
  cases word with
  | none => rfl
  | some word => exact addLeaf_within ⟨arena, none, line, groups, root', blocks', quote⟩ _

theorem closeGroup_within (r : Reader) (opener : Opener) (span : Span) :
    (r.within root blocks).closeGroup opener span =
      (r.closeGroup opener span).map (within · root blocks) := by
  obtain ⟨arena, word, line, groups, root', blocks', quote⟩ := r
  cases groups with
  | nil => rfl
  | cons g gs =>
    by_cases hopener : g.opener = opener
    · simp only [closeGroup, within, hopener, if_true]
      exact congrArg Except.ok
        (addExpression_within ⟨arena, word, line, gs, root', blocks', quote⟩ _)
    · simp only [closeGroup, within, hopener, if_false]
      rfl

theorem takeExpression?_within (r : Reader) :
    (r.within root blocks).takeExpression? =
      r.takeExpression?.map fun t => (t.1, t.2.within root blocks) := by
  obtain ⟨arena, word, line, groups, root', blocks', quote⟩ := r
  cases groups with
  | nil =>
    simp only [takeExpression?, within]
    cases line.pop? <;> rfl
  | cons g gs =>
    simp only [takeExpression?, within]
    cases g.contents.pop? <;> rfl

theorem openIndex_within (r : Reader) (span : Span) :
    (r.within root blocks).openIndex span = (r.openIndex span).map (within · root blocks) := by
  have hword : (r.within root blocks).word = r.word := rfl
  unfold openIndex
  rw [hword]
  cases r.word with
  | some word => rfl
  | none =>
    rw [takeExpression?_within]
    cases r.takeExpression? <;> rfl

/-- A token that is no break is read the same way whatever statements have been read before. -/
theorem readToken_within {token : Token} (hbreak : token.isBreak = false) (r : Reader)
    (span : Span) :
    (r.within root blocks).readToken token span =
      (r.readToken token span).map (within · root blocks) := by
  cases token with
  | word text => rfl
  | escaped c => rfl
  | space => exact congrArg Except.ok (endWord_within r)
  | continuation => exact congrArg Except.ok (endWord_within r)
  | quoted quote text =>
    simp only [readToken, endWord_within, addLeaf_within]
    rfl
  | leftParen =>
    simp only [readToken, endWord_within]
    rfl
  | rightParen =>
    simp only [readToken, endWord_within]
    exact closeGroup_within _ _ _
  | leftBracket => exact openIndex_within r span
  | rightBracket =>
    simp only [readToken, endWord_within, closeGroup_within]
    cases r.endWord.closeGroup .arguments span with
    | error refusal => rfl
    | ok u => exact closeGroup_within u _ _
  | newline => cases hbreak
  | leftBrace => cases hbreak
  | rightBrace => cases hbreak

/-- A token that is no break leaves the statements alone that have been read before. -/
theorem statements_of_readToken {token : Token} (hbreak : token.isBreak = false) {r u : Reader}
    {span : Span} (h : r.readToken token span = .ok u) : u.root = r.root ∧ u.blocks = r.blocks := by
  have hself : r.readToken token span = (r.readToken token span).map (within · r.root r.blocks) :=
    readToken_within hbreak r span
  rw [h] at hself
  rw [Except.ok.inj hself]
  exact ⟨rfl, rfl⟩

end Within

/-! ## What stands on a line -/

/-- Something stands on the line so far. -/
def Started (r : Reader) : Prop := r.word ≠ none ∨ r.line.isEmpty = false ∨ r.groups ≠ []

theorem started_addExpression (r : Reader) (e : Expression) : (r.addExpression e).Started := by
  unfold addExpression
  split
  · exact .inr (.inl (by simp [Expression.push, Expression.isEmpty]))
  · exact .inr (.inr (List.cons_ne_nil _ _))

theorem Started.endWord {r : Reader} (hr : r.Started) : r.endWord.Started := by
  obtain ⟨arena, word, line, groups, root, blocks, quote⟩ := r
  cases word with
  | none => exact hr
  | some word => exact started_addExpression _ _

theorem started_openGroup (r : Reader) (contents : Expression) (opener : Opener) (span : Span) :
    (r.openGroup contents opener span).Started :=
  .inr (.inr (List.cons_ne_nil _ _))

theorem started_of_closeGroup {r u : Reader} {opener : Opener} {span : Span}
    (h : r.closeGroup opener span = .ok u) : u.Started := by
  unfold closeGroup at h
  split at h
  · split at h
    · cases h
      exact started_addExpression _ _
    · cases h
  · cases h

theorem started_of_openIndex {r u : Reader} {span : Span} (h : r.openIndex span = .ok u) :
    u.Started := by
  unfold openIndex at h
  simp only at h
  split at h
  · cases h
  · cases h
    exact started_openGroup _ _ _ _

/-- Until a break, what stands on a line stays there, and all but gaps adds to it. -/
theorem started_of_readToken {r u : Reader} {token : Token} {span : Span}
    (h : r.readToken token span = .ok u) (hbreak : token.isBreak = false)
    (hr : r.Started ∨ token.isGap = false) : u.Started := by
  cases token with
  | word text =>
    cases h
    exact .inl (Option.some_ne_none _)
  | escaped c =>
    cases h
    exact .inl (Option.some_ne_none _)
  | space =>
    cases h
    exact (hr.resolve_right nofun).endWord
  | continuation =>
    cases h
    exact (hr.resolve_right nofun).endWord
  | quoted quote text =>
    cases h
    exact started_addExpression _ _
  | leftParen =>
    cases h
    exact started_openGroup _ _ _ _
  | rightParen => exact started_of_closeGroup h
  | leftBracket => exact started_of_openIndex h
  | rightBracket =>
    obtain ⟨t, -, hclose⟩ := exists_of_bind_ok h
    exact started_of_closeGroup hclose
  | newline => cases hbreak
  | leftBrace => cases hbreak
  | rightBrace => cases hbreak

theorem started_of_read {r u : Reader} {l : Lexeme} (h : r.read l = .ok u)
    (hbreak : l.token.isBreak = false) (hr : r.Started ∨ l.token.isGap = false) : u.Started :=
  started_of_readToken (readToken_of_read h) hbreak hr

/-- Where nothing stands on the line, there have been only gaps since the last break. -/
theorem started_of_foldlM {a : Arena} {ls : List Lexeme} {r : Reader}
    (h : ls.foldlM read { arena := a } = .ok r) :
    r.Started ∨ ∀ t ∈ (ls.map Lexeme.token).reverse.find? fun t => !t.isGap, t.isBreak = true := by
  induction ls using List.reverseRecOn generalizing r with
  | nil => exact .inr nofun
  | append_singleton ls l ih =>
    rw [List.map_append, List.map_singleton, List.reverse_concat]
    rw [foldlM_read_concat] at h
    obtain ⟨r₀, hls, hread⟩ := exists_of_bind_ok h
    cases hbreak : l.token.isBreak with
    | true =>
      have hgap : l.token.isGap = false := by
        cases hl : l.token <;> rw [hl] at hbreak <;> first | rfl | cases hbreak
      right
      rw [List.find?_cons_of_pos (by rw [hgap]; rfl)]
      rintro _ ⟨⟩
      exact hbreak
    | false =>
      cases hgap : l.token.isGap with
      | false => exact .inl (started_of_read hread hbreak (.inr hgap))
      | true =>
        rw [List.find?_cons_of_neg (by rw [hgap]; nofun)]
        exact (ih hls).imp_left fun hr => started_of_read hread hbreak (.inl hr)

end Reader

theorem Statement.isBlock_push (s child : Statement) : (s.push child).isBlock = true := by
  simp [isBlock, push]

/-! ## Side by side -/

namespace Reader

/-- The reader one byte further on, with other statements read so far. -/
def beside (r : Reader) (root : Statement) (blocks : List OpenBlock) : Reader :=
  (r.after ⟨.group [], [], 1⟩).within root blocks

/-- The open blocks are the same up to empty statements, of which the right one has more. -/
structure BlocksBeside (allowed : Prop) (b b' : OpenBlock) : Prop where
  head : b.block.head = b'.block.head
  body : Spaced False allowed b.block.body b'.block.body
  isBlock : b.block.isBlock = true → b'.block.isBlock = true

/-- Before it is closed, the innermost open block will count as a block on both sides or on neither,
if that shows and is not allowed otherwise. -/
def Settles (allowed : Prop) (r : Reader) (blocks : List OpenBlock) (ts : List Token) : Prop :=
  allowed ∨ r.Started ∨ ts.find? (fun t => !t.isGap) ≠ some .rightBrace ∨
    ∀ b ∈ r.blocks.head?, ∀ b' ∈ blocks.head?, b.block.head.isEmpty = true →
      b.block.isBlock = b'.block.isBlock

/-- The statements are the same as those of the reader up to empty ones, with the tokens still to be
read. -/
structure Beside (allowed : Prop) (ts : List Token) (r : Reader) (root' : Statement)
    (blocks' : List OpenBlock) : Prop where
  root : Spaced False allowed r.root.body root'.body
  blocks : List.Forall₂ (BlocksBeside allowed) r.blocks blocks'
  settles : Settles allowed r blocks' ts

section Beside

variable {allowed : Prop} {ts : List Token} {r u : Reader} {root : Statement}
  {blocks : List OpenBlock} {l : Lexeme} {s s' : Statement}

theorem endWord_beside (r : Reader) :
    (r.beside root blocks).endWord = r.endWord.beside root blocks := by
  rw [beside, endWord_within, endWord_after]
  rfl

theorem statements_endWord (r : Reader) :
    r.endWord.root = r.root ∧ r.endWord.blocks = r.blocks := by
  have hself : r.endWord = r.endWord.within r.root r.blocks := endWord_within r
  rw [hself]
  exact ⟨rfl, rfl⟩

theorem Beside.endWord (h : Beside allowed ts r root blocks) :
    Beside allowed ts r.endWord root blocks := by
  obtain ⟨hroot, hblocks⟩ := statements_endWord r
  refine ⟨hroot ▸ h.root, hblocks ▸ h.blocks, ?_⟩
  rcases h.settles with hallowed | hr | hts | htop
  · exact .inl hallowed
  · exact .inr (.inl hr.endWord)
  · exact .inr (.inr (.inl hts))
  · exact .inr (.inr (.inr (hblocks ▸ htop)))

/-- Statements that are the same up to empty ones are added. -/
theorem Beside.addStatement (hroot : Spaced False allowed r.root.body root.body)
    (hblocks : List.Forall₂ (BlocksBeside allowed) r.blocks blocks)
    (hs : Spaced False allowed [s] [s']) (ts : List Token) :
    ∃ root' blocks', (r.beside root blocks).addStatement s' =
        (r.addStatement s).beside root' blocks' ∧
      Beside allowed ts (r.addStatement s) root' blocks' := by
  obtain ⟨arena, word, line, groups, root₀, blocks₀, quote⟩ := r
  cases hblocks with
  | nil =>
    refine ⟨root.push s', [], rfl, hroot.append hs, .nil, .inr (.inr (.inr ?_))⟩
    rintro _ ⟨⟩
  | @cons b b' bs bs' hb hbs =>
    refine ⟨root, { b' with block := b'.block.push s' } :: bs', rfl, hroot,
      .cons ⟨hb.head, hb.body.append hs, fun _ => b'.block.isBlock_push s'⟩ hbs,
      .inr (.inr (.inr ?_))⟩
    rintro _ ⟨⟩ _ ⟨⟩ -
    rw [Statement.isBlock_push, Statement.isBlock_push]

theorem requireClosed_of_groups (hgroups : r.groups = []) : r.requireClosed = .ok r := by
  unfold requireClosed
  rw [hgroups]

theorem requireClosed_beside (hgroups : r.groups = []) :
    (r.beside root blocks).requireClosed = .ok (r.beside root blocks) :=
  requireClosed_of_groups (by simp [beside, after, within, hgroups])

theorem Beside.endLine (h : Beside allowed (.newline :: ts) r root blocks)
    (hu : r.endLine = .ok u) :
    ∃ root' blocks', (r.beside root blocks).endLine = .ok (u.beside root' blocks') ∧
      Beside allowed ts u root' blocks' := by
  unfold Reader.endLine at hu ⊢
  obtain ⟨hgroups, hu⟩ := closed_of_requireClosed hu
  have h := h.endWord
  rw [endWord_beside, requireClosed_beside hgroups]
  generalize r.endWord = r at h hu
  cases hu
  obtain ⟨root', blocks', heq, hbeside⟩ := Beside.addStatement (r := { r with line := .group [] })
    h.root h.blocks (.refl [.line r.line]) ts
  exact ⟨root', blocks', congrArg Except.ok heq, hbeside⟩

theorem Beside.openBlock (h : Beside allowed (.leftBrace :: ts) r root blocks) {span span' : Span}
    (hu : r.openBlock span = .ok u) :
    ∃ root' blocks', (r.beside root blocks).openBlock span' = .ok (u.beside root' blocks') ∧
      Beside allowed ts u root' blocks' := by
  unfold Reader.openBlock at hu ⊢
  obtain ⟨hgroups, hu⟩ := closed_of_requireClosed hu
  have h := h.endWord
  rw [endWord_beside, requireClosed_beside hgroups]
  generalize r.endWord = r at h hu
  cases hu
  refine ⟨root, ⟨.line r.line, span'⟩ :: blocks, rfl, h.root,
    .cons ⟨rfl, .nil, id⟩ h.blocks, .inr (.inr (.inr ?_))⟩
  rintro _ ⟨⟩ _ ⟨⟩ -
  rfl

/-- What a closed block has become, with the last line in it if anything stands there. -/
theorem BlocksBeside.close {b b' : OpenBlock} (hb : BlocksBeside allowed b b')
    (hblock : b.block.head.isEmpty = true → allowed ∨ b.block.isBlock = b'.block.isBlock ∨
      r.line.isEmpty = false) :
    Spaced False allowed [if r.line.isEmpty then b.block else b.block.push (.line r.line)]
      [if r.line.isEmpty then b'.block else b'.block.push (.line r.line)] := by
  cases hline : r.line.isEmpty with
  | false =>
    simp only [Bool.false_eq_true, if_false]
    refine .cons hb.head (hb.body.append (.refl _)) (fun _ => .inl ?_) .nil
    rw [Statement.isBlock_push, Statement.isBlock_push]
  | true =>
    simp only [if_true]
    refine .cons hb.head hb.body (fun hempty => ?_) .nil
    rcases hblock hempty with hallowed | hsame | hfull
    · cases hs : b.block.isBlock with
      | true => exact .inl (hb.isBlock hs).symm
      | false =>
        cases hs' : b'.block.isBlock with
        | true => exact .inr (.inr ⟨rfl, hallowed⟩)
        | false => exact .inl rfl
    · exact .inl hsame
    · rw [hline] at hfull
      cases hfull

theorem Beside.closeBlock (h : Beside allowed (.rightBrace :: ts) r root blocks) {span span' : Span}
    (hu : r.closeBlock span = .ok u) :
    ∃ root' blocks', (r.beside root blocks).closeBlock span' = .ok (u.beside root' blocks') ∧
      Beside allowed ts u root' blocks' := by
  unfold Reader.closeBlock at hu ⊢
  obtain ⟨hgroups, hu⟩ := closed_of_requireClosed hu
  have h := h.endWord
  have hword := word_endWord r
  rw [endWord_beside, requireClosed_beside hgroups]
  generalize r.endWord = r at h hu hgroups hword
  obtain ⟨arena, word, line, groups, root₀, blocks₀, quote⟩ := r
  obtain ⟨hroot, hblocks, hsettles⟩ := h
  cases hblocks with
  | nil => cases hu
  | @cons b b' bs bs' hb hbs =>
    cases hu
    -- the brace that closes the block is here, so that what it counts as is settled
    have hs := hb.close (r := ⟨arena, word, line, groups, root₀, b :: bs, quote⟩) fun hempty => by
      rcases hsettles with hallowed | (hstarted | hfull | hgroup) | hts | htop
      · exact .inl hallowed
      · exact absurd hword hstarted
      · exact .inr (.inr hfull)
      · exact absurd hgroups hgroup
      · exact absurd (List.find?_cons_of_pos rfl) hts
      · exact .inr (.inl (htop b rfl b' rfl hempty))
    obtain ⟨root', blocks', heq, hbeside⟩ := Beside.addStatement
      (r := ⟨arena, word, .group [], groups, root₀, bs, quote⟩) hroot hbs hs ts
    exact ⟨root', blocks', congrArg Except.ok heq, hbeside⟩

/-- Tokens are read alike, and settle what the innermost block counts as. -/
theorem Beside.readToken {token : Token} {span span' : Span}
    (h : Beside allowed (token :: ts) r root blocks) (hu : r.readToken token span = .ok u)
    (hspan : span' = span.moved 1) :
    ∃ root' blocks', (r.beside root blocks).readToken token span' = .ok (u.beside root' blocks') ∧
      Beside allowed ts u root' blocks' := by
  cases hbreak : token.isBreak with
  | true =>
    cases token with
    | newline => exact h.endLine hu
    | leftBrace => exact h.openBlock hu
    | rightBrace => exact h.closeBlock hu
    | _ => cases hbreak
  | false =>
    subst hspan
    refine ⟨root, blocks, ?_, ?_⟩
    · rw [beside, readToken_within hbreak, readToken_after, hu]
      rfl
    obtain ⟨hroot, hblocks⟩ := statements_of_readToken hbreak hu
    refine ⟨hroot ▸ h.root, hblocks ▸ h.blocks, ?_⟩
    have hkept := started_of_readToken hu hbreak
    rcases h.settles with hallowed | hstarted | hts | htop
    · exact .inl hallowed
    · exact .inr (.inl (hkept (.inl hstarted)))
    · cases hgap : token.isGap with
      | true =>
        rw [List.find?_cons_of_neg (by rw [hgap]; nofun)] at hts
        exact .inr (.inr (.inl hts))
      | false => exact .inr (.inl (hkept (.inr hgap)))
    · exact .inr (.inr (.inr (hblocks ▸ htop)))

theorem Beside.read (h : Beside allowed (l.token :: ts) r root blocks) (hu : r.read l = .ok u) :
    ∃ root' blocks', (r.beside root blocks).read (l.moved 1) = .ok (u.beside root' blocks') ∧
      Beside allowed ts u root' blocks' := by
  have h' : Beside allowed (l.token :: ts) { r with afterQuote := none } root blocks :=
    ⟨h.root, h.blocks, h.settles⟩
  obtain ⟨root', blocks', hread, hbeside⟩ := h'.readToken (readToken_of_read hu) rfl
  refine ⟨root', blocks', ?_, hbeside⟩
  rw [← hread]
  obtain ⟨arena, word, line, groups, root₀, blocks₀, quote⟩ := r
  cases quote with
  | none => rfl
  | some quote =>
    cases hlayout : l.token.isLayout with
    | true => exact if_pos hlayout
    | false =>
      unfold Reader.read at hu
      simp only [hlayout] at hu
      cases hu

theorem Beside.foldlM {ls : List Lexeme} (h : Beside allowed (ls.map Lexeme.token) r root blocks)
    (hu : ls.foldlM Reader.read r = .ok u) :
    ∃ root' blocks', (ls.map (Lexeme.moved 1)).foldlM Reader.read (r.beside root blocks) =
        .ok (u.beside root' blocks') ∧ Beside allowed [] u root' blocks' := by
  induction ls generalizing r root blocks with
  | nil =>
    cases hu
    exact ⟨root, blocks, rfl, h⟩
  | cons l ls ih =>
    rw [List.foldlM_cons] at hu
    obtain ⟨t, hl, hrest⟩ := exists_of_bind_ok hu
    obtain ⟨root₁, blocks₁, hread, h₁⟩ := h.read hl
    rw [List.map_cons, List.foldlM_cons, hread]
    exact ih h₁ hrest

theorem Beside.finish (h : Beside allowed [] r root blocks) (hu : r.finish = .ok u) :
    ∃ root', (r.beside root blocks).finish = .ok (u.beside root' []) ∧
      Spaced False allowed u.root.body root'.body := by
  unfold Reader.finish at hu ⊢
  obtain ⟨hgroups, hu⟩ := closed_of_requireClosed hu
  have h := h.endWord
  rw [endWord_beside, requireClosed_beside hgroups]
  generalize r.endWord = r at h hu
  obtain ⟨arena, word, line, groups, root₀, blocks₀, quote⟩ := r
  obtain ⟨hroot, hblocks, -⟩ := h
  cases hblocks with
  | cons => cases hu
  | nil =>
    simp only at hu
    split at hu
    · next hline =>
      cases hu
      exact ⟨root, if_pos hline, hroot⟩
    · next hline =>
      cases hu
      exact ⟨root.push (.line line), if_neg hline, hroot.append (.refl _)⟩

theorem Beside.readAll {ls : List Lexeme} (h : Beside allowed (ls.map Lexeme.token) r root blocks)
    (hu : r.readAll ls = .ok u) :
    ∃ u', (r.beside root blocks).readAll (ls.map (Lexeme.moved 1)) = .ok u' ∧ u'.arena = u.arena ∧
      Spaced False allowed u.root.body u'.root.body := by
  obtain ⟨t, hls, ht⟩ := exists_of_bind_ok hu
  obtain ⟨root₁, blocks₁, hread, h₁⟩ := h.foldlM hls
  obtain ⟨root', hfinish, hroot⟩ := h₁.finish ht
  rw [Reader.readAll, hread]
  exact ⟨_, hfinish, rfl, hroot⟩

end Beside

/-! ## Where the newline is put -/

theorem isBlock_of_mem_addStatement {r : Reader} {s : Statement} :
    ∀ b ∈ (r.addStatement s).blocks.head?, b.block.isBlock = true := by
  unfold addStatement
  split
  · next hblocks => simp [hblocks]
  · rintro _ ⟨⟩
    exact Statement.isBlock_push _ _

/-- After a break the innermost open block has a body, unless the break has opened it; it has no
head then if nothing stood on the line. -/
theorem isBlock_of_read_break {r t : Reader} {l : Lexeme} (h : r.read l = .ok t)
    (hbreak : l.token.isBreak = true) : ∀ b ∈ t.blocks.head?, b.block.isBlock = true ∨
      l.token = .leftBrace ∧ (b.block.head.isEmpty = true → ¬ r.Started) := by
  have h := readToken_of_read h
  generalize l.token = token at h hbreak
  cases token with
  | newline =>
    obtain ⟨-, hu⟩ := closed_of_requireClosed h
    cases hu
    exact fun b hb => .inl (isBlock_of_mem_addStatement b hb)
  | rightBrace =>
    obtain ⟨-, hu⟩ := closed_of_requireClosed h
    split at hu
    · cases hu
    · cases hu
      exact fun b hb => .inl (isBlock_of_mem_addStatement b hb)
  | leftBrace =>
    obtain ⟨hgroups, hu⟩ := closed_of_requireClosed h
    cases hu
    rintro _ ⟨⟩
    refine .inr ⟨rfl, fun hempty hr => ?_⟩
    rcases Started.endWord (r := { r with afterQuote := none }) hr with hsome | hfull | hopen
    · exact hsome (word_endWord { r with afterQuote := none })
    · have hcontra : true = false := hempty.symm.trans hfull
      cases hcontra
    · exact hopen hgroups
  | _ => cases hbreak

end Reader

namespace Token

/-- The tokens end with a brace that opens a block, and nothing stands in front of it. -/
def endsBare (ts : List Token) : Bool :=
  decide (ts.getLast? = some .leftBrace) &&
    (ts.dropLast.reverse.find? fun t => !t.isGap).all isBreak

/-- Nothing stands in front of a brace that closes a block. -/
def startsClosing (ts : List Token) : Bool :=
  decide (ts.find? (fun t => !t.isGap) = some .rightBrace)

end Token

namespace Reader

/-- Where nothing stands on the line, a newline adds an empty statement. -/
theorem AtLine.read_newline {r : Reader} (hr : r.AtLine) {newline : Lexeme}
    (hnewline : newline.token = .newline) :
    r.read newline =
      .ok (r.beside (r.addStatement .empty).root (r.addStatement .empty).blocks) := by
  obtain ⟨arena, _, _, _, root, blocks, _⟩ := r
  cases hr.word
  cases hr.line
  cases hr.groups
  cases hr.afterQuote
  unfold read
  rw [hnewline]
  cases blocks <;> rfl

/-- A newline that is put at the start or behind a break adds an empty statement. What the innermost
open block counts as is settled later, unless that is a bare one which is closed right away. -/
theorem exists_beside_of_newline {a : Arena} {ls : List Lexeme} {r : Reader}
    (h : ls.foldlM read { arena := a } = .ok r)
    (hlast : ∀ l ∈ ls.getLast?, l.token.isBreak = true) {newline : Lexeme}
    (hnewline : newline.token = .newline) {allowed : Prop} {ts : List Token}
    (hallowed : Token.endsBare (ls.map Lexeme.token) = true → Token.startsClosing ts = true →
      allowed) :
    ∃ root blocks, r.read newline = .ok (r.beside root blocks) ∧
      Beside allowed ts r root blocks := by
  have hr : r.AtLine ∧ ∀ b ∈ r.blocks.head?, b.block.isBlock = true ∨
      (b.block.head.isEmpty = true → Token.endsBare (ls.map Lexeme.token) = true) := by
    cases ls using List.reverseRecOn with
    | nil =>
      cases h
      exact ⟨⟨⟨rfl, rfl⟩, rfl, rfl⟩, nofun⟩
    | append_singleton init l =>
      rw [foldlM_read_concat] at h
      obtain ⟨r₀, hinit, hread⟩ := exists_of_bind_ok h
      have hbreak := hlast l List.getLast?_concat
      have htop := isBlock_of_read_break hread hbreak
      refine ⟨atLine_of_read_break hread hbreak, fun b hb =>
        (htop b hb).imp_right fun ⟨hbrace, hstarted⟩ hempty => ?_⟩
      have hgaps := (started_of_foldlM hinit).resolve_left (hstarted hempty)
      rw [List.map_append, List.map_singleton, Token.endsBare, List.getLast?_concat,
        List.dropLast_concat, hbrace]
      simpa [Option.all_eq_true] using hgaps
  obtain ⟨hline, htop⟩ := hr
  refine ⟨_, _, hline.read_newline hnewline, ?_⟩
  obtain ⟨arena, word, line, groups, root, blocks, quote⟩ := r
  cases blocks with
  | nil => exact ⟨Spaced.push_empty _, .nil, .inr (.inr (.inr nofun))⟩
  | cons b bs =>
    have hsame : List.Forall₂ (BlocksBeside allowed) bs bs :=
      List.forall₂_same.mpr fun b _ => ⟨rfl, .refl _, id⟩
    have hpushed : BlocksBeside allowed b { b with block := b.block.push .empty } :=
      ⟨rfl, Spaced.push_empty _, fun _ => Statement.isBlock_push _ _⟩
    refine ⟨.refl _, .cons hpushed hsame, ?_⟩
    cases hclosing : Token.startsClosing ts with
    | false => exact .inr (.inr (.inl (of_decide_eq_false hclosing)))
    | true =>
      by_cases hbare : Token.endsBare (ls.map Lexeme.token) = true
      · exact .inl (hallowed hbare hclosing)
      · refine .inr (.inr (.inr ?_))
        rintro _ ⟨⟩ _ ⟨⟩ hempty
        rw [Statement.isBlock_push]
        exact (htop b rfl).resolve_right fun hends => hbare (hends hempty)

end Reader

/-! ## Texts -/

/-- The text is empty, or its last token is a break. -/
def EndsInBreak (text : String) : Prop :=
  ∃ ls, Lexeme.ofText text.toList = .ok ls ∧ ∀ l ∈ ls.getLast?, l.token.isBreak = true

/-- What stands before the position ends with a brace that opens a block without a head, and what
stands after it begins with the brace that closes the block: there is nothing but gaps between
them. -/
def BetweenBareBraces (before after : String) : Prop :=
  (∃ ls, Lexeme.ofText before.toList = .ok ls ∧ Token.endsBare (ls.map Lexeme.token) = true) ∧
    ∃ ls, Lexeme.ofText (Statement.withFinalNewline after.toList) = .ok ls ∧
      Token.startsClosing (ls.map Lexeme.token) = true

/-- Whether a result is there and has a property. -/
instance decidableExistsOk {ε α : Type} (x : Except ε α) (p : α → Prop) [DecidablePred p] :
    Decidable (∃ a, x = .ok a ∧ p a) :=
  match x with
  | .error _ => isFalse fun ⟨_, ha, _⟩ => nomatch ha
  | .ok a => decidable_of_iff (p a) ⟨fun h => ⟨a, rfl, h⟩, fun ⟨_, ha, h⟩ => Except.ok.inj ha ▸ h⟩

instance (text : String) : Decidable (EndsInBreak text) :=
  inferInstanceAs (Decidable (∃ _, _ = _ ∧ _))

instance (before after : String) : Decidable (BetweenBareBraces before after) :=
  inferInstanceAs (Decidable ((∃ _, _ = _ ∧ _) ∧ ∃ _, _ = _ ∧ _))

namespace Statement

/-- Characters with a newline put in are read into the same statements up to empty ones. -/
theorem exists_readAll_insert {cs ds : List Char} {ls₁ ls : List Lexeme} {a : Arena} {r : Reader}
    {allowed : Prop} (h₁ : Lexeme.cutAll 0 cs = .ok ls₁)
    (hlast : ∀ l ∈ ls₁.getLast?, l.token.isBreak = true)
    (h : Lexeme.cutAll 0 (cs ++ ds) = .ok ls) (hr : Reader.readAll { arena := a } ls = .ok r)
    (hallowed : Token.endsBare (ls₁.map Lexeme.token) = true →
      ∀ ts, Lexeme.Lexes ds ts → Token.startsClosing ts = true → allowed) :
    ∃ ls' r', Lexeme.cutAll 0 (cs ++ '\n' :: ds) = .ok ls' ∧
      Reader.readAll { arena := a } ls' = .ok r' ∧ r'.arena = r.arena ∧
      Spaced False allowed r.root.body r'.root.body := by
  obtain ⟨newline, rest, rfl, hnewline, hrest, hcut⟩ := Lexeme.exists_cutAll_insert h₁ hlast h
  unfold Reader.readAll at hr
  rw [List.foldlM_append, bind_assoc] at hr
  obtain ⟨t, hls₁, hr⟩ := exists_of_bind_ok hr
  obtain ⟨root, blocks, hread, hbeside⟩ := Reader.exists_beside_of_newline hls₁ hlast hnewline
    fun hbare => hallowed hbare _ hrest
  obtain ⟨r', hr', harena, hspaced⟩ := hbeside.readAll hr
  refine ⟨_, r', hcut, ?_, harena, hspaced⟩
  unfold Reader.readAll
  rw [List.foldlM_append, hls₁]
  change (t.read newline >>= fun u => _) >>= Reader.finish = _
  rw [hread]
  exact hr'

/-- Where the newline is put in, once the text has been given the one at its end. -/
theorem withFinalNewline_insert (before after : String) :
    withFinalNewline (before ++ "\n" ++ after).toList = withFinalNewline (before ++ after).toList ∨
    ∃ ds, withFinalNewline (before ++ after).toList = before.toList ++ ds ∧
      withFinalNewline (before ++ "\n" ++ after).toList = before.toList ++ '\n' :: ds ∧
      (ds = [] ∨ ds = withFinalNewline after.toList) := by
  by_cases hafter : after = ""
  · subst hafter
    have hspaced : withFinalNewline (before ++ "\n" ++ "").toList = before.toList ++ ['\n'] := by
      simp [withFinalNewline]
    rw [hspaced, String.append_empty]
    by_cases hlast : before.toList.getLast? = some '\n'
    · exact .inr ⟨[], by simp [withFinalNewline, hlast], rfl, .inl rfl⟩
    · exact .inl (if_neg hlast).symm
  · refine .inr ⟨withFinalNewline after.toList, withFinalNewline_append hafter, ?_, .inr rfl⟩
    rw [withFinalNewline_append hafter, String.toList_append]
    simp

/-- A newline that is put in at the start or behind a break makes no difference but for empty
statements. A bare block becomes one that is not empty by it, where that is the position. -/
theorem exists_ofText_insert {before after : String} (hbreak : EndsInBreak before) {a : Arena}
    {s : Statement} (hs : (ofText (before ++ after) a).1 = .ok s) :
    ∃ s', ofText (before ++ "\n" ++ after) a = (.ok s', (ofText (before ++ after) a).2) ∧
      Spaced False (BetweenBareBraces before after) s.body s'.body := by
  obtain ⟨ls₁, hlexemes, hlast⟩ := hbreak
  have h₁ := Lexeme.ofText_eq_ok.mp hlexemes
  obtain ⟨ls, r, hcut, hread, heq, rfl⟩ := readAll_of_ofText hs
  rw [heq]
  rcases withFinalNewline_insert before after with hsame | ⟨ds, hwhole, hspaced, hds⟩
  · exact ⟨r.root, ofText_eq_of_readAll (hsame ▸ hcut) hread, .refl _⟩
  · rw [hwhole] at hcut
    have hallowed : Token.endsBare (ls₁.map Lexeme.token) = true →
        ∀ ts, Lexeme.Lexes ds ts → Token.startsClosing ts = true →
          BetweenBareBraces before after := by
      intro hbare ts hts hclosing
      rcases hds with rfl | rfl
      · cases hts
        cases hclosing
      · obtain ⟨ls', hcut', rfl⟩ := hts.cutAll 0
        exact ⟨⟨ls₁, hlexemes, hbare⟩, ls', Lexeme.ofText_eq_ok.mpr hcut', hclosing⟩
    obtain ⟨ls', r', hcut', hread', harena, hbody⟩ :=
      exists_readAll_insert h₁ hlast hcut hread hallowed
    refine ⟨r'.root, ?_, hbody⟩
    rw [ofText_eq_of_readAll (by rw [hspaced]; exact hcut') hread', harena]

end Statement

end WordScript
