import WordScript.Proofs.Printing
import WordScript.Proofs.Written

/-!
# Reading what is written

A statement that is written as text is read back from it. Each leaf that is written is read as one
leaf again, with a new handle for the same identifier; groups, lines and blocks are put together
again out of the same parts.
-/

namespace WordScript

namespace Reader

/-- Wherever the tokens stand in a text, reading them leads from the first reader to the second. -/
def Reads (ts : List Token) (r r' : Reader) : Prop :=
  ∀ lexemes : List Lexeme, lexemes.map Lexeme.token = ts → lexemes.foldlM read r = .ok r'

section Reads

variable {r r' r'' : Reader} {ts ts' : List Token} {t : Token}

theorem reads_nil (r : Reader) : Reads [] r r := by
  intro lexemes h
  rw [List.map_eq_nil_iff.mp h]
  rfl

theorem Reads.append (h : Reads ts r r') (h' : Reads ts' r' r'') : Reads (ts ++ ts') r r'' := by
  intro lexemes hlexemes
  obtain ⟨before, after, rfl, hbefore, hafter⟩ := List.map_eq_append_iff.mp hlexemes
  rw [List.foldlM_append, h before hbefore]
  exact h' after hafter

/-- A token is read, and what it leads to may depend on where it stands. -/
theorem reads_cons (hquote : r.afterQuote = none)
    (h : ∀ span, ∃ u, r.readToken t span = .ok u ∧ Reads ts u r') : Reads (t :: ts) r r' := by
  intro lexemes hlexemes
  obtain ⟨l, rest, rfl, rfl, hrest⟩ := List.map_eq_cons_iff.mp hlexemes
  obtain ⟨u, hread, hu⟩ := h l.span
  rw [List.foldlM_cons, read, hquote]
  simp only [hread]
  exact hu rest hrest

theorem Ready.endWord_eq (hr : r.Ready) : r.endWord = r := by
  unfold Reader.endWord
  rw [hr.word]

theorem Ready.addExpression (hr : r.Ready) (e : Expression) : (r.addExpression e).Ready :=
  ⟨(word_addExpression r e).trans hr.word, (afterQuote_addExpression r e).trans hr.afterQuote⟩

theorem Ready.addLeaf (hr : r.Ready) (i : Identifier) : (r.addLeaf i).Ready :=
  Ready.addExpression (r := (r.newLeaf i).2) ⟨hr.word, hr.afterQuote⟩ (r.newLeaf i).1

/-- A space changes nothing when no word has begun. -/
theorem Ready.reads_space (hr : r.Ready) : Reads [.space] r r :=
  reads_cons hr.afterQuote fun _ => ⟨r, congrArg Except.ok hr.endWord_eq, reads_nil r⟩

/-! ## Leaves -/

/-- Pieces of a word are joined to what has been read of it. -/
theorem reads_map_escaped (hquote : r.afterQuote = none) (cs : List Char) (word : String) :
    Reads (cs.map .escaped) { r with word := some word }
      { r with word := some (word ++ String.ofList cs) } := by
  induction cs generalizing word with
  | nil =>
    rw [show word ++ String.ofList [] = word by simp]
    exact reads_nil _
  | cons c cs ih =>
    refine reads_cons hquote fun span => ⟨_, rfl, ?_⟩
    have hword : word ++ String.ofList (c :: cs) = (word ++ c.toString) ++ String.ofList cs := by
      simp [← String.toList_inj]
    rw [hword]
    exact ih (word ++ c.toString)

/-- A space ends a word. -/
theorem Ready.reads_word_space (hr : r.Ready) (word : String) :
    Reads [.space] { r with word := some word } (r.addLeaf (.ofWord word)) := by
  refine reads_cons hr.afterQuote fun span => ⟨r.addLeaf (.ofWord word), ?_, reads_nil _⟩
  obtain ⟨arena, _, line, groups, root, blocks, quote⟩ := r
  cases hr.word
  rfl

/-- A space may follow a string. -/
theorem Ready.reads_space_afterQuote (hr : r.Ready) (quote : Span) :
    Reads [.space] { r with afterQuote := some quote } r := by
  intro lexemes hlexemes
  obtain ⟨l, rest, rfl, hl, hrest⟩ := List.map_eq_cons_iff.mp hlexemes
  rw [List.map_eq_nil_iff.mp hrest, List.foldlM_cons]
  have hread : read { r with afterQuote := some quote } l = .ok r := by
    obtain ⟨arena, _, line, groups, root, blocks, _⟩ := r
    cases hr.word
    cases hr.afterQuote
    simp [read, hl, Token.isLayout, readToken, endWord]
  rw [hread]
  rfl

/-- What is written at a leaf is read as a leaf with the same identifier. -/
theorem Ready.reads_leaf (hr : r.Ready) {i : Identifier} (hi : i.IsPrintable) (quote : Quote) :
    Reads (i.tokens quote ++ [.space]) r (r.addLeaf i) := by
  cases hi with
  | @name word hne hline hword =>
    obtain ⟨c, cs, hcs⟩ := List.exists_cons_of_ne_nil (show word.toList ≠ [] by simpa using hne)
    have hpieces : Reads (word.toList.map .escaped) r { r with word := some word } := by
      rw [hcs]
      refine reads_cons hr.afterQuote fun span => ⟨r.addToWord c.toString, rfl, ?_⟩
      have hrest := reads_map_escaped (r := r) hr.afterQuote cs (r.word.getD "" ++ c.toString)
      have hjoined : r.word.getD "" ++ c.toString ++ String.ofList cs = word := by
        simp [hr.word, ← String.toList_inj, hcs]
      rwa [hjoined] at hrest
    have hended := hr.reads_word_space word
    rw [hword] at hended
    exact hpieces.append hended
  | int n =>
    refine reads_cons hr.afterQuote fun span =>
      ⟨r.addToWord (Number.integerText n.toInt), rfl, ?_⟩
    have hword : r.addToWord (Number.integerText n.toInt) =
        { r with word := some (Number.integerText n.toInt) } := by
      simp [addToWord, hr.word]
    have hended := hr.reads_word_space (Number.integerText n.toInt)
    rwa [← hword, Identifier.ofWord_integerText] at hended
  | string text =>
    refine reads_cons hr.afterQuote fun span => ⟨_, rfl, ?_⟩
    rw [hr.endWord_eq]
    exact (hr.addLeaf (.string text)).reads_space_afterQuote span

end Reads

end Reader

/-! ## Copies -/

/-- Adds the identifiers that handles refer to in one arena to another one, and gives their handles
there. -/
def Arena.copy (a b : Arena) (hs : List Handle) : List Handle × Arena :=
  b.pushAll (hs.filterMap a.get?)

theorem Arena.copy_append (a b : Arena) (hs hs' : List Handle) :
    a.copy b (hs ++ hs') = ((a.copy b hs).1 ++ (a.copy (a.copy b hs).2 hs').1,
      (a.copy (a.copy b hs).2 hs').2) := by
  simp only [copy, List.filterMap_append, pushAll_append]

theorem Arena.copy_singleton {a : Arena} {h : Handle} {i : Identifier} (hi : a.get? h = some i)
    (b : Arena) : a.copy b [h] = ([(b.push i).1], (b.push i).2) := by
  simp [copy, hi, pushAll]

/-- What can be written is valid. -/
theorem Identifier.IsPrintable.isValid {i : Identifier} (hi : i.IsPrintable) : i.IsValid := by
  cases hi with
  | name hne hline hword => exact (IsWritten.name _).isValid
  | int n => exact (IsLiteral.int n).isValid
  | string text => exact (IsLiteral.string text).isValid

/-- The handles that are given for copied identifiers refer to the same identifiers. -/
theorem Arena.forall₂_copy {a b : Arena} (hb : b.Tidy) {hs : List Handle}
    (hhs : a.AllPrintable hs) :
    List.Forall₂ (SameIdentifier a (a.copy b hs).2) hs (a.copy b hs).1 := by
  induction hs generalizing b with
  | nil => exact .nil
  | cons h hs ih =>
    obtain ⟨⟨i, hi, hprintable⟩, hrest⟩ := List.forall_mem_cons.mp hhs
    have hcons : a.copy b (h :: hs) =
        ((b.push i).1 :: (a.copy (b.push i).2 hs).1, (a.copy (b.push i).2 hs).2) := by
      simp [copy, hi, pushAll]
    rw [hcons]
    refine .cons ⟨i, hi, ?_⟩ (ih (hb.push i) hrest)
    have hlive := isLive_push_self hb hprintable.isValid
    rw [copy, get?_pushAll_of_isLive (hb.push i) _ hlive, get?_push_self hb hprintable.isValid]

/-! ## Members read one after the other -/

namespace Reader

/-- The reader with another arena. -/
def setArena (r : Reader) (b : Arena) : Reader := { r with arena := b }

theorem Ready.setArena {r : Reader} (hr : r.Ready) (b : Arena) : (r.setArena b).Ready :=
  ⟨hr.word, hr.afterQuote⟩

end Reader

/-- What a reader reads one after the other and adds in the place where it stands: expressions of a
group or of a line, or statements of a block. -/
structure Member (α : Type) where
  /-- The members are the same but for the handles at their leaves. -/
  SameShape : α → α → Prop
  leaves : α → List Handle
  add : Reader → α → Reader
  /-- Where such a member can begin. -/
  Begins : Reader → Prop
  begins_add : ∀ r x, Begins r → Begins (add r x)
  begins_setArena : ∀ r b, Begins r → Begins (r.setArena b)
  arena_add : ∀ r x, (add r x).arena = r.arena
  setArena_add : ∀ r x b, (add r x).setArena b = add (r.setArena b) x

namespace Member

open Reader (Reads)

variable {α : Type} {m : Member α} {a b : Arena} {ts ts' : List Token} {xs xs' ys ys' : List α}

/-- Adds members one after the other. -/
def addAll (m : Member α) (r : Reader) (xs : List α) : Reader := xs.foldl m.add r

theorem begins_addAll {r : Reader} (hr : m.Begins r) (xs : List α) : m.Begins (m.addAll r xs) := by
  induction xs generalizing r with
  | nil => exact hr
  | cons x xs ih => exact ih (m.begins_add r x hr)

theorem arena_addAll (r : Reader) (xs : List α) : (m.addAll r xs).arena = r.arena := by
  induction xs generalizing r with
  | nil => rfl
  | cons x xs ih => exact (ih (m.add r x)).trans (m.arena_add r x)

/-- Members are added in the same way whatever the arena is. -/
theorem setArena_addAll (r : Reader) (b : Arena) (xs : List α) :
    (m.addAll r xs).setArena b = m.addAll (r.setArena b) xs := by
  induction xs generalizing r with
  | nil => rfl
  | cons x xs ih =>
    refine (ih (m.add r x)).trans ?_
    rw [m.setArena_add]
    rfl

/-- Members are read back from the tokens: the same ones, but with leaves of their own for the
identifiers that theirs refer to, which are added to the arena that is read into. -/
structure ReadBack (m : Member α) (a b : Arena) (ts : List Token) (xs xs' : List α) : Prop where
  sameShape : List.Forall₂ m.SameShape xs xs'
  leaves : xs'.flatMap m.leaves = (a.copy b (xs.flatMap m.leaves)).1
  reads : ∀ r : Reader, m.Begins r → r.arena = b →
    Reads ts r (m.addAll (r.setArena (a.copy b (xs.flatMap m.leaves)).2) xs')

theorem readBack_nil (m : Member α) (a b : Arena) : m.ReadBack a b [] [] [] where
  sameShape := .nil
  leaves := rfl
  reads := by
    rintro r - rfl
    exact Reader.reads_nil r

theorem ReadBack.append (h : m.ReadBack a b ts xs xs')
    (h' : m.ReadBack a (a.copy b (xs.flatMap m.leaves)).2 ts' ys ys') :
    m.ReadBack a b (ts ++ ts') (xs ++ ys) (xs' ++ ys') where
  sameShape := List.rel_append h.sameShape h'.sameShape
  leaves := by
    simp only [List.flatMap_append, Arena.copy_append, h.leaves, h'.leaves]
  reads := by
    intro r hr hb
    have hfirst := h.reads r hr hb
    have hbegins := m.begins_setArena r (a.copy b (xs.flatMap m.leaves)).2 hr
    have hsecond := h'.reads _ (begins_addAll hbegins xs') (arena_addAll _ xs')
    rw [setArena_addAll] at hsecond
    simp only [List.flatMap_append, Arena.copy_append, addAll, List.foldl_append]
    exact hfirst.append hsecond

/-- When each of the members is read back from its tokens, they all are. -/
theorem exists_readBack_inTurn {tokens : Nat → α → List Token} {width : α → Nat}
    (hxs : ∀ x ∈ xs, ∀ b k, ∃ x', m.ReadBack a b (tokens k x) [x] [x']) (b : Arena) (k : Nat) :
    ∃ xs', m.ReadBack a b (Token.inTurn tokens width k xs) xs xs' := by
  induction xs generalizing b k with
  | nil => exact ⟨[], readBack_nil m a b⟩
  | cons x xs ih =>
    obtain ⟨hx, hxs⟩ := List.forall_mem_cons.mp hxs
    obtain ⟨x', hfirst⟩ := hx b k
    obtain ⟨xs', hrest⟩ := ih hxs (a.copy b ([x].flatMap m.leaves)).2 (k + width x)
    exact ⟨x' :: xs', hfirst.append hrest⟩

end Member

/-! ## Expressions -/

namespace Reader

theorem setArena_addExpression (r : Reader) (e : Expression) (b : Arena) :
    (r.addExpression e).setArena b = (r.setArena b).addExpression e := by
  unfold addExpression setArena
  cases r.groups <;> rfl

end Reader

namespace Expression

open Reader (Reads)

/-- Expressions, which are read one after the other where no word has begun. -/
def member : Member Expression where
  SameShape := SameShape
  leaves := leaves
  add := Reader.addExpression
  Begins := Reader.Ready
  begins_add _ e hr := hr.addExpression e
  begins_setArena _ b hr := hr.setArena b
  arena_add := Reader.arena_addExpression
  setArena_add := Reader.setArena_addExpression

/-- What is added while a group is open stands in the group. -/
theorem addAll_openGroup (r : Reader) (es₀ es : List Expression) (opener : Opener) (span : Span) :
    member.addAll (r.openGroup (.group es₀) opener span) es =
      r.openGroup (.group (es₀ ++ es)) opener span := by
  induction es generalizing es₀ with
  | nil => simp [Member.addAll]
  | cons e es ih =>
    rw [List.append_cons]
    exact ih (es₀ ++ [e])

/-- What is added while no group is open stands on the line. -/
theorem addAll_line {r : Reader} {es₀ : List Expression} (hgroups : r.groups = [])
    (hline : r.line = .group es₀) (es : List Expression) :
    member.addAll r es = { r with line := .group (es₀ ++ es) } := by
  induction es generalizing r es₀ with
  | nil => simp [Member.addAll, ← hline]
  | cons e es ih =>
    have hfirst : r.addExpression e = { r with line := .group (es₀ ++ [e]) } := by
      simp [Reader.addExpression, hgroups, hline, push, parts]
    have hrest := ih (r := { r with line := .group (es₀ ++ [e]) }) hgroups rfl
    rw [List.append_assoc] at hrest
    exact (congrArg (member.addAll · es) hfirst).trans hrest

/-- A group is closed and a space follows it. -/
theorem reads_close {r : Reader} (hr : r.Ready) (e : Expression) (span : Span) :
    Reads [.rightParen, .space] (r.openGroup e .paren span) (r.addExpression e) := by
  have hopen : (r.openGroup e .paren span).Ready := ⟨hr.word, hr.afterQuote⟩
  refine Reader.reads_cons hopen.afterQuote fun span' => ⟨r.addExpression e, ?_, ?_⟩
  · rw [Reader.readToken, hopen.endWord_eq]
    rfl
  · exact (hr.addExpression e).reads_space

section ReadBack

variable {a b : Arena} {style : Nat → Quote} {ts : List Token} {es es' : List Expression}

theorem exists_readBack_leaf {h : Handle} {i : Identifier} (hget : a.get? h = some i)
    (hi : i.IsPrintable) (b : Arena) (k : Nat) :
    ∃ e, member.ReadBack a b ((leaf h).tokens a style k) [leaf h] [e] := by
  have hleaves : [leaf h].flatMap member.leaves = [h] := by simp [member, leaves]
  refine ⟨.leaf (b.push i).1, .cons (.leaf trivial) .nil, ?_, ?_⟩
  · rw [hleaves, Arena.copy_singleton hget]
    simp [member, leaves]
  · rintro r hr rfl
    rw [hleaves, Arena.copy_singleton hget]
    simp only [tokens, Arena.tokens, hget]
    exact Reader.Ready.reads_leaf hr hi (style k)

theorem readBack_group (h : member.ReadBack a b ts es es') :
    member.ReadBack a b (.leftParen :: ts ++ [.rightParen, .space]) [.group es] [.group es'] := by
  have hleaves : ∀ es, [Expression.group es].flatMap member.leaves = es.flatMap member.leaves := by
    simp [member, leaves, leavesOf_eq]
  refine ⟨.cons (.group h.sameShape) .nil, ?_, ?_⟩
  · rw [hleaves, hleaves]
    exact h.leaves
  · intro r hr hb
    rw [hleaves]
    have hready : r.Ready := hr
    refine Reader.reads_cons hready.afterQuote fun span =>
      ⟨r.openGroup (.group []) .paren span, ?_, ?_⟩
    · rw [Reader.readToken, hready.endWord_eq]
    · have hinner : Reads ts (r.openGroup (.group []) .paren span)
          (member.addAll ((r.setArena (a.copy b (es.flatMap member.leaves)).2).openGroup
            (.group []) .paren span) es') :=
        h.reads (r.openGroup (.group []) .paren span) ⟨hready.word, hready.afterQuote⟩ hb
      rw [addAll_openGroup] at hinner
      exact hinner.append (reads_close (hready.setArena _) (.group es') span)

/-- An expression whose leaves can be written is read back from its tokens. -/
theorem exists_readBack_tokens {e : Expression} (hleaves : a.AllPrintable e.leaves) (b : Arena)
    (k : Nat) : ∃ e', member.ReadBack a b (e.tokens a style k) [e] [e'] := by
  induction e using Expression.induction generalizing b k with
  | leaf h =>
    obtain ⟨i, hget, hi⟩ := hleaves h (by simp [leaves])
    exact exists_readBack_leaf hget hi b k
  | group es ih =>
    rw [leaves, leavesOf_eq] at hleaves
    rw [tokens, tokensOf_eq]
    obtain ⟨es', hes'⟩ := Member.exists_readBack_inTurn
      (fun e he b k => ih e he (hleaves.of_mem he) b k) b k
    exact ⟨.group es', readBack_group hes'⟩

theorem exists_readBack_tokensOf (hleaves : a.AllPrintable (leavesOf es)) (b : Arena) (k : Nat) :
    ∃ es', member.ReadBack a b (tokensOf a style k es) es es' := by
  rw [leavesOf_eq] at hleaves
  rw [tokensOf_eq]
  exact Member.exists_readBack_inTurn
    (fun e he b k => exists_readBack_tokens (hleaves.of_mem he) b k) b k

end ReadBack

end Expression

/-! ## Statements -/

namespace Reader

/-- The reader with one more open block. -/
def inBlock (r : Reader) (s : Statement) (span : Span) : Reader :=
  { r with blocks := ⟨s, span⟩ :: r.blocks }

section AtLine

variable {r : Reader}

theorem AtLine.setArena (hr : r.AtLine) (b : Arena) : (r.setArena b).AtLine :=
  ⟨hr.toReady.setArena b, hr.groups, hr.line⟩

theorem AtLine.inBlock (hr : r.AtLine) (s : Statement) (span : Span) : (r.inBlock s span).AtLine :=
  ⟨⟨hr.word, hr.afterQuote⟩, hr.groups, hr.line⟩

theorem setArena_addStatement (r : Reader) (s : Statement) (b : Arena) :
    (r.addStatement s).setArena b = (r.setArena b).addStatement s := by
  unfold addStatement setArena
  cases r.blocks <;> rfl

theorem AtLine.emptyLine_eq (hr : r.AtLine) : { r with line := .group [] } = r := by
  rw [← hr.line]

theorem AtLine.requireClosed_endWord (hr : r.AtLine) (line : Expression) :
    requireClosed (endWord { r with line }) = .ok { r with line } := by
  have hready : Ready { r with line } := ⟨hr.word, hr.afterQuote⟩
  rw [hready.endWord_eq, requireClosed]
  simp only [hr.groups]

/-- What is read at the start of a line stands on the line. -/
theorem AtLine.addAll_eq (hr : r.AtLine) (es : List Expression) :
    Expression.member.addAll r es = { r with line := .group es } :=
  Expression.addAll_line hr.groups hr.line es

/-- A newline makes what stands on the line a statement. -/
theorem AtLine.endLine_addAll (hr : r.AtLine) (es : List Expression) :
    (Expression.member.addAll r es).endLine = .ok (r.addStatement (.line (.group es))) := by
  rw [hr.addAll_eq, endLine, hr.requireClosed_endWord]
  exact congrArg (fun t : Reader => Except.ok (t.addStatement (.line (.group es)))) hr.emptyLine_eq

/-- An opening brace makes what stands on the line the head of a block. -/
theorem AtLine.openBlock_addAll (hr : r.AtLine) (es : List Expression) (span : Span) :
    (Expression.member.addAll r es).openBlock span = .ok (r.inBlock (.line (.group es)) span) := by
  rw [hr.addAll_eq, openBlock, hr.requireClosed_endWord]
  exact congrArg (fun t : Reader => Except.ok (t.inBlock (.line (.group es)) span)) hr.emptyLine_eq

/-- A closing brace at the start of a line makes the innermost block a statement. -/
theorem AtLine.closeBlock_inBlock (hr : r.AtLine) (s : Statement) (span span' : Span) :
    (r.inBlock s span).closeBlock span' = .ok (r.addStatement s) := by
  obtain ⟨arena, _, _, _, root, blocks, quote⟩ := r
  cases hr.word
  cases hr.groups
  cases hr.line
  rfl

end AtLine

end Reader

namespace Statement

open Reader (Reads AtLine)

/-- Statements, which are read one after the other from the start of a line on. -/
def member : Member Statement where
  SameShape := SameShape
  leaves := leaves
  add := Reader.addStatement
  Begins := Reader.AtLine
  begins_add _ s hr := hr.addStatement s
  begins_setArena _ b hr := hr.setArena b
  arena_add := Reader.arena_addStatement
  setArena_add := Reader.setArena_addStatement

/-- What is added while a block is open stands in its body. -/
theorem addAll_inBlock (r : Reader) (head : Expression) (body ss : List Statement) (span : Span) :
    member.addAll (r.inBlock (.mk head body) span) ss = r.inBlock (.mk head (body ++ ss)) span := by
  induction ss generalizing body with
  | nil => simp [Member.addAll]
  | cons s ss ih =>
    rw [List.append_cons]
    exact ih (body ++ [s])

/-- What is added while no block is open stands in the body of the whole. -/
theorem addAll_root {r : Reader} {head : Expression} {body : List Statement}
    (hblocks : r.blocks = []) (hroot : r.root = .mk head body) (ss : List Statement) :
    member.addAll r ss = { r with root := .mk head (body ++ ss) } := by
  induction ss generalizing r body with
  | nil => simp [Member.addAll, ← hroot]
  | cons s ss ih =>
    have hfirst : r.addStatement s = { r with root := .mk head (body ++ [s]) } := by
      simp [Reader.addStatement, hblocks, hroot, push]
    have hrest := ih (r := { r with root := .mk head (body ++ [s]) }) hblocks rfl
    rw [List.append_assoc] at hrest
    exact (congrArg (member.addAll · ss) hfirst).trans hrest

section ReadBack

variable {a b : Arena} {style : Nat → Quote} {ts ts' : List Token} {ss ss' : List Statement}
  {es es' : List Expression}

/-- A head in front of a newline is read back as a line. -/
theorem readBack_line (h : Expression.member.ReadBack a b ts es es') :
    member.ReadBack a b (ts ++ [.newline]) [.line (.group es)] [.line (.group es')] := by
  have hleaves : ∀ es, [line (.group es)].flatMap member.leaves =
      es.flatMap Expression.member.leaves := by
    simp [member, Expression.member, Expression.leaves, Expression.leavesOf_eq]
  refine ⟨.cons (alike_line (.group h.sameShape)) .nil, ?_, ?_⟩
  · rw [hleaves, hleaves]
    exact h.leaves
  · intro r hr hb
    rw [hleaves]
    have hmoved := AtLine.setArena hr (a.copy b (es.flatMap Expression.member.leaves)).2
    refine (h.reads r (AtLine.toReady hr) hb).append (Reader.reads_cons ?_ fun span => ?_)
    · exact (Member.begins_addAll (m := Expression.member) hmoved.toReady es').afterQuote
    · exact ⟨_, hmoved.endLine_addAll es', Reader.reads_nil _⟩

/-- A head in front of braces is read back as the head of what stands between them. -/
theorem readBack_block (h : Expression.member.ReadBack a b ts es es')
    (hbody : member.ReadBack a (a.copy b (es.flatMap Expression.member.leaves)).2 ts' ss ss') :
    member.ReadBack a b (ts ++ (.leftBrace :: ts' ++ [.rightBrace])) [.mk (.group es) ss]
      [.mk (.group es') ss'] := by
  have hleaves : ∀ es ss, [Statement.mk (.group es) ss].flatMap member.leaves =
      es.flatMap Expression.member.leaves ++ ss.flatMap member.leaves := by
    simp [member, Expression.member, leaves, leavesOf_eq, Expression.leaves, Expression.leavesOf_eq]
  refine ⟨.cons (.mk (.group h.sameShape) hbody.sameShape) .nil, ?_, ?_⟩
  · rw [hleaves, hleaves, Arena.copy_append, h.leaves, hbody.leaves]
  · intro r hr hb
    rw [hleaves, Arena.copy_append]
    generalize hfirst : (a.copy b (es.flatMap Expression.member.leaves)).2 = b₁ at hbody ⊢
    generalize hsecond : (a.copy b₁ (ss.flatMap member.leaves)).2 = b₂
    have hhead := h.reads r (AtLine.toReady hr) hb
    have hmoved := AtLine.setArena hr b₁
    rw [hfirst] at hhead
    refine hhead.append (Reader.reads_cons ?_ fun span => ?_)
    · exact (Member.begins_addAll (m := Expression.member) hmoved.toReady es').afterQuote
    · refine ⟨_, hmoved.openBlock_addAll es' span, ?_⟩
      have hinner : Reads ts' ((r.setArena b₁).inBlock (.mk (.group es') []) span)
          (member.addAll ((r.setArena b₂).inBlock (.mk (.group es') []) span) ss') :=
        hsecond ▸ hbody.reads _ (hmoved.inBlock _ span) rfl
      rw [addAll_inBlock] at hinner
      have hclosing := AtLine.setArena hr b₂
      exact hinner.append (Reader.reads_cons (hclosing.inBlock _ span).afterQuote fun span' =>
        ⟨_, hclosing.closeBlock_inBlock _ span span', Reader.reads_nil _⟩)

/-- A statement whose heads are groups and whose leaves can be written is read back from its
tokens. -/
theorem exists_readBack_tokens {s : Statement} (hheads : s.HasGroupHeads)
    (hleaves : a.AllPrintable s.leaves) (b : Arena) (k : Nat) :
    ∃ s', member.ReadBack a b (s.tokens a style k) [s] [s'] := by
  induction s using Statement.induction generalizing b k with
  | mk head body ih =>
    obtain ⟨hheads⟩ := hheads
    next es =>
      obtain ⟨hleaves, hleaves'⟩ := List.forall_mem_append.mp hleaves
      rw [leavesOf_eq] at hleaves'
      obtain ⟨es', hes⟩ :
          ∃ es', Expression.member.ReadBack a b (Expression.tokensOf a style k es) es es' :=
        Expression.exists_readBack_tokensOf hleaves b k
      rw [tokens, tokensOf_eq]
      cases body with
      | nil => exact ⟨.line (.group es'), readBack_line hes⟩
      | cons s ss =>
        obtain ⟨ss', hss⟩ := Member.exists_readBack_inTurn
          (fun s hs b k => ih s hs (hheads s hs) (Arena.AllPrintable.of_mem hleaves' hs) b k)
          (a.copy b (es.flatMap Expression.member.leaves)).2
          (k + (Expression.group es).leaves.length)
        exact ⟨.mk (.group es') ss', readBack_block hes hss⟩

theorem exists_readBack_tokensOf (hheads : ∀ s ∈ ss, s.HasGroupHeads)
    (hleaves : a.AllPrintable (leavesOf ss)) (b : Arena) (k : Nat) :
    ∃ ss', member.ReadBack a b (tokensOf a style k ss) ss ss' := by
  rw [leavesOf_eq] at hleaves
  rw [tokensOf_eq]
  exact Member.exists_readBack_inTurn
    (fun s hs b k => exists_readBack_tokens (hheads s hs) (hleaves.of_mem hs) b k) b k

end ReadBack

/-- Printing and then reading gives the statement back. A statement whose leaves are names, integers
and strings, whose heads are groups and whose last line is not a block can be read from its text
into any arena, and what is read is the same statement, with the same identifiers at its leaves. -/
theorem ofText_print {a b : Arena} {past : List Arena.Effect} (hb : Arena.Run past b)
    {s : Statement} (hs : s.IsPrintable a) (style : Nat → Quote) :
    ∃ s', (ofText (s.print a style) b).1 = .ok s' ∧
      s.Alike (SameIdentifier a (ofText (s.print a style) b).2) s' := by
  obtain ⟨head, body⟩ := s
  cases hs.head
  obtain ⟨body', hbody⟩ : ∃ body', member.ReadBack a b (tokensOf a style 0 body) body body' :=
    exists_readBack_tokensOf hs.heads_body hs.leaves_body b 0
  have hread : ofText (print a style (.mk (.group []) body)) b =
      (.ok (.mk (.group []) body'), (a.copy b (body.flatMap leaves)).2) := by
    obtain ⟨lexemes, hlexemes, htokens⟩ := (hs.lexes style).cutAll 0
    have hcut := Lexeme.ofText_eq_ok.mpr hlexemes
    have hfold := hbody.reads { arena := b } ⟨⟨rfl, rfl⟩, rfl, rfl⟩ rfl lexemes htokens
    rw [addAll_root rfl rfl] at hfold
    simp only [ofText, withFinalNewline, hs.getLast?_print style, if_true, hcut, Reader.readAll,
      hfold]
    rfl
  rw [hread]
  refine ⟨_, rfl, Alike.of_leaves (.mk (.group .nil) hbody.sameShape) ?_⟩
  have hleaves : ∀ ss, leaves (.mk (.group []) ss) = ss.flatMap leaves := leavesOf_eq
  have hprintable := hs.leaves
  rw [hleaves] at hprintable
  rw [hleaves, hleaves, show body'.flatMap leaves = _ from hbody.leaves]
  exact Arena.forall₂_copy hb.tidy hprintable

/-- A block with a string in it and a line below it. -/
theorem ofText_print_block :
    ∃ a s, IsPrintable a s ∧
      s.print a (fun _ => .double) = "\\f (-5 ) \x7b\"\\\"\\n\" \n\x7d\\f \n" ∧
      ∃ s', (ofText (s.print a fun _ => .double) .empty).1 = .ok s' ∧
        s.Alike (SameIdentifier a (ofText (s.print a fun _ => .double) .empty).2) s' := by
  let a := (Arena.empty.pushAll [.name "f" 0, .int (-5), .string "\"\n"]).2
  let s : Statement := .mk (.group []) [
    .mk (.group [.leaf ⟨1, 0⟩, .group [.leaf ⟨2, 0⟩]]) [.line (.group [.leaf ⟨3, 0⟩])],
    .line (.group [.leaf ⟨1, 0⟩])]
  have hname : ∃ i, a.get? ⟨1, 0⟩ = some i ∧ i.IsPrintable :=
    ⟨_, rfl, .name (by decide) (by decide) (by decide +kernel)⟩
  have hleaves : a.AllPrintable [⟨1, 0⟩, ⟨2, 0⟩, ⟨3, 0⟩, ⟨1, 0⟩] := by
    intro h hh
    simp only [List.mem_cons, List.not_mem_nil, or_false] at hh
    rcases hh with rfl | rfl | rfl | rfl
    · exact hname
    · exact ⟨_, rfl, .int (-5)⟩
    · exact ⟨_, rfl, .string "\"\n"⟩
    · exact hname
  have hline : ∀ es, HasGroupHeads (.line (.group es)) := fun es => .mk (by simp)
  have hheads : s.HasGroupHeads := .mk <| List.forall_mem_cons.mpr
    ⟨.mk (List.forall_mem_singleton.mpr (hline _)), List.forall_mem_singleton.mpr (hline _)⟩
  have hs : s.IsPrintable a := ⟨rfl, ⟨[_], _, rfl⟩, hheads, hleaves⟩
  exact ⟨a, s, hs, by decide +kernel, ofText_print .empty hs fun _ => .double⟩

end Statement

end WordScript
