import WordScript.Proofs.Acceptance
import WordScript.Proofs.Layout

/-!
# Reading inside groups

Nested tokens neither close a group that is open around them nor take anything off it, so they are
read in any open group as on a line of their own (`readTokens_above`): what they add, and what they
push onto the arena, is the same. An index is read like the group that it stands for, of the
expression in front of it, the operator and the group of its arguments (`readTokens_index`).
-/

namespace WordScript

open Token (Bracket Nested)

/-- How many groups the token closes. -/
def Token.closes : Token → Nat
  | .rightParen => 1
  | .rightBracket => 2
  | _ => 0

namespace Reader

/-- The reader whose line stands as an open group on top of the groups of another reader. -/
def above (k base : Reader) (opener : Opener) : Reader :=
  { base with
    arena := k.arena
    word := k.word
    groups := k.groups ++ ⟨k.line, opener, ⟨0, 0⟩⟩ :: base.groups
    afterQuote := k.afterQuote }

section Above

variable {k base : Reader} {opener : Opener}

theorem above_above (k base base' : Reader) (opener opener' : Opener) :
    (k.above base opener).above base' opener' = k.above (base.above base' opener') opener := by
  simp [above]

/-- A group that has just been opened is like a line on which nothing stands yet. -/
theorem Ready.openGroup_eq (hbase : base.Ready) (opener : Opener) :
    base.openGroup (.group []) opener ⟨0, 0⟩ = above { arena := base.arena } base opener := by
  obtain ⟨arena, word, line, groups, root, blocks, quote⟩ := base
  cases hbase.word
  cases hbase.afterQuote
  rfl

theorem addExpression_above (k : Reader) (e : Expression) :
    (k.above base opener).addExpression e = (k.addExpression e).above base opener := by
  obtain ⟨arena, word, line, groups, root, blocks, quote⟩ := k
  cases groups <;> rfl

theorem endWord_above (k : Reader) :
    (k.above base opener).endWord = k.endWord.above base opener := by
  obtain ⟨arena, word, line, groups, root, blocks, quote⟩ := k
  cases word with
  | none => rfl
  | some word =>
    exact addExpression_above (Reader.newLeaf ⟨arena, none, line, groups, root, blocks, quote⟩
      (.ofWord word)).2 _

theorem closeGroup_above (hgroups : k.groups ≠ []) (opener' : Opener) (span : Span) :
    (k.above base opener).closeGroup opener' span =
      (k.closeGroup opener' span).map (above · base opener) := by
  obtain ⟨arena, word, line, groups, root, blocks, quote⟩ := k
  cases groups with
  | nil => exact absurd rfl hgroups
  | cons g gs =>
    by_cases hopener : g.opener = opener'
    · simp only [closeGroup, above, List.cons_append, hopener, if_true]
      exact congrArg Except.ok
        (addExpression_above (⟨arena, word, line, gs, root, blocks, quote⟩ : Reader) g.contents)
    · simp only [closeGroup, above, List.cons_append, hopener, if_false]
      rfl

theorem takeExpression?_above (k : Reader) :
    (k.above base opener).takeExpression? =
      k.takeExpression?.map fun t => (t.1, t.2.above base opener) := by
  obtain ⟨arena, word, line, groups, root, blocks, quote⟩ := k
  cases groups with
  | nil =>
    simp only [takeExpression?, above, List.nil_append]
    cases line.pop? <;> rfl
  | cons g gs =>
    simp only [takeExpression?, above, List.cons_append]
    cases g.contents.pop? <;> rfl

theorem openIndex_above (k : Reader) (span : Span) :
    (k.above base opener).openIndex span = (k.openIndex span).map (above · base opener) := by
  cases hword : k.word with
  | some word =>
    rw [openIndex_of_word hword, openIndex_of_word (r := k.above base opener) hword]
    rfl
  | none =>
    have htake : (k.above base opener).takeExpression? = _ := takeExpression?_above k
    cases htaken : k.takeExpression? with
    | none =>
      rw [htaken] at htake
      rw [openIndex_of_nothing hword htaken,
        openIndex_of_nothing (r := k.above base opener) hword htake]
      rfl
    | some p =>
      rw [htaken] at htake
      rw [openIndex_of_taken hword htaken,
        openIndex_of_taken (r := k.above base opener) hword htake]
      rfl

theorem length_groups_of_closeGroup {u : Reader} {span : Span}
    (h : k.closeGroup opener span = .ok u) : u.groups.length + 1 = k.groups.length := by
  unfold closeGroup at h
  split at h
  · next g gs hgroups =>
    split at h
    · cases h
      have hlength := congrArg List.length
        (map_opener_addExpression { k with groups := gs } g.contents)
      simp only [List.length_map] at hlength
      rw [hlength, hgroups, List.length_cons]
    · cases h
  · cases h

/-- Reading a token on a line and in an open group comes to the same, when the token is no break and
does not close the group. -/
theorem readToken_above {token : Token} (hbreak : token.isBreak = false)
    (hcloses : token.closes ≤ k.groups.length) (span : Span) :
    (k.above base opener).readToken token span =
      (k.readToken token span).map (above · base opener) := by
  have hended : k.endWord.groups.length = k.groups.length := by
    obtain ⟨arena, word, line, groups, root, blocks, quote⟩ := k
    cases word with
    | none => rfl
    | some word => cases groups <;> rfl
  have hopen : ∀ {t : Reader}, 0 < t.groups.length → t.groups ≠ [] := fun h =>
    List.length_pos_iff.mp h
  cases token with
  | word text => rfl
  | escaped c => rfl
  | space => exact congrArg Except.ok (endWord_above k)
  | continuation => exact congrArg Except.ok (endWord_above k)
  | quoted quote text =>
    refine congrArg Except.ok ?_
    rw [endWord_above]
    let leaf := k.endWord.newLeaf (.string text)
    have hleaf : (leaf.2.above base opener).addExpression leaf.1 = _ :=
      addExpression_above leaf.2 leaf.1
    exact congrArg (fun t : Reader => { t with afterQuote := some span }) hleaf
  | leftParen =>
    simp only [readToken, endWord_above]
    rfl
  | rightParen =>
    simp only [readToken, endWord_above]
    exact closeGroup_above (hopen (hended ▸ hcloses)) .paren span
  | leftBracket => exact openIndex_above k span
  | rightBracket =>
    have htwo : 2 ≤ k.endWord.groups.length := hended ▸ hcloses
    simp only [readToken, endWord_above]
    rw [closeGroup_above (hopen (by omega))]
    cases hclose : k.endWord.closeGroup .arguments span with
    | error refusal => rfl
    | ok t =>
      have hlength := length_groups_of_closeGroup hclose
      exact closeGroup_above (hopen (by omega)) .index span
  | newline => cases hbreak
  | leftBrace => cases hbreak
  | rightBrace => cases hbreak

theorem read_above {l : Lexeme} (hbreak : l.token.isBreak = false)
    (hcloses : l.token.closes ≤ k.groups.length) :
    (k.above base opener).read l = (k.read l).map (above · base opener) := by
  obtain ⟨arena, word, line, groups, root, blocks, quote⟩ := k
  cases quote with
  | none => exact readToken_above hbreak hcloses l.span
  | some quote =>
    simp only [read, above]
    split
    · exact readToken_above (k := ⟨arena, word, line, groups, root, blocks, none⟩) hbreak hcloses
        l.span
    · rfl

/-- A bracket opens a group that is like a line on which nothing stands yet, and an index opens one
more around it. -/
theorem exists_above_of_read_opening {u : Reader} (b : Bracket)
    (h : k.read b.opening.lexeme = .ok u) :
    ∃ base opener, u = above { arena := base.arena } base opener ∧
      b.closing.closes ≤ base.groups.length + 1 := by
  have h := readToken_of_read h
  cases b with
  | round =>
    cases h
    have hready : (endWord { k with afterQuote := none }).Ready :=
      ⟨word_endWord _, afterQuote_endWord _⟩
    exact ⟨_, _, hready.openGroup_eq .paren, Nat.le_add_left 1 _⟩
  | square =>
    obtain ⟨t, e, rfl, hword, ht⟩ := exists_indexOf h
    have hready : ((t.newLeaf (.ofWord indexWord)).2.openGroup
        (.group [e, (t.newLeaf (.ofWord indexWord)).1]) .index ⟨0, 0⟩).Ready :=
      ⟨hword, ht.afterQuote⟩
    refine ⟨_, _, hready.openGroup_eq .arguments, ?_⟩
    simp [openGroup, Bracket.closing, Token.closes]

/-- Nested tokens are read in an open group as on a line of their own. -/
theorem readTokens_above {ts : List Token} (h : Nested ts) (k base : Reader) (opener : Opener) :
    (k.above base opener).readTokens ts = (k.readTokens ts).map (above · base opener) := by
  induction h generalizing k base opener with
  | nil => rfl
  | @plain t ts ht _ ih =>
    have hbreak : t.isBreak = false := by cases t <;> first | rfl | cases ht
    have hcloses : t.closes = 0 := by cases t <;> first | rfl | cases ht
    rw [readTokens_cons, readTokens_cons,
      read_above (l := t.lexeme) hbreak (hcloses.le.trans (Nat.zero_le _))]
    cases k.read t.lexeme with
    | error refusal => rfl
    | ok u => exact ih u base opener
  | @group b inner ts _ _ ihinner ih =>
    rw [readTokens_cons, readTokens_cons, read_above (l := b.opening.lexeme) (by cases b <;> rfl)
      (by cases b <;> exact Nat.zero_le _)]
    cases hopen : k.read b.opening.lexeme with
    | error refusal => rfl
    | ok u =>
      obtain ⟨base', opener', rfl, hcloses⟩ := exists_above_of_read_opening b hopen
      change (above (above _ base' opener') base opener).readTokens _ =
        Except.map _ (readTokens (above _ base' opener') _)
      rw [above_above, readTokens_append, readTokens_append, ihinner, ihinner]
      -- what stands in the group is the same in both contexts
      cases readTokens { arena := base'.arena } inner with
      | error refusal => rfl
      | ok v =>
        change readTokens (v.above (base'.above base opener) opener') (b.closing :: ts) =
          Except.map _ (readTokens (v.above base' opener') (b.closing :: ts))
        have hlength : b.closing.closes ≤ (v.above base' opener').groups.length := by
          simp only [above, List.length_append, List.length_cons]
          omega
        rw [readTokens_cons, readTokens_cons, ← above_above,
          read_above (l := b.closing.lexeme) (by cases b <;> rfl) hlength]
        cases (v.above base' opener').read b.closing.lexeme with
        | error refusal => rfl
        | ok w => exact ih w base opener

end Above

/-! ## What is read in a group that is closed -/

section Closing

variable {k base u : Reader} {opener : Opener} {ts rest : List Token} {t : Token} {a : Arena}

/-- No group is open after nested tokens. -/
theorem groups_of_readTokens (h : Nested ts) (hk : readTokens { arena := a } ts = .ok k) :
    k.groups = [] := by
  have hfollows := follows_foldlM (shows_start a) (ts.map Token.lexeme)
  have htokens : (ts.map Token.lexeme).map Lexeme.token = ts := by
    rw [List.map_map]
    exact ts.map_id
  rw [htokens, show (ts.map Token.lexeme).foldlM read { arena := a } = .ok k from hk] at hfollows
  generalize ho : ts.foldlM Token.Outline.step {} = o at hfollows
  cases hfollows with
  | ok hshows =>
    have hbrackets := (Token.describes_of_outline? ho).brackets
    rw [h.foldlM] at hbrackets
    exact hshows.groups_eq_nil.mpr (Option.some.inj hbrackets).symm

/-- What may not follow a string does not. -/
theorem afterQuote_of_readTokens (ht : t.isLayout = false)
    (h : k.readTokens (t :: rest) = .ok u) : k.afterQuote = none := by
  rw [readTokens_cons] at h
  obtain ⟨v, hread, -⟩ := exists_of_bind_ok h
  cases hquote : k.afterQuote with
  | none => rfl
  | some quote =>
    unfold read at hread
    rw [hquote] at hread
    simp only [show t.lexeme.token = t from rfl, ht] at hread
    cases hread

/-- What nested tokens are read into in a group is read into it in every open group. -/
theorem exists_of_readTokens_above (h : Nested ts) (ht : t.isLayout = false)
    (hu : (above { arena := a } base opener).readTokens (ts ++ t :: rest) = .ok u) :
    ∃ k : Reader, k.groups = [] ∧ k.afterQuote = none ∧
      (k.above base opener).readTokens (t :: rest) = .ok u ∧
      ∀ base' opener', (above { arena := a } base' opener').readTokens ts =
        .ok (k.above base' opener') := by
  rw [readTokens_append] at hu
  obtain ⟨v, hv, hrest⟩ := exists_of_bind_ok hu
  rw [readTokens_above h] at hv
  cases hk : readTokens { arena := a } ts with
  | error refusal =>
    rw [hk] at hv
    cases hv
  | ok k =>
    rw [hk] at hv
    obtain rfl := Except.ok.inj hv
    refine ⟨k, groups_of_readTokens h hk, ?_, hrest, fun base' opener' => ?_⟩
    · exact afterQuote_of_readTokens (k := k.above base opener) ht hrest
    · rw [readTokens_above h, hk]
      rfl

/-- A group is closed, and stands in the place where it was opened. -/
theorem closeGroup_above_ended (hgroups : k.groups = []) (hquote : k.afterQuote = none)
    (hbase : base.Ready) (opener : Opener) (span : Span) :
    (k.above base opener).endWord.closeGroup opener span =
      .ok ((base.setArena k.endWord.arena).addExpression k.endWord.line) := by
  have hended : k.endWord.groups = [] := by
    obtain ⟨arena, word, line, groups, root, blocks, quote⟩ := k
    cases hgroups
    cases word <;> rfl
  have hquote' : k.endWord.afterQuote = none := (afterQuote_endWord k).trans hquote
  rw [endWord_above]
  obtain ⟨arena, word, line, groups, root, blocks, quote⟩ := base
  cases hbase.word
  cases hbase.afterQuote
  simp only [closeGroup, above, hended, List.nil_append, if_true, word_endWord, hquote']
  rfl

end Closing

/-! ## Operands -/

section Operands

variable {r t u : Reader} {ts ts' rest : List Token}

theorem readTokens_trans (h : r.readTokens ts = .ok t) (h' : t.readTokens ts' = .ok u) :
    r.readTokens (ts ++ ts') = .ok u := by
  rw [readTokens_append, h]
  exact h'

theorem Reads.readTokens_eq (h : Reads ts r u) : r.readTokens ts = .ok u := by
  refine h _ ?_
  rw [List.map_map]
  exact ts.map_id

theorem Grouped.readTokens (hr : r.Grouped) (h : r.readTokens ts = .ok u) : u.Grouped := by
  induction ts generalizing r with
  | nil =>
    cases h
    exact hr
  | cons token ts ih =>
    rw [readTokens_cons] at h
    obtain ⟨t, ht, hu⟩ := exists_of_bind_ok h
    exact ih (hr.read ht) hu

/-- Pieces are read into the word that has begun. -/
theorem exists_word_of_pieces (hts : ∀ t ∈ ts, t.isPiece = true) (word : String) :
    ∃ word', ∀ r : Reader, r.afterQuote = none →
      readTokens { r with word := some word } ts = .ok { r with word := some word' } := by
  induction ts generalizing word with
  | nil => exact ⟨word, fun _ _ => rfl⟩
  | cons token ts ih =>
    obtain ⟨hpiece, hts⟩ := List.forall_mem_cons.mp hts
    obtain ⟨text, htext⟩ := Option.isSome_iff_exists.mp hpiece
    obtain ⟨word', hword'⟩ := ih hts (word ++ text)
    refine ⟨word', fun r hquote => ?_⟩
    have hread : read { r with word := some word } token.lexeme =
        .ok { r with word := some (word ++ text) } := by
      unfold read
      rw [hquote]
      exact readToken_of_piece? htext _
    rw [readTokens_cons, hread]
    exact hword' r hquote

end Operands

end Reader

namespace Token

/-- Tokens of one member of a group or a line: a word, a string or a group. -/
inductive Operand : List Token → Prop where
  | word {ts : List Token} (hne : ts ≠ []) (hts : ∀ t ∈ ts, t.isPiece = true) : Operand ts
  | quoted (quote : Quote) (text : String) : Operand [quoted quote text]
  | group {ts : List Token} (h : Nested ts) : Operand (leftParen :: (ts ++ [rightParen]))

/-- An operand begins with a token that is no layout. -/
theorem Operand.exists_cons {ts : List Token} (h : Operand ts) :
    ∃ t rest, ts = t :: rest ∧ t.isLayout = false := by
  cases h with
  | word hne hts =>
    obtain ⟨t, rest, rfl⟩ := List.exists_cons_of_ne_nil hne
    have hpiece := hts t List.mem_cons_self
    refine ⟨t, rest, rfl, ?_⟩
    cases t <;> first | rfl | cases hpiece
  | quoted quote text => exact ⟨_, _, rfl, rfl⟩
  | group h => exact ⟨_, _, rfl, rfl⟩

/-- The group that an index of the operand stands for. -/
def indexGroup (target args : List Token) : List Token :=
  [leftParen, space] ++ (target ++ [space]) ++ [Token.word indexWord, space] ++ [leftParen] ++
    args ++ [rightParen, space] ++ [rightParen]

theorem isPlain_of_isPiece {t : Token} (ht : t.isPiece = true) : t.isPlain = true := by
  cases t <;> first | rfl | cases ht

theorem Operand.nested {ts : List Token} (h : Operand ts) : Nested ts := by
  cases h with
  | word hne hts => exact nested_of_isPlain fun t ht => isPlain_of_isPiece (hts t ht)
  | quoted quote text => exact .plain rfl .nil
  | group h => exact .group .round h .nil

/-- An operand that ends in a piece is a word. -/
theorem Operand.isPiece_of_getLast? {ts : List Token} {t : Token} (h : Operand ts)
    (hlast : ts.getLast? = some t) (ht : t.isPiece = true) : ∀ t ∈ ts, t.isPiece = true := by
  cases h with
  | word hne hts => exact hts
  | quoted quote text =>
    cases hlast
    cases ht
  | group h =>
    rw [← List.cons_append, List.getLast?_concat] at hlast
    cases hlast
    cases ht

theorem Operand.ne_space_of_getLast? {ts : List Token} {t : Token} (h : Operand ts)
    (hlast : t ∈ ts.getLast?) : t ≠ space := by
  rintro rfl
  cases h with
  | word hne hts =>
    have hpiece := hts space (List.mem_of_getLast? hlast)
    cases hpiece
  | quoted quote text => cases hlast
  | group h =>
    rw [← List.cons_append, List.getLast?_concat] at hlast
    cases hlast

/-- The group that an index stands for is an operand itself. -/
theorem Operand.indexGroup {target args : List Token} (htarget : Operand target)
    (hargs : Nested args) : Operand (indexGroup target args) := by
  have harguments : Nested (leftParen :: (args ++ rightParen :: [space])) :=
    .group .round hargs (.plain rfl .nil)
  have hinner : Nested (space :: (target ++ (space :: Token.word indexWord :: space ::
      (leftParen :: (args ++ rightParen :: [space]))))) :=
    .plain rfl (htarget.nested.append (.plain rfl (.plain rfl (.plain rfl harguments))))
  have hgroup := Operand.group hinner
  simpa [Token.indexGroup] using hgroup

end Token

namespace Reader

open Token (Operand indexGroup)

section Index

variable {r t u : Reader} {ts rest target gap args : List Token} {token : Token}

/-- A space makes no difference where no word has begun. -/
theorem Ready.readTokens_space (hr : r.Ready) : r.readTokens [.space] = .ok r :=
  hr.reads_space.readTokens_eq

theorem Ready.read_leftParen (hr : r.Ready) :
    r.read Token.leftParen.lexeme = .ok (above { arena := r.arena } r .paren) := by
  unfold read
  rw [hr.afterQuote, ← hr.openGroup_eq]
  refine congrArg Except.ok ?_
  rw [hr.endWord_eq]
  rfl

theorem Ready.readTokens_leftParen (hr : r.Ready) :
    r.readTokens [.leftParen] = .ok (above { arena := r.arena } r .paren) := by
  rw [readTokens_cons, hr.read_leftParen]
  rfl

/-- A group is closed and a space follows it. -/
theorem Ready.readTokens_rightParen {k : Reader} (hr : r.Ready) (hgroups : k.groups = [])
    (hquote : k.afterQuote = none) :
    (k.above r .paren).readTokens [.rightParen, .space] =
      .ok ((r.setArena k.endWord.arena).addExpression k.endWord.line) := by
  have hclose : (k.above r .paren).read Token.rightParen.lexeme =
      .ok ((r.setArena k.endWord.arena).addExpression k.endWord.line) := by
    unfold read
    rw [show (k.above r .paren).afterQuote = none from hquote]
    exact closeGroup_above_ended hgroups hquote hr .paren _
  rw [readTokens_cons, hclose]
  exact ((hr.setArena _).addExpression _).readTokens_space

/-- A word that a space follows is a leaf. -/
theorem Ready.readTokens_word (hr : r.Ready) (text : String) :
    r.readTokens [.word text, .space] = .ok (r.addLeaf (.ofWord text)) := by
  have hread : r.read (Token.word text).lexeme = .ok { r with word := some text } := by
    have hadds : r.read (Token.word text).lexeme = .ok (r.addToWord text) := by
      unfold read
      rw [hr.afterQuote]
      rfl
    rw [hadds, addToWord, hr.word, Option.getD_none, String.empty_append]
  rw [readTokens_cons, hread]
  exact (hr.reads_word_space text).readTokens_eq

theorem Ready.readTokens_close (hr : r.Ready) (e : Expression) :
    (r.openGroup e .paren ⟨0, 0⟩).readTokens [.rightParen] = .ok (r.addExpression e) := by
  have hopen : (r.openGroup e .paren ⟨0, 0⟩).Ready := ⟨hr.word, hr.afterQuote⟩
  have hread : (r.openGroup e .paren ⟨0, 0⟩).read Token.rightParen.lexeme =
      .ok (r.addExpression e) := by
    unfold read
    rw [hopen.afterQuote]
    refine (congrArg (Reader.closeGroup · .paren ⟨0, 0⟩) hopen.endWord_eq).trans ?_
    rfl
  rw [readTokens_cons, hread]
  rfl

/-- The arguments of an index are closed, and the index around them. -/
theorem Ready.readTokens_rightBracket {k : Reader} (hr : r.Ready) (hgroups : k.groups = [])
    (hquote : k.afterQuote = none) (es : List Expression) :
    (k.above (r.openGroup (.group es) .index ⟨0, 0⟩) .arguments).readTokens [.rightBracket] =
      .ok ((r.setArena k.endWord.arena).addExpression (.group (es ++ [k.endWord.line]))) := by
  have hbase : (r.openGroup (.group es) .index ⟨0, 0⟩).Ready := ⟨hr.word, hr.afterQuote⟩
  have hclose : (k.above (r.openGroup (.group es) .index ⟨0, 0⟩) .arguments).read
      Token.rightBracket.lexeme = ((((r.setArena k.endWord.arena).openGroup
        (.group (es ++ [k.endWord.line])) .index ⟨0, 0⟩)).closeGroup .index ⟨0, 0⟩) := by
    unfold read
    rw [show (k.above (r.openGroup (.group es) .index ⟨0, 0⟩) .arguments).afterQuote = none
      from hquote]
    exact congrArg (· >>= _) (closeGroup_above_ended hgroups hquote hbase .arguments _)
  rw [readTokens_cons, hclose]
  rfl

/-- Wherever an operand is read, it adds the same expression and comes to the same arena. -/
theorem exists_of_operand (h : Operand ts) (hr : r.Ready) (hu : r.readTokens ts = .ok u) :
    ∃ e b, ∀ r' : Reader, r'.Ready → r'.arena = r.arena →
      r'.readTokens (ts ++ [.space]) = .ok ((r'.setArena b).addExpression e) := by
  cases h with
  | word hne hts =>
    obtain ⟨token, rest, rfl⟩ := List.exists_cons_of_ne_nil hne
    obtain ⟨hpiece, hrest⟩ := List.forall_mem_cons.mp hts
    obtain ⟨text, htext⟩ := Option.isSome_iff_exists.mp hpiece
    obtain ⟨word, hword⟩ := exists_word_of_pieces hrest text
    refine ⟨.leaf (r.arena.push (.ofWord word)).1, (r.arena.push (.ofWord word)).2,
      fun r' hr' harena => ?_⟩
    have hfirst : r'.read token.lexeme = .ok { r' with word := some text } := by
      have hpiece : r'.read token.lexeme = .ok (r'.addToWord text) := by
        unfold read
        rw [hr'.afterQuote]
        exact readToken_of_piece? htext _
      rw [hpiece, addToWord, hr'.word, Option.getD_none, String.empty_append]
    have hpieces : r'.readTokens (token :: rest) = .ok { r' with word := some word } := by
      rw [readTokens_cons, hfirst]
      exact hword r' hr'.afterQuote
    rw [← harena]
    exact readTokens_trans hpieces (hr'.reads_word_space word).readTokens_eq
  | quoted quote text =>
    refine ⟨.leaf (r.arena.push (.string text)).1, (r.arena.push (.string text)).2,
      fun r' hr' harena => ?_⟩
    rw [← harena]
    exact (hr'.reads_leaf (.string text) quote).readTokens_eq
  | @group inner h =>
    rw [readTokens_cons, hr.read_leftParen] at hu
    obtain ⟨k, hgroups, hquote, -, hinner⟩ := exists_of_readTokens_above h rfl hu
    refine ⟨k.endWord.line, k.endWord.arena, fun r' hr' harena => ?_⟩
    have hopen := hr'.readTokens_leftParen
    rw [harena] at hopen
    rw [List.cons_append, List.append_assoc]
    exact readTokens_trans hopen (readTokens_trans (hinner r' .paren)
      (hr'.readTokens_rightParen hgroups hquote))

/-- Whatever separates a token from what stands in front of it, it is as if a space did. -/
theorem readTokens_gap_cons (hr : r.Grouped) (hgap : ∀ t ∈ gap, t.isGap = true)
    (ht : token.isPiece = false)
    (hquote : gap = [] → r.afterQuote.isSome = true → token.isLayout = true) :
    r.readTokens (gap ++ token :: rest) = r.readTokens (.space :: token :: rest) := by
  induction gap generalizing r with
  | nil => exact (readTokens_space_cons hr ht (hquote rfl) rest).symm
  | cons g gap ih =>
    obtain ⟨hg, hgap⟩ := List.forall_mem_cons.mp hgap
    have hread : r.read g.lexeme = r.read Token.space.lexeme := by
      obtain ⟨arena, word, line, groups, root, blocks, quote⟩ := r
      cases g <;> first | (cases quote <;> rfl) | cases hg
    rw [List.cons_append, readTokens_cons, readTokens_cons, hread]
    cases hu : r.read Token.space.lexeme with
    | error refusal => rfl
    | ok u =>
      have hplain : u.afterQuote.isSome = false := afterQuote_of_read hu
      have hnone : u.afterQuote.isSome = true → token.isLayout = true := fun h => by
        rw [hplain] at h
        cases h
      exact (ih (hr.read hu) hgap fun _ => hnone).trans
        (readTokens_space_cons (hr.read hu) ht hnone rest)

/-- The word in front of what is no piece of it may have been ended before. -/
theorem readTokens_endWord (hr : r.Grouped) (hquote : r.afterQuote = none)
    (ht : token.isPiece = true → r.word = none) :
    r.endWord.readTokens (token :: rest) = r.readTokens (token :: rest) := by
  cases hpiece : token.isPiece with
  | true =>
    have hended : r.endWord = r := by rw [endWord, ht hpiece]
    rw [hended]
  | false =>
    have hspace : r.read Token.space.lexeme = .ok r.endWord := by
      unfold read
      rw [hquote]
      rfl
    have hnone : r.afterQuote.isSome = true → token.isLayout = true := by
      rw [hquote]
      intro h
      cases h
    have hspaced := readTokens_space_cons hr hpiece hnone rest
    rw [readTokens_cons, hspace] at hspaced
    exact hspaced

/-- Where no word has begun, an index adds the group of what it is of, the operator and the group of
its arguments. -/
theorem exists_of_index (htarget : Operand target) (hgap : ∀ t ∈ gap, t.isGap = true)
    (hargs : Nested args) (hr : r.Ready) (hgrouped : r.Grouped)
    (hu : r.readTokens (target ++ (gap ++ .leftBracket :: (args ++ [.rightBracket]))) = .ok u) :
    ∃ (e : Expression) (b : Arena) (k : Reader),
      (∀ r' : Reader, r'.Ready → r'.arena = r.arena →
        r'.readTokens (target ++ [.space]) = .ok ((r'.setArena b).addExpression e)) ∧
      (∀ base opener, (above { arena := (b.push (.ofWord indexWord)).2 } base opener).readTokens
        args = .ok (k.above base opener)) ∧
      k.groups = [] ∧ k.afterQuote = none ∧
      u = (r.setArena k.endWord.arena).addExpression
        (.group [e, .leaf (b.push (.ofWord indexWord)).1, k.endWord.line]) := by
  rw [readTokens_append] at hu
  obtain ⟨t, ht, hu⟩ := exists_of_bind_ok hu
  obtain ⟨e, b, htarget⟩ := exists_of_operand htarget hr ht
  have hquote : gap = [] → t.afterQuote.isSome = true → Token.leftBracket.isLayout = true := by
    rintro rfl hquote
    rw [afterQuote_of_readTokens rfl hu] at hquote
    cases hquote
  rw [readTokens_gap_cons (hgrouped.readTokens ht) hgap rfl hquote] at hu
  have hindex := readTokens_trans ht hu
  rw [List.append_cons, readTokens_append, htarget r hr rfl] at hindex
  -- what the operand adds is taken into the group of the index, and the operator is added to it
  have htaken := takeExpression?_addExpression (r := r.setArena b)
    ⟨hgrouped.line, hgrouped.groups⟩ e
  let leaf := (r.setArena b).newLeaf (.ofWord indexWord)
  let base := leaf.2.openGroup (.group [e, leaf.1]) .index ⟨0, 0⟩
  have hbase : base.Ready := ⟨hr.word, hr.afterQuote⟩
  have hopen : ((r.setArena b).addExpression e).read Token.leftBracket.lexeme =
      .ok (above { arena := base.arena } base .arguments) := by
    have hready := (hr.setArena b).addExpression e
    unfold read
    rw [hready.afterQuote, ← hbase.openGroup_eq]
    exact openIndex_of_taken hready.word htaken _
  change readTokens _ (.leftBracket :: (args ++ [.rightBracket])) = _ at hindex
  rw [readTokens_cons, hopen] at hindex
  obtain ⟨k, hgroups, hplain, hclose, hinner⟩ := exists_of_readTokens_above hargs rfl hindex
  have hready : (r.setArena leaf.2.arena).Ready := hr.setArena _
  have hclosed := hready.readTokens_rightBracket hgroups hplain [e, leaf.1]
  exact ⟨e, b, k, htarget, hinner, hgroups, hplain, Except.ok.inj (hclose.symm.trans hclosed)⟩

/-- The group that an index stands for adds the same, with the same leaves at the same moments. -/
theorem Ready.readTokens_indexGroup (hr : r.Ready) {e : Expression} {b : Arena} {k : Reader}
    (htarget : ∀ r' : Reader, r'.Ready → r'.arena = r.arena →
      r'.readTokens (target ++ [.space]) = .ok ((r'.setArena b).addExpression e))
    (hargs : ∀ base opener, (above { arena := (b.push (.ofWord indexWord)).2 } base
      opener).readTokens args = .ok (k.above base opener))
    (hgroups : k.groups = []) (hquote : k.afterQuote = none) :
    r.readTokens (indexGroup target args) = .ok ((r.setArena k.endWord.arena).addExpression
      (.group [e, .leaf (b.push (.ofWord indexWord)).1, k.endWord.line])) := by
  let leaf := (r.setArena b).newLeaf (.ofWord indexWord)
  have hready : ∀ (a : Arena) (es : List Expression),
      ((r.setArena a).openGroup (.group es) .paren ⟨0, 0⟩).Ready :=
    fun _ _ => ⟨hr.word, hr.afterQuote⟩
  have hgroup : r.readTokens [.leftParen, .space] =
      .ok (r.openGroup (.group []) .paren ⟨0, 0⟩) := by
    rw [readTokens_cons, hr.read_leftParen, ← hr.openGroup_eq]
    exact (hready r.arena []).readTokens_space
  have hmember : (r.openGroup (.group []) .paren ⟨0, 0⟩).readTokens (target ++ [.space]) =
      .ok ((r.setArena b).openGroup (.group [e]) .paren ⟨0, 0⟩) :=
    htarget _ (hready r.arena []) rfl
  have hoperator : ((r.setArena b).openGroup (.group [e]) .paren ⟨0, 0⟩).readTokens
      [.word indexWord, .space] = .ok (leaf.2.openGroup (.group [e, leaf.1]) .paren ⟨0, 0⟩) :=
    (hready b [e]).readTokens_word indexWord
  have harguments := (hready leaf.2.arena [e, leaf.1]).readTokens_leftParen
  have hclosed := (hready leaf.2.arena [e, leaf.1]).readTokens_rightParen hgroups hquote
  have hend := (hr.setArena k.endWord.arena).readTokens_close
    (.group [e, leaf.1, k.endWord.line])
  exact readTokens_trans (readTokens_trans (readTokens_trans (readTokens_trans (readTokens_trans
    (readTokens_trans hgroup hmember) hoperator) harguments) (hargs _ .paren)) hclosed) hend

/-- An index is read like the group that it stands for, also where a word is still to be ended. -/
theorem readTokens_index (htarget : Operand target) (hgap : ∀ t ∈ gap, t.isGap = true)
    (hargs : Nested args) (hgrouped : r.Grouped)
    (hword : (∃ t ∈ target.head?, t.isPiece = true) → r.word = none)
    (hu : r.readTokens (target ++ (gap ++ .leftBracket :: (args ++ [.rightBracket]))) = .ok u) :
    r.readTokens (indexGroup target args) = .ok u := by
  obtain ⟨t, more, rfl, hlayout⟩ := htarget.exists_cons
  have hquote : r.afterQuote = none := afterQuote_of_readTokens hlayout hu
  have hended : r.endWord.Ready := ⟨word_endWord r, (afterQuote_endWord r).trans hquote⟩
  have hgroup : r.endWord.readTokens (indexGroup (t :: more) args) =
      r.readTokens (indexGroup (t :: more) args) :=
    readTokens_endWord hgrouped hquote (fun h => by cases h)
  rw [List.cons_append, ← readTokens_endWord hgrouped hquote fun ht => hword ⟨t, rfl, ht⟩] at hu
  obtain ⟨e, b, k, hoperand, hinner, hgroups, hplain, rfl⟩ :=
    exists_of_index htarget hgap hargs hended ((steady_endWord r).grouped hgrouped) hu
  rw [← hgroup]
  exact hended.readTokens_indexGroup hoperand hinner hgroups hplain

end Index

end Reader

end WordScript
