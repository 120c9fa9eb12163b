import WordScript.Proofs.Grammar
import WordScript.Proofs.Pieces
import WordScript.Proofs.Placing
import WordScript.Proofs.RoundTrip

/-!
# Layout

Which blanks stand between the tokens of a text, and how many, makes no difference to what it is
read into. In front of a token that is no part of a word a blank ends a word, which the token would
have ended itself; behind a bracket, a brace or a newline there is no word to end. So blanks may be
exchanged for others, and may be put in front of these marks and behind them, as long as none comes
between a string and what may not follow it: `layout_insignificant`.
-/

namespace WordScript

theorem Expression.group_parts {e : Expression} (he : e.isLeaf = false) : group e.parts = e := by
  cases e with
  | leaf h => cases he
  | group es => rfl

namespace Reader

/-! ## What reading keeps -/

/-- The line and what has been read of the open groups are groups of expressions. -/
structure Grouped (r : Reader) : Prop where
  line : r.line.isLeaf = false
  groups : ∀ g ∈ r.groups, g.contents.isLeaf = false

/-- Reading has gone on, and the last token was no string. -/
structure Steady (r u : Reader) : Prop where
  grouped : r.Grouped → u.Grouped
  afterQuote : u.afterQuote = r.afterQuote

/-- The reader when an index of the expression has been opened. -/
def indexOf (r : Reader) (e : Expression) (span : Span) : Reader :=
  ((r.newLeaf (.ofWord indexWord)).2.openGroup
    (.group [e, (r.newLeaf (.ofWord indexWord)).1]) .index span).openGroup
      (.group []) .arguments span

section OpenIndex

variable {r : Reader} {word : String} {p : Expression × Reader}

theorem openIndex_of_word (hword : r.word = some word) (span : Span) :
    r.openIndex span = .ok (({ r with word := none }.newLeaf (.ofWord word)).2.indexOf
      ({ r with word := none }.newLeaf (.ofWord word)).1 span) := by
  unfold openIndex
  rw [hword]
  rfl

theorem openIndex_of_taken (hword : r.word = none) (htake : r.takeExpression? = some p)
    (span : Span) : r.openIndex span = .ok (p.2.indexOf p.1 span) := by
  unfold openIndex
  rw [hword, htake]
  rfl

theorem openIndex_of_nothing (hword : r.word = none) (htake : r.takeExpression? = none)
    (span : Span) : r.openIndex span = r.refuse .indexOfNothing span := by
  unfold openIndex
  rw [hword, htake]

end OpenIndex

section Steady

variable {r t u : Reader} {opener : Opener} {span : Span}

theorem Steady.refl (r : Reader) : Steady r r := ⟨id, rfl⟩

theorem Steady.trans (h : Steady r t) (h' : Steady t u) : Steady r u :=
  ⟨fun hr => h'.grouped (h.grouped hr), h'.afterQuote.trans h.afterQuote⟩

theorem steady_of_eq (hline : u.line = r.line) (hgroups : u.groups = r.groups)
    (hquote : u.afterQuote = r.afterQuote) : Steady r u :=
  ⟨fun hr => ⟨hline ▸ hr.line, hgroups ▸ hr.groups⟩, hquote⟩

theorem steady_addExpression (r : Reader) (e : Expression) : Steady r (r.addExpression e) := by
  refine ⟨fun hr => ?_, afterQuote_addExpression r e⟩
  unfold addExpression
  split
  · exact ⟨rfl, hr.groups⟩
  · next g gs hgroups =>
    have hmem := hr.groups
    rw [hgroups] at hmem
    exact ⟨hr.line, List.forall_mem_cons.mpr ⟨rfl, (List.forall_mem_cons.mp hmem).2⟩⟩

theorem steady_addLeaf (r : Reader) (i : Identifier) : Steady r (r.addLeaf i) := by
  refine .trans ?_ (steady_addExpression (r.newLeaf i).2 (r.newLeaf i).1)
  exact steady_of_eq rfl rfl rfl

theorem steady_endWord (r : Reader) : Steady r r.endWord := by
  unfold endWord
  split
  · refine .trans ?_ (steady_addLeaf { r with word := none } _)
    exact steady_of_eq rfl rfl rfl
  · exact .refl r

theorem steady_openGroup (r : Reader) (es : List Expression) (opener : Opener) (span : Span) :
    Steady r (r.openGroup (.group es) opener span) :=
  ⟨fun hr => ⟨hr.line, List.forall_mem_cons.mpr ⟨rfl, hr.groups⟩⟩, rfl⟩

theorem steady_closeGroup (h : r.closeGroup opener span = .ok u) : Steady r u := by
  unfold closeGroup at h
  split at h
  · next g gs hgroups =>
    split at h
    · cases h
      refine .trans ?_ (steady_addExpression { r with groups := gs } g.contents)
      refine ⟨fun hr => ⟨hr.line, fun g hg => hr.groups g ?_⟩, rfl⟩
      rw [hgroups]
      exact List.mem_cons_of_mem _ hg
    · cases h
  · cases h

theorem steady_takeExpression? {e : Expression} (h : r.takeExpression? = some (e, u)) :
    Steady r u := by
  have hpop : ∀ {e₀ e e' : Expression}, e₀.pop? = some (e, e') → e'.isLeaf = false := by
    intro e₀ e e' h
    unfold Expression.pop? at h
    split at h
    · cases h
    · split at h <;> cases h
      rfl
  unfold takeExpression? at h
  split at h
  · split at h
    · next hline =>
      cases h
      exact ⟨fun hr => ⟨hpop hline, hr.groups⟩, rfl⟩
    · cases h
  · next g gs hgroups =>
    split at h
    · next hcontents =>
      cases h
      refine ⟨fun hr => ⟨hr.line, ?_⟩, rfl⟩
      have hmem := hr.groups
      rw [hgroups] at hmem
      exact List.forall_mem_cons.mpr ⟨hpop hcontents, (List.forall_mem_cons.mp hmem).2⟩
    · cases h

/-- An index is opened of an expression that is no longer being read. -/
theorem exists_indexOf (h : r.openIndex span = .ok u) :
    ∃ t e, u = indexOf t e span ∧ t.word = none ∧ Steady r t := by
  cases hword : r.word with
  | some word =>
    rw [openIndex_of_word hword] at h
    cases h
    exact ⟨_, _, rfl, rfl, steady_of_eq rfl rfl rfl⟩
  | none =>
    cases htake : r.takeExpression? with
    | none =>
      rw [openIndex_of_nothing hword htake] at h
      cases h
    | some p =>
      rw [openIndex_of_taken hword htake] at h
      cases h
      exact ⟨_, _, rfl, (word_takeExpression? htake).trans hword, steady_takeExpression? htake⟩

theorem steady_openIndex (h : r.openIndex span = .ok u) : Steady r u := by
  obtain ⟨t, e, rfl, -, ht⟩ := exists_indexOf h
  refine .trans (.trans ?_ (steady_openGroup _ _ _ _)) (steady_openGroup _ _ _ _)
  exact ht.trans (steady_of_eq rfl rfl rfl)

theorem steady_addStatement (r : Reader) (s : Statement) : Steady r (r.addStatement s) := by
  unfold addStatement
  split <;> exact steady_of_eq rfl rfl rfl

/-- A line ends as it began, without anything on it. -/
theorem steady_newLine (r : Reader) (blocks : List OpenBlock) :
    Steady r { r with line := .group [], blocks } :=
  ⟨fun hr => ⟨rfl, hr.groups⟩, rfl⟩

theorem steady_readToken {token : Token} (htoken : token.isQuoted = false)
    (h : r.readToken token span = .ok u) : Steady r u := by
  have hended := steady_endWord r
  cases token with
  | word text =>
    cases h
    exact steady_of_eq rfl rfl rfl
  | escaped c =>
    cases h
    exact steady_of_eq rfl rfl rfl
  | space =>
    cases h
    exact hended
  | continuation =>
    cases h
    exact hended
  | quoted quote text => cases htoken
  | leftParen =>
    cases h
    exact hended.trans (steady_openGroup _ _ _ _)
  | rightParen => exact hended.trans (steady_closeGroup h)
  | leftBracket => exact steady_openIndex h
  | rightBracket =>
    obtain ⟨t, ht, hu⟩ := exists_of_bind_ok h
    exact (hended.trans (steady_closeGroup ht)).trans (steady_closeGroup hu)
  | newline =>
    obtain ⟨-, hu⟩ := closed_of_requireClosed h
    cases hu
    exact (hended.trans (steady_newLine _ _)).trans (steady_addStatement _ _)
  | leftBrace =>
    obtain ⟨-, hu⟩ := closed_of_requireClosed h
    cases hu
    exact hended.trans (steady_newLine _ _)
  | rightBrace =>
    obtain ⟨-, hu⟩ := closed_of_requireClosed h
    split at hu
    · cases hu
    · cases hu
      exact (hended.trans (steady_newLine _ _)).trans (steady_addStatement _ _)

theorem afterQuote_of_read {l : Lexeme} (h : r.read l = .ok u) :
    u.afterQuote.isSome = l.token.isQuoted := by
  have htoken := readToken_of_read h
  cases hquoted : l.token.isQuoted with
  | false => rw [(steady_readToken hquoted htoken).afterQuote]; rfl
  | true =>
    generalize l.token = token at htoken hquoted
    cases token with
    | quoted quote text =>
      cases htoken
      rfl
    | _ => cases hquoted

theorem Grouped.read {l : Lexeme} (hr : r.Grouped) (h : r.read l = .ok u) : u.Grouped := by
  have hr : ({ r with afterQuote := none } : Reader).Grouped := ⟨hr.line, hr.groups⟩
  have htoken := readToken_of_read h
  cases hquoted : l.token.isQuoted with
  | false => exact (steady_readToken hquoted htoken).grouped hr
  | true =>
    generalize l.token = token at htoken hquoted
    cases token with
    | quoted quote text =>
      have hleaf := ((steady_endWord _).trans (steady_addLeaf _ (.string text))).grouped hr
      cases htoken
      exact ⟨hleaf.line, hleaf.groups⟩
    | _ => cases hquoted

end Steady

/-! ## Blanks in front of tokens and behind marks -/

section Blanks

variable {r : Reader} {t : Token}

theorem endWord_endWord (r : Reader) : r.endWord.endWord = r.endWord := by
  rw [endWord, word_endWord]

/-- What has been added last is what is taken off. -/
theorem takeExpression?_addExpression (hr : r.Grouped) (e : Expression) :
    (r.addExpression e).takeExpression? = some (e, r) := by
  obtain ⟨arena, word, line, groups, root, blocks, quote⟩ := r
  cases groups with
  | nil => simp [addExpression, takeExpression?, Expression.group_parts hr.line]
  | cons g gs =>
    simp [addExpression, takeExpression?, Expression.group_parts (hr.groups g List.mem_cons_self)]

/-- An index applies to the word in front of it, whether it has ended or not. -/
theorem openIndex_endWord (hr : r.Grouped) (span : Span) :
    r.endWord.openIndex span = r.openIndex span := by
  cases hword : r.word with
  | none => rw [endWord, hword]
  | some word =>
    let leaf := { r with word := none }.newLeaf (.ofWord word)
    have hended : r.endWord = leaf.2.addExpression leaf.1 := by
      rw [endWord, hword]
      rfl
    have htake : r.endWord.takeExpression? = some leaf := by
      rw [hended]
      exact takeExpression?_addExpression (r := leaf.2) ⟨hr.line, hr.groups⟩ leaf.1
    rw [openIndex_of_word hword, openIndex_of_taken (word_endWord r) htake]

/-- A token that is no piece of a word ends the word in front of it. -/
theorem readToken_endWord (hr : r.Grouped) (ht : t.isPiece = false) (span : Span) :
    r.endWord.readToken t span = r.readToken t span := by
  cases t with
  | word text => cases ht
  | escaped c => cases ht
  | leftBracket => exact openIndex_endWord hr span
  | newline => simp only [readToken, endLine, endWord_endWord]
  | leftBrace => simp only [readToken, openBlock, endWord_endWord]
  | rightBrace => simp only [readToken, closeBlock, endWord_endWord]
  | _ => simp only [readToken, endWord_endWord]

/-- A blank in front of a token makes no difference, unless the token is a piece of a word or may
not follow the string in front of it. -/
theorem readTokens_space_cons (hr : r.Grouped) (ht : t.isPiece = false)
    (hquote : r.afterQuote.isSome = true → t.isLayout = true) (ts : List Token) :
    r.readTokens (.space :: t :: ts) = r.readTokens (t :: ts) := by
  have hspace : r.read Token.space.lexeme = .ok { r with afterQuote := none }.endWord := by
    obtain ⟨arena, word, line, groups, root, blocks, quote⟩ := r
    cases quote <;> rfl
  have hread : { r with afterQuote := none }.endWord.read t.lexeme = r.read t.lexeme := by
    have htoken := readToken_endWord (r := { r with afterQuote := none }) ⟨hr.line, hr.groups⟩ ht
      ⟨0, 0⟩
    unfold read
    rw [afterQuote_endWord]
    refine htoken.trans ?_
    obtain ⟨arena, word, line, groups, root, blocks, quote⟩ := r
    cases quote with
    | none => rfl
    | some quote => exact (if_pos (hquote rfl)).symm
  rw [readTokens_cons, hspace]
  change readTokens _ (t :: ts) = _
  rw [readTokens_cons, readTokens_cons, hread]

theorem isPiece_eq_false_of_isMark (ht : t.isMark = true) : t.isPiece = false := by
  cases t <;> first | rfl | cases ht

theorem isQuoted_eq_false_of_isMark (ht : t.isMark = true) : t.isQuoted = false := by
  cases t <;> first | rfl | cases ht

/-- Behind a mark no word has begun. -/
theorem ready_of_read_mark {u : Reader} (ht : t.isMark = true) (h : r.read t.lexeme = .ok u) :
    u.Ready := by
  have hpiece : t.piece? = none := by simpa [Token.isPiece] using isPiece_eq_false_of_isMark ht
  have hquote := afterQuote_of_read h
  rw [show t.lexeme.token = t from rfl, isQuoted_eq_false_of_isMark ht] at hquote
  exact ⟨(yields_readToken hpiece _ u (readToken_of_read h)).2, by simpa using hquote⟩

/-- A blank behind a mark makes no difference. -/
theorem readTokens_mark_space (ht : t.isMark = true) (ts : List Token) :
    r.readTokens (t :: .space :: ts) = r.readTokens (t :: ts) := by
  rw [readTokens_cons, readTokens_cons]
  cases hu : r.read t.lexeme with
  | error refusal => rfl
  | ok u =>
    have hready := ready_of_read_mark ht hu
    have hspace : u.read Token.space.lexeme = .ok u := by
      unfold read
      rw [hready.afterQuote]
      exact congrArg Except.ok hready.endWord_eq
    change u.readTokens (.space :: ts) = u.readTokens ts
    rw [readTokens_cons, hspace]
    rfl

end Blanks

/-- What comes after a token is read alike when it is by every reader that has read the token. -/
theorem readTokens_cons_congr {r : Reader} {t : Token} {ts ts' : List Token} (hr : r.Grouped)
    (h : ∀ u : Reader, u.Grouped → u.afterQuote.isSome = t.isQuoted →
      u.readTokens ts = u.readTokens ts') :
    r.readTokens (t :: ts) = r.readTokens (t :: ts') := by
  rw [readTokens_cons, readTokens_cons]
  cases hu : r.read t.lexeme with
  | error refusal => rfl
  | ok u => exact h u (hr.read hu) (afterQuote_of_read hu)

end Reader

/-! ## Texts that differ in layout -/

namespace Token

open Lexeme (isSpace)

/-- Every token but a blank is at an end where a blank follows. -/
theorem endsBefore_of_isSpace {t : Token} {d : Char} (ht : t ≠ space) (hd : isSpace d = true) :
    t.endsBefore d = true := by
  cases t with
  | space => exact absurd rfl ht
  | word text => simp [endsBefore, Lexeme.isWordChar, hd]
  | escaped c =>
    have hne : d ≠ '\n' := by
      rintro rfl
      cases hd
    simp [endsBefore, hne]
  | _ => rfl

/-- The tokens of blanks, of which there may be none. -/
def gap (blanks : List Char) : List Token := if blanks = [] then [] else [space]

end Token

namespace Piece

open Lexeme (isSpace)

/-- All of the characters are blanks. -/
def AreBlank (cs : List Char) : Prop := ∀ c ∈ cs, isSpace c = true

instance instDecidableAreBlank (cs : List Char) : Decidable (AreBlank cs) :=
  decidable_of_iff (cs.all isSpace = true) List.all_eq_true

/-- The text differs from that of the pieces in layout only: the blanks between words may be
others, and there may be more blanks in front of brackets, braces and newlines and behind them. None
comes between a string and a bracket or a brace, which may not follow it, and none comes behind the
last newline. The flag says whether a string comes before the pieces. -/
inductive Relaid : Bool → List Piece → List Char → Prop where
  | nil {quoted : Bool} : Relaid quoted [] []
  | blank {quoted : Bool} {p : Piece} {ps : List Piece} {cs : List Char} (blanks : List Char)
      (hp : p.token = .space) (hne : blanks ≠ []) (hblanks : AreBlank blanks)
      (h : Relaid false ps cs) : Relaid quoted (p :: ps) (blanks ++ cs)
  | mark {quoted : Bool} {p : Piece} {ps : List Piece} {cs : List Char} (before after : List Char)
      (hp : p.token.isMark = true) (hbefore : AreBlank before) (hafter : AreBlank after)
      (hquoted : quoted = true → before = [] ∨ p.token = .newline) (hlast : ps = [] → after = [])
      (h : Relaid false ps cs) : Relaid quoted (p :: ps) (before ++ (p.chars ++ (after ++ cs)))
  | other {quoted : Bool} {p : Piece} {ps : List Piece} {cs : List Char} (hp : p.token ≠ .space)
      (h : Relaid p.token.isQuoted ps cs) : Relaid quoted (p :: ps) (p.chars ++ cs)

section Relaid

variable {quoted : Bool} {ps qs : List Piece} {cs blanks : List Char}

theorem endsBefore_append {t : Token} (hne : cs ≠ []) (rest : List Char) :
    t.EndsBefore (cs ++ rest) ↔ t.EndsBefore cs := by
  obtain ⟨c, cs, rfl⟩ := List.exists_cons_of_ne_nil hne
  rfl

theorem endsBefore_of_areBlank {t : Token} (ht : t ≠ .space) (hblanks : AreBlank blanks) :
    t.EndsBefore blanks :=
  fun d hd => Token.endsBefore_of_isSpace ht (hblanks d (List.mem_of_mem_head? hd))

/-- A token is at an end where the pieces begin, and so it is in the other layout. -/
theorem Relaid.endsBefore (h : Relaid quoted ps cs) (hps : ∀ p ∈ ps, p.IsWritten) {t : Token}
    (ht : t ≠ .space) (hends : t.EndsBefore (text ps)) : t.EndsBefore cs := by
  cases h with
  | nil => exact hends
  | blank blanks _ hne hblanks =>
    exact (endsBefore_append hne _).mpr (endsBefore_of_areBlank ht hblanks)
  | mark before after hp hbefore =>
    have hne := (hps _ List.mem_cons_self).ne_nil
    by_cases hnil : before = []
    · rw [hnil]
      exact (endsBefore_append hne _).mpr ((endsBefore_append hne _).mp hends)
    · exact (endsBefore_append hnil _).mpr (endsBefore_of_areBlank ht hbefore)
  | other =>
    have hne := (hps _ List.mem_cons_self).ne_nil
    exact (endsBefore_append hne _).mpr ((endsBefore_append hne _).mp hends)

/-- Blanks in front of pieces are one more piece, or join the blanks that are there. -/
theorem exists_joined_gap (hqs : AreJoined qs) (hblanks : AreBlank blanks) :
    ∃ qs', AreJoined qs' ∧ text qs' = blanks ++ text qs ∧ ∀ r : Reader, r.Grouped →
      r.readTokens (qs'.map token) = r.readTokens (Token.gap blanks ++ qs.map token) := by
  by_cases hnil : blanks = []
  · subst hnil
    exact ⟨qs, hqs, rfl, fun _ _ => rfl⟩
  have hgap : Token.gap blanks = [.space] := if_neg hnil
  have hblank : IsWritten ⟨.space, blanks⟩ := Token.matches_space_iff.mpr ⟨hnil, hblanks⟩
  rw [hgap]
  by_cases hfirst : ∃ q ∈ qs.head?, q.token = .space
  · obtain ⟨q, hq, hspace⟩ := hfirst
    obtain ⟨rest, rfl⟩ := List.head?_eq_some_iff.mp hq
    obtain ⟨hwritten, hends, hrest⟩ := areJoined_cons.mp hqs
    rw [hspace] at hends
    have hrun := hwritten
    rw [IsWritten, hspace, Token.matches_space_iff] at hrun
    refine ⟨⟨.space, blanks ++ q.chars⟩ :: rest, areJoined_cons.mpr ⟨?_, hends, hrest⟩, by simp,
      fun r hr => ?_⟩
    · exact Token.matches_space_iff.mpr ⟨by simp [hnil],
        fun c hc => (List.mem_append.mp hc).elim (hblanks c) (hrun.2 c)⟩
    · rw [List.map_cons, List.map_cons, hspace]
      exact (Reader.readTokens_space_cons hr rfl (fun _ => rfl) _).symm
  · refine ⟨⟨.space, blanks⟩ :: qs, areJoined_cons.mpr ⟨hblank, ?_, hqs⟩, rfl, fun _ _ => rfl⟩
    exact (endsBefore_text_iff hqs.written).mpr fun q hq =>
      Token.endsBefore_space (fun hspace => hfirst ⟨q, hq, hspace⟩)
        (hqs.written q (List.mem_of_mem_head? hq))

/-- Blanks in front of a mark make no difference, where they do not come after a string. -/
theorem readTokens_gap_mark {r : Reader} (hr : r.Grouped) {t : Token} (ht : t.isMark = true)
    (hquoted : r.afterQuote.isSome = true → blanks = [] ∨ t = .newline) (ts : List Token) :
    r.readTokens (Token.gap blanks ++ t :: ts) = r.readTokens (t :: ts) := by
  by_cases hnil : blanks = []
  · rw [hnil]
    rfl
  · rw [Token.gap, if_neg hnil]
    refine Reader.readTokens_space_cons hr (Reader.isPiece_eq_false_of_isMark ht) (fun hquote => ?_)
      ts
    rw [(hquoted hquote).resolve_left hnil]
    rfl

/-- Neither do blanks behind a mark. -/
theorem readTokens_mark_gap {r : Reader} {t : Token} (ht : t.isMark = true) (ts : List Token) :
    r.readTokens (t :: (Token.gap blanks ++ ts)) = r.readTokens (t :: ts) := by
  unfold Token.gap
  split
  · rfl
  · exact Reader.readTokens_mark_space ht ts

/-- A text in another layout is made up of pieces too, and they are read as those of the first. -/
theorem Relaid.exists_joined (h : Relaid quoted ps cs) (hps : AreJoined ps) :
    ∃ qs, AreJoined qs ∧ text qs = cs ∧ ∀ r : Reader, r.Grouped → r.afterQuote.isSome = quoted →
      r.readTokens (qs.map token) = r.readTokens (ps.map token) := by
  induction h with
  | nil => exact ⟨[], areJoined_nil, rfl, fun _ _ _ => rfl⟩
  | @blank quoted p ps cs blanks hp hne hblanks h ih =>
    obtain ⟨hwritten, hends, hrest⟩ := areJoined_cons.mp hps
    obtain ⟨qs, hqs, htext, hread⟩ := ih hrest
    obtain ⟨qs', hqs', htext', hread'⟩ := exists_joined_gap hqs hblanks
    refine ⟨qs', hqs', by rw [htext', htext], fun r hr _ => ?_⟩
    rw [hread' r hr, Token.gap, if_neg hne, List.map_cons, hp]
    exact Reader.readTokens_cons_congr hr hread
  | @mark quoted p ps cs before after hp hbefore hafter hquoted hlast h ih =>
    obtain ⟨hwritten, hends, hrest⟩ := areJoined_cons.mp hps
    obtain ⟨qs, hqs, htext, hread⟩ := ih hrest
    obtain ⟨qs₁, hqs₁, htext₁, hread₁⟩ := exists_joined_gap hqs hafter
    have hmark : AreJoined (p :: qs₁) :=
      areJoined_cons.mpr ⟨hwritten, Token.endsBefore_of_isMark hp _, hqs₁⟩
    obtain ⟨qs₂, hqs₂, htext₂, hread₂⟩ := exists_joined_gap hmark hbefore
    refine ⟨qs₂, hqs₂, by rw [htext₂, text_cons, htext₁, htext], fun r hr hquote => ?_⟩
    have hplain := Reader.isQuoted_eq_false_of_isMark hp
    calc r.readTokens (qs₂.map token)
        = r.readTokens (Token.gap before ++ p.token :: qs₁.map token) := hread₂ r hr
      _ = r.readTokens (p.token :: qs₁.map token) :=
          readTokens_gap_mark hr hp (fun h => hquoted (hquote.symm.trans h)) _
      _ = r.readTokens (p.token :: (Token.gap after ++ qs.map token)) :=
          Reader.readTokens_cons_congr hr fun u hu _ => hread₁ u hu
      _ = r.readTokens (p.token :: qs.map token) := readTokens_mark_gap hp _
      _ = r.readTokens (p.token :: ps.map token) :=
          Reader.readTokens_cons_congr hr fun u hu hquote => hread u hu (hquote.trans hplain)
  | @other quoted p ps cs hp h ih =>
    obtain ⟨hwritten, hends, hrest⟩ := areJoined_cons.mp hps
    obtain ⟨qs, hqs, rfl, hread⟩ := ih hrest
    refine ⟨p :: qs, areJoined_cons.mpr ⟨hwritten, h.endsBefore hrest.written hp hends, hqs⟩, rfl,
      fun r hr _ => Reader.readTokens_cons_congr hr hread⟩

/-- The last character of a text is that of the last piece. -/
theorem getLast?_text_cons {p : Piece} {c : Char} (hps : ∀ q ∈ ps, q.IsWritten)
    (h : (text (p :: ps)).getLast? = some c) :
    (text ps).getLast? = some c ∨ ps = [] ∧ p.chars.getLast? = some c := by
  cases ps with
  | nil => exact .inr ⟨rfl, by simpa using h⟩
  | cons q qs =>
    have hne : text (q :: qs) ≠ [] := by simp [(hps q List.mem_cons_self).ne_nil]
    rw [text_cons, List.getLast?_append_of_ne_nil _ hne] at h
    exact .inl h

/-- A text that ends in a newline does so in every layout. -/
theorem Relaid.getLast? (h : Relaid quoted ps cs) (hps : ∀ p ∈ ps, p.IsWritten)
    (hlast : (text ps).getLast? = some '\n') : cs.getLast? = some '\n' := by
  induction h with
  | nil => exact hlast
  | @blank quoted p ps cs blanks hp hne hblanks h ih =>
    obtain ⟨hwritten, hps⟩ := List.forall_mem_cons.mp hps
    rcases getLast?_text_cons hps hlast with hrest | ⟨-, hchars⟩
    · simp [List.getLast?_append, ih hps hrest]
    · rw [IsWritten, hp, Token.matches_space_iff] at hwritten
      have hspace := hwritten.2 '\n' (List.mem_of_getLast? hchars)
      cases hspace
  | @mark quoted p ps cs before after hp hbefore hafter hquoted hend h ih =>
    obtain ⟨-, hps⟩ := List.forall_mem_cons.mp hps
    rcases getLast?_text_cons hps hlast with hrest | ⟨rfl, hchars⟩
    · simp [List.getLast?_append, ih hps hrest]
    · cases h
      rw [hend rfl]
      simp [List.getLast?_append, hchars]
  | @other quoted p ps cs hp h ih =>
    obtain ⟨-, hps⟩ := List.forall_mem_cons.mp hps
    rcases getLast?_text_cons hps hlast with hrest | ⟨rfl, hchars⟩
    · simp [List.getLast?_append, ih hps hrest]
    · cases h
      simpa using hchars

end Relaid

/-- The text of the pieces with a carriage return in front of each newline. -/
def withReturns (ps : List Piece) : List Char :=
  ps.flatMap fun p => if p.token = .newline then '\r' :: p.chars else p.chars

/-- Carriage returns in front of newlines make up another layout. -/
theorem relaid_withReturns {ps : List Piece} (hps : ∀ p ∈ ps, p.IsWritten) (quoted : Bool) :
    Relaid quoted ps (withReturns ps) := by
  induction ps generalizing quoted with
  | nil => exact .nil
  | cons p ps ih =>
    obtain ⟨hwritten, hps⟩ := List.forall_mem_cons.mp hps
    rw [withReturns, List.flatMap_cons]
    by_cases hnewline : p.token = .newline
    · rw [if_pos hnewline]
      have hmark : p.token.isMark = true := by rw [hnewline]; rfl
      exact .mark ['\r'] [] hmark (by simp [AreBlank, isSpace]) (by simp [AreBlank])
        (fun _ => .inr hnewline) (fun _ => rfl) (ih hps false)
    · rw [if_neg hnewline]
      by_cases hspace : p.token = .space
      · rw [IsWritten, hspace, Token.matches_space_iff] at hwritten
        exact .blank p.chars hspace hwritten.1 hwritten.2 (ih hps false)
      · exact .other hspace (ih hps _)

end Piece

/-- The second text is the first in another layout. -/
def IsRelaid (text text' : String) : Prop :=
  Piece.Relaid false (Piece.ofText text.toList) text'.toList

/-- The text with lines that end in a carriage return and a newline. -/
def withReturns (text : String) : String :=
  String.ofList (Piece.withReturns (Piece.ofText text.toList))

namespace Statement

theorem withFinalNewline_eq {cs : List Char} (h : cs.getLast? = some '\n') :
    withFinalNewline cs = cs := if_pos h

/-- Layout is insignificant. A text that ends in a newline and can be cut is read into the same
statement in every layout, with the same leaves pushed onto the arena, or it is wrong in the same
way in every layout. -/
theorem layout_insignificant {text : String} {ls : List Lexeme}
    (hcut : Lexeme.ofText text.toList = .ok ls) (hlast : text.toList.getLast? = some '\n') :
    (∀ text', IsRelaid text text' → ∀ a, (ofText text a).2 = (ofText text' a).2 ∧
      ((∃ s, (ofText text a).1 = .ok s ∧ (ofText text' a).1 = .ok s) ∨
        ∃ e e', (ofText text a).1 = .error e ∧ (ofText text' a).1 = .error e' ∧
          e.fault = e'.fault)) ∧
    IsRelaid text (withReturns text) := by
  obtain ⟨hjoined, htext, htokens⟩ := Piece.ofText_spec (Lexeme.ofText_eq_ok.mp hcut)
  refine ⟨fun text' h a => ?_, ?_⟩
  · obtain ⟨qs, hqs, htext', hread⟩ := Piece.Relaid.exists_joined h hjoined
    have hlast' : text'.toList.getLast? = some '\n' :=
      Piece.Relaid.getLast? h hjoined.written (by rw [htext]; exact hlast)
    have hcut' : Lexeme.cutAll 0 (withFinalNewline text'.toList) = .ok (Piece.place 0 qs) := by
      rw [withFinalNewline_eq hlast', ← htext']
      exact Piece.cutAll_text hqs 0
    refine ofText_alike_of_tokens (by rw [withFinalNewline_eq hlast]; exact hcut)
      (Lexeme.ofText_eq_ok.mpr hcut') ?_
    unfold ofTokens
    rw [Piece.map_token_place, hread _ ⟨rfl, by simp⟩ rfl, htokens]
  · rw [IsRelaid, withReturns, String.toList_ofList]
    exact Piece.relaid_withReturns hjoined.written false

/-- Blanks around the brackets of an index, another blank in front of a string, and a carriage
return in front of the newline; and a string that a bracket follows, which is wrong in any
layout. -/
theorem layout_insignificant_index :
    (IsRelaid "a[b] 'c'\n" "a\t[ b\r]\x0c'c'\r\n" ∧
      ∃ s, (ofText "a[b] 'c'\n" .empty).1 = .ok s ∧
        (ofText "a\t[ b\r]\x0c'c'\r\n" .empty).1 = .ok s) ∧
    ∃ e e', (ofText "'a'(b)\n" .empty).1 = .error e ∧
      (ofText (withReturns "'a'(b)\n") .empty).1 = .error e' ∧ e.fault = e'.fault := by
  have hcut : Lexeme.ofText "a[b] 'c'\n".toList = .ok [⟨.word "a", 0, 1⟩, ⟨.leftBracket, 1, 2⟩,
      ⟨.word "b", 2, 3⟩, ⟨.rightBracket, 3, 4⟩, ⟨.space, 4, 5⟩, ⟨.quoted .single "c", 5, 8⟩,
      ⟨.newline, 8, 9⟩] := by
    decide +kernel
  have hpieces : Piece.ofText "a[b] 'c'\n".toList = [⟨.word "a", ['a']⟩, ⟨.leftBracket, ['[']⟩,
      ⟨.word "b", ['b']⟩, ⟨.rightBracket, [']']⟩, ⟨.space, [' ']⟩,
      ⟨.quoted .single "c", ['\'', 'c', '\'']⟩, ⟨.newline, ['\n']⟩] := by
    decide +kernel
  have hrelaid : IsRelaid "a[b] 'c'\n" "a\t[ b\r]\x0c'c'\r\n" := by
    unfold IsRelaid
    rw [hpieces]
    exact .other (by decide) <|
      .mark ['\t'] [' '] rfl (by decide) (by decide) (by decide) (by decide) <|
      .other (by decide) <| .mark ['\r'] [] rfl (by decide) (by decide) (by decide) (by decide) <|
      .blank ['\x0c'] rfl (by decide) (by decide) <| .other (by decide) <|
      .mark ['\r'] [] rfl (by decide) (by decide) (by decide) (by decide) .nil
  have hcut' : Lexeme.ofText "'a'(b)\n".toList = .ok [⟨.quoted .single "a", 0, 3⟩,
      ⟨.leftParen, 3, 4⟩, ⟨.word "b", 4, 5⟩, ⟨.rightParen, 5, 6⟩, ⟨.newline, 6, 7⟩] := by
    decide +kernel
  have hok : (ofText "a[b] 'c'\n" .empty).1.isOk = true := by decide +kernel
  have hwrong : (ofText "'a'(b)\n" .empty).1.isOk = false := by decide +kernel
  obtain ⟨hlayouts, -⟩ := layout_insignificant hcut (by decide)
  obtain ⟨hlayouts', hreturns⟩ := layout_insignificant hcut' (by decide)
  refine ⟨⟨hrelaid, ?_⟩, ?_⟩
  · rcases (hlayouts _ hrelaid .empty).2 with hs | ⟨e, -, he, -⟩
    · exact hs
    · rw [he] at hok
      cases hok
  · rcases (hlayouts' _ hreturns .empty).2 with ⟨s, hs, -⟩ | he
    · rw [hs] at hwrong
      cases hwrong
    · exact he

end Statement

end WordScript
