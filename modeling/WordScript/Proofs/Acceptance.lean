import WordScript.Proofs.Grammar
import WordScript.Proofs.Patterns
import WordScript.Proofs.Reading

/-!
# Which texts can be read

A reader goes on exactly as long as the tokens read so far can still become a program. What decides
it is the outline of those tokens: the reader's open groups are the open brackets, an index counting
for two, its open blocks are counted, and there is something for an index to apply to when a word
is being read or an expression can be taken back. So a text is read into a statement exactly when
its tokens make up a program.
-/

namespace WordScript

/-- The groups that a bracket opens, the innermost first. -/
def Token.Bracket.openers : Token.Bracket → List Opener
  | round => [.paren]
  | square => [.arguments, .index]

namespace Reader

open Token (Bracket Outline bracketsAfter blocksAfter filledAfter outline? IsProgram)

/-- What has been read of the innermost open group, or else of the line. -/
def level (r : Reader) : Expression :=
  match r.groups with
  | [] => r.line
  | g :: _ => g.contents

/-- Whether something has been read that an index can apply to. -/
def hasTarget (r : Reader) : Bool :=
  r.word.isSome || r.level.pop?.isSome

/-- The outline tells of the reader what decides whether it goes on. -/
structure Shows (r : Reader) (o : Outline) : Prop where
  groups : r.groups.map (·.opener) = o.brackets.flatMap Bracket.openers
  blocks : r.blocks.length = o.blocks
  filled : r.hasTarget = o.filled
  afterQuote : r.afterQuote.isSome = o.afterQuote

/-- The reader goes on exactly when the outline does, and the outline tells of it again. -/
inductive Follows : Except Refusal Reader → Option Outline → Prop where
  | ok {r : Reader} {o : Outline} (h : Shows r o) : Follows (.ok r) (some o)
  | error (refusal : Refusal) : Follows (.error refusal) none

theorem Follows.bind {x : Except Refusal Reader} {x' : Option Outline}
    {f : Reader → Except Refusal Reader} {f' : Outline → Option Outline} (h : Follows x x')
    (hf : ∀ r o, Shows r o → Follows (f r) (f' o)) : Follows (x >>= f) (x' >>= f') := by
  cases h with
  | ok h => exact hf _ _ h
  | error refusal => exact .error refusal

section Shows

variable {r : Reader} {o : Outline}

theorem isSome_takeExpression? (r : Reader) : r.takeExpression?.isSome = r.level.pop?.isSome := by
  cases hgroups : r.groups with
  | nil =>
    simp only [takeExpression?, level, hgroups]
    cases r.line.pop? <;> rfl
  | cons g gs =>
    simp only [takeExpression?, level, hgroups]
    cases g.contents.pop? <;> rfl

@[simp] theorem level_addExpression (r : Reader) (e : Expression) :
    (r.addExpression e).level = r.level.push e := by
  cases hgroups : r.groups with
  | nil => simp [addExpression, level, hgroups]
  | cons g gs => simp [addExpression, level, hgroups]

@[simp] theorem map_opener_addExpression (r : Reader) (e : Expression) :
    (r.addExpression e).groups.map (·.opener) = r.groups.map (·.opener) := by
  cases hgroups : r.groups with
  | nil => simp [addExpression, hgroups]
  | cons g gs => simp [addExpression, hgroups]

/-- An index can apply to what has just been added. -/
theorem shows_addExpression (e : Expression)
    (hgroups : r.groups.map (·.opener) = o.brackets.flatMap Bracket.openers)
    (hblocks : r.blocks.length = o.blocks) (hfilled : o.filled = true)
    (hquote : r.afterQuote.isSome = o.afterQuote) : Shows (r.addExpression e) o where
  groups := by rw [map_opener_addExpression, hgroups]
  blocks := by rw [blocks_addExpression, hblocks]
  filled := by simp [hasTarget, hfilled]
  afterQuote := by rw [afterQuote_addExpression, hquote]

theorem Shows.addLeaf (h : Shows r o) (i : Identifier) :
    Shows (r.addLeaf i) { o with filled := true } :=
  shows_addExpression _ h.groups h.blocks rfl h.afterQuote

theorem Shows.endWord (h : Shows r o) : Shows r.endWord o := by
  unfold Reader.endWord
  split
  · next word hword =>
    refine shows_addExpression _ h.groups h.blocks ?_ h.afterQuote
    rw [← h.filled, hasTarget, hword]
    rfl
  · exact h

/-- No group is open exactly when no bracket is. -/
theorem Shows.groups_eq_nil (h : Shows r o) : r.groups = [] ↔ o.brackets = [] := by
  rw [← List.map_eq_nil_iff (f := (·.opener)), h.groups]
  cases o.brackets with
  | nil => simp
  | cons b bs => cases b <;> simp [Bracket.openers]

end Shows

/-! ## Tokens -/

section Tokens

variable {r t : Reader} {brackets : List Bracket} {blocks : Nat} {filled : Bool}

theorem follows_closeParen (h : Shows r ⟨brackets, blocks, filled, false⟩) (span : Span) :
    Follows (r.closeGroup .paren span)
      (Outline.step ⟨brackets, blocks, filled, false⟩ .rightParen) := by
  have hgroups := h.groups
  unfold closeGroup
  cases brackets with
  | nil =>
    rw [List.map_eq_nil_iff.mp hgroups]
    exact .error _
  | cons b bs =>
    cases b with
    | round =>
      obtain ⟨g, gs, hg, hopener, hgs⟩ := List.map_eq_cons_iff.mp hgroups
      simp only [hg, hopener]
      exact .ok (shows_addExpression _ hgs h.blocks rfl h.afterQuote)
    | square =>
      obtain ⟨g, gs, hg, hopener, hgs⟩ := List.map_eq_cons_iff.mp hgroups
      simp only [hg, hopener]
      exact .error _

/-- An index is closed when the group of its arguments is, and then the index around it. -/
theorem follows_closeIndex (h : Shows r ⟨brackets, blocks, filled, false⟩) (span : Span) :
    Follows (r.closeGroup .arguments span >>= fun r => r.closeGroup .index span)
      (Outline.step ⟨brackets, blocks, filled, false⟩ .rightBracket) := by
  have hgroups := h.groups
  cases brackets with
  | nil =>
    simp only [closeGroup, List.map_eq_nil_iff.mp hgroups]
    exact .error _
  | cons b bs =>
    cases b with
    | round =>
      obtain ⟨g, gs, hg, hopener, hgs⟩ := List.map_eq_cons_iff.mp hgroups
      simp only [closeGroup, hg, hopener]
      exact .error _
    | square =>
      obtain ⟨g, gs, hg, hopener, hgs⟩ := List.map_eq_cons_iff.mp hgroups
      obtain ⟨g', gs', hg', hopener', hgs'⟩ := List.map_eq_cons_iff.mp hgs
      subst hg'
      have harguments : r.closeGroup .arguments span = .ok { r with
          groups := { g' with contents := g'.contents.push g.contents } :: gs' } := by
        simp [closeGroup, hg, hopener, addExpression]
      rw [harguments]
      simp only [closeGroup, bind, Except.bind, hopener']
      exact .ok (shows_addExpression _ hgs' h.blocks rfl h.afterQuote)

theorem openers_takeExpression? {e : Expression} (h : r.takeExpression? = some (e, t)) :
    t.groups.map (·.opener) = r.groups.map (·.opener) ∧ t.blocks = r.blocks ∧
      t.afterQuote = r.afterQuote := by
  unfold takeExpression? at h
  split at h
  · next hgroups => split at h <;> cases h; simp [hgroups]
  · next hgroups => split at h <;> cases h; simp [hgroups]

/-- Whatever an index applies to, two groups are open in the place where it stood. -/
theorem follows_indexOf (h : Shows r ⟨brackets, blocks, filled, false⟩)
    (htarget : r.hasTarget = true) (e : Expression) (hword : t.word = none)
    (hopeners : t.groups.map (·.opener) = r.groups.map (·.opener)) (hblocks : t.blocks = r.blocks)
    (hquote : t.afterQuote = r.afterQuote) (span : Span) :
    Follows (.ok (((t.newLeaf (.ofWord indexWord)).2.openGroup
        (.group [e, (t.newLeaf (.ofWord indexWord)).1]) .index span).openGroup
          (.group []) .arguments span))
      (Outline.step ⟨brackets, blocks, filled, false⟩ .leftBracket) := by
  have hfilled := h.filled
  rw [htarget] at hfilled
  cases hfilled
  refine .ok ⟨?_, ?_, ?_, ?_⟩
  · simp [openGroup, newLeaf, hopeners, h.groups, Bracket.openers]
  · exact (congrArg List.length hblocks).trans h.blocks
  · simp [hasTarget, openGroup, newLeaf, hword, level, Expression.pop?, filledAfter]
  · exact (congrArg Option.isSome hquote).trans h.afterQuote

theorem follows_openIndex (h : Shows r ⟨brackets, blocks, filled, false⟩) (span : Span) :
    Follows (r.openIndex span) (Outline.step ⟨brackets, blocks, filled, false⟩ .leftBracket) := by
  unfold openIndex
  cases hword : r.word with
  | some word =>
    have htarget : r.hasTarget = true := by simp [hasTarget, hword]
    exact follows_indexOf (t := ({ r with word := none }.newLeaf (.ofWord word)).2) h htarget _ rfl
      rfl rfl rfl span
  | none =>
    cases htake : r.takeExpression? with
    | none =>
      have hfilled := h.filled
      simp only [hasTarget, hword, ← isSome_takeExpression?, htake] at hfilled
      cases hfilled
      exact .error _
    | some p =>
      have htarget : r.hasTarget = true := by simp [hasTarget, ← isSome_takeExpression?, htake]
      obtain ⟨hopeners, hblocks, hquote⟩ := openers_takeExpression? htake
      exact follows_indexOf h htarget p.1 ((word_takeExpression? htake).trans hword) hopeners
        hblocks hquote span

/-- At a break the reader goes on only when no bracket is open. -/
theorem follows_requireClosed {token : Token} {f : Reader → Except Refusal Reader}
    (htoken : token.isBreak = true) (h : Shows r ⟨brackets, blocks, filled, false⟩)
    (hf : r.groups = [] → brackets = [] →
      Follows (f r) (Outline.step ⟨brackets, blocks, filled, false⟩ token)) :
    Follows (r.requireClosed >>= f) (Outline.step ⟨brackets, blocks, filled, false⟩ token) := by
  cases hgroups : r.groups with
  | nil =>
    simp only [requireClosed, hgroups]
    exact hf hgroups (h.groups_eq_nil.mp hgroups)
  | cons g gs =>
    have hbrackets : brackets ≠ [] := by
      intro hnil
      rw [h.groups_eq_nil.mpr hnil] at hgroups
      cases hgroups
    have hstep : Outline.step ⟨brackets, blocks, filled, false⟩ token = none := by
      rw [Option.eq_none_iff_forall_ne_some]
      intro o ho
      obtain ⟨-, hafter, -⟩ := Outline.step_eq_some.mp ho
      cases token <;> simp_all [Token.isBreak, bracketsAfter]
    simp only [requireClosed, hgroups, hstep]
    exact .error _

/-- At the start of a line no group is open, and an index has nothing to apply to. -/
theorem shows_newLine {quoted : Bool} (hword : r.word = none) (hgroups : r.groups = [])
    (hline : r.line = .group []) (hblocks : r.blocks.length = blocks)
    (hquote : r.afterQuote.isSome = quoted) : Shows r ⟨[], blocks, false, quoted⟩ where
  groups := by simp [hgroups]
  blocks := hblocks
  filled := by simp [hasTarget, hword, level, hgroups, hline, Expression.pop?]
  afterQuote := hquote

theorem shows_addStatement {o : Outline} (s : Statement) (h : Shows r o) :
    Shows (r.addStatement s) o := by
  obtain ⟨arena, word, line, groups, root, blocks, quote⟩ := r
  cases blocks with
  | nil => exact ⟨h.groups, h.blocks, h.filled, h.afterQuote⟩
  | cons b bs => exact ⟨h.groups, h.blocks, h.filled, h.afterQuote⟩

theorem follows_endLine (h : Shows r ⟨brackets, blocks, filled, false⟩) :
    Follows r.endLine (Outline.step ⟨brackets, blocks, filled, false⟩ .newline) := by
  refine follows_requireClosed rfl h.endWord fun hgroups hbrackets => ?_
  cases hbrackets
  exact .ok (shows_addStatement _
    (shows_newLine (word_endWord r) hgroups rfl h.endWord.blocks h.endWord.afterQuote))

theorem follows_openBlock (h : Shows r ⟨brackets, blocks, filled, false⟩) (span : Span) :
    Follows (r.openBlock span) (Outline.step ⟨brackets, blocks, filled, false⟩ .leftBrace) := by
  refine follows_requireClosed rfl h.endWord fun hgroups hbrackets => ?_
  cases hbrackets
  exact .ok (shows_newLine (word_endWord r) hgroups rfl (congrArg Nat.succ h.endWord.blocks)
    h.endWord.afterQuote)

theorem follows_closeBlock (h : Shows r ⟨brackets, blocks, filled, false⟩) (span : Span) :
    Follows (r.closeBlock span) (Outline.step ⟨brackets, blocks, filled, false⟩ .rightBrace) := by
  refine follows_requireClosed rfl h.endWord fun hgroups hbrackets => ?_
  cases hbrackets
  have hlength := h.endWord.blocks
  cases hblocks : r.endWord.blocks with
  | nil =>
    rw [hblocks] at hlength
    cases hlength
    exact .error _
  | cons b bs =>
    rw [hblocks] at hlength
    cases hlength
    exact .ok (shows_addStatement _
      (shows_newLine (word_endWord r) hgroups rfl rfl h.endWord.afterQuote))

theorem follows_openParen (h : Shows r ⟨brackets, blocks, filled, false⟩) (hword : r.word = none)
    (span : Span) :
    Follows (.ok (r.openGroup (.group []) .paren span))
      (Outline.step ⟨brackets, blocks, filled, false⟩ .leftParen) := by
  refine .ok ⟨?_, h.blocks, ?_, h.afterQuote⟩
  · exact congrArg (Opener.paren :: ·) h.groups
  · simp [hasTarget, openGroup, hword, level, Expression.pop?, filledAfter]

theorem follows_readToken (h : Shows r ⟨brackets, blocks, filled, false⟩) (token : Token)
    (span : Span) :
    Follows (r.readToken token span) (Outline.step ⟨brackets, blocks, filled, false⟩ token) := by
  have addsToWord : ∀ text, Shows (r.addToWord text) ⟨brackets, blocks, true, false⟩ := fun text =>
    ⟨h.groups, h.blocks, rfl, h.afterQuote⟩
  have hended := h.endWord
  cases token with
  | word text => exact .ok (addsToWord text)
  | escaped c => exact .ok (addsToWord c.toString)
  | space => exact .ok hended
  | continuation => exact .ok hended
  | newline => exact follows_endLine h
  | quoted quote text =>
    have hleaf := hended.addLeaf (.string text)
    exact .ok ⟨hleaf.groups, hleaf.blocks, hleaf.filled, rfl⟩
  | leftParen => exact follows_openParen hended (word_endWord r) span
  | rightParen => exact follows_closeParen hended span
  | leftBracket => exact follows_openIndex h span
  | rightBracket => exact follows_closeIndex hended span
  | leftBrace => exact follows_openBlock h span
  | rightBrace => exact follows_closeBlock h span

end Tokens

/-! ## Texts -/

section Texts

variable {r : Reader} {o : Outline}

theorem follows_read (h : Shows r o) (l : Lexeme) : Follows (r.read l) (o.step l.token) := by
  obtain ⟨brackets, blocks, filled, afterQuote⟩ := o
  have hquote := h.afterQuote
  unfold read
  cases hr : r.afterQuote with
  | none =>
    rw [hr] at hquote
    cases hquote
    exact follows_readToken h l.token l.span
  | some quote =>
    rw [hr] at hquote
    cases hquote
    simp only
    split
    · next hlayout =>
      have hstep : Outline.step ⟨brackets, blocks, filled, true⟩ l.token =
          Outline.step ⟨brackets, blocks, filled, false⟩ l.token := by
        simp [Outline.step, Outline.Admits, hlayout]
      rw [hstep]
      have hshows : Shows { r with afterQuote := none } ⟨brackets, blocks, filled, false⟩ :=
        ⟨h.groups, h.blocks, h.filled, rfl⟩
      exact follows_readToken hshows l.token l.span
    · next hlayout =>
      have hstep : Outline.step ⟨brackets, blocks, filled, true⟩ l.token = none :=
        if_neg fun hadmits => hlayout (hadmits.1 rfl)
      rw [hstep]
      exact .error _

theorem follows_foldlM (h : Shows r o) (lexemes : List Lexeme) :
    Follows (lexemes.foldlM read r) ((lexemes.map Lexeme.token).foldlM Outline.step o) := by
  induction lexemes generalizing r o with
  | nil => exact .ok h
  | cons l lexemes ih =>
    rw [List.map_cons, List.foldlM_cons, List.foldlM_cons]
    exact (follows_read h l).bind fun r o h => ih h

/-- A text may end when no group and no block is open. -/
theorem exists_finish_iff (h : Shows r o) :
    (∃ t, r.finish = .ok t) ↔ o.brackets = [] ∧ o.blocks = 0 := by
  have h := h.endWord
  unfold finish requireClosed
  cases hgroups : r.endWord.groups with
  | cons g gs =>
    have hbrackets : o.brackets ≠ [] := by
      rw [Ne, ← h.groups_eq_nil, hgroups]
      exact List.cons_ne_nil g gs
    simp [hbrackets, refuse, bind, Except.bind]
  | nil =>
    have hlength := h.blocks
    have hbrackets := h.groups_eq_nil.mp hgroups
    cases hblocks : r.endWord.blocks with
    | cons b bs =>
      rw [hblocks] at hlength
      have hpos : o.blocks ≠ 0 := by rw [← hlength]; exact Nat.succ_ne_zero _
      simp [hblocks, hpos, refuse, bind, Except.bind]
    | nil =>
      rw [hblocks] at hlength
      refine iff_of_true ?_ ⟨hbrackets, hlength.symm⟩
      simp only [hgroups, hblocks, bind, Except.bind]
      split
      · exact ⟨_, rfl⟩
      · exact ⟨_, rfl⟩

theorem exists_readAll_iff (h : Shows r o) (lexemes : List Lexeme) :
    (∃ t, r.readAll lexemes = .ok t) ↔
      ∃ o', (lexemes.map Lexeme.token).foldlM Outline.step o = some o' ∧
        o'.brackets = [] ∧ o'.blocks = 0 := by
  have hfollows := follows_foldlM h lexemes
  unfold readAll
  generalize lexemes.foldlM read r = x at hfollows ⊢
  generalize (lexemes.map Lexeme.token).foldlM Outline.step o = x' at hfollows ⊢
  cases hfollows with
  | ok h =>
    simpa [bind, Except.bind] using exists_finish_iff h
  | error refusal => simp [bind, Except.bind]

theorem shows_start (a : Arena) : Shows { arena := a } {} :=
  ⟨rfl, rfl, rfl, rfl⟩

end Texts

end Reader

namespace Statement

open Token (IsProgram)

theorem getLast?_withFinalNewline (text : List Char) :
    (withFinalNewline text).getLast? = some '\n' := by
  unfold withFinalNewline
  split
  · assumption
  · simp

/-- The last token of a text is not a string, since a newline ends it. -/
theorem afterQuote_of_outline? {text : List Char} {ts : List Token} {o : Token.Outline}
    (hlexes : Lexeme.Lexes (withFinalNewline text) ts) (ho : Token.outline? ts = some o) :
    o.afterQuote = false := by
  rw [Bool.eq_false_iff]
  intro hquote
  obtain ⟨before, t, rfl, ht⟩ := (Token.describes_of_outline? ho).afterQuote.mp hquote
  cases t with
  | quoted quote content =>
    obtain ⟨taken, hmatches, hlast⟩ := hlexes.exists_matches (List.getLast?_concat ..)
    rw [getLast?_withFinalNewline, Token.getLast?_of_matches_quoted hmatches] at hlast
    cases quote <;> cases hlast
  | _ => cases ht

/-- A text that can be cut into lexemes is read into a statement exactly when its tokens make up a
program: strings are followed by layout, brackets are nested within lines, braces are balanced and
every index has something in front of it. -/
theorem exists_ofText_iff {text : String} {lexemes : List Lexeme}
    (h : Lexeme.ofText (withFinalNewline text.toList) = .ok lexemes) (a : Arena) :
    (∃ s, (ofText text a).1 = .ok s) ↔ IsProgram (lexemes.map Lexeme.token) := by
  have hlexes := Lexeme.lexes_of_cutAll (Lexeme.ofText_eq_ok.mp h)
  have hread : (∃ s, (ofText text a).1 = .ok s) ↔
      ∃ t, Reader.readAll { arena := a } lexemes = .ok t := by
    unfold ofText
    simp only [h]
    split
    · next refusal hrefusal => simp [hrefusal]
    · next t ht => simp [ht]
  rw [hread, Reader.exists_readAll_iff (Reader.shows_start a)]
  constructor
  · rintro ⟨o, ho, hbrackets, hblocks⟩
    exact Token.isProgram_of_outline? ho hbrackets hblocks (afterQuote_of_outline? hlexes ho)
  · intro hprogram
    obtain ⟨o, ho, hbrackets, hblocks, -⟩ := hprogram.outline?_eq_some
    exact ⟨o, ho, hbrackets, hblocks⟩

/-- An index applies to the word in front of it, but not over the bracket of its group. -/
theorem exists_ofText_indexed : (∃ s, (ofText "a[b]" .empty).1 = .ok s) ∧
    ¬ ∃ s, (ofText "a([b])" .empty).1 = .ok s := by
  have hcut : Lexeme.ofText (withFinalNewline "a[b]".toList) = .ok [⟨.word "a", 0, 1⟩,
      ⟨.leftBracket, 1, 2⟩, ⟨.word "b", 2, 3⟩, ⟨.rightBracket, 3, 4⟩, ⟨.newline, 4, 5⟩] := by
    decide +kernel
  have hcut' : Lexeme.ofText (withFinalNewline "a([b])".toList) = .ok [⟨.word "a", 0, 1⟩,
      ⟨.leftParen, 1, 2⟩, ⟨.leftBracket, 2, 3⟩, ⟨.word "b", 3, 4⟩, ⟨.rightBracket, 4, 5⟩,
      ⟨.rightParen, 5, 6⟩, ⟨.newline, 6, 7⟩] := by
    decide +kernel
  constructor
  · apply (exists_ofText_iff hcut .empty).mpr
    decide
  · rw [exists_ofText_iff hcut' .empty]
    decide

end Statement

end WordScript
