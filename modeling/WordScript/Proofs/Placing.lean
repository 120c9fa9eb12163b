import WordScript.Proofs.Lexing
import WordScript.Proofs.Reading

/-!
# Where what is read stands

Reading goes by the tokens. Where they stand shows only in the spans of brackets, braces and strings
that are kept to point at them, and what has been read before shows only in that it comes first. So
lexemes that are placed elsewhere are read in the same way, up to these spans: `foldlM_placed`.
Placed all in one point they are but tokens, and `ofText_eq_ofTokens` says that a text is read into
what its tokens are read into.
-/

namespace WordScript

/-- A placing of what is read: where spans go, and what comes before it. -/
structure Placing where
  span : Span → Span
  /-- What is merged goes where its parts go. -/
  merge : ∀ a b, (span a).merge (span b) = span (a.merge b)
  /-- What becomes of the head of the whole. -/
  head : Expression → Expression
  /-- The statements that come before. -/
  body : List Statement

/-- The lexeme in its new place. -/
def Lexeme.placed (l : Lexeme) (p : Placing) : Lexeme := ⟨l.token, p.span l.span⟩

namespace Reader

/-- The reader that has read the same in its new place. -/
def placed (r : Reader) (p : Placing) : Reader :=
  { r with
    groups := r.groups.map fun g => { g with span := p.span g.span }
    root := .mk (p.head r.root.head) (p.body ++ r.root.body)
    blocks := r.blocks.map fun b => { b with span := p.span b.span }
    afterQuote := r.afterQuote.map p.span }

/-- What comes of reading in the new place. -/
def placedResult (p : Placing) : Except Refusal Reader → Except Refusal Reader
  | .ok r => .ok (r.placed p)
  | .error refusal => .error { refusal with span := p.span refusal.span }

section Placed

variable {p : Placing} {r : Reader}

theorem placedResult_bind {x y : Except Refusal Reader} (hx : y = placedResult p x)
    {f g : Reader → Except Refusal Reader} (hf : ∀ r, g (r.placed p) = placedResult p (f r)) :
    y >>= g = placedResult p (x >>= f) := by
  subst hx
  cases x with
  | ok r => exact hf r
  | error refusal => rfl

theorem addExpression_placed (r : Reader) (e : Expression) :
    (r.placed p).addExpression e = (r.addExpression e).placed p := by
  unfold addExpression placed
  cases r.groups <;> rfl

theorem addLeaf_placed (r : Reader) (i : Identifier) :
    (r.placed p).addLeaf i = (r.addLeaf i).placed p :=
  addExpression_placed (r.newLeaf i).2 (r.newLeaf i).1

theorem addStatement_placed (r : Reader) (s : Statement) :
    (r.placed p).addStatement s = (r.addStatement s).placed p := by
  unfold addStatement placed
  cases r.blocks with
  | nil => simp [Statement.push]
  | cons b bs => rfl

theorem endWord_placed : (r.placed p).endWord = r.endWord.placed p := by
  have hword : (r.placed p).word = r.word := rfl
  unfold endWord
  rw [hword]
  cases r.word with
  | none => rfl
  | some word => exact addLeaf_placed { r with word := none } (.ofWord word)

theorem closeGroup_placed (opener : Opener) (span : Span) :
    (r.placed p).closeGroup opener (p.span span) = placedResult p (r.closeGroup opener span) := by
  obtain ⟨arena, word, line, groups, root, blocks, quote⟩ := r
  cases groups with
  | nil => rfl
  | cons g gs =>
    by_cases hopener : g.opener = opener
    · simp only [closeGroup, placed, List.map_cons, hopener, if_true]
      exact congrArg Except.ok
        (addExpression_placed ⟨arena, word, line, gs, root, blocks, quote⟩ _)
    · simp only [closeGroup, placed, List.map_cons, hopener, if_false]
      rfl

theorem takeExpression?_placed :
    (r.placed p).takeExpression? = r.takeExpression?.map fun t => (t.1, t.2.placed p) := by
  obtain ⟨arena, word, line, groups, root, blocks, quote⟩ := r
  cases groups with
  | nil =>
    simp only [takeExpression?, placed, List.map_nil]
    cases line.pop? <;> rfl
  | cons g gs =>
    simp only [takeExpression?, placed, List.map_cons]
    cases g.contents.pop? <;> rfl

theorem openIndex_placed (span : Span) :
    (r.placed p).openIndex (p.span span) = placedResult p (r.openIndex span) := by
  have hword : (r.placed p).word = r.word := rfl
  unfold openIndex
  rw [hword]
  cases r.word with
  | some word => rfl
  | none =>
    rw [takeExpression?_placed]
    cases r.takeExpression? <;> rfl

theorem requireClosed_placed : (r.placed p).requireClosed = placedResult p r.requireClosed := by
  obtain ⟨arena, word, line, groups, root, blocks, quote⟩ := r
  cases groups <;> rfl

theorem endLine_placed : (r.placed p).endLine = placedResult p r.endLine := by
  unfold endLine
  rw [endWord_placed]
  refine placedResult_bind requireClosed_placed fun r => ?_
  exact congrArg Except.ok (addStatement_placed { r with line := .group [] } (.line r.line))

theorem openBlock_placed (span : Span) :
    (r.placed p).openBlock (p.span span) = placedResult p (r.openBlock span) := by
  unfold openBlock
  rw [endWord_placed]
  exact placedResult_bind requireClosed_placed fun r => rfl

theorem closeBlock_placed (span : Span) :
    (r.placed p).closeBlock (p.span span) = placedResult p (r.closeBlock span) := by
  unfold closeBlock
  rw [endWord_placed]
  refine placedResult_bind requireClosed_placed fun r => ?_
  obtain ⟨arena, word, line, groups, root, blocks, quote⟩ := r
  cases blocks with
  | nil => rfl
  | cons b bs =>
    exact congrArg Except.ok
      (addStatement_placed ⟨arena, word, .group [], groups, root, bs, quote⟩ _)

theorem readToken_placed (token : Token) (span : Span) :
    (r.placed p).readToken token (p.span span) = placedResult p (r.readToken token span) := by
  cases token with
  | word text => rfl
  | escaped c => rfl
  | space => exact congrArg Except.ok endWord_placed
  | continuation => exact congrArg Except.ok endWord_placed
  | newline => exact endLine_placed
  | quoted quote text =>
    simp only [readToken, endWord_placed, addLeaf_placed]
    rfl
  | leftParen =>
    simp only [readToken, endWord_placed]
    rfl
  | rightParen =>
    simp only [readToken, endWord_placed]
    exact closeGroup_placed _ _
  | leftBracket => exact openIndex_placed span
  | rightBracket =>
    simp only [readToken, endWord_placed]
    exact placedResult_bind (closeGroup_placed _ _) fun r => closeGroup_placed _ _
  | leftBrace => exact openBlock_placed span
  | rightBrace => exact closeBlock_placed span

theorem read_placed (l : Lexeme) : (r.placed p).read (l.placed p) = placedResult p (r.read l) := by
  obtain ⟨arena, word, line, groups, root, blocks, quote⟩ := r
  cases quote with
  | none => exact readToken_placed l.token l.span
  | some quote =>
    simp only [read, placed, Option.map_some, Lexeme.placed, p.merge]
    split
    · exact readToken_placed (r := ⟨arena, word, line, groups, root, blocks, none⟩) _ _
    · rfl

theorem finish_placed : (r.placed p).finish = placedResult p r.finish := by
  unfold finish
  rw [endWord_placed]
  refine placedResult_bind requireClosed_placed fun r => ?_
  obtain ⟨arena, word, line, groups, root, blocks, quote⟩ := r
  cases blocks with
  | cons b bs => rfl
  | nil =>
    simp only [placed, List.map_nil]
    split
    · rfl
    · exact congrArg Except.ok
        (addStatement_placed ⟨arena, word, .group [], groups, root, [], quote⟩ (.line line))

theorem foldlM_placed (ls : List Lexeme) :
    (ls.map (Lexeme.placed · p)).foldlM read (r.placed p) = placedResult p (ls.foldlM read r) := by
  induction ls generalizing r with
  | nil => rfl
  | cons l ls ih =>
    rw [List.map_cons, List.foldlM_cons, List.foldlM_cons]
    exact placedResult_bind (read_placed l) fun r => ih

theorem readAll_placed (ls : List Lexeme) :
    (r.placed p).readAll (ls.map (Lexeme.placed · p)) = placedResult p (r.readAll ls) :=
  placedResult_bind (foldlM_placed ls) fun _ => finish_placed

end Placed

end Reader

/-! ## Reading tokens -/

/-- Everything in one point. -/
def Placing.nowhere : Placing where
  span _ := ⟨0, 0⟩
  merge _ _ := rfl
  head := id
  body := []

/-- The token as a lexeme, wherever it stands. -/
def Token.lexeme (t : Token) : Lexeme := ⟨t, ⟨0, 0⟩⟩

namespace Reader

/-- Reads tokens one after the other. -/
def readTokens (r : Reader) (ts : List Token) : Except Refusal Reader :=
  (ts.map Token.lexeme).foldlM read r

@[simp] theorem readTokens_nil (r : Reader) : r.readTokens [] = .ok r := rfl

theorem readTokens_cons (r : Reader) (t : Token) (ts : List Token) :
    r.readTokens (t :: ts) = r.read t.lexeme >>= fun r => r.readTokens ts :=
  List.foldlM_cons

theorem readTokens_append (r : Reader) (ts ts' : List Token) :
    r.readTokens (ts ++ ts') = r.readTokens ts >>= fun r => r.readTokens ts' := by
  unfold readTokens
  rw [List.map_append, List.foldlM_append]

theorem readTokens_concat (r : Reader) (ts : List Token) (t : Token) :
    r.readTokens (ts ++ [t]) = r.readTokens ts >>= fun r => r.read t.lexeme := by
  unfold readTokens
  rw [List.map_append, List.map_singleton, foldlM_read_concat]

end Reader

namespace Statement

/-- The statement that the tokens of a text are read into, or what is wrong with them. -/
def ofTokens (ts : List Token) (a : Arena) : Except SyntaxFault Statement × Arena :=
  match Reader.readTokens { arena := a } ts >>= Reader.finish with
  | .error refusal => (.error refusal.fault, refusal.arena)
  | .ok r => (.ok r.root, r.arena)

/-- A text is read into what its tokens are read into. -/
theorem ofText_eq_ofTokens {text : String} {ls : List Lexeme}
    (h : Lexeme.ofText (withFinalNewline text.toList) = .ok ls) (a : Arena) :
    ((ofText text a).1.mapError SyntaxError.fault, (ofText text a).2) =
      ofTokens (ls.map Lexeme.token) a := by
  have hplaced := Reader.readAll_placed (p := .nowhere) (r := { arena := a }) ls
  have htokens : ls.map (Lexeme.placed · .nowhere) =
      (ls.map Lexeme.token).map Token.lexeme := by
    rw [List.map_map]
    rfl
  rw [htokens] at hplaced
  have hread : (Reader.readTokens { arena := a } (ls.map Lexeme.token) >>= Reader.finish) =
      Reader.placedResult .nowhere (Reader.readAll { arena := a } ls) := hplaced
  unfold ofTokens
  rw [hread]
  simp only [ofText, h]
  cases Reader.readAll { arena := a } ls with
  | error refusal => rfl
  | ok r =>
    obtain ⟨arena, word, line, groups, ⟨head, body⟩, blocks, quote⟩ := r
    rfl

/-- Texts whose tokens are read alike are. -/
theorem ofText_alike_of_tokens {text text' : String} {ls ls' : List Lexeme}
    (h : Lexeme.ofText (withFinalNewline text.toList) = .ok ls)
    (h' : Lexeme.ofText (withFinalNewline text'.toList) = .ok ls') {a : Arena}
    (htokens : ofTokens (ls.map Lexeme.token) a = ofTokens (ls'.map Lexeme.token) a) :
    (ofText text a).2 = (ofText text' a).2 ∧
      ((∃ s, (ofText text a).1 = .ok s ∧ (ofText text' a).1 = .ok s) ∨
        ∃ e e', (ofText text a).1 = .error e ∧ (ofText text' a).1 = .error e' ∧
          e.fault = e'.fault) := by
  rw [← ofText_eq_ofTokens h, ← ofText_eq_ofTokens h', Prod.mk.injEq] at htokens
  obtain ⟨hresult, harena⟩ := htokens
  refine ⟨harena, ?_⟩
  cases hs : (ofText text a).1 <;> cases hs' : (ofText text' a).1 <;> rw [hs, hs'] at hresult
  · exact .inr ⟨_, _, rfl, rfl, Except.error.inj hresult⟩
  · cases hresult
  · cases hresult
  · exact .inl ⟨_, rfl, congrArg _ (Except.ok.inj hresult).symm⟩

end Statement

end WordScript
