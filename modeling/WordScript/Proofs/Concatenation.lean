import WordScript.Proofs.Grammar
import WordScript.Proofs.Pieces
import WordScript.Proofs.Placing

/-!
# Texts one after the other

What follows a text whose last token is a newline is read as if the text stood alone: it is cut into
the same lexemes, further on in the whole, and read into the same statements, which come after those
of the text in front. The leaves of the text in front are pushed first, so both texts are read into
the arenas that they would be read into one after the other.
-/

namespace WordScript

/-- The span when the text stands after so many bytes. -/
def Span.moved (offset : Nat) (a : Span) : Span := ⟨offset + a.start, offset + a.stop⟩

theorem Span.merge_moved (offset : Nat) (a b : Span) :
    (a.moved offset).merge (b.moved offset) = (a.merge b).moved offset := by
  simp [moved, merge]

namespace Lexeme

/-! ## Cutting -/

/-- The lexeme when the text stands after so many bytes. -/
def moved (offset : Nat) (l : Lexeme) : Lexeme := ⟨l.token, l.span.moved offset⟩

/-- What comes of cutting a text when it stands after so many bytes. -/
def movedResult (offset : Nat) (x : Except (SyntaxFault × Span) (List Lexeme)) :
    Except (SyntaxFault × Span) (List Lexeme) :=
  (x.map (List.map (moved offset))).mapError fun e => (e.1, e.2.moved offset)

/-- Where a text stands makes no difference to how it is cut, and to what is wrong with it. -/
theorem cutAll_moved (offset start : Nat) (cs : List Char) :
    cutAll (offset + start) cs = movedResult offset (cutAll start cs) := by
  fun_induction cutAll start cs with
  | case1 =>
    rw [cutAll_nil]
    rfl
  | case2 start c cs fault seen hcut =>
    rw [cutAll_of_cut_error hcut, Nat.add_assoc]
    rfl
  | case3 start c cs p hcut stop e hrest ih =>
    rw [cutAll_of_cut hcut, Nat.add_assoc, ih, hrest]
    rfl
  | case4 start c cs p hcut stop rest hrest ih =>
    rw [cutAll_of_cut hcut, Nat.add_assoc, ih, hrest]
    rfl

/-- A break is at an end whatever follows it. -/
theorem endsBefore_of_isBreak {t : Token} (ht : t.isBreak = true) (rest : List Char) :
    t.EndsBefore rest := by
  intro d _
  cases t <;> first | rfl | cases ht

/-- Behind a text that is empty or whose last lexeme is a break a text is cut as it is alone. -/
theorem cutAll_append_eq {start : Nat} {cs : List Char} {ls : List Lexeme}
    (h : cutAll start cs = .ok ls) (hlast : ∀ l ∈ ls.getLast?, l.token.isBreak = true)
    (ds : List Char) : cutAll start (cs ++ ds) =
      (movedResult (start + Text.byteLength cs) (cutAll 0 ds)).map (ls ++ ·) := by
  obtain ⟨ps, hjoined, rfl, rfl⟩ := cutAll_eq_ok_iff.mp h
  rw [← cutAll_moved, Nat.add_zero]
  refine Piece.cutAll_text_append hjoined (fun p hp => ?_) start
  have htoken : p.token ∈ ((Piece.place start ps).map token).getLast? := by
    rw [Piece.map_token_place, List.getLast?_map]
    exact Option.mem_map_of_mem _ hp
  rw [List.getLast?_map] at htoken
  obtain ⟨l, hl, htoken⟩ := Option.map_eq_some_iff.mp htoken
  rw [← htoken]
  exact endsBefore_of_isBreak (hlast l hl) ds

theorem cutAll_append {start : Nat} {cs ds : List Char} {ls ls' : List Lexeme}
    (h : cutAll start cs = .ok ls) (hlast : ∀ l ∈ ls.getLast?, l.token.isBreak = true)
    (h' : cutAll 0 ds = .ok ls') :
    cutAll start (cs ++ ds) = .ok (ls ++ ls'.map (moved (start + Text.byteLength cs))) := by
  rw [cutAll_append_eq h hlast, h']
  rfl

/-- What is wrong with a text is wrong with it behind a text that can be cut up to a break. -/
theorem cutAll_append_error {start : Nat} {cs ds : List Char} {ls : List Lexeme}
    {fault : SyntaxFault} {span : Span} (h : cutAll start cs = .ok ls)
    (hlast : ∀ l ∈ ls.getLast?, l.token.isBreak = true) (h' : cutAll 0 ds = .error (fault, span)) :
    cutAll start (cs ++ ds) = .error (fault, span.moved (start + Text.byteLength cs)) := by
  rw [cutAll_append_eq h hlast, h']
  rfl

end Lexeme

/-! ## Reading -/

namespace Reader

/-- What has been read before a text: what it is all read into so far, and how many bytes it takes
up. -/
structure Before where
  head : Expression
  body : List Statement
  offset : Nat

/-- The reader when that has been read before. -/
def after (r : Reader) (p : Before) : Reader :=
  { r with
    groups := r.groups.map fun g => { g with span := g.span.moved p.offset }
    root := .mk p.head (p.body ++ r.root.body)
    blocks := r.blocks.map fun b => { b with span := b.span.moved p.offset }
    afterQuote := r.afterQuote.map (Span.moved p.offset) }

/-- Where a text is placed when that has been read before it. -/
def Before.placing (p : Before) : Placing where
  span := Span.moved p.offset
  merge := Span.merge_moved p.offset
  head _ := p.head
  body := p.body

section After

variable {p : Before} {r : Reader}

theorem endWord_after : (r.after p).endWord = r.endWord.after p :=
  endWord_placed (p := p.placing)

theorem readToken_after (token : Token) (span : Span) :
    (r.after p).readToken token (span.moved p.offset) =
      placedResult p.placing (r.readToken token span) :=
  readToken_placed (p := p.placing) token span

theorem readAll_after (ls : List Lexeme) :
    (r.after p).readAll (ls.map (Lexeme.moved p.offset)) =
      placedResult p.placing (r.readAll ls) :=
  readAll_placed (p := p.placing) ls

end After

/-- Lexemes are read to the end after those in front of them. -/
theorem readAll_append {r t : Reader} {ls : List Lexeme} (h : ls.foldlM read r = .ok t)
    (ls' : List Lexeme) : r.readAll (ls ++ ls') = t.readAll ls' := by
  unfold readAll
  rw [List.foldlM_append, h]
  rfl

/-- After a break nothing is left on the line. -/
theorem atLine_of_read_break {r t : Reader} {l : Lexeme} (h : r.read l = .ok t)
    (hbreak : l.token.isBreak = true) : t.AtLine := by
  have h := readToken_of_read h
  have hquote := afterQuote_endWord { r with afterQuote := none }
  have hword := word_endWord { r with afterQuote := none }
  have hline : ∀ e : Reader, e.word = none → e.afterQuote = none → e.groups = [] →
      ∀ blocks, AtLine { e with line := .group [], blocks } :=
    fun e hword hquote hgroups _ => ⟨⟨hword, hquote⟩, hgroups, rfl⟩
  generalize l.token = token at h hbreak
  cases token with
  | newline =>
    obtain ⟨hgroups, hu⟩ := closed_of_requireClosed h
    cases hu
    exact (hline _ hword hquote hgroups _).addStatement _
  | rightBrace =>
    obtain ⟨hgroups, hu⟩ := closed_of_requireClosed h
    split at hu
    · cases hu
    · cases hu
      exact (hline _ hword hquote hgroups _).addStatement _
  | leftBrace =>
    obtain ⟨hgroups, hu⟩ := closed_of_requireClosed h
    cases hu
    exact hline _ hword hquote hgroups _
  | _ => cases hbreak

/-- What ends at the end of a line is done when no block is open. -/
theorem AtLine.finish_eq {r t : Reader} (hr : r.AtLine) (h : r.finish = .ok t) :
    t = r ∧ r.blocks = [] := by
  obtain ⟨arena, _, _, _, root, blocks, _⟩ := r
  cases hr.word
  cases hr.line
  cases hr.groups
  cases blocks with
  | cons b bs => cases h
  | nil =>
    cases h
    exact ⟨rfl, rfl⟩

end Reader

/-! ## Texts -/

/-- The last token of the text is a newline. -/
def EndsLine (text : String) : Prop :=
  ∃ ls, Lexeme.ofText text.toList = .ok ls ∧ ls.getLast?.map Lexeme.token = some .newline

instance (text : String) : Decidable (EndsLine text) :=
  match h : Lexeme.ofText text.toList with
  | .error _ => isFalse fun ⟨_, hls, _⟩ => nomatch h.symm.trans hls
  | .ok ls => decidable_of_iff (ls.getLast?.map Lexeme.token = some .newline)
    ⟨fun hlast => ⟨ls, h, hlast⟩, fun ⟨_, hls, hlast⟩ => Except.ok.inj (h.symm.trans hls) ▸ hlast⟩

/-- The text can be read. -/
def Parses (text : String) : Prop := (Statement.ofText text .empty).1.isOk = true

instance (text : String) : Decidable (Parses text) := inferInstanceAs (Decidable (_ = _))

/-- The last character of a text that ends a line is a newline. -/
theorem EndsLine.getLast? {text : String} (h : EndsLine text) :
    text.toList.getLast? = some '\n' := by
  obtain ⟨ls, hlexemes, hlast⟩ := h
  have hlexes := Lexeme.lexes_of_cutAll (Lexeme.ofText_eq_ok.mp hlexemes)
  obtain ⟨taken, hmatches, hends⟩ := hlexes.exists_matches (by rw [List.getLast?_map, hlast])
  rw [hends, Token.matches_newline_iff.mp hmatches]
  rfl

namespace Statement

/-- A text that can be read is read into every arena. -/
theorem exists_of_parses {text : String} (h : Parses text) (a : Arena) :
    ∃ s, (ofText text a).1 = .ok s := by
  rcases ofText_alike text .empty a with ⟨e, he, -⟩ | ⟨-, s, -, hs, -⟩
  · rw [Parses, he] at h
    cases h
  · exact ⟨s, hs⟩

/-- A text that can be read is cut into lexemes that can be read. -/
theorem ofText_eq_of_readAll {text : String} {a : Arena} {ls : List Lexeme} {r : Reader}
    (hcut : Lexeme.cutAll 0 (withFinalNewline text.toList) = .ok ls)
    (hread : Reader.readAll { arena := a } ls = .ok r) : ofText text a = (.ok r.root, r.arena) := by
  simp only [ofText, Lexeme.ofText_eq_ok.mpr hcut, hread]

theorem readAll_of_ofText {text : String} {a : Arena} {s : Statement}
    (hs : (ofText text a).1 = .ok s) :
    ∃ ls r, Lexeme.cutAll 0 (withFinalNewline text.toList) = .ok ls ∧
      Reader.readAll { arena := a } ls = .ok r ∧ ofText text a = (.ok r.root, r.arena) ∧
      r.root = s := by
  cases hlexemes : Lexeme.ofText (withFinalNewline text.toList) with
  | error e => simp [ofText, hlexemes] at hs
  | ok ls =>
    have hcut := Lexeme.ofText_eq_ok.mp hlexemes
    cases hread : Reader.readAll { arena := a } ls with
    | error refusal => simp [ofText, hlexemes, hread] at hs
    | ok r =>
      have heq := ofText_eq_of_readAll hcut hread
      rw [heq] at hs
      exact ⟨ls, r, hcut, hread, heq, Except.ok.inj hs⟩

/-- What a text is read into has no head. -/
theorem head_of_ofText {text : String} {a : Arena} {s : Statement}
    (hs : (ofText text a).1 = .ok s) : s.head = .group [] := by
  obtain ⟨ls, r, -, hread, -, rfl⟩ := readAll_of_ofText hs
  -- reading starts as it does when nothing has been read before
  have hafter := Reader.readAll_after (p := ⟨.group [], [], 0⟩) (r := { arena := a }) ls
  have hmoved : ls.map (Lexeme.moved 0) = ls := by
    refine (List.map_congr_left fun l _ => ?_).trans ls.map_id
    simp [Lexeme.moved, Span.moved]
  rw [hmoved, hread] at hafter
  change Reader.readAll { arena := a } ls = _ at hafter
  rw [hread] at hafter
  rw [Except.ok.inj hafter]
  rfl

theorem withFinalNewline_append {text text' : String} (hne : text' ≠ "") :
    withFinalNewline (text ++ text').toList = text.toList ++ withFinalNewline text'.toList := by
  have hchars : text'.toList ≠ [] := by simpa using hne
  have hlast : (text.toList ++ text'.toList).getLast? = text'.toList.getLast? := by
    rw [List.getLast?_append_of_ne_nil _ hchars]
  simp only [withFinalNewline, String.toList_append, hlast]
  split <;> simp

/-- Reading a text up to a newline at its end comes to where the next line would be read. -/
theorem foldlM_of_endsLine {a : Arena} {ls : List Lexeme} {r : Reader}
    (hread : Reader.readAll { arena := a } ls = .ok r)
    (hlast : ls.getLast?.map Lexeme.token = some .newline) (offset : Nat) :
    ls.foldlM Reader.read { arena := a } =
      .ok (Reader.after { arena := r.arena } ⟨r.root.head, r.root.body, offset⟩) := by
  obtain ⟨l, hl, hnewline⟩ := Option.map_eq_some_iff.mp hlast
  obtain ⟨init, rfl⟩ := List.getLast?_eq_some_iff.mp hl
  obtain ⟨u, hfold, hfinish⟩ := exists_of_bind_ok hread
  rw [hfold]
  rw [Reader.foldlM_read_concat] at hfold
  obtain ⟨t, -, hend⟩ := exists_of_bind_ok hfold
  have hline := Reader.atLine_of_read_break hend (by rw [hnewline]; rfl)
  obtain ⟨rfl, hblocks⟩ := hline.finish_eq hfinish
  obtain ⟨arena, _, _, _, ⟨head, body⟩, _, _⟩ := r
  cases hline.word
  cases hline.line
  cases hline.groups
  cases hline.afterQuote
  cases hblocks
  have hbody : body ++ Statement.empty.body = body := List.append_nil body
  simp only [Reader.after, Statement.head_mk, Statement.body_mk, hbody]
  rfl

/-- A text that can be read and ends a line is cut up to a break, and read up to where the next line
would be read. -/
theorem exists_lines_of_endsLine {text : String} (hend : EndsLine text) {a : Arena} {s : Statement}
    (hs : (ofText text a).1 = .ok s) :
    ∃ ls, Lexeme.cutAll 0 text.toList = .ok ls ∧
      (∀ l ∈ ls.getLast?, l.token.isBreak = true) ∧
      ls.foldlM Reader.read { arena := a } = .ok (Reader.after { arena := (ofText text a).2 }
        ⟨.group [], s.body, Text.byteLength text.toList⟩) := by
  have hhead := head_of_ofText hs
  obtain ⟨ls₀, r, hcut₀, hread, heq, rfl⟩ := readAll_of_ofText hs
  have hfinal : withFinalNewline text.toList = text.toList := by
    simp [withFinalNewline, hend.getLast?]
  rw [hfinal] at hcut₀
  obtain ⟨ls, hlexemes, hlast⟩ := hend
  have hcut := Lexeme.ofText_eq_ok.mp hlexemes
  obtain rfl := Except.ok.inj (hcut.symm.trans hcut₀)
  refine ⟨ls, hcut, fun l hl => ?_, ?_⟩
  · rw [hl] at hlast
    rw [Option.some.inj hlast]
    rfl
  · have hfold := foldlM_of_endsLine hread hlast (Text.byteLength text.toList)
    rw [hhead] at hfold
    rw [heq]
    exact hfold

/-- A text that is not empty is read as it would be after what has been read before it, up to the
end of a line. -/
theorem ofText_append {text text' : String} (hend : EndsLine text) (hne : text' ≠ "")
    {a : Arena} {s s' : Statement} (hs : (ofText text a).1 = .ok s)
    (hs' : (ofText text' (ofText text a).2).1 = .ok s') :
    ofText (text ++ text') a =
      (.ok (.mk (.group []) (s.body ++ s'.body)), (ofText text' (ofText text a).2).2) := by
  obtain ⟨ls, hcut, hbreak, hlines⟩ := exists_lines_of_endsLine hend hs
  obtain ⟨ls', r', hcut', hread', heq', rfl⟩ := readAll_of_ofText hs'
  rw [heq']
  have hwhole := Lexeme.cutAll_append hcut hbreak hcut'
  rw [← withFinalNewline_append hne, Nat.zero_add] at hwhole
  have hafter := Reader.readAll_after
    (p := ⟨.group [], s.body, Text.byteLength text.toList⟩)
    (r := { arena := (ofText text a).2 }) ls'
  rw [hread'] at hafter
  exact ofText_eq_of_readAll hwhole ((Reader.readAll_append hlines _).trans hafter)

end Statement

end WordScript
