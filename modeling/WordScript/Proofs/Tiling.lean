import WordScript.Proofs.Acceptance
import WordScript.Proofs.Pieces

/-!
# Lexemes tile a text

A text is either cut into lexemes or it is not, and which of the two is told by scanning it from
match to match. When it is cut, the lexemes lie one behind the other from its first byte to its
last, and none of them could be longer. When it is not, scanning has come to a quote that is not
closed on its line, or to a backslash that is the last character of the text. The second never
happens to a program, since a newline is put behind its text.
-/

namespace WordScript

namespace Lexeme

/-! ## What tiling is -/

/-- The offset lies between two characters of the text, or at one of its ends. -/
def IsBoundary (text : List Char) (offset : Nat) : Prop :=
  ∃ before after, text = before ++ after ∧ Text.byteLength before = offset

/-- The spans follow each other from one offset to another one, with nothing between them. -/
inductive Covers : Nat → List Span → Nat → Prop where
  | nil (offset : Nat) : Covers offset [] offset
  | cons {start middle stop : Nat} {spans : List Span} (h : Covers middle spans stop) :
      Covers start (⟨start, middle⟩ :: spans) stop

/-- Neither are both tokens blanks nor both words. -/
def Apart (t t' : Token) : Prop :=
  ¬ (t = .space ∧ t' = .space) ∧ ¬ ∃ text text', t = .word text ∧ t' = .word text'

/-- The lexemes make up the text. -/
structure Tiles (text : List Char) (ls : List Lexeme) : Prop where
  /-- No lexeme is empty. -/
  nonempty : ∀ l ∈ ls, l.span.start < l.span.stop
  /-- Lexemes begin and end between characters. -/
  boundary : ∀ l ∈ ls, IsBoundary text l.span.start ∧ IsBoundary text l.span.stop
  /-- From the first byte to the last, one lexeme follows the other. -/
  covers : Covers 0 (ls.map span) (Text.byteLength text)
  /-- Blanks and words that stand side by side are one lexeme. -/
  apart : (ls.map token).IsChain Apart
  /-- Each lexeme is the longest match where it begins. -/
  longest : ∀ l ∈ ls, ∃ before taken rest, text = before ++ (taken ++ rest) ∧
    Text.byteLength before = l.span.start ∧
    Text.byteLength (before ++ taken) = l.span.stop ∧
    IsLongest (taken ++ rest) l.token taken rest

/-- Scanning the text from match to match comes to where this is left of it. -/
inductive Reaches : List Char → List Char → Prop where
  | here (cs : List Char) : Reaches cs cs
  | behind {cs taken rest stop : List Char} {t : Token} (h : IsLongest cs t taken rest)
      (hrest : Reaches rest stop) : Reaches cs stop

theorem Reaches.exists_before {cs rest : List Char} (h : Reaches cs rest) :
    ∃ before, before ++ rest = cs := by
  induction h with
  | here cs => exact ⟨[], rfl⟩
  | @behind cs taken rest stop t hlongest _ ih =>
    obtain ⟨before, hbefore⟩ := ih
    exact ⟨taken ++ before, by rw [List.append_assoc, hbefore, hlongest.whole]⟩

end Lexeme

/-! ## Pieces that are placed -/

namespace Piece

open Lexeme (IsBoundary Covers Apart IsLongest)

variable {p q : Piece} {ps : List Piece} {l : Lexeme}

theorem byteLength_pos {cs : List Char} (h : cs ≠ []) : 0 < Text.byteLength cs := by
  obtain ⟨c, cs, rfl⟩ := List.exists_cons_of_ne_nil h
  exact Nat.add_pos_left c.utf8Size_pos _

theorem covers_place (offset : Nat) (ps : List Piece) :
    Covers offset ((place offset ps).map Lexeme.span) (offset + Text.byteLength (text ps)) := by
  induction ps generalizing offset with
  | nil => exact .nil offset
  | cons p ps ih =>
    have hrest := ih (offset + Text.byteLength p.chars)
    rw [Nat.add_assoc, ← Text.byteLength_append] at hrest
    exact .cons hrest

/-- Blanks go on as long as there are more of them, and words do. -/
theorem apart_of_endsBefore (hq : q.IsWritten) (h : p.EndsBefore q) : Apart p.token q.token := by
  obtain ⟨t, cs⟩ := p
  obtain ⟨t', cs'⟩ := q
  constructor
  · rintro ⟨rfl, rfl⟩
    obtain ⟨hne, hcs⟩ := Token.matches_space_iff.mp hq
    obtain ⟨d, run, rfl⟩ := List.exists_cons_of_ne_nil hne
    have hend := h d rfl
    simp [Token.endsBefore, hcs d List.mem_cons_self] at hend
  · rintro ⟨text, text', rfl, rfl⟩
    obtain ⟨d, run, rfl, hd⟩ := Token.exists_of_matches_word hq
    have hend := h d rfl
    simp [Token.endsBefore, hd] at hend

theorem apart_of_areJoined (h : AreJoined ps) : (ps.map token).IsChain Apart := by
  induction ps with
  | nil => exact .nil
  | cons p ps ih =>
    obtain ⟨hp, hps⟩ := List.forall_mem_cons.mp h.written
    obtain ⟨hends, hchain⟩ := List.isChain_cons.mp h.chain
    refine List.isChain_cons.mpr ⟨fun t ht => ?_, ih ⟨hps, hchain⟩⟩
    rw [List.head?_map] at ht
    obtain ⟨q, hq, rfl⟩ := Option.map_eq_some_iff.mp ht
    exact apart_of_endsBefore (hps q (List.mem_of_mem_head? hq)) (hends q hq)

/-- Each piece is the longest match where it is placed. -/
theorem longest_of_mem_place (h : AreJoined ps) (before : List Char) :
    ∀ l ∈ place (Text.byteLength before) ps, ∃ before' taken rest,
      before ++ text ps = before' ++ (taken ++ rest) ∧
        Text.byteLength before' = l.span.start ∧
        Text.byteLength (before' ++ taken) = l.span.stop ∧
        IsLongest (taken ++ rest) l.token taken rest := by
  induction ps generalizing before with
  | nil => simp [place]
  | cons p ps ih =>
    obtain ⟨hp, hends, hps⟩ := areJoined_cons.mp h
    intro l hl
    rcases List.mem_cons.mp hl with rfl | hl
    · obtain ⟨c, cs, hcs⟩ := List.exists_cons_of_ne_nil hp.ne_nil
      have hcut : Lexeme.cut c (cs ++ text ps) = .ok ⟨p.token, p.chars, text ps⟩ :=
        Lexeme.cut_of_matches hp (by rw [hcs]; rfl) hends
      refine ⟨before, p.chars, text ps, rfl, rfl, Text.byteLength_append _ _, ?_⟩
      rw [hcs] at hcut ⊢
      exact Lexeme.cut_eq_ok_iff_isLongest.mp hcut
    · rw [← Text.byteLength_append] at hl
      have hrest := ih hps (before ++ p.chars) l hl
      rwa [List.append_assoc] at hrest

end Piece

namespace Lexeme

/-- The lexemes that a text is cut into tile it. -/
theorem tiles_of_cutAll {cs : List Char} {ls : List Lexeme} (h : cutAll 0 cs = .ok ls) :
    Tiles cs ls := by
  obtain ⟨ps, hjoined, rfl, rfl⟩ := cutAll_eq_ok_iff.mp h
  have hlongest := Piece.longest_of_mem_place hjoined []
  refine ⟨fun l hl => ?_, fun l hl => ?_, ?_, ?_, hlongest⟩
  · obtain ⟨before, taken, rest, -, hstart, hstop, hmatch⟩ := hlongest l hl
    have hpos := Piece.byteLength_pos (Piece.IsWritten.ne_nil (p := ⟨_, _⟩) hmatch.matched)
    rw [← hstart, ← hstop, Text.byteLength_append]
    exact Nat.lt_add_of_pos_right hpos
  · obtain ⟨before, taken, rest, htext, hstart, hstop, -⟩ := hlongest l hl
    refine ⟨⟨before, taken ++ rest, htext, hstart⟩, before ++ taken, rest, ?_, hstop⟩
    rw [List.append_assoc]
    exact htext
  · have hcovers := Piece.covers_place 0 ps
    rwa [Nat.zero_add] at hcovers
  · rw [Piece.map_token_place]
    exact Piece.apart_of_areJoined hjoined

/-! ## Where cutting stops -/

/-- A text cannot be cut for the reason that scanning it comes to. -/
theorem exists_cutAll_eq_error_iff {offset : Nat} {cs : List Char} {fault : SyntaxFault} :
    (∃ span, cutAll offset cs = .error (fault, span)) ↔
      ∃ rest, Reaches cs rest ∧ IsFault fault rest := by
  constructor
  · rintro ⟨span, h⟩
    fun_induction cutAll offset cs with
    | case1 => cases h
    | case2 offset c cs fault' seen hcut =>
      cases h
      exact ⟨c :: cs, .here _, isFault_of_cut hcut⟩
    | case3 offset c cs p hcut stop e hrest =>
      next ih =>
        cases h
        obtain ⟨rest, hreaches, hfault⟩ := ih hrest
        exact ⟨rest, .behind (cut_eq_ok_iff_isLongest.mp hcut) hreaches, hfault⟩
    | case4 => cases h
  · rintro ⟨rest, hreaches, hfault⟩
    induction hreaches generalizing offset with
    | here cs =>
      obtain ⟨c, cs, rfl⟩ : ∃ c cs', cs = c :: cs' := by
        cases hfault <;> exact ⟨_, _, rfl⟩
      obtain ⟨⟨fault', seen⟩, hcut⟩ := exists_cut_eq_error_iff.mpr ⟨fault, hfault⟩
      obtain rfl := hfault.fault_eq (isFault_of_cut hcut)
      exact ⟨_, cutAll_of_cut_error hcut offset⟩
    | @behind cs taken rest stop t hlongest _ ih =>
      obtain ⟨c, cs, rfl⟩ : ∃ c cs', cs = c :: cs' := by
        refine List.exists_cons_of_ne_nil ?_
        rw [← hlongest.whole]
        exact List.append_ne_nil_of_left_ne_nil
          (Piece.IsWritten.ne_nil (p := ⟨_, _⟩) hlongest.matched) _
      have hcut := cut_eq_ok_iff_isLongest.mpr hlongest
      obtain ⟨span, hspan⟩ :
          ∃ span, cutAll (offset + Text.byteLength taken) rest = .error (fault, span) := ih hfault
      rw [cutAll_of_cut hcut, hspan]
      exact ⟨_, rfl⟩

theorem exists_ofText_eq_error_iff {cs : List Char} {fault : SyntaxFault} :
    (∃ e, ofText cs = .error e ∧ e.fault = fault) ↔
      ∃ rest, Reaches cs rest ∧ IsFault fault rest := by
  rw [← @exists_cutAll_eq_error_iff 0]
  unfold ofText
  split
  · next fault' span h => simp [h, SyntaxError.inText]
  · next h => simp [h]

end Lexeme

/-! ## Programs -/

/-- Whether a text cannot be cut because of the fault. -/
def SyntaxFault.isLexical : SyntaxFault → Bool
  | unclosedQuote | strayBackslash => true
  | _ => false

namespace Reader

/-- Where reading stops, it is not because the text cannot be cut. -/
def StopsAtToken (x : Except Refusal Reader) : Prop :=
  ∀ refusal, x = .error refusal → refusal.fault.isLexical = false

section StopsAtToken

variable {r : Reader} {x : Except Refusal Reader} {span : Span}

theorem stopsAtToken_ok (r : Reader) : StopsAtToken (.ok r) := nofun

theorem stopsAtToken_refuse {fault : SyntaxFault} (h : fault.isLexical = false) :
    StopsAtToken (r.refuse fault span) := by
  rintro _ ⟨⟩
  exact h

theorem StopsAtToken.bind {f : Reader → Except Refusal Reader} (h : StopsAtToken x)
    (hf : ∀ r, StopsAtToken (f r)) : StopsAtToken (x >>= f) := by
  cases x with
  | error refusal => exact h
  | ok r => exact hf r

theorem stopsAtToken_closeGroup (r : Reader) (opener : Opener) (span : Span) :
    StopsAtToken (r.closeGroup opener span) := by
  unfold closeGroup
  split
  · split
    · exact stopsAtToken_ok _
    · exact stopsAtToken_refuse rfl
  · exact stopsAtToken_refuse rfl

theorem stopsAtToken_openIndex (r : Reader) (span : Span) : StopsAtToken (r.openIndex span) := by
  unfold openIndex
  simp only
  split
  · exact stopsAtToken_refuse rfl
  · exact stopsAtToken_ok _

theorem stopsAtToken_requireClosed (r : Reader) : StopsAtToken r.requireClosed := by
  unfold requireClosed
  split
  · exact stopsAtToken_refuse rfl
  · exact stopsAtToken_ok _

theorem stopsAtToken_readToken (r : Reader) (token : Token) (span : Span) :
    StopsAtToken (r.readToken token span) := by
  have hclosed := stopsAtToken_requireClosed r.endWord
  cases token with
  | newline => exact hclosed.bind fun r => stopsAtToken_ok _
  | leftBrace => exact hclosed.bind fun r => stopsAtToken_ok _
  | rightBrace =>
    refine hclosed.bind fun r => ?_
    split
    · exact stopsAtToken_refuse rfl
    · exact stopsAtToken_ok _
  | rightParen => exact stopsAtToken_closeGroup _ _ _
  | leftBracket => exact stopsAtToken_openIndex _ _
  | rightBracket =>
    exact (stopsAtToken_closeGroup _ _ _).bind fun r => stopsAtToken_closeGroup _ _ _
  | _ => exact stopsAtToken_ok _

theorem stopsAtToken_read (r : Reader) (l : Lexeme) : StopsAtToken (r.read l) := by
  unfold read
  split
  · split
    · exact stopsAtToken_readToken _ _ _
    · exact stopsAtToken_refuse rfl
  · exact stopsAtToken_readToken _ _ _

theorem stopsAtToken_finish (r : Reader) : StopsAtToken r.finish := by
  refine (stopsAtToken_requireClosed _).bind fun r => ?_
  split
  · exact stopsAtToken_refuse rfl
  · split
    · exact stopsAtToken_ok _
    · exact stopsAtToken_ok _

theorem stopsAtToken_readAll (r : Reader) (ls : List Lexeme) : StopsAtToken (r.readAll ls) := by
  have hfold : ∀ r : Reader, StopsAtToken (ls.foldlM read r) := by
    induction ls with
    | nil => exact stopsAtToken_ok
    | cons l ls ih =>
      intro r
      rw [List.foldlM_cons]
      exact (stopsAtToken_read r l).bind ih
  exact (hfold r).bind stopsAtToken_finish

end StopsAtToken

end Reader

namespace Statement

/-- Behind a backslash of a program stands at least the newline at the end. -/
theorem fault_ne_strayBackslash {text : String} {a : Arena} {e : SyntaxError}
    (he : (ofText text a).1 = .error e) : e.fault ≠ .strayBackslash := by
  intro hfault
  simp only [ofText] at he
  split at he
  · next e' hcut =>
    cases he
    obtain ⟨rest, hreaches, hrest⟩ := Lexeme.exists_ofText_eq_error_iff.mp ⟨e, hcut, hfault⟩
    obtain ⟨before, hbefore⟩ := hreaches.exists_before
    cases hrest
    have hlast := getLast?_withFinalNewline text.toList
    rw [← hbefore, List.getLast?_concat] at hlast
    cases hlast
  · next ls _ =>
    split at he
    · next refusal hread =>
      cases he
      have hlexical := Reader.stopsAtToken_readAll _ ls refusal hread
      rw [show refusal.fault = .strayBackslash from hfault] at hlexical
      cases hlexical
    · cases he

end Statement

/-- A text that can be cut is tiled by its lexemes. A text cannot be cut exactly when scanning it
comes to a quote that is not closed or to a last backslash, and this is what is wrong with it; a
program never ends with a last backslash. -/
theorem lexemes_tile (text : String) :
    (∀ ls, Lexeme.ofText text.toList = .ok ls → Lexeme.Tiles text.toList ls) ∧
    (∀ fault, (∃ e, Lexeme.ofText text.toList = .error e ∧ e.fault = fault) ↔
      ∃ rest, Lexeme.Reaches text.toList rest ∧ Lexeme.IsFault fault rest) ∧
    ∀ a e, (Statement.ofText text a).1 = .error e → e.fault ≠ .strayBackslash :=
  ⟨fun _ h => Lexeme.tiles_of_cutAll (Lexeme.ofText_eq_ok.mp h),
    fun _ => Lexeme.exists_ofText_eq_error_iff, fun _ _ => Statement.fault_ne_strayBackslash⟩

/-- A quote within a word, an escaped one in a string and lines that are joined; a string that a
backslash at the end of its line breaks; and a program that ends with a backslash in its string. -/
theorem lexemes_tile_quotes :
    (Lexeme.ofText "don't \"a\\\"b\"\\\r\n[".toList = .ok [⟨.word "don't", 0, 5⟩, ⟨.space, 5, 6⟩,
        ⟨.quoted .double "a\"b", 6, 12⟩, ⟨.continuation, 12, 15⟩, ⟨.leftBracket, 15, 16⟩] ∧
      Lexeme.Tiles "don't \"a\\\"b\"\\\r\n[".toList [⟨.word "don't", 0, 5⟩, ⟨.space, 5, 6⟩,
        ⟨.quoted .double "a\"b", 6, 12⟩, ⟨.continuation, 12, 15⟩, ⟨.leftBracket, 15, 16⟩]) ∧
    (∃ rest, Lexeme.Reaches "a 'b\\\n'".toList rest ∧ Lexeme.IsFault .unclosedQuote rest) ∧
    ∃ e, (Statement.ofText "'a\\" .empty).1 = .error e ∧ e.fault ≠ .strayBackslash := by
  have hcut : Lexeme.ofText "don't \"a\\\"b\"\\\r\n[".toList = .ok [⟨.word "don't", 0, 5⟩,
      ⟨.space, 5, 6⟩, ⟨.quoted .double "a\"b", 6, 12⟩, ⟨.continuation, 12, 15⟩,
      ⟨.leftBracket, 15, 16⟩] := by
    decide +kernel
  have hbroken : Lexeme.ofText "a 'b\\\n'".toList =
      .error ⟨.unclosedQuote, ⟨2, 4⟩, ⟨1, 3⟩⟩ := by
    decide +kernel
  have hprogram : (Statement.ofText "'a\\" .empty).1.toOption = none := by decide +kernel
  refine ⟨⟨hcut, (lexemes_tile _).1 _ hcut⟩,
    ((lexemes_tile _).2.1 .unclosedQuote).mp ⟨_, hbroken, rfl⟩, ?_⟩
  cases he : (Statement.ofText "'a\\" .empty).1 with
  | error e => exact ⟨e, rfl, (lexemes_tile _).2.2 _ _ he⟩
  | ok s =>
    rw [he] at hprogram
    cases hprogram

end WordScript
