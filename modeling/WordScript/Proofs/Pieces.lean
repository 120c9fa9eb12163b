import Mathlib.Data.List.Chain
import WordScript.Proofs.Patterns

/-!
# The pieces of a text

A piece is a token with the characters that it is written with. A text is cut into lexemes exactly
when it is made up of pieces, one behind the other, each with the pattern of its token and at an end
where the next one begins (`cutAll_eq_ok_iff`). The lexemes are these pieces, placed where they
stand in the text. So whether a text can be cut is told from its pieces and their neighbours, and a
piece may be exchanged for another one without looking at the rest of the text.
-/

namespace WordScript

/-- A token and how it is written. -/
structure Piece where
  token : Token
  chars : List Char
deriving DecidableEq, Repr

namespace Piece

open Lexeme (cut)

/-- The text that is made up of the pieces. -/
def text (ps : List Piece) : List Char := ps.flatMap chars

@[simp] theorem text_nil : text [] = [] := rfl

@[simp] theorem text_cons (p : Piece) (ps : List Piece) : text (p :: ps) = p.chars ++ text ps := rfl

@[simp] theorem text_append (ps qs : List Piece) : text (ps ++ qs) = text ps ++ text qs :=
  List.flatMap_append

/-- The characters of the piece are one way to write its token. -/
def IsWritten (p : Piece) : Prop := p.token.Matches p.chars

/-- The piece is at an end where the other one begins. -/
def EndsBefore (p q : Piece) : Prop := p.token.EndsBefore q.chars

theorem IsWritten.ne_nil {p : Piece} (hp : p.IsWritten) : p.chars ≠ [] :=
  Token.Matches.ne_nil hp

/-- The pieces are written one behind the other, each at an end where the next one begins. -/
structure AreJoined (ps : List Piece) : Prop where
  written : ∀ p ∈ ps, p.IsWritten
  chain : ps.IsChain EndsBefore

section Joined

variable {p : Piece} {ps qs : List Piece}

theorem areJoined_nil : AreJoined [] := ⟨by simp, .nil⟩

/-- A token is at an end where pieces begin when it is where the first of them begins. -/
theorem endsBefore_text_iff {t : Token} (hps : ∀ p ∈ ps, p.IsWritten) :
    t.EndsBefore (text ps) ↔ ∀ q ∈ ps.head?, t.EndsBefore q.chars := by
  cases ps with
  | nil => simp [Token.EndsBefore]
  | cons q qs =>
    obtain ⟨c, cs, hcs⟩ := List.exists_cons_of_ne_nil (hps q List.mem_cons_self).ne_nil
    simp [Token.EndsBefore, hcs]

theorem areJoined_cons : AreJoined (p :: ps) ↔
    p.IsWritten ∧ p.token.EndsBefore (text ps) ∧ AreJoined ps := by
  constructor
  · rintro ⟨hwritten, hchain⟩
    obtain ⟨hp, hps⟩ := List.forall_mem_cons.mp hwritten
    obtain ⟨hends, hchain⟩ := List.isChain_cons.mp hchain
    exact ⟨hp, (endsBefore_text_iff hps).mpr hends, hps, hchain⟩
  · rintro ⟨hp, hends, hps, hchain⟩
    exact ⟨List.forall_mem_cons.mpr ⟨hp, hps⟩,
      List.isChain_cons.mpr ⟨(endsBefore_text_iff hps).mp hends, hchain⟩⟩

theorem areJoined_append : AreJoined (ps ++ qs) ↔
    AreJoined ps ∧ AreJoined qs ∧ ∀ p ∈ ps.getLast?, ∀ q ∈ qs.head?, p.EndsBefore q := by
  constructor
  · rintro ⟨hwritten, hchain⟩
    obtain ⟨hps, hqs, hseam⟩ := List.isChain_append.mp hchain
    exact ⟨⟨fun p hp => hwritten p (List.mem_append_left _ hp), hps⟩,
      ⟨fun q hq => hwritten q (List.mem_append_right _ hq), hqs⟩, hseam⟩
  · rintro ⟨hps, hqs, hseam⟩
    refine ⟨fun p hp => ?_, List.isChain_append.mpr ⟨hps.chain, hqs.chain, hseam⟩⟩
    exact (List.mem_append.mp hp).elim (hps.written p) (hqs.written p)

end Joined

/-- The pieces as lexemes of a text in which they begin at the offset. -/
def place : Nat → List Piece → List Lexeme
  | _, [] => []
  | offset, p :: ps =>
    ⟨p.token, offset, offset + Text.byteLength p.chars⟩ ::
      place (offset + Text.byteLength p.chars) ps

@[simp] theorem map_token_place (offset : Nat) (ps : List Piece) :
    (place offset ps).map Lexeme.token = ps.map token := by
  induction ps generalizing offset with
  | nil => rfl
  | cons p ps ih => simp [place, ih]

/-- Behind pieces that are joined a text is cut as it would be alone. -/
theorem cutAll_text_append {ps : List Piece} (h : AreJoined ps) {rest : List Char}
    (hends : ∀ p ∈ ps.getLast?, p.token.EndsBefore rest) (offset : Nat) :
    Lexeme.cutAll offset (text ps ++ rest) =
      (Lexeme.cutAll (offset + Text.byteLength (text ps)) rest).map (place offset ps ++ ·) := by
  induction ps generalizing offset with
  | nil =>
    change Lexeme.cutAll offset rest = (Lexeme.cutAll offset rest).map id
    cases Lexeme.cutAll offset rest <;> rfl
  | cons p ps ih =>
    obtain ⟨hp, hnext, hps⟩ := areJoined_cons.mp h
    obtain ⟨c, cs, hcs⟩ := List.exists_cons_of_ne_nil hp.ne_nil
    have hfollows : p.token.EndsBefore (text ps ++ rest) := by
      cases ps with
      | nil => exact hends p rfl
      | cons q qs =>
        obtain ⟨d, ds, hds⟩ := List.exists_cons_of_ne_nil (hps.written q List.mem_cons_self).ne_nil
        simpa [Token.EndsBefore, hds] using hnext
    have hlast : ∀ q ∈ ps.getLast?, q.token.EndsBefore rest := by
      intro q hq
      cases ps with
      | nil => cases hq
      | cons => exact hends q (by rwa [List.getLast?_cons_cons])
    have hcut : cut c (cs ++ (text ps ++ rest)) = .ok ⟨p.token, p.chars, text ps ++ rest⟩ :=
      Lexeme.cut_of_matches hp (by rw [hcs]; rfl) hfollows
    have hrest := ih hps hlast (offset + Text.byteLength p.chars)
    rw [Nat.add_assoc, ← Text.byteLength_append, ← text_cons] at hrest
    have htext : text (p :: ps) ++ rest = c :: (cs ++ (text ps ++ rest)) := by simp [hcs]
    rw [htext, Lexeme.cutAll_of_cut hcut, hrest]
    cases Lexeme.cutAll (offset + Text.byteLength (text (p :: ps))) rest <;> rfl

theorem cutAll_text {ps : List Piece} (h : AreJoined ps) (offset : Nat) :
    Lexeme.cutAll offset (text ps) = .ok (place offset ps) := by
  have hends : ∀ p ∈ ps.getLast?, p.token.EndsBefore [] := fun p _ => Token.endsBefore_nil _
  have happend := cutAll_text_append h hends offset
  rw [Lexeme.cutAll_nil, List.append_nil] at happend
  rw [happend]
  exact congrArg Except.ok (List.append_nil _)

end Piece

open Piece (AreJoined place)

namespace Lexeme

/-- A text can be cut when it is made up of pieces that are joined, and its lexemes are these pieces
where they stand. -/
theorem cutAll_eq_ok_iff {offset : Nat} {cs : List Char} {ls : List Lexeme} :
    cutAll offset cs = .ok ls ↔
      ∃ ps, AreJoined ps ∧ Piece.text ps = cs ∧ place offset ps = ls := by
  constructor
  · intro h
    fun_induction cutAll offset cs generalizing ls with
    | case1 =>
      cases h
      exact ⟨[], Piece.areJoined_nil, rfl, rfl⟩
    | case2 => cases h
    | case3 => cases h
    | case4 offset c cs p hcut stop rest hrest =>
      next ih =>
        cases h
        obtain ⟨ps, hjoined, htext, hplace⟩ := ih hrest
        obtain ⟨hmatches, happend, hends⟩ := cut_eq_ok_iff.mp hcut
        refine ⟨⟨p.token, p.taken⟩ :: ps, ?_, ?_, ?_⟩
        · exact Piece.areJoined_cons.mpr ⟨hmatches, htext.symm ▸ hends, hjoined⟩
        · rw [Piece.text_cons, htext, happend]
        · rw [place, hplace]
  · rintro ⟨ps, hjoined, rfl, rfl⟩
    exact Piece.cutAll_text hjoined offset

end Lexeme

/-! ## Taking a text apart -/

/-- The part of a text that a span reaches over. -/
def Span.slice (cs : List Char) (s : Span) : List Char :=
  (Text.before cs s.stop).drop (Text.before cs s.start).length

theorem Span.slice_append (before cs after : List Char) :
    slice (before ++ (cs ++ after))
      ⟨Text.byteLength before, Text.byteLength before + Text.byteLength cs⟩ = cs := by
  simp only [slice, Text.before_append]
  rw [← Text.byteLength_append, ← List.append_assoc, Text.before_append, List.drop_left]

namespace Piece

/-- The pieces of a text that can be cut. -/
def ofText (cs : List Char) : List Piece :=
  match Lexeme.cutAll 0 cs with
  | .ok ls => ls.map fun l => ⟨l.token, l.span.slice cs⟩
  | .error _ => []

theorem map_slice_place (before : List Char) (ps : List Piece) :
    ((place (Text.byteLength before) ps).map fun l =>
      (⟨l.token, l.span.slice (before ++ text ps)⟩ : Piece)) = ps := by
  induction ps generalizing before with
  | nil => rfl
  | cons p ps ih =>
    have hrest := ih (before ++ p.chars)
    rw [Text.byteLength_append, List.append_assoc] at hrest
    rw [place, List.map_cons, text_cons, hrest, Span.slice_append]

/-- The pieces that a text is made up of are those that it is taken apart into. -/
theorem ofText_text {ps : List Piece} (h : AreJoined ps) : ofText (text ps) = ps := by
  unfold ofText
  rw [cutAll_text h 0]
  exact map_slice_place [] ps

/-- A text that can be cut is made up of its pieces, which have the tokens of its lexemes. -/
theorem ofText_spec {cs : List Char} {ls : List Lexeme} (h : Lexeme.cutAll 0 cs = .ok ls) :
    AreJoined (ofText cs) ∧ text (ofText cs) = cs ∧
      (ofText cs).map token = ls.map Lexeme.token := by
  obtain ⟨ps, hjoined, rfl, rfl⟩ := Lexeme.cutAll_eq_ok_iff.mp h
  rw [ofText_text hjoined, map_token_place]
  exact ⟨hjoined, rfl, rfl⟩

end Piece

end WordScript
