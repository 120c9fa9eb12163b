import WordScript.Proofs.Concatenation
import WordScript.Proofs.Nesting

/-!
# Indices written as groups

An index is sugar for a group: of the word or the expression in front of it, the operator and the
group of its arguments. `withoutIndices` writes every index of a text in that way, innermost first,
in one pass over its pieces that keeps the groups around apart. The text that comes of it is read
into the same statement as the first, with the same leaves pushed in the same order
(`index_is_group`).
-/

namespace WordScript

open Token (Bracket Nested Operand)

namespace Piece

/-! ## Rewriting -/

/-- The group that an index of the member with these arguments stands for. -/
def indexGroup (member args : List Piece) : List Piece :=
  [⟨.leftParen, ['(']⟩, ⟨.space, [' ']⟩] ++ (member ++ [⟨.space, [' ']⟩]) ++
    [⟨.word indexWord, indexWord.toList⟩, ⟨.space, [' ']⟩] ++ [⟨.leftParen, ['(']⟩] ++ args ++
    [⟨.rightParen, [')']⟩, ⟨.space, [' ']⟩] ++ [⟨.rightParen, [')']⟩]

/-- What has been rewritten of a group, or of a line: its last member, which is a word, a string or
a group, what stands in front of that, and the layout behind it. -/
structure Frame where
  before : List Piece := []
  member : List Piece := []
  gap : List Piece := []

namespace Frame

/-- All of the pieces. -/
def all (f : Frame) : List Piece := f.before ++ f.member ++ f.gap

/-- Adds layout. -/
def addGap (f : Frame) (p : Piece) : Frame := { f with gap := f.gap ++ [p] }

/-- Adds a member. -/
def add (f : Frame) (member : List Piece) : Frame := ⟨f.all, member, []⟩

/-- Adds a piece of a word, which goes on with the word in front of it. -/
def addPiece (f : Frame) (p : Piece) : Frame :=
  if f.gap.isEmpty && f.member.getLast?.any (·.token.isPiece) then
    { f with member := f.member ++ [p] }
  else f.add [p]

/-- Puts the group that an index stands for in the place of what the index is of. -/
def index (f : Frame) (args : List Piece) : Frame := ⟨f.before, indexGroup f.member args, []⟩

end Frame

/-- What has been rewritten of a text: the lines that have ended, what stands in the innermost open
group or else on the line, and what stands around it, with the bracket that opens each group. -/
structure Rewriting where
  done : List Piece := []
  frame : Frame := {}
  outer : List (Frame × Piece) := []

namespace Rewriting

/-- The pieces in front of the innermost open group, or else of the line. -/
def around (w : Rewriting) : List Piece :=
  w.done ++ w.outer.reverse.flatMap fun e => e.1.all ++ [e.2]

/-- All of the pieces. -/
def all (w : Rewriting) : List Piece := w.around ++ w.frame.all

/-- Closes the innermost open group, which becomes part of the one around it. -/
def close (w : Rewriting) (put : Frame → Piece → List Piece → Frame) : Rewriting :=
  match w.outer with
  | [] => w
  | (f, bracket) :: outer => { w with frame := put f bracket w.frame.all, outer }

/-- Goes on with one more piece. -/
def step (w : Rewriting) (p : Piece) : Rewriting :=
  match p.token with
  | .space | .continuation => { w with frame := w.frame.addGap p }
  | .word _ | .escaped _ => { w with frame := w.frame.addPiece p }
  | .quoted _ _ => { w with frame := w.frame.add [p] }
  | .leftParen | .leftBracket => { w with frame := {}, outer := (w.frame, p) :: w.outer }
  | .rightParen => w.close fun f bracket contents => f.add (bracket :: (contents ++ [p]))
  | .rightBracket => w.close fun f _ args => f.index args
  | .newline | .leftBrace | .rightBrace => { done := w.all ++ [p] }

end Rewriting

/-- The pieces with every index written as a group. -/
def withoutIndices (ps : List Piece) : List Piece := (ps.foldl Rewriting.step {}).all

end Piece

/-- The text with every index written as a group. -/
def withoutIndices (text : String) : String :=
  String.ofList (Piece.text (Piece.withoutIndices
    (Piece.ofText (Statement.withFinalNewline text.toList))))

/-! ## What stands in a frame -/

namespace Token

/-- Whether the token opens or closes an index. -/
def isSquare : Token → Bool
  | leftBracket | rightBracket => true
  | _ => false

theorem isPlain_of_isGap {t : Token} (ht : t.isGap = true) : t.isPlain = true := by
  cases t <;> first | rfl | cases ht

theorem isSquare_eq_false_of_isPlain {t : Token} (ht : t.isPlain = true) : t.isSquare = false := by
  cases t <;> first | rfl | cases ht

theorem isPiece_eq_false_of_isGap {t : Token} (ht : t.isGap = true) : t.isPiece = false := by
  cases t <;> first | rfl | cases ht

/-- Only the operand and the arguments can have indices in them. -/
theorem mem_indexGroup {target args : List Token} {t : Token} (h : t ∈ indexGroup target args) :
    t ∈ target ∨ t ∈ args ∨ t.isSquare = false := by
  simp only [indexGroup, List.mem_append, List.mem_cons, List.not_mem_nil, or_false] at h
  rcases h with ((((((rfl | rfl) | ht | rfl) | rfl | rfl) | rfl) | ht) | rfl | rfl) | rfl
  case inl.inl.inl.inl.inl.inr.inl => exact .inl ht
  case inl.inl.inr => exact .inr (.inl ht)
  all_goals exact .inr (.inr rfl)

end Token

namespace Piece

/-- The tokens of the pieces. -/
abbrev tokens (ps : List Piece) : List Token := ps.map token

theorem tokens_indexGroup (member args : List Piece) :
    tokens (indexGroup member args) = Token.indexGroup (tokens member) (tokens args) := by
  simp [indexGroup, Token.indexGroup]

/-- What a frame holds: members and layout that are nested, and its last member is an operand that
does not go on with a word in front of it. -/
structure Frame.Sound (f : Frame) : Prop where
  before : Nested (tokens f.before)
  member : f.member = [] ∨ Operand (tokens f.member)
  gap : ∀ t ∈ tokens f.gap, t.isGap = true
  starts : f.member = [] → f.before = []
  seam : (∃ t ∈ (tokens f.member).head?, t.isPiece = true) →
    ∀ t ∈ (tokens f.before).getLast?, t.isPiece = false
  round : ∀ t ∈ tokens f.all, t.isSquare = false

namespace Frame

variable {f : Frame} {p : Piece} {ps : List Piece}

theorem sound_empty : Sound {} where
  before := .nil
  member := .inl rfl
  gap := by simp [tokens]
  starts _ := rfl
  seam := by simp [tokens]
  round := by simp [tokens, all]

theorem Sound.nested (h : f.Sound) : Nested (tokens f.all) := by
  have hmember : Nested (tokens f.member) := by
    rcases h.member with hnil | hoperand
    · rw [hnil]
      exact .nil
    · exact hoperand.nested
  have hgap := Token.nested_of_isPlain fun t ht => Token.isPlain_of_isGap (h.gap t ht)
  simp only [tokens, all, List.map_append]
  exact (h.before.append hmember).append hgap

theorem all_empty : all {} = [] := rfl

theorem all_addGap (f : Frame) (p : Piece) : (f.addGap p).all = f.all ++ [p] := by
  simp [addGap, all]

theorem all_add (f : Frame) (ps : List Piece) : (f.add ps).all = f.all ++ ps := by
  simp [add, all]

theorem all_addPiece (f : Frame) (p : Piece) : (f.addPiece p).all = f.all ++ [p] := by
  unfold addPiece
  split
  · next hword =>
    simp only [Bool.and_eq_true, List.isEmpty_iff] at hword
    simp [all, hword.1]
  · exact all_add f [p]

theorem member_addPiece_ne_nil (f : Frame) (p : Piece) : (f.addPiece p).member ≠ [] := by
  unfold addPiece
  split
  · simp
  · exact List.cons_ne_nil _ _

theorem round_append (hround : ∀ t ∈ tokens f.all, t.isSquare = false)
    (hps : ∀ t ∈ tokens ps, t.isSquare = false) :
    ∀ t ∈ tokens (f.all ++ ps), t.isSquare = false := by
  intro t ht
  rw [tokens, List.map_append, List.mem_append] at ht
  exact ht.elim (hround t) (hps t)

theorem Sound.addGap (h : f.Sound) (hp : p.token.isGap = true) : (f.addGap p).Sound where
  before := h.before
  member := h.member
  gap := by simpa [Frame.addGap, tokens, or_imp, forall_and, hp] using h.gap
  starts := h.starts
  seam := h.seam
  round := by
    rw [all_addGap]
    refine round_append h.round fun t ht => ?_
    obtain rfl := List.mem_singleton.mp ht
    exact Token.isSquare_eq_false_of_isPlain (Token.isPlain_of_isGap hp)

theorem Sound.add (h : f.Sound) (hps : Operand (tokens ps))
    (hround : ∀ t ∈ tokens ps, t.isSquare = false)
    (hseam : (∃ t ∈ (tokens ps).head?, t.isPiece = true) →
      ∀ t ∈ (tokens f.all).getLast?, t.isPiece = false) : (f.add ps).Sound where
  before := h.nested
  member := .inr hps
  gap := by simp [Frame.add, tokens]
  starts hnil := by
    obtain ⟨t, rest, hcons, -⟩ := hps.exists_cons
    rw [show ps = [] from hnil] at hcons
    cases hcons
  seam := hseam
  round := by
    rw [all_add]
    exact round_append h.round hround

/-- A piece that does not go on with a word has no piece of one in front of it. -/
theorem Sound.isPiece_eq_false (h : f.Sound)
    (hword : ¬ (f.gap.isEmpty && f.member.getLast?.any (·.token.isPiece)) = true) :
    ∀ t ∈ (tokens f.all).getLast?, t.isPiece = false := by
  intro t ht
  rcases List.eq_nil_or_concat f.gap with hgap | ⟨gap, g, hgap⟩
  · rcases List.eq_nil_or_concat f.member with hmember | ⟨member, q, hmember⟩
    · rw [all, hgap, hmember, h.starts hmember] at ht
      cases ht
    · rw [all, hgap, hmember] at ht
      simp only [tokens, List.concat_eq_append, List.append_nil, ← List.append_assoc,
        List.map_append, List.map_singleton, List.getLast?_concat, Option.mem_some_iff] at ht
      rw [← ht]
      simpa [hgap, hmember] using hword
  · have hg : g.token.isGap = true := h.gap g.token (by simp [hgap])
    rw [all, hgap] at ht
    simp only [tokens, List.concat_eq_append, ← List.append_assoc, List.map_append,
      List.map_singleton, List.getLast?_concat, Option.mem_some_iff] at ht
    rw [← ht]
    exact Token.isPiece_eq_false_of_isGap hg

theorem Sound.addPiece (h : f.Sound) (hp : p.token.isPiece = true) : (f.addPiece p).Sound := by
  have hround : ∀ t ∈ tokens [p], t.isSquare = false := by
    intro t ht
    obtain rfl := List.mem_singleton.mp ht
    exact Token.isSquare_eq_false_of_isPlain (Token.isPlain_of_isPiece hp)
  have hsingle : Operand (tokens [p]) := .word (List.cons_ne_nil _ _) (by simpa [tokens] using hp)
  have hall := all_addPiece f p
  unfold Frame.addPiece at hall ⊢
  split
  · next hword =>
    rw [if_pos hword] at hall
    simp only [Bool.and_eq_true, List.isEmpty_iff, Option.any_eq_true] at hword
    obtain ⟨-, q, hlast, hq⟩ := hword
    have hne : f.member ≠ [] := by
      intro hnil
      rw [hnil] at hlast
      cases hlast
    have hpieces := (h.member.resolve_left hne).isPiece_of_getLast? (t := q.token)
      (by rw [tokens, List.getLast?_map, hlast]; rfl) hq
    refine ⟨h.before, .inr (.word (by simp [tokens]) ?_), h.gap, fun hnil => ?_, ?_, ?_⟩
    · simpa [tokens, or_imp, forall_and, hp] using hpieces
    · simp at hnil
    · have hhead : (tokens (f.member ++ [p])).head? = (tokens f.member).head? := by
        obtain ⟨q, qs, hcons⟩ := List.exists_cons_of_ne_nil hne
        rw [hcons]
        rfl
      rw [hhead]
      exact h.seam
    · rw [hall]
      exact round_append h.round hround
  · next hword => exact h.add hsingle hround fun _ => h.isPiece_eq_false hword

/-- The last member of a frame in which something stands. -/
theorem Sound.operand (h : f.Sound) (hne : f.member ≠ []) : Operand (tokens f.member) :=
  h.member.resolve_left hne

theorem Sound.index (h : f.Sound) (hne : f.member ≠ []) {args : List Piece}
    (hargs : Nested (tokens args)) (hround : ∀ t ∈ tokens args, t.isSquare = false) :
    (f.index args).Sound where
  before := h.before
  member := .inr (by
    rw [Frame.index, tokens_indexGroup]
    exact (h.operand hne).indexGroup hargs)
  gap := by simp [Frame.index, tokens]
  starts hnil := by simp [Frame.index, indexGroup] at hnil
  seam hpiece := by
    simp [Frame.index, indexGroup, tokens, Token.isPiece, Token.piece?] at hpiece
  round := by
    have hall := h.round
    simp only [tokens, all, List.map_append, List.mem_append] at hall
    intro t ht
    rw [tokens, all, List.map_append, List.map_append, List.mem_append, List.mem_append] at ht
    rcases ht with (ht | ht) | ht
    · exact hall t (.inl (.inl ht))
    · rw [Frame.index, ← tokens, tokens_indexGroup] at ht
      rcases Token.mem_indexGroup ht with ht | ht | ht
      · exact hall t (.inl (.inr ht))
      · exact hround t ht
      · exact ht
    · cases ht

end Frame

/-! ## The pieces of a group that stands for an index -/

section Joined

variable {p : Piece} {ps qs member args : List Piece}

/-- Brackets may be put behind anything. -/
theorem AreJoined.append_bracket {c : Char} {t : Token} (hps : AreJoined ps)
    (hqs : AreJoined (⟨t, [c]⟩ :: qs)) (hbracket : Lexeme.bracket? c = some t) :
    AreJoined (ps ++ ⟨t, [c]⟩ :: qs) := by
  refine areJoined_append.mpr ⟨hps, hqs, fun p _ q hq => ?_⟩
  cases hq
  exact fun d hd => by
    cases hd
    exact Token.endsBefore_bracket hbracket p.token

/-- Anything may be put behind brackets. -/
theorem AreJoined.bracket_append (hps : AreJoined (ps ++ [p])) (hp : p.token.isMark = true)
    (hqs : AreJoined qs) : AreJoined (ps ++ [p] ++ qs) := by
  refine areJoined_append.mpr ⟨hps, hqs, fun q hq _ _ => ?_⟩
  rw [List.getLast?_concat] at hq
  cases hq
  exact Token.endsBefore_of_isMark hp _

theorem areJoined_space : AreJoined [⟨.space, [' ']⟩] := by
  refine areJoined_cons.mpr ⟨?_, Token.endsBefore_nil _, areJoined_nil⟩
  exact Token.matches_space_iff.mpr ⟨by simp, by simp [Lexeme.isSpace]⟩

/-- An operand may stand between spaces. -/
theorem AreJoined.between_spaces (hps : AreJoined (ps ++ [⟨.space, [' ']⟩]))
    (hmember : AreJoined member) (hoperand : Operand (tokens member)) :
    AreJoined (ps ++ [⟨.space, [' ']⟩] ++ (member ++ [⟨.space, [' ']⟩])) := by
  obtain ⟨t, rest, hcons, ht⟩ := hoperand.exists_cons
  obtain ⟨m, ms, rfl, rfl, -⟩ := List.map_eq_cons_iff.mp hcons
  have hfirst : m.token ≠ .space := by
    intro heq
    rw [heq] at ht
    cases ht
  have hlast : AreJoined (m :: ms ++ [⟨.space, [' ']⟩]) := by
    refine areJoined_append.mpr ⟨hmember, areJoined_space, fun q hq r hr => ?_⟩
    have hq' : q.token ≠ .space := hoperand.ne_space_of_getLast? (by
      rw [tokens, List.getLast?_map]
      exact Option.mem_map_of_mem _ hq)
    cases hr
    exact endsBefore_of_areBlank hq' (by decide)
  refine areJoined_append.mpr ⟨hps, hlast, fun q hq r hr => ?_⟩
  rw [List.getLast?_concat] at hq
  cases hq
  cases hr
  exact Token.endsBefore_space hfirst (hmember.written m List.mem_cons_self)

/-- The group that an index stands for may be written where the index is. -/
theorem areJoined_indexGroup (hps : AreJoined ps) (hmember : AreJoined member)
    (hoperand : Operand (tokens member)) (hargs : AreJoined args) (hqs : AreJoined qs) :
    AreJoined (ps ++ (indexGroup member args ++ qs)) := by
  have hmark : ∀ {t : Token} {c : Char}, Lexeme.bracket? c = some t → AreJoined [⟨t, [c]⟩] :=
    fun h => areJoined_cons.mpr ⟨.bracket h, Token.endsBefore_nil _, areJoined_nil⟩
  have hspaced : ∀ {t : Token} {c : Char}, Lexeme.bracket? c = some t →
      AreJoined [⟨t, [c]⟩, ⟨.space, [' ']⟩] := fun h =>
    areJoined_cons.mpr ⟨.bracket h, fun d _ => Lexeme.endsBefore_of_bracket? h d, areJoined_space⟩
  have hoperator : AreJoined [⟨.word indexWord, indexWord.toList⟩] := by
    refine areJoined_cons.mpr ⟨?_, Token.endsBefore_nil _, areJoined_nil⟩
    have hword : Lexeme.isWordChar '!' = true := by decide
    exact @Token.Matches.word '!' ['!'] hword (by decide) (List.forall_mem_singleton.mpr hword)
  have hopen : AreJoined (ps ++ [⟨.leftParen, ['(']⟩] ++ [⟨.space, [' ']⟩]) := by
    simpa using hps.append_bracket (hspaced rfl) rfl
  have htarget := hopen.between_spaces hmember hoperand
  rw [← List.append_assoc] at htarget
  have hword := htarget.between_spaces hoperator
    (.word (List.cons_ne_nil _ _) (by simp [Token.isPiece, Token.piece?]))
  have hclose : Lexeme.bracket? ')' = some .rightParen := rfl
  have harguments := (hword.append_bracket (hmark (t := .leftParen) (c := '(') rfl)
    rfl).bracket_append rfl hargs
  have hclosed := (harguments.append_bracket (hspaced hclose) hclose).append_bracket
    (hmark hclose) hclose
  simpa [indexGroup] using hclosed.bracket_append rfl hqs

end Joined

/-! ## The rewritten text -/

namespace Rewriting

variable {w : Rewriting} {o o' : Token.Outline} {p : Piece}

theorem around_nil (done : List Piece) (f : Frame) : around ⟨done, f, []⟩ = done := by
  simp [around]

theorem around_cons (done : List Piece) (f g : Frame) (bracket : Piece)
    (outer : List (Frame × Piece)) :
    around ⟨done, g, (f, bracket) :: outer⟩ = all ⟨done, f, outer⟩ ++ [bracket] := by
  simp [around, all]

/-- The frame is around a group that the bracket opens, and if the group holds the arguments of an
index, the frame holds what the index is of. -/
structure Around (e : Frame × Piece) (b : Bracket) : Prop where
  sound : e.1.Sound
  opening : e.2.token = b.opening
  indexed : b = .square → e.1.member ≠ []

/-- The rewritten pieces are laid out as the outline of the tokens tells. -/
structure Agrees (w : Rewriting) (o : Token.Outline) : Prop where
  frame : w.frame.Sound
  filled : o.filled = true ↔ w.frame.member ≠ []
  outer : List.Forall₂ Around w.outer o.brackets
  done : ∀ t ∈ (tokens w.done).getLast?, t.isPiece = false
  round : ∀ t ∈ tokens w.done, t.isSquare = false

theorem agrees_empty : Agrees {} {} where
  frame := Frame.sound_empty
  filled := by simp
  outer := .nil
  done := by simp [tokens]
  round := by simp [tokens]

theorem Agrees.inFrame {f : Frame} (h : w.Agrees o) (hf : f.Sound)
    (hbrackets : o'.brackets = o.brackets) (hfilled : o'.filled = true ↔ f.member ≠ []) :
    Agrees { w with frame := f } o' :=
  ⟨hf, hfilled, hbrackets ▸ h.outer, h.done, h.round⟩

/-- A group is closed when the bracket is the innermost one that is open. -/
theorem Agrees.exists_close (h : w.Agrees o) {b : Bracket}
    (hbrackets : o.brackets = b :: o'.brackets) (put : Frame → Piece → List Piece → Frame) :
    ∃ f bracket outer, w.outer = (f, bracket) :: outer ∧ Around (f, bracket) b ∧
      List.Forall₂ Around outer o'.brackets ∧
      w.close put = { w with frame := put f bracket w.frame.all, outer } := by
  have houter := h.outer
  rw [hbrackets] at houter
  obtain ⟨done, frame, outer⟩ := w
  cases houter with
  | @cons e _ outer _ haround houter => exact ⟨e.1, e.2, outer, rfl, haround, houter, rfl⟩

theorem Agrees.opened (h : w.Agrees o) {b : Bracket} (hp : p.token = b.opening)
    (hbrackets : o'.brackets = b :: o.brackets) (hfilled : o'.filled = false)
    (hindexed : b = .square → o.filled = true) :
    Agrees ⟨w.done, {}, (w.frame, p) :: w.outer⟩ o' where
  frame := Frame.sound_empty
  filled := by simp [hfilled]
  outer := by
    rw [hbrackets]
    exact .cons ⟨h.frame, hp, fun hb => h.filled.mp (hindexed hb)⟩ h.outer
  done := h.done
  round := h.round

/-- No index is left when no bracket is open. -/
theorem Agrees.isSquare_eq_false (h : w.Agrees o) (hbrackets : o.brackets = []) :
    ∀ t ∈ tokens w.all, t.isSquare = false := by
  have houter := h.outer
  rw [hbrackets] at houter
  obtain ⟨done, frame, outer⟩ := w
  cases houter
  rw [all, around_nil, tokens, List.map_append]
  intro t ht
  exact (List.mem_append.mp ht).elim (h.round t) (h.frame.round t)

theorem Agrees.broken (h : w.Agrees o) (hp : p.token.isBreak = true) (hbrackets : o.brackets = [])
    (hbrackets' : o'.brackets = []) (hfilled : o'.filled = false) :
    Agrees { done := w.all ++ [p] } o' where
  frame := Frame.sound_empty
  filled := by simp [hfilled]
  outer := by
    rw [hbrackets']
    exact .nil
  done := by
    intro t ht
    rw [tokens, List.map_append, List.map_singleton, List.getLast?_concat] at ht
    cases ht
    generalize p.token = t at hp
    cases t <;> first | rfl | cases hp
  round := by
    rw [tokens, List.map_append, List.map_singleton]
    intro t ht
    rcases List.mem_append.mp ht with ht | ht
    · exact h.isSquare_eq_false hbrackets t ht
    · rw [List.mem_singleton.mp ht]
      generalize p.token = t at hp
      cases t <;> first | rfl | cases hp

theorem Agrees.step (h : w.Agrees o) (hstep : o.step p.token = some o') :
    (w.step p).Agrees o' := by
  obtain ⟨hadmits, hbrackets, -, hfilled, -⟩ := Token.Outline.step_eq_some.mp hstep
  cases ht : p.token <;> rw [ht] at hadmits hbrackets hfilled <;> simp only [Rewriting.step, ht]
  case space | continuation =>
    exact h.inFrame (h.frame.addGap (by rw [ht]; rfl)) (Option.some.inj hbrackets).symm
      (hfilled ▸ h.filled)
  case word | escaped =>
    exact h.inFrame (h.frame.addPiece (by rw [ht]; rfl)) (Option.some.inj hbrackets).symm
      (iff_of_true hfilled (w.frame.member_addPiece_ne_nil p))
  case quoted quote text =>
    have hp : tokens [p] = [.quoted quote text] := by simp [tokens, ht]
    refine h.inFrame (h.frame.add (hp ▸ .quoted quote text) ?_ ?_) (Option.some.inj hbrackets).symm
      (iff_of_true hfilled (List.cons_ne_nil _ _))
    · simp [hp, Token.isSquare]
    · simp [hp, Token.isPiece, Token.piece?]
  case leftParen =>
    exact h.opened (b := .round) ht (Option.some.inj hbrackets).symm hfilled
      fun h => by cases h
  case leftBracket =>
    exact h.opened (b := .square) ht (Option.some.inj hbrackets).symm hfilled
      fun _ => hadmits.2 rfl
  case rightParen =>
    obtain ⟨f, bracket, outer, -, haround, houter, hclose⟩ :=
      h.exists_close (Token.eq_cons_of_bracketsAfter .round hbrackets) _
    rw [hclose]
    have hbracket : bracket.token = .leftParen := haround.opening
    have hp : tokens (bracket :: (w.frame.all ++ [p])) =
        .leftParen :: (tokens w.frame.all ++ [.rightParen]) := by
      simp [tokens, ht, hbracket]
    refine ⟨haround.sound.add (hp ▸ .group h.frame.nested) ?_ ?_,
      iff_of_true hfilled (List.cons_ne_nil _ _), houter, h.done, h.round⟩
    · rw [hp]
      simpa [Token.isSquare, or_imp, forall_and] using h.frame.round
    · simp [hp, Token.isPiece, Token.piece?]
  case rightBracket =>
    obtain ⟨f, bracket, outer, -, haround, houter, hclose⟩ :=
      h.exists_close (Token.eq_cons_of_bracketsAfter .square hbrackets) _
    rw [hclose]
    exact ⟨haround.sound.index (haround.indexed rfl) h.frame.nested h.frame.round,
      iff_of_true hfilled (by simp [Frame.index, indexGroup]), houter, h.done, h.round⟩
  case newline | leftBrace | rightBrace =>
    obtain ⟨hnil, hnil'⟩ := Token.eq_nil_of_bracketsAfter rfl hbrackets
    exact h.broken (by rw [ht]; rfl) hnil hnil' hfilled

/-- All but the end of an index is only put behind what has been rewritten. -/
theorem Agrees.all_step (h : w.Agrees o) (hstep : o.step p.token = some o')
    (hp : p.token ≠ .rightBracket) : (w.step p).all = w.all ++ [p] := by
  obtain ⟨-, hbrackets, -, -, -⟩ := Token.Outline.step_eq_some.mp hstep
  cases ht : p.token <;> rw [ht] at hbrackets <;> simp only [Rewriting.step, ht]
  case rightBracket => exact absurd ht hp
  case rightParen =>
    obtain ⟨f, bracket, outer, houter, -, -, hclose⟩ :=
      h.exists_close (Token.eq_cons_of_bracketsAfter .round hbrackets) _
    rw [hclose]
    simp [all, around, houter, Frame.all_add]
  all_goals simp [all, around, Frame.all_addGap, Frame.all_addPiece, Frame.all_add, Frame.all_empty]

/-- No word goes on from what stands around a group into the group. -/
theorem isPiece_eq_false_of_around {bs : List Bracket} (houter : List.Forall₂ Around w.outer bs)
    (hdone : ∀ t ∈ (tokens w.done).getLast?, t.isPiece = false) :
    ∀ t ∈ (tokens w.around).getLast?, t.isPiece = false := by
  obtain ⟨done, frame, outer⟩ := w
  cases houter with
  | nil => simpa [around_nil] using hdone
  | @cons e b outer bs haround _ =>
    intro t ht
    rw [around_cons, tokens, List.map_append, List.map_singleton, List.getLast?_concat] at ht
    cases ht
    rw [haround.opening]
    cases b <;> rfl

end Rewriting

end Piece

/-! ## What the rewritten text is read into -/

namespace Reader

/-- No word has begun where the last token is no piece of one. -/
theorem word_of_readTokens {a : Arena} {ts : List Token} {r : Reader}
    (h : readTokens { arena := a } ts = .ok r) (hlast : ∀ t ∈ ts.getLast?, t.isPiece = false) :
    r.word = none := by
  rcases List.eq_nil_or_concat ts with rfl | ⟨ts, t, rfl⟩
  · cases h
    rfl
  · rw [List.concat_eq_append] at h hlast
    have hpiece : t.piece? = none := by
      simpa [Token.isPiece] using hlast t (List.getLast?_concat ..)
    rw [readTokens_concat] at h
    obtain ⟨u, -, hread⟩ := exists_of_bind_ok h
    exact (yields_readToken hpiece _ r (readToken_of_read hread)).2

end Reader

namespace Piece

namespace Rewriting

variable {w : Rewriting} {o o' : Token.Outline} {p : Piece}

/-- What is rewritten when an index is closed: the frame around its arguments. -/
theorem Agrees.exists_index (h : w.Agrees o) (hstep : o.step .rightBracket = some o')
    (hp : p.token = .rightBracket) :
    ∃ (outside : List Piece) (f : Frame) (bracket : Piece),
      f.Sound ∧ f.member ≠ [] ∧ bracket.token = .leftBracket ∧
      (∀ t ∈ (tokens outside).getLast?, t.isPiece = false) ∧
      w.all = outside ++ (f.all ++ bracket :: w.frame.all) ∧
      (w.step p).all = outside ++ (f.index w.frame.all).all := by
  obtain ⟨-, hbrackets, -, -, -⟩ := Token.Outline.step_eq_some.mp hstep
  obtain ⟨f, bracket, outer, houter, haround, hrest, hclose⟩ :=
    h.exists_close (Token.eq_cons_of_bracketsAfter .square hbrackets) fun f _ args => f.index args
  refine ⟨around ⟨w.done, f, outer⟩, f, bracket, haround.sound, haround.indexed rfl,
    haround.opening, isPiece_eq_false_of_around hrest h.done, ?_, ?_⟩
  · simp [all, around, houter]
  · simp only [Rewriting.step, hp, hclose]
    rfl

/-- What has been rewritten is read as before when an index has been closed. -/
theorem Agrees.readTokens_index (h : w.Agrees o) (hstep : o.step .rightBracket = some o')
    (hp : p.token = .rightBracket) {a : Arena} {u : Reader}
    (hu : Reader.readTokens { arena := a } (tokens w.all ++ [.rightBracket]) = .ok u) :
    Reader.readTokens { arena := a } (tokens (w.step p).all) = .ok u := by
  obtain ⟨outside, f, bracket, hf, hne, hbracket, houtside, hall, hall'⟩ := h.exists_index hstep hp
  have htokens : tokens w.all ++ [.rightBracket] = tokens (outside ++ f.before) ++
      (tokens f.member ++ (tokens f.gap ++
        .leftBracket :: (tokens w.frame.all ++ [.rightBracket]))) := by
    simp [hall, tokens, Frame.all, hbracket]
  have htokens' : tokens (w.step p).all = tokens (outside ++ f.before) ++
      Token.indexGroup (tokens f.member) (tokens w.frame.all) := by
    rw [← tokens_indexGroup, hall']
    simp [tokens, Frame.index, Frame.all]
  rw [htokens, Reader.readTokens_append] at hu
  obtain ⟨r, hr, hu⟩ := exists_of_bind_ok hu
  have hgrouped : r.Grouped := Reader.Grouped.readTokens ⟨rfl, by simp⟩ hr
  have hword : (∃ t ∈ (tokens f.member).head?, t.isPiece = true) → r.word = none := by
    intro hhead
    refine Reader.word_of_readTokens hr fun t ht => ?_
    rw [tokens, List.map_append, List.getLast?_append, Option.mem_def, Option.or_eq_some_iff] at ht
    rcases ht with ht | ⟨-, ht⟩
    · exact hf.seam hhead t ht
    · exact houtside t ht
  rw [htokens']
  exact Reader.readTokens_trans hr (Reader.readTokens_index (hf.operand hne) hf.gap h.frame.nested
    hgrouped hword hu)

/-- Whatever the pieces so far may be followed by may follow what has been rewritten of them. -/
theorem Agrees.areJoined_index (h : w.Agrees o) (hstep : o.step .rightBracket = some o')
    (hp : p.token = .rightBracket) {more : List Piece} (hjoined : AreJoined (w.all ++ p :: more)) :
    AreJoined ((w.step p).all ++ more) := by
  obtain ⟨outside, f, bracket, hf, hne, -, -, hall, hall'⟩ := h.exists_index hstep hp
  have hpieces : w.all ++ p :: more = (outside ++ f.before) ++
      (f.member ++ (f.gap ++ (bracket :: (w.frame.all ++ (p :: more))))) := by
    simp [hall, Frame.all]
  have hpieces' : (w.step p).all ++ more = (outside ++ f.before) ++
      (indexGroup f.member w.frame.all ++ more) := by
    simp [hall', Frame.index, Frame.all]
  rw [hpieces] at hjoined
  obtain ⟨hbefore, hrest, -⟩ := areJoined_append.mp hjoined
  obtain ⟨hmember, hrest, -⟩ := areJoined_append.mp hrest
  obtain ⟨-, hrest, -⟩ := areJoined_append.mp hrest
  obtain ⟨-, -, hrest⟩ := areJoined_cons.mp hrest
  obtain ⟨hargs, hrest, -⟩ := areJoined_append.mp hrest
  obtain ⟨-, -, hmore⟩ := areJoined_cons.mp hrest
  rw [hpieces']
  exact areJoined_indexGroup hbefore hmember (hf.operand hne) hargs hmore

/-- What has been rewritten of pieces that can be read is read in the same way, may stand where they
do, and ends like them but for the end of an index. -/
structure Rewrites (w : Rewriting) (ps : List Piece) (o : Token.Outline) (a : Arena) (u : Reader) :
    Prop where
  agrees : w.Agrees o
  reads : Reader.readTokens { arena := a } (tokens w.all) = .ok u
  joined : ∀ more, AreJoined (ps ++ more) → AreJoined (w.all ++ more)
  last : ∀ p, p.token ≠ .rightBracket → ps.getLast? = some p → w.all.getLast? = some p

theorem rewrites_foldl {ps : List Piece} {a : Arena} {u : Reader}
    (ho : Token.outline? (tokens ps) = some o)
    (hu : Reader.readTokens { arena := a } (tokens ps) = .ok u) :
    (ps.foldl step {}).Rewrites ps o a u := by
  induction ps using List.reverseRecOn generalizing o u with
  | nil =>
    cases ho
    exact ⟨agrees_empty, hu, fun _ => id, fun _ _ => id⟩
  | append_singleton ps p ih =>
    rw [tokens, List.map_append, List.map_singleton] at ho hu
    rw [Token.outline?_concat] at ho
    obtain ⟨o₁, ho₁, hstep⟩ := Option.bind_eq_some_iff.mp ho
    rw [Reader.readTokens_append] at hu
    obtain ⟨u₁, hu₁, hread⟩ := exists_of_bind_ok hu
    obtain ⟨hagrees, hreads, hjoined, -⟩ := ih ho₁ hu₁
    rw [List.foldl_append, List.foldl_cons, List.foldl_nil]
    generalize ps.foldl step {} = w at hagrees hreads hjoined
    have hwhole := Reader.readTokens_trans hreads hread
    by_cases hp : p.token = .rightBracket
    · rw [hp] at hwhole
      refine ⟨hagrees.step hstep, ?_, fun more hmore => ?_, fun q hq hlast => ?_⟩
      · exact hagrees.readTokens_index (hp ▸ hstep) hp hwhole
      · rw [List.append_assoc] at hmore
        exact hagrees.areJoined_index (hp ▸ hstep) hp (hjoined _ hmore)
      · rw [List.getLast?_concat] at hlast
        cases hlast
        exact absurd hp hq
    · have hall := hagrees.all_step hstep hp
      refine ⟨hagrees.step hstep, ?_, fun more hmore => ?_, fun q _ hlast => ?_⟩
      · rw [hall, tokens, List.map_append]
        exact hwhole
      · rw [hall, List.append_assoc]
        rw [List.append_assoc] at hmore
        exact hjoined _ hmore
      · rw [List.getLast?_concat] at hlast
        rw [hall, List.getLast?_concat, hlast]

end Rewriting

theorem getLast?_text {ps : List Piece} {p : Piece} (hp : p.IsWritten) (h : ps.getLast? = some p) :
    (text ps).getLast? = p.chars.getLast? := by
  obtain ⟨qs, rfl⟩ := List.getLast?_eq_some_iff.mp h
  rw [text_append, text_cons, text_nil, List.append_nil, List.getLast?_append_of_ne_nil _ hp.ne_nil]

/-- A newline at the end of the pieces is still there when they have been rewritten. -/
theorem Rewriting.Rewrites.getLast?_text {w : Rewriting} {ps : List Piece} {o : Token.Outline}
    {a : Arena} {u : Reader} (h : w.Rewrites ps o a u) (hps : ∀ p ∈ ps, p.IsWritten)
    (hlast : (text ps).getLast? = some '\n') : (text w.all).getLast? = some '\n' := by
  rcases List.eq_nil_or_concat ps with rfl | ⟨init, p, rfl⟩
  · cases hlast
  have hend : (init.concat p).getLast? = some p := by simp
  have hp : p.IsWritten := hps p (List.mem_of_getLast? hend)
  have hchars : p.chars.getLast? = some '\n' := (Piece.getLast?_text hp hend).symm.trans hlast
  have hbracket : p.token ≠ .rightBracket := by
    intro htoken
    have hwritten := hp
    rw [IsWritten, htoken] at hwritten
    rw [(Token.matches_bracket_iff (c := ']') rfl).mp hwritten] at hchars
    cases hchars
  rw [Piece.getLast?_text hp (h.last p hbracket hend), hchars]

end Piece

namespace Statement

open Piece (AreJoined Rewriting place)

/-- The tokens of a text that can be read are those of a program, and can be read themselves. -/
theorem exists_of_ofText {text : String} {a : Arena} {s : Statement}
    (hs : (ofText text a).1 = .ok s) :
    ∃ ls o u, Lexeme.ofText (withFinalNewline text.toList) = .ok ls ∧
      Token.outline? (ls.map Lexeme.token) = some o ∧ o.brackets = [] ∧
      Reader.readTokens { arena := a } (ls.map Lexeme.token) = .ok u := by
  obtain ⟨ls, r, hcut, hread, -, -⟩ := readAll_of_ofText hs
  obtain ⟨o, ho, hbrackets, -⟩ :=
    (Reader.exists_readAll_iff (Reader.shows_start a) ls).mp ⟨r, hread⟩
  have hlexemes := Lexeme.ofText_eq_ok.mpr hcut
  have htokens := ofText_eq_ofTokens hlexemes a
  cases hu : Reader.readTokens { arena := a } (ls.map Lexeme.token) with
  | error refusal => simp [ofTokens, hu, hs, bind, Except.bind, Except.mapError] at htokens
  | ok u => exact ⟨ls, o, u, hlexemes, ho, hbrackets, hu⟩

/-- The pieces of a text that can be read, rewritten. -/
theorem exists_rewrites {text : String} {a : Arena} {s : Statement}
    (hs : (ofText text a).1 = .ok s) :
    ∃ (ps : List Piece) (ls : List Lexeme) (o : Token.Outline) (u : Reader),
      Piece.ofText (withFinalNewline text.toList) = ps ∧
      Lexeme.ofText (withFinalNewline text.toList) = .ok ls ∧
      Reader.readTokens { arena := a } (ls.map Lexeme.token) = .ok u ∧ o.brackets = [] ∧
      (ps.foldl Rewriting.step {}).Rewrites ps o a u ∧ AreJoined (Piece.withoutIndices ps) ∧
      (Piece.text (Piece.withoutIndices ps)).getLast? = some '\n' := by
  obtain ⟨ls, o, u, hcut, ho, hbrackets, hu⟩ := exists_of_ofText hs
  obtain ⟨hjoined, htext, htokens⟩ := Piece.ofText_spec (Lexeme.ofText_eq_ok.mp hcut)
  have hrewrites := Rewriting.rewrites_foldl (htokens ▸ ho) (htokens ▸ hu)
  refine ⟨_, ls, o, u, rfl, hcut, hu, hbrackets, hrewrites, ?_, ?_⟩
  · rw [← List.append_nil (Piece.ofText _)] at hjoined
    have hjoined' := hrewrites.joined [] hjoined
    rwa [List.append_nil] at hjoined'
  · refine hrewrites.getLast?_text hjoined.written ?_
    rw [htext]
    exact getLast?_withFinalNewline _

/-- Index sugar is exact. A text that can be read and the one in which every index is written as the
group that it stands for are read into the same statement, with the same leaves pushed in the same
order, into every arena. There are no indices in the second text. -/
theorem index_is_group {text : String} (h : Parses text) :
    (∀ a, ofText (withoutIndices text) a = ofText text a) ∧
    ∃ ls, Lexeme.ofText (withoutIndices text).toList = .ok ls ∧
      ∀ l ∈ ls, l.token ≠ .leftBracket ∧ l.token ≠ .rightBracket := by
  refine ⟨fun a => ?_, ?_⟩
  · obtain ⟨s, hs⟩ := exists_of_parses h a
    obtain ⟨ps, ls, o, u, hps, hcut, hu, -, hrewrites, hjoined, hlast⟩ := exists_rewrites hs
    have hcut' : Lexeme.ofText (withFinalNewline (withoutIndices text).toList) =
        .ok (place 0 (Piece.withoutIndices ps)) := by
      rw [withoutIndices, hps, String.toList_ofList, withFinalNewline_eq hlast]
      exact Lexeme.ofText_eq_ok.mpr (Piece.cutAll_text hjoined 0)
    have htokens : ofTokens (ls.map Lexeme.token) a =
        ofTokens ((place 0 (Piece.withoutIndices ps)).map Lexeme.token) a := by
      unfold ofTokens
      rw [Piece.map_token_place, hu, Piece.withoutIndices, hrewrites.reads]
    obtain ⟨harena, ⟨s', hs', hs''⟩ | ⟨e, -, he, -⟩⟩ := ofText_alike_of_tokens hcut hcut' htokens
    · exact Prod.ext (hs''.trans hs'.symm) harena.symm
    · rw [hs] at he
      cases he
  · obtain ⟨s, hs⟩ := exists_of_parses h .empty
    obtain ⟨ps, -, o, u, hps, -, -, hbrackets, hrewrites, hjoined, -⟩ := exists_rewrites hs
    refine ⟨place 0 (Piece.withoutIndices ps), ?_, fun l hl => ?_⟩
    · rw [withoutIndices, hps, String.toList_ofList]
      exact Lexeme.ofText_eq_ok.mpr (Piece.cutAll_text hjoined 0)
    · have htoken : l.token ∈ Piece.tokens (Piece.withoutIndices ps) := by
        rw [Piece.tokens, ← Piece.map_token_place 0]
        exact List.mem_map_of_mem hl
      have hsquare := hrewrites.agrees.isSquare_eq_false hbrackets _ htoken
      constructor <;> intro heq <;> rw [heq] at hsquare <;> cases hsquare

/-- An index in an index, and one of an index. -/
theorem index_is_group_nested :
    Parses "a[b[i]][c]" ∧
    withoutIndices "a[b[i]][c]" = "( ( a !! (( b !! (i) )) ) !! (c) )\n" ∧
    ∀ a, ofText "( ( a !! (( b !! (i) )) ) !! (c) )\n" a = ofText "a[b[i]][c]" a := by
  have hparses : Parses "a[b[i]][c]" := by decide +kernel
  have hwithout : withoutIndices "a[b[i]][c]" = "( ( a !! (( b !! (i) )) ) !! (c) )\n" := by
    decide +kernel
  refine ⟨hparses, hwithout, fun a => ?_⟩
  rw [← hwithout]
  exact (index_is_group hparses).1 a

/-- An index of a group that layout separates from it; what stands in front of the group stays. -/
example : withoutIndices "x(y \"z\" ) \\\n [w]\n" = "x( (y \"z\" ) !! (w) )\n" := by
  decide +kernel

end Statement

end WordScript
