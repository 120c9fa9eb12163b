import Mathlib.Data.List.Induction
import WordScript.Proofs.Composing
import WordScript.Proofs.Tiling

/-!
# Where faults are

The span of a fault is that of a lexeme, of a bracket or brace that was read before, or of a string
together with what follows it; and when the text cannot be cut, it begins where the next lexeme
would. So it always begins and ends between characters of the text. Its position counts lines and
characters up to there, and this tells the places between the characters of a text apart: the
further on, the greater the line, or the column in the same line.
-/

namespace WordScript

open Lexeme (IsBoundary)

/-! ## Positions -/

namespace Position

/-- Lines come first, and columns within a line. -/
def Before (p q : Position) : Prop :=
  p.line < q.line ∨ p.line = q.line ∧ p.column < q.column

/-- The position counts the newlines before the offset, and the characters between the last of them
and the offset, both from one. The offset lies between two characters of the text. -/
def Counts (text : List Char) (offset : Nat) (p : Position) : Prop :=
  ∃ lines started after, text = lines ++ started ++ after ∧
    Text.byteLength (lines ++ started) = offset ∧
    (lines = [] ∨ lines.getLast? = some '\n') ∧ '\n' ∉ started ∧
    p = ⟨lines.count '\n' + 1, started.length + 1⟩

variable {p q s : Position} {text cs ds : List Char} {offset offset' : Nat}

theorem not_before_self (p : Position) : ¬ p.Before p := by
  simp [Before]

theorem Before.trans (h : p.Before q) (h' : q.Before s) : p.Before s := by
  unfold Before at *
  omega

/-- A character more is a column more, and a newline a line more. -/
theorem afterText_concat (cs : List Char) (c : Char) :
    afterText (cs ++ [c]) = if c = '\n' then ⟨(afterText cs).line + 1, 1⟩
      else ⟨(afterText cs).line, (afterText cs).column + 1⟩ := by
  unfold afterText
  by_cases hc : c = '\n' <;> simp [hc]

theorem before_afterText_concat (cs : List Char) (c : Char) :
    (afterText cs).Before (afterText (cs ++ [c])) := by
  rw [afterText_concat, Before]
  split
  · exact .inl (Nat.lt_succ_self _)
  · exact .inr ⟨rfl, Nat.lt_succ_self _⟩

theorem before_afterText_append (cs : List Char) (hds : ds ≠ []) :
    (afterText cs).Before (afterText (cs ++ ds)) := by
  induction ds generalizing cs with
  | nil => exact absurd rfl hds
  | cons d ds ih =>
    have hfirst := before_afterText_concat cs d
    cases ds with
    | nil => exact hfirst
    | cons d' ds =>
      rw [List.append_cons]
      exact hfirst.trans (ih (cs ++ [d]) (List.cons_ne_nil _ _))

/-- A line that has been started is counted from its beginning. -/
theorem afterText_of_not_mem {started : List Char} (h : '\n' ∉ started) :
    afterText started = ⟨1, started.length + 1⟩ := by
  have hrun : started.reverse.takeWhile (· != '\n') = started.reverse := by
    rw [List.takeWhile_eq_self_iff]
    intro c hc
    exact bne_iff_ne.mpr fun heq => h (heq ▸ List.mem_reverse.mp hc)
  rw [afterText, hrun, List.count_eq_zero.mpr h, List.length_reverse]

/-- Lines that are complete, and what has been started of the next one. -/
theorem afterText_of_lines {lines started : List Char}
    (hlines : lines = [] ∨ lines.getLast? = some '\n') (hstarted : '\n' ∉ started) :
    afterText (lines ++ started) = ⟨lines.count '\n' + 1, started.length + 1⟩ := by
  rcases hlines with rfl | hlast
  · exact afterText_of_not_mem hstarted
  · rw [afterText_append hlast, afterText_of_not_mem hstarted, below]

/-- Any text is made up of complete lines and what has been started of the next one. -/
theorem exists_lines (cs : List Char) : ∃ lines started, lines ++ started = cs ∧
    (lines = [] ∨ lines.getLast? = some '\n') ∧ '\n' ∉ started := by
  induction cs using List.reverseRecOn with
  | nil => exact ⟨[], [], rfl, .inl rfl, List.not_mem_nil⟩
  | append_singleton cs c ih =>
    by_cases hc : c = '\n'
    · subst hc
      exact ⟨cs ++ ['\n'], [], List.append_nil _, .inr List.getLast?_concat, List.not_mem_nil⟩
    · obtain ⟨lines, started, rfl, hlines, hstarted⟩ := ih
      refine ⟨lines, started ++ [c], (List.append_assoc _ _ _).symm, hlines, ?_⟩
      simp [hstarted, Ne.symm hc]

theorem counts_iff : p.Counts text offset ↔ ∃ before after, text = before ++ after ∧
    Text.byteLength before = offset ∧ p = afterText before := by
  constructor
  · rintro ⟨lines, started, after, htext, hoffset, hlines, hstarted, rfl⟩
    exact ⟨lines ++ started, after, htext, hoffset, (afterText_of_lines hlines hstarted).symm⟩
  · rintro ⟨before, after, htext, hoffset, rfl⟩
    obtain ⟨lines, started, rfl, hlines, hstarted⟩ := exists_lines before
    exact ⟨lines, started, after, htext, hoffset, hlines, hstarted,
      afterText_of_lines hlines hstarted⟩

/-- The position of an offset between two characters counts up to there. -/
theorem counts_ofOffset (h : IsBoundary text offset) :
    (ofOffset text offset).Counts text offset := by
  obtain ⟨before, after, rfl, rfl⟩ := h
  exact counts_iff.mpr ⟨before, after, rfl, rfl, by rw [ofOffset, Text.before_append]⟩

/-- What lies further on in a text comes later. -/
theorem before_of_lt (hp : p.Counts text offset) (hq : q.Counts text offset')
    (h : offset < offset') : p.Before q := by
  obtain ⟨before, after, htext, rfl, rfl⟩ := counts_iff.mp hp
  obtain ⟨before', after', htext', rfl, rfl⟩ := counts_iff.mp hq
  have hprefix : before <+: text := ⟨after, htext.symm⟩
  have hprefix' : before' <+: text := ⟨after', htext'.symm⟩
  rcases List.prefix_or_prefix_of_prefix hprefix hprefix' with ⟨ds, rfl⟩ | ⟨ds, rfl⟩
  · refine before_afterText_append before ?_
    rintro rfl
    simp at h
  · rw [Text.byteLength_append] at h
    omega

/-- There is one position only for each offset. -/
theorem eq_of_counts (hp : p.Counts text offset) (hq : q.Counts text offset) : p = q := by
  obtain ⟨before, after, htext, rfl, rfl⟩ := counts_iff.mp hp
  obtain ⟨before', after', htext', hoffset, rfl⟩ := counts_iff.mp hq
  have hprefix : before <+: text := ⟨after, htext.symm⟩
  have hprefix' : before' <+: text := ⟨after', htext'.symm⟩
  have hnil : ∀ {cs ds : List Char}, Text.byteLength (cs ++ ds) = Text.byteLength cs → ds = [] := by
    intro cs ds h
    by_contra hne
    have hpos := Piece.byteLength_pos hne
    rw [Text.byteLength_append] at h
    omega
  rcases List.prefix_or_prefix_of_prefix hprefix hprefix' with ⟨ds, rfl⟩ | ⟨ds, rfl⟩
  · rw [hnil hoffset, List.append_nil]
  · rw [hnil hoffset.symm, List.append_nil]

/-- The positions in a text tell its offsets apart, and they have the same order. -/
theorem counts_order (hp : p.Counts text offset) (hq : q.Counts text offset') :
    (p = q ↔ offset = offset') ∧ (p.Before q ↔ offset < offset') := by
  rcases Nat.lt_trichotomy offset offset' with hlt | rfl | hgt
  · have hbefore := before_of_lt hp hq hlt
    have hne : p ≠ q := by
      rintro rfl
      exact not_before_self p hbefore
    exact ⟨iff_of_false hne hlt.ne, iff_of_true hbefore hlt⟩
  · obtain rfl := eq_of_counts hp hq
    exact ⟨iff_of_true rfl rfl, iff_of_false (not_before_self p) (Nat.lt_irrefl _)⟩
  · have hafter := before_of_lt hq hp hgt
    have hne : p ≠ q := by
      rintro rfl
      exact not_before_self p hafter
    have hnot : ¬ p.Before q := fun hbefore => not_before_self p (hbefore.trans hafter)
    exact ⟨iff_of_false hne hgt.ne', iff_of_false hnot hgt.not_gt⟩

end Position

/-! ## Parts of a text -/

/-- The span goes from one place between two characters of the text to the same or a later one. -/
structure Span.IsPart (a : Span) (text : List Char) : Prop where
  start_le_stop : a.start ≤ a.stop
  start : IsBoundary text a.start
  stop : IsBoundary text a.stop

theorem Lexeme.IsBoundary.le_byteLength {text : List Char} {offset : Nat}
    (h : IsBoundary text offset) : offset ≤ Text.byteLength text := by
  obtain ⟨before, after, rfl, rfl⟩ := h
  rw [Text.byteLength_append]
  exact Nat.le_add_right _ _

/-- What covers two parts of a text is a part of it. -/
theorem Span.IsPart.merge {a b : Span} {text : List Char} (ha : a.IsPart text)
    (hb : b.IsPart text) : (a.merge b).IsPart text where
  start_le_stop := (Nat.min_le_left _ _).trans (ha.start_le_stop.trans (Nat.le_max_left _ _))
  start := by
    rcases Nat.le_total a.start b.start with h | h
    · simpa only [Span.merge, Nat.min_eq_left h] using ha.start
    · simpa only [Span.merge, Nat.min_eq_right h] using hb.start
  stop := by
    rcases Nat.le_total a.stop b.stop with h | h
    · simpa only [Span.merge, Nat.max_eq_right h] using hb.stop
    · simpa only [Span.merge, Nat.max_eq_left h] using ha.stop

theorem Span.isPart_of_append (before seen after : List Char) :
    (Span.mk (Text.byteLength before) (Text.byteLength before + Text.byteLength seen)).IsPart
      (before ++ seen ++ after) where
  start_le_stop := Nat.le_add_right _ _
  start := ⟨before, seen ++ after, List.append_assoc _ _ _, rfl⟩
  stop := ⟨before ++ seen, after, rfl, Text.byteLength_append _ _⟩

namespace Lexeme

/-- What could still belong to a string that is not closed is what it starts with. -/
theorem prefix_of_inside_error {quote : Char} {cs seen : List Char}
    (h : inside quote cs = .error seen) : seen <+: cs := by
  fun_induction inside quote cs generalizing seen with
  | case4 c cs hc seen' herror ih =>
    cases h
    exact List.cons_prefix_cons.mpr ⟨rfl, List.cons_prefix_cons.mpr ⟨rfl, ih herror⟩⟩
  | case8 c cs _ hc hc' seen' herror ih =>
    cases h
    exact List.cons_prefix_cons.mpr ⟨rfl, ih herror⟩
  | _ => cases h <;> exact List.nil_prefix

/-- What a fault reaches over is what the text starts with. -/
theorem prefix_of_cut_error {c : Char} {cs seen : List Char} {fault : SyntaxFault}
    (h : cut c cs = .error (fault, seen)) : seen <+: c :: cs := by
  unfold cut at h
  split at h
  · cases h
  split at h
  · cases h
  split at h
  · split at h <;> cases h
    exact List.prefix_rfl
  split at h
  · cases h
  · split at h
    · next hinside =>
      cases h
      exact List.cons_prefix_cons.mpr ⟨rfl, prefix_of_inside_error hinside⟩
    · cases h
  · cases h

/-- Where a text cannot be cut is a part of it. -/
theorem isPart_of_cutAll_error {before cs : List Char} {fault : SyntaxFault} {span : Span}
    (h : cutAll (Text.byteLength before) cs = .error (fault, span)) :
    span.IsPart (before ++ cs) := by
  generalize hoffset : Text.byteLength before = offset at h
  fun_induction cutAll offset cs generalizing before with
  | case1 => cases h
  | case2 offset c cs fault' seen hcut =>
    cases h
    obtain ⟨after, hafter⟩ := prefix_of_cut_error hcut
    rw [← hafter, ← hoffset, ← List.append_assoc]
    exact Span.isPart_of_append before seen after
  | case3 offset c cs p hcut stop e hrest =>
    next ih =>
      cases h
      rw [← cut_append hcut, ← List.append_assoc]
      refine ih ?_ hrest
      rw [Text.byteLength_append, hoffset]
  | case4 => cases h

end Lexeme

/-! ## What a reader points at -/

namespace Reader

/-- The spans that are kept to point at them: of open groups, of open blocks, and of a string that
has just been read. -/
def spans (r : Reader) : List Span :=
  r.groups.map (·.span) ++ r.blocks.map (·.span) ++ r.afterQuote.toList

/-- The spans that are kept are such ones, or the span of the fault is. -/
def PointsTo (P : Span → Prop) : Except Refusal Reader → Prop
  | .ok r => ∀ a ∈ r.spans, P a
  | .error refusal => P refusal.span

variable {P : Span → Prop} {r : Reader} {x : Except Refusal Reader} {span : Span}

theorem PointsTo.bind {f : Reader → Except Refusal Reader} (h : PointsTo P x)
    (hf : ∀ r : Reader, (∀ a ∈ r.spans, P a) → PointsTo P (f r)) : PointsTo P (x >>= f) := by
  cases x with
  | error refusal => exact h
  | ok r => exact hf r h

theorem mem_spans {a : Span} : a ∈ r.spans ↔
    (∃ g ∈ r.groups, g.span = a) ∨ (∃ b ∈ r.blocks, b.span = a) ∨ r.afterQuote = some a := by
  simp [spans]

@[simp] theorem spans_addExpression (r : Reader) (e : Expression) :
    (r.addExpression e).spans = r.spans := by
  unfold addExpression
  split <;> simp [spans, *]

@[simp] theorem spans_addLeaf (r : Reader) (i : Identifier) : (r.addLeaf i).spans = r.spans :=
  spans_addExpression _ _

@[simp] theorem spans_endWord (r : Reader) : r.endWord.spans = r.spans := by
  unfold endWord
  split
  · exact spans_addLeaf _ _
  · rfl

@[simp] theorem spans_addStatement (r : Reader) (s : Statement) :
    (r.addStatement s).spans = r.spans := by
  unfold addStatement
  split <;> simp [spans, *]

theorem spans_takeExpression? {e : Expression} {r' : Reader}
    (h : r.takeExpression? = some (e, r')) : r'.spans = r.spans := by
  unfold takeExpression? at h
  split at h
  · split at h <;> cases h
    rfl
  · split at h <;> cases h
    simp [spans, *]

theorem forall_spans_openGroup (hr : ∀ a ∈ r.spans, P a) (hspan : P span) (contents : Expression)
    (opener : Opener) : ∀ a ∈ (r.openGroup contents opener span).spans, P a := by
  change ∀ a ∈ span :: r.spans, P a
  exact List.forall_mem_cons.mpr ⟨hspan, hr⟩

theorem pointsTo_closeGroup (hr : ∀ a ∈ r.spans, P a) (hspan : P span) (opener : Opener) :
    PointsTo P (r.closeGroup opener span) := by
  unfold closeGroup
  split
  · next g gs hgroups =>
    split
    · intro a ha
      rw [spans_addExpression] at ha
      apply hr
      simp only [spans, hgroups, List.map_cons, List.cons_append]
      exact List.mem_cons_of_mem _ ha
    · exact hspan
  · exact hspan

theorem pointsTo_openIndex (hr : ∀ a ∈ r.spans, P a) (hspan : P span) :
    PointsTo P (r.openIndex span) := by
  unfold openIndex
  simp only
  split
  · exact hspan
  · next target r' htarget =>
    have hspans : r'.spans = r.spans := by
      split at htarget
      · cases htarget
        rfl
      · exact spans_takeExpression? htarget
    rw [← hspans] at hr
    exact forall_spans_openGroup (forall_spans_openGroup hr hspan _ _) hspan _ _

/-- When a line ends inside of brackets, the fault is at the innermost one. -/
theorem pointsTo_requireClosed (hr : ∀ a ∈ r.spans, P a) :
    PointsTo P r.endWord.requireClosed := by
  rw [← spans_endWord] at hr
  unfold requireClosed
  split
  · next g gs hgroups =>
    apply hr
    exact mem_spans.mpr (.inl ⟨g, by rw [hgroups]; exact List.mem_cons_self, rfl⟩)
  · exact hr

theorem pointsTo_endLine (hr : ∀ a ∈ r.spans, P a) : PointsTo P r.endLine := by
  refine (pointsTo_requireClosed hr).bind fun r' hr' a ha => ?_
  rw [spans_addStatement] at ha
  exact hr' a ha

theorem pointsTo_openBlock (hr : ∀ a ∈ r.spans, P a) (hspan : P span) :
    PointsTo P (r.openBlock span) := by
  refine (pointsTo_requireClosed hr).bind fun r' hr' a ha => ?_
  rcases mem_spans.mp ha with hgroup | ⟨b, hb, rfl⟩ | hquote
  · exact hr' a (mem_spans.mpr (.inl hgroup))
  · rcases List.mem_cons.mp hb with rfl | hb
    · exact hspan
    · exact hr' _ (mem_spans.mpr (.inr (.inl ⟨b, hb, rfl⟩)))
  · exact hr' a (mem_spans.mpr (.inr (.inr hquote)))

theorem pointsTo_closeBlock (hr : ∀ a ∈ r.spans, P a) (hspan : P span) :
    PointsTo P (r.closeBlock span) := by
  refine (pointsTo_requireClosed hr).bind fun r' hr' => ?_
  split
  · exact hspan
  · next b bs hblocks =>
    intro a ha
    rw [spans_addStatement] at ha
    apply hr'
    rcases mem_spans.mp ha with hgroup | ⟨b', hb, rfl⟩ | hquote
    · exact mem_spans.mpr (.inl hgroup)
    · exact mem_spans.mpr (.inr (.inl ⟨b', by rw [hblocks]; exact List.mem_cons_of_mem _ hb, rfl⟩))
    · exact mem_spans.mpr (.inr (.inr hquote))

/-- When the text ends inside of a block, the fault is at the innermost one. -/
theorem pointsTo_finish (hr : ∀ a ∈ r.spans, P a) : PointsTo P r.finish := by
  refine (pointsTo_requireClosed hr).bind fun r' hr' => ?_
  split
  · next b bs hblocks =>
    apply hr'
    exact mem_spans.mpr (.inr (.inl ⟨b, by rw [hblocks]; exact List.mem_cons_self, rfl⟩))
  · split
    · exact hr'
    · intro a ha
      rw [spans_addStatement] at ha
      exact hr' a ha

/-- A token brings in no span but its own. -/
theorem pointsTo_readToken (hr : ∀ a ∈ r.spans, P a) (hspan : P span) (token : Token) :
    PointsTo P (r.readToken token span) := by
  have hended : ∀ a ∈ r.endWord.spans, P a := by rwa [spans_endWord]
  cases token with
  | newline => exact pointsTo_endLine hr
  | leftBrace => exact pointsTo_openBlock hr hspan
  | rightBrace => exact pointsTo_closeBlock hr hspan
  | leftParen => exact forall_spans_openGroup hended hspan _ _
  | leftBracket => exact pointsTo_openIndex hr hspan
  | rightParen => exact pointsTo_closeGroup hended hspan _
  | rightBracket =>
    exact (pointsTo_closeGroup hended hspan _).bind fun r' hr' => pointsTo_closeGroup hr' hspan _
  | quoted quote text =>
    rw [← spans_addLeaf _ (.string text)] at hended
    intro a ha
    rcases mem_spans.mp ha with hgroup | hblock | hquote
    · exact hended a (mem_spans.mpr (.inl hgroup))
    · exact hended a (mem_spans.mpr (.inr (.inl hblock)))
    · obtain rfl := Option.some.inj hquote
      exact hspan
  | word text => exact hr
  | escaped c => exact hr
  | space => exact hended
  | continuation => exact hended

/-! ## Reading a text -/

section

variable (hmerge : ∀ {a b : Span}, P a → P b → P (a.merge b))

include hmerge

/-- What may not follow a string is told of together with the string. -/
theorem pointsTo_read {l : Lexeme} (hr : ∀ a ∈ r.spans, P a) (hl : P l.span) :
    PointsTo P (r.read l) := by
  unfold read
  split
  · next quote hquote =>
    split
    · refine pointsTo_readToken (fun a ha => hr a ?_) hl _
      simp only [mem_spans, reduceCtorEq, or_false] at ha
      exact mem_spans.mpr (ha.imp_right .inl)
    · exact hmerge (hr quote (mem_spans.mpr (.inr (.inr hquote)))) hl
  · exact pointsTo_readToken hr hl _

/-- What holds of the spans of all lexemes, and of what is merged of such spans, holds of the span
of a fault. -/
theorem pointsTo_readAll {ls : List Lexeme} (hr : ∀ a ∈ r.spans, P a)
    (hls : ∀ l ∈ ls, P l.span) : PointsTo P (r.readAll ls) := by
  have hfold : PointsTo P (ls.foldlM Reader.read r) := by
    induction ls generalizing r with
    | nil => exact hr
    | cons l ls ih =>
      obtain ⟨hl, hls⟩ := List.forall_mem_cons.mp hls
      rw [List.foldlM_cons]
      exact (pointsTo_read hmerge hr hl).bind fun r' hr' => ih hr' hls
  exact hfold.bind fun r' => pointsTo_finish

end

end Reader

namespace Statement

/-- The span of a fault is a part of the text, with a newline at its end, and its position is that
of where the span begins. -/
theorem isPart_of_ofText_error {text : String} {a : Arena} {e : SyntaxError}
    (he : (ofText text a).1 = .error e) :
    e.span.IsPart (withFinalNewline text.toList) ∧
      e.position = .ofOffset (withFinalNewline text.toList) e.span.start := by
  simp only [ofText, Lexeme.ofText] at he
  split at he
  · next e' hcut =>
    split at hcut
    · next fault span hfault =>
      cases hcut
      cases he
      have hpart : span.IsPart ([] ++ withFinalNewline text.toList) :=
        Lexeme.isPart_of_cutAll_error hfault
      exact ⟨hpart, rfl⟩
    · cases hcut
  · next lexemes hlexemes =>
    have htiles := Lexeme.tiles_of_cutAll (Lexeme.ofText_eq_ok.mp hlexemes)
    have hparts : ∀ l ∈ lexemes, l.span.IsPart (withFinalNewline text.toList) := by
      intro l hl
      obtain ⟨hstart, hstop⟩ := htiles.boundary l hl
      exact ⟨(htiles.nonempty l hl).le, hstart, hstop⟩
    have hstart : ∀ b ∈ ({ arena := a } : Reader).spans,
        b.IsPart (withFinalNewline text.toList) := by
      intro b hb
      cases hb
    have hread := Reader.pointsTo_readAll Span.IsPart.merge hstart hparts
    split at he
    · next refusal hrefusal =>
      rw [hrefusal] at hread
      cases he
      exact ⟨hread, rfl⟩
    · cases he

/-- A syntax error points into the text that was read: its span begins and ends between characters
of the text with the newline at its end, and its position counts the lines and the characters up to
where the span begins. Every place between characters has such a position; no two places have the
same, and of two places the one that is further on has the later position. -/
theorem syntax_errors_located {text : String} {a : Arena} {e : SyntaxError}
    (he : (ofText text a).1 = .error e) :
    let source := withFinalNewline text.toList
    e.span.start ≤ e.span.stop ∧ e.span.stop ≤ Text.byteLength source ∧
      IsBoundary source e.span.start ∧ IsBoundary source e.span.stop ∧
      e.position.Counts source e.span.start ∧
      (∀ o, IsBoundary source o → ∃ p, Position.Counts source o p) ∧
      ∀ (o o' : Nat) (p p' : Position), p.Counts source o → p'.Counts source o' →
        (p = p' ↔ o = o') ∧ (p.Before p' ↔ o < o') := by
  intro source
  obtain ⟨hpart, hposition⟩ := isPart_of_ofText_error he
  have hcounts : e.position.Counts source e.span.start := by
    rw [hposition]
    exact Position.counts_ofOffset hpart.start
  exact ⟨hpart.start_le_stop, hpart.stop.le_byteLength, hpart.start, hpart.stop, hcounts,
    fun _ ho => ⟨_, Position.counts_ofOffset ho⟩, fun _ _ _ _ => Position.counts_order⟩

/-- A string that a letter follows, behind another letter, both of two bytes: the fault is at the
third character, but at byte three, and reaches over the string and the word. -/
theorem syntax_errors_located_wide :
    (ofText "é \"ü\"x" .empty).1 = .error ⟨.noSpaceAfterString, ⟨3, 8⟩, ⟨1, 3⟩⟩ ∧
      Position.Counts "é \"ü\"x\n".toList 3 ⟨1, 3⟩ ∧
      ∀ (o : Nat) (p : Position), p.Counts "é \"ü\"x\n".toList o →
        (p = ⟨1, 3⟩ ↔ o = 3) ∧ (p.Before ⟨1, 3⟩ ↔ o < 3) := by
  have he : (ofText "é \"ü\"x" .empty).1 =
      .error ⟨.noSpaceAfterString, ⟨3, 8⟩, ⟨1, 3⟩⟩ := by
    have hmap : (ofText "é \"ü\"x" .empty).1.map (fun _ => ()) =
        .error ⟨.noSpaceAfterString, ⟨3, 8⟩, ⟨1, 3⟩⟩ := by
      decide +kernel
    cases hread : (ofText "é \"ü\"x" .empty).1 with
    | error e =>
      rw [hread] at hmap
      cases hmap
      rfl
    | ok s =>
      rw [hread] at hmap
      cases hmap
  obtain ⟨-, -, -, -, hcounts, -, horder⟩ := syntax_errors_located he
  have hsource : withFinalNewline "é \"ü\"x".toList = "é \"ü\"x\n".toList := by decide +kernel
  rw [hsource] at hcounts horder
  exact ⟨he, hcounts, fun o p hp => horder o 3 p ⟨1, 3⟩ hp hcounts⟩

end Statement

end WordScript
