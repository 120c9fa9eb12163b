import Mathlib.Data.List.Induction
import WordScript.Token

/-!
# Which tokens make up a program

Tokens make up a program when four things hold of them: what follows a string is layout, brackets
are nested within each line, braces are balanced, and every index has something in front of it to
apply to. Each of these is told from left to right by remembering little: the last token, the open
brackets, the number of open blocks, and whether something stands in the innermost group so far.
The main statement, `accepts_iff`, is that a run over the tokens that remembers these four finds a
program exactly when the tokens make up one.
-/

namespace WordScript

namespace Token

/-! ## Programs -/

/-- The two kinds of brackets that group expressions. -/
inductive Bracket where
  | round
  | square
deriving DecidableEq, Repr

/-- The token that opens a group. -/
def Bracket.opening : Bracket → Token
  | round => leftParen
  | square => leftBracket

/-- The token that closes a group. -/
def Bracket.closing : Bracket → Token
  | round => rightParen
  | square => rightBracket

/-- Whether the token ends what stands on a line, or in front of a block. -/
def isBreak : Token → Bool
  | newline | leftBrace | rightBrace => true
  | _ => false

/-- Whether the token is neither a bracket nor a break. -/
def isPlain : Token → Bool
  | space | continuation | escaped _ | quoted _ _ | word _ => true
  | _ => false

/-- Whether the token only separates what stands on a line. -/
def isGap : Token → Bool
  | space | continuation => true
  | _ => false

/-- Whether the token is a string. -/
def isQuoted : Token → Bool
  | quoted _ _ => true
  | _ => false

/-- Tokens of one line in which every group that is opened is closed. -/
inductive Nested : List Token → Prop where
  | nil : Nested []
  | plain {t : Token} {ts : List Token} (ht : t.isPlain = true) (h : Nested ts) : Nested (t :: ts)
  | group (b : Bracket) {inner ts : List Token} (hinner : Nested inner) (h : Nested ts) :
      Nested (b.opening :: (inner ++ b.closing :: ts))

/-- Tokens in which every group that is opened is closed before the next break. -/
inductive NestedLines : List Token → Prop where
  | last {line : List Token} (h : Nested line) : NestedLines line
  | more {line ts : List Token} {t : Token} (hline : Nested line) (ht : t.isBreak = true)
      (h : NestedLines ts) : NestedLines (line ++ t :: ts)

/-- What comes after these tokens is the first in its group, or outside groups on its line. -/
def StartsLevel (outer : List Token) : Prop :=
  outer = [] ∨ ∃ before t, outer = before ++ [t] ∧ (t.isBreak = true ∨ ∃ b : Bracket, t = b.opening)

/-- Something other than layout is among the tokens: a word, a string or a group. -/
def Filled (ts : List Token) : Prop :=
  ∃ t ∈ ts, t.isLayout = false

/-- In the innermost group that is open after these tokens, or outside groups on the line, stands
a word, a string or a closed group. -/
def HasTarget (ts : List Token) : Prop :=
  ∃ outer inner, ts = outer ++ inner ∧ StartsLevel outer ∧ Nested inner ∧ Filled inner

/-- Tokens that make up a program. -/
structure IsProgram (ts : List Token) : Prop where
  /-- A string is followed by layout. -/
  spaced : ∀ before t after, ts = before ++ t :: after → t.isQuoted = true →
    ∃ layout rest, after = layout :: rest ∧ layout.isLayout = true
  /-- Groups are nested, and none is open at a newline, at a brace or at the end. -/
  nested : NestedLines ts
  /-- No block is closed before it is opened. -/
  opened : ∀ before after, ts = before ++ after →
    before.count rightBrace ≤ before.count leftBrace
  /-- Every block is closed. -/
  closed : ts.count rightBrace = ts.count leftBrace
  /-- An index has something in front of it. -/
  indexed : ∀ before after, ts = before ++ leftBracket :: after → HasTarget before

/-! ## Telling programs from left to right -/

/-- The open brackets after one more token, the innermost first. -/
def bracketsAfter (bs : List Bracket) : Token → Option (List Bracket)
  | leftParen => some (.round :: bs)
  | leftBracket => some (.square :: bs)
  | rightParen => close bs .round
  | rightBracket => close bs .square
  | newline | leftBrace | rightBrace => if bs = [] then some [] else none
  | _ => some bs
where
  /-- The open brackets when the innermost one has been closed, which has to be of this kind. -/
  close : List Bracket → Bracket → Option (List Bracket)
    | [], _ => none
    | b :: bs, b' => if b = b' then some bs else none

/-- The number of open blocks after one more token. -/
def blocksAfter : Nat → Token → Option Nat
  | n, leftBrace => some (n + 1)
  | 0, rightBrace => none
  | n + 1, rightBrace => some n
  | n, _ => some n

/-- Whether something stands in the innermost group, or on the line, after one more token. -/
def filledAfter (filled : Bool) : Token → Bool
  | space | continuation => filled
  | newline | leftBrace | rightBrace | leftParen | leftBracket => false
  | word _ | escaped _ | quoted _ _ | rightParen | rightBracket => true

/-- What has to be remembered of tokens to tell whether they make up a program. -/
structure Outline where
  /-- The open brackets, the innermost first. -/
  brackets : List Bracket := []
  /-- The number of open blocks. -/
  blocks : Nat := 0
  /-- Whether something stands in the innermost group, or outside groups on the line. -/
  filled : Bool := false
  /-- Whether the last token was a string. -/
  afterQuote : Bool := false
deriving DecidableEq, Repr

/-- The token may come next: after a string only layout, and an index only after something else. -/
def Outline.Admits (o : Outline) (t : Token) : Prop :=
  (o.afterQuote = true → t.isLayout = true) ∧ (t = leftBracket → o.filled = true)

instance (o : Outline) (t : Token) : Decidable (o.Admits t) :=
  inferInstanceAs (Decidable (_ ∧ _))

/-- The outline after one more token, if it may come next. -/
def Outline.step (o : Outline) (t : Token) : Option Outline :=
  if o.Admits t then
    match bracketsAfter o.brackets t, blocksAfter o.blocks t with
    | some brackets, some blocks =>
      some { brackets, blocks, filled := filledAfter o.filled t, afterQuote := t.isQuoted }
    | _, _ => none
  else none

/-- The outline after the tokens. -/
def outline? (ts : List Token) : Option Outline :=
  ts.foldlM Outline.step {}

/-- Whether the tokens are found to be a program when they are gone through from left to right. -/
def accepts (ts : List Token) : Bool :=
  match outline? ts with
  | some o => o.brackets = [] ∧ o.blocks = 0 ∧ o.afterQuote = false
  | none => false

/-! ## Groups -/

section Groups

variable {ts line inner : List Token} {bs bs' : List Bracket} {t : Token}

@[simp] theorem bracketsAfter_opening (b : Bracket) (bs : List Bracket) :
    bracketsAfter bs b.opening = some (b :: bs) := by
  cases b <;> rfl

@[simp] theorem bracketsAfter_closing (b : Bracket) (bs : List Bracket) :
    bracketsAfter (b :: bs) b.closing = some bs := by
  cases b <;> simp [bracketsAfter, bracketsAfter.close, Bracket.closing]

theorem bracketsAfter_of_isPlain (ht : t.isPlain = true) (bs : List Bracket) :
    bracketsAfter bs t = some bs := by
  cases t <;> first | rfl | cases ht

theorem bracketsAfter_of_isBreak (ht : t.isBreak = true) : bracketsAfter [] t = some [] := by
  cases t <;> first | rfl | cases ht

/-- A token is plain, opens a group, closes the innermost one, or ends a line outside groups. -/
theorem bracketsAfter_cases (h : bracketsAfter bs t = some bs') :
    (t.isPlain = true ∧ bs' = bs) ∨ (∃ b : Bracket, t = b.opening ∧ bs' = b :: bs) ∨
      (∃ b : Bracket, t = b.closing ∧ bs = b :: bs') ∨
      (t.isBreak = true ∧ bs = [] ∧ bs' = []) := by
  have closes : ∀ b : Bracket, bracketsAfter.close bs b = some bs' → bs = b :: bs' := by
    intro b hb
    unfold bracketsAfter.close at hb
    split at hb
    · cases hb
    · split at hb
      · next heq => cases hb; rw [heq]
      · cases hb
  cases t with
  | leftParen => cases h; exact .inr (.inl ⟨.round, rfl, rfl⟩)
  | leftBracket => cases h; exact .inr (.inl ⟨.square, rfl, rfl⟩)
  | rightParen => exact .inr (.inr (.inl ⟨.round, rfl, closes _ h⟩))
  | rightBracket => exact .inr (.inr (.inl ⟨.square, rfl, closes _ h⟩))
  | newline | leftBrace | rightBrace =>
    simp only [bracketsAfter] at h
    split at h
    · next heq => cases h; exact .inr (.inr (.inr ⟨rfl, heq, rfl⟩))
    · cases h
  | space | continuation | escaped _ | quoted _ _ | word _ => cases h; exact .inl ⟨rfl, rfl⟩

theorem eq_cons_of_bracketsAfter (b : Bracket)
    (h : bracketsAfter bs b.closing = some bs') : bs = b :: bs' := by
  rcases bracketsAfter_cases h with ⟨ht, -⟩ | ⟨b', hb, -⟩ | ⟨b', hb, hbs⟩ | ⟨ht, -⟩
  · cases b <;> cases ht
  · cases b <;> cases b' <;> cases hb
  · cases b <;> cases b' <;> first | exact hbs | cases hb
  · cases b <;> cases ht

theorem eq_nil_of_bracketsAfter (ht : t.isBreak = true)
    (h : bracketsAfter bs t = some bs') : bs = [] ∧ bs' = [] := by
  rcases bracketsAfter_cases h with ⟨ht', -⟩ | ⟨b, rfl, -⟩ | ⟨b, rfl, -⟩ | ⟨-, hbs⟩
  · cases t <;> cases ht <;> cases ht'
  · cases b <;> cases ht
  · cases b <;> cases ht
  · exact hbs

theorem nested_of_isPlain (hts : ∀ t ∈ ts, t.isPlain = true) : Nested ts := by
  induction ts with
  | nil => exact .nil
  | cons t ts ih =>
    obtain ⟨ht, hts⟩ := List.forall_mem_cons.mp hts
    exact .plain ht (ih hts)

theorem Nested.append {ts' : List Token} (h : Nested ts) (h' : Nested ts') :
    Nested (ts ++ ts') := by
  induction h with
  | nil => exact h'
  | plain ht _ ih => exact .plain ht ih
  | group b hinner _ _ ih =>
    rw [List.cons_append, List.append_assoc, List.cons_append]
    exact .group b hinner ih

/-- Nested tokens leave the open brackets as they were. -/
theorem Nested.foldlM (h : Nested ts) (bs : List Bracket) :
    ts.foldlM bracketsAfter bs = some bs := by
  induction h generalizing bs with
  | nil => rfl
  | plain ht _ ih => simp [List.foldlM_cons, bracketsAfter_of_isPlain ht, ih]
  | group b _ _ ihinner ih => simp [List.foldlM_cons, List.foldlM_append, ihinner, ih]

theorem Nested.isBreak_eq_false (h : Nested ts) (ht : t ∈ ts) : t.isBreak = false := by
  induction h with
  | nil => cases ht
  | @plain t' ts ht' _ ih =>
    rcases List.mem_cons.mp ht with rfl | ht
    · cases t <;> first | rfl | cases ht'
    · exact ih ht
  | group b _ _ ihinner ih =>
    rcases List.mem_cons.mp ht with rfl | ht
    · cases b <;> rfl
    · rcases List.mem_append.mp ht with ht | ht
      · exact ihinner ht
      · rcases List.mem_cons.mp ht with rfl | ht
        · cases b <;> rfl
        · exact ih ht

theorem NestedLines.foldlM (h : NestedLines ts) : ts.foldlM bracketsAfter [] = some [] := by
  induction h with
  | last h => exact h.foldlM []
  | more hline ht _ ih =>
    simp [List.foldlM_append, List.foldlM_cons, hline.foldlM, bracketsAfter_of_isBreak ht, ih]

theorem NestedLines.append {ts' : List Token} (h : NestedLines ts) (ht : t.isBreak = true)
    (h' : NestedLines ts') : NestedLines (ts ++ t :: ts') := by
  induction h with
  | last h => exact .more h ht h'
  | more hline ht' _ ih =>
    rw [List.append_assoc, List.cons_append]
    exact .more hline ht' ih

/-- The open brackets after tokens, and the last of the tokens, which stand in the innermost open
group, or outside groups on the line. -/
inductive Level : List Bracket → List Token → List Token → Prop where
  | line {outer inner : List Token}
      (houter : outer = [] ∨ ∃ before t, outer = before ++ [t] ∧ t.isBreak = true ∧
        NestedLines before) (h : Nested inner) : Level [] (outer ++ inner) inner
  | group (b : Bracket) {bs : List Bracket} {ts outer inner : List Token} (hts : Level bs ts outer)
      (h : Nested inner) : Level (b :: bs) (ts ++ b.opening :: inner) inner

theorem Level.exists_outer (h : Level bs ts inner) :
    ∃ outer, ts = outer ++ inner ∧ StartsLevel outer ∧ Nested inner := by
  cases h with
  | line houter hinner =>
    refine ⟨_, rfl, ?_, hinner⟩
    rcases houter with rfl | ⟨before, t, rfl, ht, -⟩
    · exact .inl rfl
    · exact .inr ⟨before, t, rfl, .inl ht⟩
  | @group b bs ts outer inner hts hinner =>
    exact ⟨ts ++ [b.opening], by simp, .inr ⟨ts, _, rfl, .inr ⟨b, rfl⟩⟩, hinner⟩

theorem Level.nestedLines (h : Level [] ts inner) : NestedLines ts := by
  cases h with
  | line houter hinner =>
    rcases houter with rfl | ⟨before, t, rfl, ht, hbefore⟩
    · exact .last hinner
    · rw [List.append_assoc]
      exact hbefore.append ht (.last hinner)

/-- More nested tokens stand in the same group. -/
theorem Level.append {more : List Token} (h : Level bs ts inner) (hmore : Nested more) :
    Level bs (ts ++ more) (inner ++ more) := by
  cases h with
  | line houter hinner =>
    rw [List.append_assoc]
    exact .line houter (hinner.append hmore)
  | group b hts hinner =>
    rw [List.append_assoc, List.cons_append]
    exact .group b hts (hinner.append hmore)

/-- A group that is closed stands in the one around it. -/
theorem Level.close {b : Bracket} (h : Level (b :: bs) ts inner) :
    ∃ inner', Level bs (ts ++ [b.closing]) inner' ∧ b.closing ∈ inner' := by
  cases h with
  | @group _ _ ts outer _ hts hinner =>
    have hgroup : Nested (b.opening :: (inner ++ [b.closing])) := .group b hinner .nil
    refine ⟨outer ++ b.opening :: (inner ++ [b.closing]), ?_, by simp⟩
    rw [List.append_assoc, List.cons_append]
    exact hts.append hgroup

theorem filled_append (t : Token) :
    Filled (inner ++ [t]) ↔ Filled inner ∨ t.isLayout = false := by
  simp [Filled, or_and_right, exists_or]

/-- What stands in the innermost group after one more token. -/
theorem Level.step {filled : Bool} (h : Level bs ts inner)
    (hfilled : filled = true ↔ Filled inner) (hstep : bracketsAfter bs t = some bs') :
    ∃ inner', Level bs' (ts ++ [t]) inner' ∧ (filledAfter filled t = true ↔ Filled inner') := by
  have nothing : ¬ Filled [] := by simp [Filled]
  rcases bracketsAfter_cases hstep with
    ⟨ht, rfl⟩ | ⟨b, rfl, rfl⟩ | ⟨b, rfl, rfl⟩ | ⟨ht, rfl, rfl⟩
  · refine ⟨inner ++ [t], h.append (.plain ht .nil), ?_⟩
    rw [filled_append, ← hfilled]
    cases t <;> simp_all [filledAfter, isPlain, isLayout]
  · refine ⟨[], .group b h .nil, iff_of_false ?_ nothing⟩
    cases b <;> simp [filledAfter, Bracket.opening]
  · obtain ⟨inner', h', hmem⟩ := h.close
    refine ⟨inner', h', ?_⟩
    refine iff_of_true ?_ ⟨b.closing, hmem, ?_⟩
    · cases b <;> rfl
    · cases b <;> rfl
  · refine ⟨[], ?_, ?_⟩
    · have hline : Level [] ((ts ++ [t]) ++ []) [] :=
        .line (.inr ⟨ts, t, rfl, ht, h.nestedLines⟩) .nil
      rwa [List.append_nil] at hline
    · cases t <;> simp_all [filledAfter, isBreak]

/-- What stands in the innermost group is what an index applies to. -/
theorem Level.hasTarget_iff (h : Level bs ts inner) : HasTarget ts ↔ Filled inner := by
  obtain ⟨outer, hts, hstarts, hinner⟩ := h.exists_outer
  constructor
  · rintro ⟨outer', inner', hts', -, hinner', t, ht, hlayout⟩
    rcases List.append_eq_append_iff.mp (hts.symm.trans hts') with
      ⟨more, -, hmore⟩ | ⟨more, houter, hmore⟩
    · exact ⟨t, by rw [hmore]; exact List.mem_append_right _ ht, hlayout⟩
    · -- nested tokens reach neither over a break nor over the bracket that opens the group
      rcases List.eq_nil_or_concat more with rfl | ⟨more, last, rfl⟩
      · rw [hmore] at ht
        exact ⟨t, by simpa using ht, hlayout⟩
      · exfalso
        rw [List.concat_eq_append] at hmore houter
        rw [hmore] at hinner'
        rcases hstarts with rfl | ⟨before, t', rfl, ht'⟩
        · simp at houter
        · rw [← List.append_assoc] at houter
          obtain ⟨-, hlast⟩ := List.append_inj' houter rfl
          cases hlast
          rcases ht' with ht' | ⟨b, rfl⟩
          · rw [hinner'.isBreak_eq_false (by simp)] at ht'
            cases ht'
          · have hfold := hinner'.foldlM []
            rw [List.append_assoc, List.foldlM_append] at hfold
            cases hmoreFold : more.foldlM bracketsAfter [] <;>
              simp [hmoreFold, hinner.foldlM] at hfold
  · exact fun hfilled => ⟨outer, inner, hts, hstarts, hinner, hfilled⟩

end Groups

/-! ## Blocks -/

theorem forall_cons_append {P : List Token → Prop} {t : Token} {ts : List Token} :
    (∀ before after, t :: ts = before ++ after → P before) ↔
      P [] ∧ ∀ before after, ts = before ++ after → P (t :: before) := by
  constructor
  · exact fun h => ⟨h [] _ rfl, fun before after heq => h (t :: before) after (by rw [heq]; rfl)⟩
  · rintro ⟨hnil, hcons⟩ before after heq
    cases before with
    | nil => exact hnil
    | cons t' before =>
      obtain ⟨rfl, hrest⟩ := List.cons.inj heq
      exact hcons before after hrest

/-- Blocks are counted to the end when none is closed before it is opened. -/
theorem foldlM_blocksAfter {ts : List Token} {m n : Nat} :
    ts.foldlM blocksAfter m = some n ↔
      (∀ before after, ts = before ++ after →
        before.count rightBrace ≤ m + before.count leftBrace) ∧
      ts.count rightBrace + n = m + ts.count leftBrace := by
  induction ts generalizing m with
  | nil =>
    simp only [List.foldlM_nil, List.count_nil, Nat.zero_add, Nat.add_zero]
    constructor
    · intro h
      cases h
      refine ⟨fun before after h => ?_, rfl⟩
      obtain ⟨rfl, -⟩ := List.append_eq_nil_iff.mp h.symm
      simp
    · rintro ⟨-, rfl⟩
      rfl
  | cons t ts ih =>
    rw [forall_cons_append, List.foldlM_cons]
    cases t with
    | leftBrace =>
      simp only [blocksAfter, Option.bind_eq_bind, Option.bind_some, ih, List.count_cons]
      simp only [List.count_nil, Nat.zero_le, true_and]
      simp [Nat.add_assoc, Nat.add_comm 1]
    | rightBrace =>
      cases m with
      | zero =>
        simp only [blocksAfter, Option.bind_eq_bind, Option.bind_none, reduceCtorEq, false_iff]
        rintro ⟨⟨-, h⟩, -⟩
        have := h [] ts rfl
        simp at this
      | succ m =>
        simp only [blocksAfter, Option.bind_eq_bind, Option.bind_some, ih, List.count_cons]
        simp only [List.count_nil, Nat.zero_le, true_and]
        refine and_congr (forall₃_congr fun before after _ => ?_) ?_
        all_goals simp
        all_goals omega
    | _ =>
      simp [blocksAfter, ih]

/-! ## Outlines -/

theorem Outline.step_eq_some {o o' : Outline} {t : Token} : o.step t = some o' ↔
    o.Admits t ∧ bracketsAfter o.brackets t = some o'.brackets ∧
      blocksAfter o.blocks t = some o'.blocks ∧ o'.filled = filledAfter o.filled t ∧
      o'.afterQuote = t.isQuoted := by
  obtain ⟨brackets, blocks, filled, afterQuote⟩ := o'
  unfold step
  split
  · next hadmits =>
    split
    · next bs n hbs hn => simp [hadmits, hbs, hn, eq_comm]
    · next hnone =>
      simp only [reduceCtorEq, false_iff]
      rintro ⟨-, hbs, hn, -⟩
      exact hnone _ _ hbs hn
  · next hadmits => simp [hadmits]

/-- What an outline tells of the tokens. -/
structure Outline.Describes (o : Outline) (ts : List Token) : Prop where
  brackets : ts.foldlM bracketsAfter [] = some o.brackets
  blocks : ts.foldlM blocksAfter 0 = some o.blocks
  level : ∃ inner, Level o.brackets ts inner ∧ (o.filled = true ↔ Filled inner)
  afterQuote : o.afterQuote = true ↔ ∃ before t, ts = before ++ [t] ∧ t.isQuoted = true

section Outlines

variable {o o' : Outline} {ts before after : List Token} {t : Token}

theorem describes_empty : Outline.Describes {} [] where
  brackets := rfl
  blocks := rfl
  level := ⟨[], .line (.inl rfl) .nil, by simp [Filled]⟩
  afterQuote := by simp

theorem Outline.Describes.step (h : o.Describes ts) (hstep : o.step t = some o') :
    o'.Describes (ts ++ [t]) := by
  obtain ⟨-, hbrackets, hblocks, hfilled, hquote⟩ := Outline.step_eq_some.mp hstep
  obtain ⟨inner, hlevel, hinner⟩ := h.level
  refine ⟨?_, ?_, ?_, ?_⟩
  · simp [List.foldlM_append, h.brackets, hbrackets]
  · simp [List.foldlM_append, h.blocks, hblocks]
  · rw [hfilled]
    exact hlevel.step hinner hbrackets
  · rw [hquote]
    constructor
    · exact fun ht => ⟨ts, t, rfl, ht⟩
    · rintro ⟨before, t', heq, ht'⟩
      obtain ⟨-, hlast⟩ := List.append_inj' heq rfl
      cases hlast
      exact ht'

theorem outline?_concat (ts : List Token) (t : Token) :
    outline? (ts ++ [t]) = (outline? ts).bind (Outline.step · t) := by
  simp [outline?, List.foldlM_append]

theorem describes_of_outline? (h : outline? ts = some o) : o.Describes ts := by
  induction ts using List.reverseRecOn generalizing o with
  | nil =>
    cases h
    exact describes_empty
  | append_singleton ts t ih =>
    rw [outline?_concat] at h
    obtain ⟨o₁, hts, hstep⟩ := Option.bind_eq_some_iff.mp h
    exact (ih hts).step hstep

/-- Where a run over tokens does not fail, it goes through each of them. -/
theorem exists_of_foldlM {β : Type} {f : β → Token → Option β} {b c : β}
    (h : (before ++ t :: after).foldlM f b = some c) :
    ∃ b₁ b₂, before.foldlM f b = some b₁ ∧ f b₁ t = some b₂ := by
  rw [List.foldlM_append] at h
  obtain ⟨b₁, hbefore, hrest⟩ := Option.bind_eq_some_iff.mp h
  rw [List.foldlM_cons] at hrest
  obtain ⟨b₂, hstep, -⟩ := Option.bind_eq_some_iff.mp hrest
  exact ⟨b₁, b₂, hbefore, hstep⟩

theorem Outline.Describes.filled_iff (h : o.Describes ts) : o.filled = true ↔ HasTarget ts := by
  obtain ⟨inner, hlevel, hinner⟩ := h.level
  rw [hinner, hlevel.hasTarget_iff]

/-- Tokens that are gone through to the end make up a program. -/
theorem isProgram_of_outline? (h : outline? ts = some o) (hbrackets : o.brackets = [])
    (hblocks : o.blocks = 0) (hquote : o.afterQuote = false) : IsProgram ts := by
  have hts := describes_of_outline? h
  obtain ⟨hopened, hclosed⟩ := foldlM_blocksAfter.mp hts.blocks
  refine ⟨?_, ?_, ?_, ?_, ?_⟩
  · rintro before t after rfl ht
    cases after with
    | nil =>
      rw [hts.afterQuote.mpr ⟨before, t, rfl, ht⟩] at hquote
      cases hquote
    | cons layout rest =>
      rw [List.append_cons] at h
      obtain ⟨o₁, o₂, hbefore, hstep⟩ := exists_of_foldlM h
      obtain ⟨⟨hlayout, -⟩, -⟩ := Outline.step_eq_some.mp hstep
      exact ⟨layout, rest, rfl,
        hlayout ((describes_of_outline? hbefore).afterQuote.mpr ⟨before, t, rfl, ht⟩)⟩
  · obtain ⟨inner, hlevel, -⟩ := hts.level
    rw [hbrackets] at hlevel
    exact hlevel.nestedLines
  · exact fun before after heq => by simpa using hopened before after heq
  · rw [hblocks] at hclosed
    omega
  · rintro before after rfl
    obtain ⟨o₁, o₂, hbefore, hstep⟩ := exists_of_foldlM h
    obtain ⟨⟨-, htarget⟩, -⟩ := Outline.step_eq_some.mp hstep
    exact (describes_of_outline? hbefore).filled_iff.mp (htarget rfl)

/-- The blocks of a program are balanced. -/
theorem IsProgram.foldlM_blocks (h : IsProgram ts) : ts.foldlM blocksAfter 0 = some 0 :=
  foldlM_blocksAfter.mpr ⟨by simpa using h.opened, by simpa using h.closed⟩

/-- The next token of a program may come after those before it. -/
theorem IsProgram.exists_step (h : IsProgram (before ++ t :: after)) (ho : o.Describes before) :
    ∃ o', o.step t = some o' := by
  obtain ⟨bs₁, bs, hbefore, hbs⟩ := exists_of_foldlM h.nested.foldlM
  obtain ⟨n₁, n, hbefore', hn⟩ := exists_of_foldlM h.foldlM_blocks
  cases ho.brackets.symm.trans hbefore
  cases ho.blocks.symm.trans hbefore'
  refine ⟨⟨bs, n, filledAfter o.filled t, t.isQuoted⟩, Outline.step_eq_some.mpr
    ⟨⟨fun hquote => ?_, ?_⟩, hbs, hn, rfl, rfl⟩⟩
  · obtain ⟨before, t', rfl, ht'⟩ := ho.afterQuote.mp hquote
    obtain ⟨layout, rest, heq, hlayout⟩ := h.spaced before t' (t :: after) (by simp) ht'
    cases heq
    exact hlayout
  · rintro rfl
    exact ho.filled_iff.mpr (h.indexed before after rfl)

theorem IsProgram.exists_outline? (h : IsProgram (before ++ after))
    (ho : outline? before = some o) : ∃ o', outline? (before ++ after) = some o' := by
  induction after generalizing before o with
  | nil => exact ⟨o, by rwa [List.append_nil]⟩
  | cons t after ih =>
    obtain ⟨o', hstep⟩ := h.exists_step (describes_of_outline? ho)
    rw [List.append_cons] at h ⊢
    refine ih h (o := o') ?_
    rw [outline?_concat, ho]
    exact hstep

/-- The tokens of a program are gone through to the end. -/
theorem IsProgram.outline?_eq_some (h : IsProgram ts) : ∃ o, outline? ts = some o ∧
    o.brackets = [] ∧ o.blocks = 0 ∧ o.afterQuote = false := by
  obtain ⟨o, ho⟩ := IsProgram.exists_outline? (show IsProgram ([] ++ ts) from h) rfl
  rw [List.nil_append] at ho
  have hts := describes_of_outline? ho
  have hbrackets := hts.brackets.symm.trans h.nested.foldlM
  have hblocks := hts.blocks.symm.trans h.foldlM_blocks
  refine ⟨o, ho, Option.some.inj hbrackets, Option.some.inj hblocks, ?_⟩
  rw [Bool.eq_false_iff]
  intro hquote
  obtain ⟨before, t, rfl, ht⟩ := hts.afterQuote.mp hquote
  obtain ⟨layout, rest, heq, -⟩ := h.spaced before t [] rfl ht
  cases heq

end Outlines

/-- Going through tokens from left to right tells whether they make up a program. -/
theorem accepts_iff {ts : List Token} : accepts ts = true ↔ IsProgram ts := by
  unfold accepts
  constructor
  · intro h
    split at h
    · next o ho =>
      obtain ⟨hbrackets, hblocks, hquote⟩ := of_decide_eq_true h
      exact isProgram_of_outline? ho hbrackets hblocks hquote
    · cases h
  · intro h
    obtain ⟨o, ho, houtline⟩ := h.outline?_eq_some
    simp only [ho]
    exact decide_eq_true houtline

instance (ts : List Token) : Decidable (IsProgram ts) :=
  decidable_of_iff _ accepts_iff

/-- An index needs something in front of it in its own group. -/
example : IsProgram [word "a", leftBracket, word "b", rightBracket, newline] ∧
    ¬ IsProgram [word "a", leftParen, leftBracket, rightBracket, rightParen, newline] := by
  decide

end Token

end WordScript
