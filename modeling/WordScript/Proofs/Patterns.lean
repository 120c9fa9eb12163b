import Mathlib.Data.List.TakeWhile
import WordScript.Proofs.Lexing

/-!
# The patterns of tokens

Each kind of token has a pattern, which says how it is written. The main statement,
`cut_eq_ok_iff_isLongest`, is that the first lexeme of a text is the longest of its first parts that
have any pattern. Where no first part has one, the text starts with a quote that is not closed on
its line, or it is a single backslash. It takes no more than one character to see that a lexeme
cannot be longer (`cut_eq_ok_iff`), so that texts can be taken apart and put together at their
lexemes.
-/

namespace WordScript

open Lexeme (isSpace isWordChar bracket? quote? inside unescape cut Cut)

/-! ## Patterns -/

/-- What may stand inside a string that is enclosed by the character: neither the character nor a
newline, and behind each backslash one more character, which may be the enclosing one. -/
inductive IsInside (quote : Char) : List Char → Prop where
  | nil : IsInside quote []
  | plain {c : Char} {cs : List Char} (hquote : c ≠ quote) (hnewline : c ≠ '\n') (hslash : c ≠ '\\')
      (h : IsInside quote cs) : IsInside quote (c :: cs)
  | escaped {c : Char} {cs : List Char} (hnewline : c ≠ '\n') (h : IsInside quote cs) :
      IsInside quote ('\\' :: c :: cs)

namespace Token

/-- The characters are one way to write the token. -/
inductive Matches : Token → List Char → Prop where
  | space {cs : List Char} (hne : cs ≠ []) (hcs : ∀ c ∈ cs, isSpace c = true) : Matches space cs
  | newline : Matches newline ['\n']
  | bracket {c : Char} {t : Token} (h : bracket? c = some t) : Matches t [c]
  | continuation : Matches continuation ['\\', '\n']
  | continuationReturn : Matches continuation ['\\', '\r', '\n']
  | escaped {c : Char} (hc : c ≠ '\n') : Matches (escaped c) ['\\', c]
  | quoted (quote : Quote) {body : List Char} (h : IsInside quote.char body) :
      Matches (quoted quote (String.ofList (unescape body))) (quote.char :: body ++ [quote.char])
  | word {c : Char} {cs : List Char} (hc : isWordChar c = true) (hquote : quote? c = none)
      (hcs : ∀ d ∈ cs, isWordChar d = true) : Matches (word (String.ofList (c :: cs))) (c :: cs)

/-- Whether the token is at an end where this character follows: blanks and words run on, and a
backslash in front of a line break is no escape. -/
def endsBefore : Token → Char → Bool
  | space, d => !isSpace d
  | word _, d => !isWordChar d
  | escaped c, d => !(c = '\r' && d = '\n')
  | _, _ => true

/-- The token is at an end where this text follows. -/
def EndsBefore (t : Token) (rest : List Char) : Prop := ∀ d ∈ rest.head?, t.endsBefore d = true

theorem endsBefore_nil (t : Token) : t.EndsBefore [] := fun _ hd => by cases hd

end Token

/-! ## Cutting by patterns -/

namespace Lexeme

theorem quote_ne_backslash (quote : Quote) : quote.char ≠ '\\' := by
  cases quote <;> decide

theorem quote?_char (quote : Quote) : quote? quote.char = some quote := by
  cases quote <;> rfl

/-- A string is closed by the first quote of its kind that is not escaped. -/
theorem inside_eq_ok_iff {quote : Char} (hquote : quote ≠ '\\') {cs body rest : List Char} :
    inside quote cs = .ok (body, rest) ↔ IsInside quote body ∧ cs = body ++ quote :: rest := by
  constructor
  · intro h
    refine ⟨?_, (inside_append h).symm⟩
    fun_induction inside quote cs generalizing body rest with
    | case1 => cases h
    | case2 => cases h
    | case3 c cs hc body' rest' hok ih =>
      cases h
      exact .escaped hc (ih hok)
    | case4 => cases h
    | case5 =>
      cases h
      exact .nil
    | case6 => cases h
    | case7 c cs _ hc hc' body' rest' hok ih =>
      cases h
      simp only [Bool.or_eq_true, decide_eq_true_eq, not_or] at hc'
      exact .plain hc hc'.1 hc'.2 (ih hok)
    | case8 => cases h
  · rintro ⟨hbody, rfl⟩
    induction hbody with
    | nil => simp [inside, hquote]
    | plain hc hnewline hslash _ ih => simp [inside, hc, hnewline, hslash, ih]
    | escaped hnewline _ ih => simp [inside, hnewline, ih]

/-- A run of characters ends where another one follows. -/
theorem run_append {p : Char → Bool} {run rest : List Char} (hrun : ∀ c ∈ run, p c = true)
    (hrest : ∀ d ∈ rest.head?, p d = false) :
    (run ++ rest).takeWhile p = run ∧ (run ++ rest).dropWhile p = rest := by
  rw [List.takeWhile_append_of_pos hrun, List.dropWhile_append_of_pos hrun]
  cases rest with
  | nil => simp
  | cons d rest => simp [hrest d rfl]

theorem eq_false_of_mem_head?_dropWhile {p : Char → Bool} {cs : List Char} :
    ∀ d ∈ (cs.dropWhile p).head?, p d = false := by
  intro d hd
  have hnot := List.head?_dropWhile_not p cs
  rw [hd] at hnot
  exact hnot

/-- What a lexeme that starts with a word character starts with. -/
theorem isWordChar_iff {c : Char} : isWordChar c = true ↔
    isSpace c = false ∧ c ≠ '\n' ∧ c ≠ '\\' ∧ bracket? c = none := by
  simp [isWordChar, and_assoc]

theorem of_bracket? {c : Char} {t : Token} (h : bracket? c = some t) :
    isSpace c = false ∧ c ≠ '\n' ∧ c ≠ '\\' := by
  unfold bracket? at h
  split at h <;> first | decide | cases h

/-- A bracket stands alone. -/
theorem endsBefore_of_bracket? {c : Char} {t : Token} (h : bracket? c = some t) (d : Char) :
    t.endsBefore d = true := by
  unfold bracket? at h
  split at h <;> cases h <;> rfl

end Lexeme

/-! ## The spellings of a token -/

namespace Token

variable {cs : List Char}

theorem matches_space_iff : space.Matches cs ↔ cs ≠ [] ∧ ∀ c ∈ cs, isSpace c = true := by
  constructor
  · intro h
    generalize ht : space = t at h
    cases h with
    | space hne hcs => exact ⟨hne, hcs⟩
    | bracket hbracket =>
      unfold bracket? at hbracket
      split at hbracket <;> cases hbracket <;> cases ht
    | _ => cases ht
  · exact fun h => .space h.1 h.2

theorem matches_newline_iff : newline.Matches cs ↔ cs = ['\n'] := by
  constructor
  · intro h
    generalize ht : newline = t at h
    cases h with
    | newline => rfl
    | bracket hbracket =>
      unfold bracket? at hbracket
      split at hbracket <;> cases hbracket <;> cases ht
    | _ => cases ht
  · rintro rfl
    exact .newline

/-- A bracket is written with one character. -/
theorem matches_bracket_iff {c : Char} {t : Token} (ht : bracket? c = some t) :
    t.Matches cs ↔ cs = [c] := by
  constructor
  · intro h
    unfold bracket? at ht
    split at ht <;> cases ht <;> cases h with
    | bracket hbracket =>
      unfold bracket? at hbracket
      split at hbracket <;> cases hbracket
      rfl
  · rintro rfl
    exact .bracket ht

/-- A string is written with a quote at the end. -/
theorem getLast?_of_matches_quoted {quote : Quote} {text : String}
    (h : (quoted quote text).Matches cs) : cs.getLast? = some quote.char := by
  cases h with
  | quoted _ h => exact List.getLast?_concat ..
  | bracket hbracket =>
    unfold bracket? at hbracket
    split at hbracket <;> cases hbracket

theorem exists_of_matches_word {text : String} (h : (word text).Matches cs) :
    ∃ c rest, cs = c :: rest ∧ isWordChar c = true := by
  cases h with
  | word hc => exact ⟨_, _, rfl, hc⟩
  | bracket hbracket =>
    unfold bracket? at hbracket
    split at hbracket <;> cases hbracket

/-- Every token is at an end where a bracket follows. -/
theorem endsBefore_bracket {c : Char} {b : Token} (h : bracket? c = some b) (t : Token) :
    t.endsBefore c = true := by
  obtain ⟨hspace, hnewline, -⟩ := Lexeme.of_bracket? h
  cases t <;> simp [endsBefore, isWordChar, hspace, hnewline, h]

/-- Only a blank begins with a blank. -/
theorem endsBefore_space {t : Token} (ht : t ≠ space) (h : t.Matches cs) :
    space.EndsBefore cs := by
  rintro d hd
  cases h with
  | space => exact absurd rfl ht
  | bracket hbracket =>
    cases hd
    simpa [endsBefore] using (Lexeme.of_bracket? hbracket).1
  | quoted quote =>
    cases hd
    cases quote <;> rfl
  | word hc =>
    cases hd
    simpa [endsBefore] using (Lexeme.isWordChar_iff.mp hc).1
  | _ =>
    cases hd
    rfl

theorem Matches.ne_nil {t : Token} (h : t.Matches cs) : cs ≠ [] := by
  cases h with
  | space hne => exact hne
  | _ => exact List.cons_ne_nil _ _

end Token

namespace Lexeme

section Cut

variable {c : Char} {cs taken rest : List Char} {t : Token}

/-- A lexeme is written as its token is. -/
theorem matches_of_cut (h : cut c cs = .ok ⟨t, taken, rest⟩) : t.Matches taken := by
  unfold cut at h
  split at h
  · next hspace =>
    cases h
    exact .space (List.cons_ne_nil _ _)
      (List.forall_mem_cons.mpr ⟨hspace, fun d hd => List.mem_takeWhile_imp hd⟩)
  next hspace =>
  split at h
  · next hnewline =>
    cases h
    rw [hnewline]
    exact .newline
  next hnewline =>
  split at h
  · next hslash =>
    subst hslash
    split at h
    · cases h
    · cases h
      exact .continuation
    · cases h
      exact .continuationReturn
    · next d rest' hd _ =>
      cases h
      exact .escaped fun heq => hd heq
  next hslash =>
  split at h
  · next hbracket =>
    cases h
    exact .bracket hbracket
  · next quote _ hquote =>
    split at h
    · cases h
    · next hinside =>
      cases h
      rw [← char_of_quote? hquote] at hinside ⊢
      exact .quoted quote ((inside_eq_ok_iff (quote_ne_backslash quote)).mp hinside).1
  · next hbracket hquote =>
    cases h
    have hc : isWordChar c = true :=
      isWordChar_iff.mpr ⟨by simpa using hspace, hnewline, hslash, hbracket⟩
    exact .word hc hquote fun d hd => List.mem_takeWhile_imp hd

/-- A lexeme is at an end where the rest of the text begins. -/
theorem endsBefore_of_cut (h : cut c cs = .ok ⟨t, taken, rest⟩) : t.EndsBefore rest := by
  intro d hd
  unfold cut at h
  split at h
  · cases h
    simp [Token.endsBefore, eq_false_of_mem_head?_dropWhile d hd]
  split at h
  · cases h
    rfl
  split at h
  · split at h
    · cases h
    · cases h
      rfl
    · cases h
      rfl
    · next e rest' _ hreturn =>
      cases h
      obtain ⟨more, rfl⟩ := List.head?_eq_some_iff.mp hd
      have hcr : e = '\r' → d ≠ '\n' := by
        rintro he rfl
        exact hreturn more he rfl
      simpa [Token.endsBefore, ← imp_iff_not_or] using hcr
  split at h
  · next hbracket =>
    cases h
    exact endsBefore_of_bracket? hbracket d
  · split at h
    · cases h
    · cases h
      rfl
  · cases h
    simp [Token.endsBefore, eq_false_of_mem_head?_dropWhile d hd]

/-- Characters with the pattern of a token are a lexeme where the token is at an end behind them. -/
theorem cut_of_matches (hmatches : t.Matches taken) (happend : taken ++ rest = c :: cs)
    (hends : t.EndsBefore rest) : cut c cs = .ok ⟨t, taken, rest⟩ := by
  cases hmatches with
  | space hne hcs =>
    obtain ⟨b, run, rfl⟩ := List.exists_cons_of_ne_nil hne
    rw [List.cons_append] at happend
    obtain ⟨rfl, rfl⟩ := List.cons_eq_cons.mp happend
    obtain ⟨hc, hrun⟩ := List.forall_mem_cons.mp hcs
    obtain ⟨htake, hdrop⟩ := run_append hrun fun d hd => by
      simpa [Token.endsBefore] using hends d hd
    simp only [cut, hc, htake, hdrop, if_true]
  | newline =>
    cases happend
    rfl
  | bracket hbracket =>
    cases happend
    obtain ⟨hspace, hnewline, hslash⟩ := of_bracket? hbracket
    simp [cut, hspace, hnewline, hslash, hbracket]
  | continuation =>
    cases happend
    rfl
  | continuationReturn =>
    cases happend
    rfl
  | @escaped e he =>
    cases happend
    unfold cut
    rw [if_neg (by decide), if_neg (by decide), if_pos rfl]
    split
    · next heq => cases heq
    · next heq =>
      cases heq
      exact absurd rfl he
    · next heq =>
      cases heq
      cases hends '\n' rfl
    · next heq =>
      cases heq
      rfl
  | @quoted quote body hbody =>
    rw [List.append_assoc, List.cons_append] at happend
    obtain ⟨rfl, rfl⟩ := List.cons_eq_cons.mp happend
    have hinside : inside quote.char (body ++ quote.char :: rest) = .ok (body, rest) :=
      (inside_eq_ok_iff (quote_ne_backslash quote)).mpr ⟨hbody, rfl⟩
    have hspace : isSpace quote.char = false := by cases quote <;> rfl
    have hnewline : quote.char ≠ '\n' := by cases quote <;> decide
    have hbracket : bracket? quote.char = none := by cases quote <;> rfl
    simp [cut, hspace, hnewline, quote_ne_backslash, hbracket, quote?_char, hinside]
  | word hc hquote hcs =>
    rw [List.cons_append] at happend
    obtain ⟨rfl, rfl⟩ := List.cons_eq_cons.mp happend
    obtain ⟨hspace, hnewline, hslash, hbracket⟩ := isWordChar_iff.mp hc
    obtain ⟨htake, hdrop⟩ := run_append hcs fun d hd => by
      simpa [Token.endsBefore] using hends d hd
    simp only [cut, hspace, hnewline, hslash, hbracket, hquote, htake, hdrop, if_false,
      Bool.false_eq_true]

/-- The first lexeme of a text has the pattern of its token, and is at an end where the rest
begins. -/
theorem cut_eq_ok_iff : cut c cs = .ok ⟨t, taken, rest⟩ ↔
    t.Matches taken ∧ taken ++ rest = c :: cs ∧ t.EndsBefore rest :=
  ⟨fun h => ⟨matches_of_cut h, cut_append h, endsBefore_of_cut h⟩,
    fun ⟨hmatches, happend, hends⟩ => cut_of_matches hmatches happend hends⟩

/-- Characters are one way to write one token at most. -/
theorem token_eq_of_matches {t' : Token} (h : t.Matches taken) (h' : t'.Matches taken) :
    t = t' := by
  obtain ⟨c, cs, rfl⟩ := List.exists_cons_of_ne_nil h.ne_nil
  have hcut : ∀ {u : Token}, u.Matches (c :: cs) → cut c cs = .ok ⟨u, c :: cs, []⟩ := fun hu =>
    cut_of_matches hu (List.append_nil _) (fun d hd => by cases hd)
  have heq := (hcut h).symm.trans (hcut h')
  simp only [Except.ok.injEq, Cut.mk.injEq, and_true] at heq
  exact heq

/-- A text ends in what the last of its tokens is written with. -/
theorem Lexes.exists_matches {ts : List Token} (h : Lexes cs ts) (hlast : ts.getLast? = some t) :
    ∃ taken, t.Matches taken ∧ cs.getLast? = taken.getLast? := by
  induction h with
  | nil => cases hlast
  | @cons c cs taken rest _ ts hcut hrest ih =>
    rw [← cut_append hcut]
    cases hrest with
    | nil =>
      cases hlast
      exact ⟨taken, matches_of_cut hcut, by rw [List.append_nil]⟩
    | cons =>
      rw [List.getLast?_cons_cons] at hlast
      obtain ⟨last, hmatches, hends⟩ := ih hlast
      exact ⟨last, hmatches, by rw [List.getLast?_append_of_ne_nil _ (List.cons_ne_nil _ _), hends]⟩

/-! ## Longest matches -/

/-- The token is written at the beginning of the text, by these characters, and no more characters
at the beginning of the text have the pattern of any token. -/
structure IsLongest (text : List Char) (t : Token) (taken rest : List Char) : Prop where
  whole : taken ++ rest = text
  matched : t.Matches taken
  longest : ∀ t' taken' rest', taken' ++ rest' = text → Token.Matches t' taken' →
    taken'.length ≤ taken.length

/-- Where a first part of a text has a pattern the text can be cut, no earlier than behind it. -/
theorem exists_cut_of_matches (h : t.Matches taken) (happend : taken ++ rest = c :: cs) :
    ∃ p, cut c cs = .ok p ∧ taken.length ≤ p.taken.length := by
  by_cases hends : t.EndsBefore rest
  · exact ⟨_, cut_of_matches h happend hends, le_refl _⟩
  have runs : ∀ {q : Char → Bool} {cs rest : List Char}, (∀ d ∈ cs, q d = true) →
      cs.length ≤ ((cs ++ rest).takeWhile q).length := by
    intro q cs rest hcs
    rw [List.takeWhile_append_of_pos hcs, List.length_append]
    exact Nat.le_add_right _ _
  cases h with
  | space hne hcs =>
    obtain ⟨b, run, rfl⟩ := List.exists_cons_of_ne_nil hne
    rw [List.cons_append] at happend
    obtain ⟨rfl, rfl⟩ := List.cons_eq_cons.mp happend
    obtain ⟨hc, hrun⟩ := List.forall_mem_cons.mp hcs
    exact ⟨_, if_pos hc, Nat.succ_le_succ (runs hrun)⟩
  | @word d run hc hquote hcs =>
    rw [List.cons_append] at happend
    obtain ⟨rfl, rfl⟩ := List.cons_eq_cons.mp happend
    obtain ⟨hspace, hnewline, hslash, hbracket⟩ := isWordChar_iff.mp hc
    have hcut : cut d (run ++ rest) = .ok ⟨.word (String.ofList (d :: (run ++ rest).takeWhile
        isWordChar)), d :: (run ++ rest).takeWhile isWordChar,
        (run ++ rest).dropWhile isWordChar⟩ := by
      simp [cut, hspace, hnewline, hslash, hbracket, hquote]
    exact ⟨_, hcut, Nat.succ_le_succ (runs hcs)⟩
  | @escaped e he =>
    cases happend
    -- an escaped carriage return with a newline behind it joins lines instead
    have hreturn : e = '\r' ∧ ∃ more, rest = '\n' :: more := by
      simp only [Token.EndsBefore, Token.endsBefore, not_forall] at hends
      obtain ⟨d, hd, hfalse⟩ := hends
      obtain ⟨more, rfl⟩ := List.head?_eq_some_iff.mp hd
      simp at hfalse
      exact ⟨hfalse.1, more, by rw [hfalse.2]⟩
    obtain ⟨rfl, more, rfl⟩ := hreturn
    exact ⟨_, rfl, Nat.le_succ 2⟩
  | bracket hbracket => exact absurd (fun d _ => endsBefore_of_bracket? hbracket d) hends
  | newline => exact absurd (fun d _ => rfl) hends
  | continuation => exact absurd (fun d _ => rfl) hends
  | continuationReturn => exact absurd (fun d _ => rfl) hends
  | quoted quote h => exact absurd (fun d _ => rfl) hends

/-- The first lexeme of a text is the longest of its first parts that have a pattern. -/
theorem cut_eq_ok_iff_isLongest : cut c cs = .ok ⟨t, taken, rest⟩ ↔
    IsLongest (c :: cs) t taken rest := by
  constructor
  · intro h
    refine ⟨cut_append h, matches_of_cut h, fun t' taken' rest' happend hmatches => ?_⟩
    obtain ⟨p, hp, hle⟩ := exists_cut_of_matches hmatches happend
    rw [h] at hp
    cases hp
    exact hle
  · rintro ⟨happend, hmatches, hlongest⟩
    obtain ⟨⟨t', taken', rest'⟩, hp, hle⟩ := exists_cut_of_matches hmatches happend
    have hge := hlongest t' taken' rest' (cut_append hp) (matches_of_cut hp)
    have hlength : taken.length = taken'.length := le_antisymm hle hge
    obtain ⟨rfl, rfl⟩ := List.append_inj (happend.trans (cut_append hp).symm) hlength
    rw [hp, token_eq_of_matches hmatches (matches_of_cut hp)]

/-! ## Where no lexeme begins -/

/-- The string that opens with this quote is closed: by a quote of the same kind that is not escaped
and stands in front of the next newline. A backslash that is the last character of a line, or of the
text, breaks the string. -/
def Closes (quote : Quote) (cs : List Char) : Prop :=
  ∃ body rest, IsInside quote.char body ∧ cs = body ++ quote.char :: rest

/-- What can be wrong where a lexeme should begin: a string is not closed, or a backslash is the
last character. -/
inductive IsFault : SyntaxFault → List Char → Prop where
  | unclosedQuote {quote : Quote} {cs : List Char} (h : ¬ Closes quote cs) :
      IsFault .unclosedQuote (quote.char :: cs)
  | strayBackslash : IsFault .strayBackslash ['\\']

theorem isFault_of_cut {fault : SyntaxFault} {seen : List Char}
    (h : cut c cs = .error (fault, seen)) : IsFault fault (c :: cs) := by
  unfold cut at h
  split at h
  · cases h
  split at h
  · cases h
  split at h
  · next hslash =>
    split at h <;> cases h
    rw [hslash]
    exact .strayBackslash
  split at h
  · cases h
  · next quote _ hquote =>
    split at h
    · next hinside =>
      cases h
      rw [← char_of_quote? hquote] at hinside ⊢
      refine .unclosedQuote ?_
      rintro ⟨body, rest, hbody, rfl⟩
      rw [(inside_eq_ok_iff (quote_ne_backslash quote)).mpr ⟨hbody, rfl⟩] at hinside
      cases hinside
    · cases h
  · cases h

/-- At most one thing is wrong in one place. -/
theorem IsFault.fault_eq {fault fault' : SyntaxFault} {text : List Char} (h : IsFault fault text)
    (h' : IsFault fault' text) : fault = fault' := by
  have told : ∀ {fault text}, IsFault fault text →
      fault = if text.head? = some '\\' then .strayBackslash else .unclosedQuote := by
    rintro _ _ (_ | _)
    · simp [quote_ne_backslash]
    · rfl
  exact (told h).trans (told h').symm

/-- Nothing that begins there has a pattern. -/
theorem IsFault.not_matches {fault : SyntaxFault} {text : List Char} (h : IsFault fault text)
    (happend : taken ++ rest = text) : ¬ t.Matches taken := by
  intro hmatches
  cases h with
  | strayBackslash =>
    cases hmatches with
    | space hne hcs =>
      obtain ⟨b, run, rfl⟩ := List.exists_cons_of_ne_nil hne
      obtain ⟨rfl, -⟩ := List.cons_eq_cons.mp happend
      cases hcs '\\' List.mem_cons_self
    | bracket hbracket =>
      cases happend
      cases hbracket
    | quoted quote h => cases quote <;> cases happend
    | word hc =>
      obtain ⟨rfl, -⟩ := List.cons_eq_cons.mp happend
      cases hc
    | _ => cases happend
  | @unclosedQuote quote cs hcloses =>
    cases hmatches with
    | space hne hcs =>
      obtain ⟨b, run, rfl⟩ := List.exists_cons_of_ne_nil hne
      obtain ⟨rfl, -⟩ := List.cons_eq_cons.mp happend
      have hquote := hcs quote.char List.mem_cons_self
      cases quote <;> cases hquote
    | bracket hbracket =>
      cases happend
      cases quote <;> cases hbracket
    | @quoted quote' body h =>
      rw [List.append_assoc, List.cons_append] at happend
      obtain ⟨hchar, hcs⟩ := List.cons_eq_cons.mp happend
      obtain rfl : quote' = quote := by
        cases quote <;> cases quote' <;> first | rfl | cases hchar
      exact hcloses ⟨body, rest, h, hcs.symm⟩
    | word hc hquote =>
      obtain ⟨rfl, -⟩ := List.cons_eq_cons.mp happend
      rw [quote?_char] at hquote
      cases hquote
    | _ => cases quote <;> cases happend

/-- A text cannot be cut where a string is not closed and where a backslash is the last character,
and nowhere else. -/
theorem exists_cut_eq_error_iff :
    (∃ e, cut c cs = .error e) ↔ ∃ fault, IsFault fault (c :: cs) := by
  constructor
  · rintro ⟨⟨fault, seen⟩, h⟩
    exact ⟨fault, isFault_of_cut h⟩
  · rintro ⟨fault, h⟩
    cases hcut : cut c cs with
    | error e => exact ⟨e, rfl⟩
    | ok p => exact absurd (matches_of_cut hcut) (h.not_matches (cut_append hcut))

end Cut

end Lexeme

end WordScript
