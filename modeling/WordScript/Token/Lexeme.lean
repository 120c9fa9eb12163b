import WordScript.SyntaxError
import WordScript.Token

/-!
# Lexemes

A text is cut into lexemes from left to right, each as long as it can be. The first character
decides its kind: blanks and word characters run on, a backslash takes the character after it, a
quote takes everything up to its partner on the same line, and each bracket stands alone.
-/

namespace WordScript

/-- A token and the part of the text that it was read from. -/
structure Lexeme where
  token : Token
  span : Span
deriving DecidableEq, Repr

namespace Lexeme

/-- The blanks that separate words within a line. -/
def isSpace (c : Char) : Bool :=
  c = ' ' || c = '\t' || c = '\r' || c = '\x0c'

/-- The token of a bracket. -/
def bracket? : Char → Option Token
  | '(' => some .leftParen
  | ')' => some .rightParen
  | '{' => some .leftBrace
  | '}' => some .rightBrace
  | '[' => some .leftBracket
  | ']' => some .rightBracket
  | _ => none

/-- The characters that may continue a word. Quotes are among them, though they cannot start one. -/
def isWordChar (c : Char) : Bool :=
  !isSpace c && c != '\n' && c != '\\' && (bracket? c).isNone

/-- The quote that a character opens. -/
def quote? : Char → Option Quote
  | '"' => some .double
  | '\'' => some .single
  | _ => none

/--
Splits a text after the opening quote of a string: the characters as written up to the closing
quote, and the text after it. A string that is not closed gives the characters that could still
belong to it: they end before a newline, and before a backslash with no character on its line.
-/
def inside (quote : Char) : List Char → Except (List Char) (List Char × List Char)
  | [] => .error []
  | '\\' :: c :: cs =>
    if c = '\n' then .error []
    else
      match inside quote cs with
      | .ok (body, rest) => .ok ('\\' :: c :: body, rest)
      | .error seen => .error ('\\' :: c :: seen)
  | c :: cs =>
    if c = quote then .ok ([], cs)
    else if c = '\n' || c = '\\' then .error []
    else
      match inside quote cs with
      | .ok (body, rest) => .ok (c :: body, rest)
      | .error seen => .error (c :: seen)

/-- The character that an escape in a string stands for, if any. -/
def escape? : Char → Option Char
  | 'n' => some '\n'
  | 'r' => some '\r'
  | 't' => some '\t'
  | '\\' => some '\\'
  | '"' => some '"'
  | '\'' => some '\''
  | _ => none

/-- The text that the inside of a string stands for. An unknown escape stands for nothing. -/
def unescape : List Char → List Char
  | '\\' :: c :: cs =>
    match escape? c with
    | some d => d :: unescape cs
    | none => unescape cs
  | c :: cs => if c = '\\' then unescape cs else c :: unescape cs
  | [] => []

/-- The first lexeme of a text: its token, its characters, and the text after it. -/
structure Cut where
  token : Token
  taken : List Char
  rest : List Char

/-- The first lexeme of the text `c :: cs`, or what is wrong with it and how far that reaches. -/
def cut (c : Char) (cs : List Char) : Except (SyntaxFault × List Char) Cut :=
  if isSpace c then
    .ok ⟨.space, c :: cs.takeWhile isSpace, cs.dropWhile isSpace⟩
  else if c = '\n' then
    .ok ⟨.newline, [c], cs⟩
  else if c = '\\' then
    match cs with
    | [] => .error (.strayBackslash, [c])
    | '\n' :: rest => .ok ⟨.continuation, [c, '\n'], rest⟩
    | '\r' :: '\n' :: rest => .ok ⟨.continuation, [c, '\r', '\n'], rest⟩
    | d :: rest => .ok ⟨.escaped d, [c, d], rest⟩
  else
    match bracket? c, quote? c with
    | some token, _ => .ok ⟨token, [c], cs⟩
    | none, some quote =>
      match inside c cs with
      | .error seen => .error (.unclosedQuote, c :: seen)
      | .ok (body, rest) =>
        .ok ⟨.quoted quote (String.ofList (unescape body)), c :: body ++ [c], rest⟩
    | none, none =>
      .ok ⟨.word (String.ofList (c :: cs.takeWhile isWordChar)), c :: cs.takeWhile isWordChar,
        cs.dropWhile isWordChar⟩

/-- A string that is closed is made of its inside, its closing quote and the rest. -/
theorem inside_append {quote : Char} {cs body rest : List Char}
    (h : inside quote cs = .ok (body, rest)) : body ++ quote :: rest = cs := by
  fun_induction inside quote cs generalizing body rest with
  | case1 => simp at h
  | case2 => simp at h
  | case3 c cs hc body' rest' hok ih =>
    simp only [Except.ok.injEq, Prod.mk.injEq] at h
    obtain ⟨rfl, rfl⟩ := h
    simp [ih hok]
  | case4 => simp at h
  | case5 =>
    simp only [Except.ok.injEq, Prod.mk.injEq] at h
    obtain ⟨rfl, rfl⟩ := h
    simp
  | case6 => simp at h
  | case7 c cs _ hc hc' body' rest' hok ih =>
    simp only [Except.ok.injEq, Prod.mk.injEq] at h
    obtain ⟨rfl, rfl⟩ := h
    simp [ih hok]
  | case8 => simp at h

/-- A lexeme and the text after it make up the text. -/
theorem cut_append {c : Char} {cs : List Char} {p : Cut} (h : cut c cs = .ok p) :
    p.taken ++ p.rest = c :: cs := by
  unfold cut at h
  split at h
  · cases h; simp
  · split at h
    · cases h; simp
    · split at h
      · split at h
        · simp at h
        all_goals cases h; simp
      · split at h
        · cases h; simp
        · split at h
          · simp at h
          · next hinside => cases h; simp [inside_append hinside]
        · cases h; simp

/-- A lexeme has at least one character. -/
theorem taken_ne_nil {c : Char} {cs : List Char} {p : Cut} (h : cut c cs = .ok p) :
    p.taken ≠ [] := by
  unfold cut at h
  split at h
  · cases h; simp
  · split at h
    · cases h; simp
    · split at h
      · split at h
        · simp at h
        all_goals cases h; simp
      · split at h
        · cases h; simp
        · split at h
          · simp at h
          · cases h; simp
        · cases h; simp

/-- The text after a lexeme is shorter than the text that it was cut from. -/
theorem length_rest_lt {c : Char} {cs : List Char} {p : Cut} (h : cut c cs = .ok p) :
    p.rest.length < (c :: cs).length := by
  have whole := congrArg List.length (cut_append h)
  have some := List.length_pos_iff.mpr (taken_ne_nil h)
  simp only [List.length_append] at whole
  omega

/--
The lexemes of a text that starts at a byte offset, or the first fault with the span that it
reaches over.
-/
def cutAll (offset : Nat) : List Char → Except (SyntaxFault × Span) (List Lexeme)
  | [] => .ok []
  | c :: cs =>
    match _h : cut c cs with
    | .error (fault, seen) => .error (fault, ⟨offset, offset + Text.byteLength seen⟩)
    | .ok p =>
      let stop := offset + Text.byteLength p.taken
      match cutAll stop p.rest with
      | .error e => .error e
      | .ok lexemes => .ok (⟨p.token, ⟨offset, stop⟩⟩ :: lexemes)
termination_by cs => cs.length
decreasing_by exact length_rest_lt _h

/-- The lexemes of a text, or where it cannot be cut. -/
def ofText (text : List Char) : Except SyntaxError (List Lexeme) :=
  match cutAll 0 text with
  | .error (fault, span) => .error (.inText text fault span)
  | .ok lexemes => .ok lexemes

end Lexeme

end WordScript
