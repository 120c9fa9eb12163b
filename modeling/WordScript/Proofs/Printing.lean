import WordScript.Proofs.Leaves
import WordScript.Proofs.Patterns

/-!
# Writing statements

A statement is written as tokens, and tokens as text. Names are written with every character
escaped, so that any name without a newline can be written; integers are written in digits and
strings in quotes. The tokens that are written are such that the text can be cut into them again:
a space ends every leaf and every group.
-/

namespace WordScript

/-! ## Texts -/

/-- The character inside a string, as it is written. -/
def Lexeme.escape : Char → List Char
  | '\\' => ['\\', '\\']
  | '"' => ['\\', '"']
  | '\'' => ['\\', '\'']
  | '\n' => ['\\', 'n']
  | '\r' => ['\\', 'r']
  | '\t' => ['\\', 't']
  | c => [c]

namespace Token

/-- The text of a token. -/
def spelling : Token → List Char
  | space => [' ']
  | newline => ['\n']
  | leftParen => ['(']
  | rightParen => [')']
  | leftBrace => ['{']
  | rightBrace => ['}']
  | leftBracket => ['[']
  | rightBracket => [']']
  | continuation => ['\\', '\n']
  | escaped c => ['\\', c]
  | quoted quote text => quote.char :: text.toList.flatMap Lexeme.escape ++ [quote.char]
  | word text => text.toList

/-- The text of tokens. -/
def spell (ts : List Token) : List Char := ts.flatMap spelling

/-- The tokens of members one after the other, when `width` says how many leaves a member has and
they are counted from `k` on. -/
def inTurn {α : Type} (tokens : Nat → α → List Token) (width : α → Nat) (k : Nat) :
    List α → List Token
  | [] => []
  | x :: xs => tokens k x ++ inTurn tokens width (k + width x) xs

end Token

/-! ## Tokens -/

/-- The tokens of an identifier that a program can write: a name with every character escaped, an
integer in decimal digits, or a string in the given quotes. -/
def Identifier.tokens (quote : Quote) (i : Identifier) : List Token :=
  match i.role, i.value with
  | .undefined, _ => i.surface.toList.map .escaped
  | .constant, .int n => [.word (Number.integerText n.toInt)]
  | .constant, .string text => [.quoted quote text]
  | _, _ => []

/-- The tokens of the identifier that a handle refers to. -/
def Arena.tokens (a : Arena) (quote : Quote) (h : Handle) : List Token :=
  match a.get? h with
  | some i => i.tokens quote
  | none => []

namespace Expression

mutual

/-- The tokens of an expression: a space follows each leaf, and a group stands in parentheses. The
leaves are counted from `k` on, to choose the quotes of each string. -/
def tokens (a : Arena) (style : Nat → Quote) (k : Nat) : Expression → List Token
  | leaf h => a.tokens (style k) h ++ [.space]
  | group es => .leftParen :: tokensOf a style k es ++ [.rightParen, .space]

/-- The tokens of expressions side by side. -/
def tokensOf (a : Arena) (style : Nat → Quote) (k : Nat) : List Expression → List Token
  | [] => []
  | e :: es => e.tokens a style k ++ tokensOf a style (k + e.leaves.length) es

end

theorem tokensOf_eq (a : Arena) (style : Nat → Quote) (k : Nat) (es : List Expression) :
    tokensOf a style k es = Token.inTurn (tokens a style) (·.leaves.length) k es := by
  induction es generalizing k with
  | nil => rfl
  | cons e es ih => rw [tokensOf, Token.inTurn, ih]

end Expression

namespace Statement

mutual

/-- The tokens of a statement: what stands in its head, and then a newline, or the statements of
its body in braces. -/
def tokens (a : Arena) (style : Nat → Quote) (k : Nat) : Statement → List Token
  | mk head body =>
    Expression.tokensOf a style k head.children ++
      if body.isEmpty then [.newline]
      else .leftBrace :: tokensOf a style (k + head.leaves.length) body ++ [.rightBrace]

/-- The tokens of statements one below the other. -/
def tokensOf (a : Arena) (style : Nat → Quote) (k : Nat) : List Statement → List Token
  | [] => []
  | s :: ss => s.tokens a style k ++ tokensOf a style (k + s.leaves.length) ss

end

theorem tokensOf_eq (a : Arena) (style : Nat → Quote) (k : Nat) (ss : List Statement) :
    tokensOf a style k ss = Token.inTurn (tokens a style) (·.leaves.length) k ss := by
  induction ss generalizing k with
  | nil => rfl
  | cons s ss ih => rw [tokensOf, Token.inTurn, ih]

/-- The text of the statements in the body. -/
def print (a : Arena) (style : Nat → Quote) (s : Statement) : String :=
  String.ofList (Token.spell (tokensOf a style 0 s.body))

end Statement

/-! ## Strings -/

namespace Lexeme

theorem unescape_escape (c : Char) (cs : List Char) :
    unescape (escape c ++ cs) = c :: unescape cs := by
  unfold escape
  split <;> simp_all [unescape, escape?]

theorem unescape_flatMap_escape (cs : List Char) : unescape (cs.flatMap escape) = cs := by
  induction cs with
  | nil => rfl
  | cons c cs ih => rw [List.flatMap_cons, unescape_escape, ih]

/-- An escaped character may stand in any string. -/
theorem isInside_escape (quote : Quote) (c : Char) {body : List Char}
    (h : IsInside quote.char body) : IsInside quote.char (escape c ++ body) := by
  unfold escape
  split
  case h_7 _ hslash hdouble hsingle hnewline _ _ =>
    have hquote : c ≠ quote.char := by cases quote <;> assumption
    exact .plain hquote hnewline hslash h
  all_goals exact .escaped (by decide) h

theorem isInside_flatMap_escape (quote : Quote) (cs : List Char) :
    IsInside quote.char (cs.flatMap escape) := by
  induction cs with
  | nil => exact .nil
  | cons c cs ih =>
    rw [List.flatMap_cons]
    exact isInside_escape quote c ih

end Lexeme

/-! ## Integers -/

namespace Number

theorem isDigit_of_mem_toDigits {n : Nat} {c : Char} (hc : c ∈ Nat.toDigits 10 n) :
    c.isDigit = true :=
  Nat.isDigit_of_mem_toDigits (by decide) (by decide) hc

theorem natural?_toDigits (n : Nat) : natural? (Nat.toDigits 10 n) = some n := by
  unfold natural?
  have hall : (Nat.toDigits 10 n).all Char.isDigit = true :=
    List.all_eq_true.mpr fun c hc => isDigit_of_mem_toDigits hc
  rw [if_pos ⟨Nat.toDigits_ne_nil, hall⟩, Nat.ofDigitChars_toDigits (by decide) (by decide)]

/-- A text that begins with a digit has no sign. -/
theorem splitSign_of_isDigit {cs : List Char} (h : ∀ c ∈ cs, c.isDigit = true) :
    splitSign cs = (false, cs) := by
  unfold splitSign
  split
  · exact absurd (h _ List.mem_cons_self) (by decide)
  · exact absurd (h _ List.mem_cons_self) (by decide)
  · rfl

/-- The text of an integer: a minus if it is negative, and digits. -/
theorem toList_integerText (i : Int) :
    (integerText i).toList = (if i < 0 then ['-'] else []) ++ Nat.toDigits 10 i.natAbs := by
  unfold integerText
  split
  · simp [toString, Nat.repr]
  · simp [toString, Nat.repr]

theorem integer?_integerText (i : Int) : integer? (integerText i).toList = some i := by
  have hdigits := natural?_toDigits i.natAbs
  have hsign := splitSign_of_isDigit fun c (hc : c ∈ Nat.toDigits 10 i.natAbs) =>
    isDigit_of_mem_toDigits hc
  rw [toList_integerText]
  by_cases hneg : i < 0
  · simp only [hneg, if_true, integer?, List.cons_append, List.nil_append, splitSign, hdigits,
      Option.map_some, signed]
    congr 1
    omega
  · simp only [hneg, if_false, integer?, List.nil_append, hsign, hdigits, Option.map_some, signed]
    have : (i.natAbs : Int) = i := by omega
    simpa using this

theorem int64?_integerText (n : Int64) : int64? (integerText n.toInt).toList = some n := by
  unfold int64?
  rw [integer?_integerText]
  have hlow := n.le_toInt
  have hhigh := n.toInt_lt
  simp only
  rw [if_pos ⟨hlow, hhigh⟩, Int64.ofInt_toInt]

end Number

theorem Identifier.ofWord_integerText (n : Int64) :
    Identifier.ofWord (Number.integerText n.toInt) = .int n := by
  unfold ofWord
  rw [Number.int64?_integerText]

/-! ## Cutting what is written -/

namespace Lexeme

/-- The characters of integers can start a word and continue it. -/
theorem isWordChar_of_mem_integerText {n : Int} {c : Char}
    (hc : c ∈ (Number.integerText n).toList) : isWordChar c = true ∧ quote? c = none := by
  have hcases : c = '-' ∨ c.isDigit = true := by
    rw [Number.toList_integerText] at hc
    rcases List.mem_append.mp hc with hc | hc
    · split at hc
      · exact .inl (List.mem_singleton.mp hc)
      · cases hc
    · exact .inr (Number.isDigit_of_mem_toDigits hc)
  rcases hcases with rfl | hdigit
  · decide
  · have hne : ∀ d : Char, d.isDigit = false → c ≠ d := by
      rintro d hd rfl
      rw [hdigit] at hd
      cases hd
    have hbracket : bracket? c = none := by
      unfold bracket?
      split <;> first | rfl | exact absurd hdigit (by decide)
    have hquote : quote? c = none := by
      unfold quote?
      split <;> first | rfl | exact absurd hdigit (by decide)
    refine ⟨?_, hquote⟩
    simp [isWordChar, isSpace, hbracket, hne ' ' rfl, hne '\t' rfl, hne '\r' rfl, hne '\x0c' rfl,
      hne '\n' rfl, hne '\\' rfl]

end Lexeme

namespace Token

open Lexeme (Lexes isSpace isWordChar)

/-- The text of the tokens is cut into these tokens again, and does not begin with a blank. -/
structure Clean (ts : List Token) : Prop where
  lexes : Lexes (spell ts) ts
  start : ∀ c ∈ (spell ts).head?, isSpace c = false

section Clean

variable {ts : List Token} {t : Token}

theorem spell_cons (t : Token) (ts : List Token) : spell (t :: ts) = t.spelling ++ spell ts :=
  List.flatMap_cons

theorem clean_nil : Clean [] :=
  ⟨.nil, by simp [spell]⟩

/-- A token is cut off the text behind it if it is at an end where that begins. -/
theorem lexes_spell_cons (ht : t.Matches t.spelling) (hends : t.EndsBefore (spell ts))
    (hts : Lexes (spell ts) ts) : Lexes (spell (t :: ts)) (t :: ts) := by
  obtain ⟨c, cs, hspell⟩ := List.exists_cons_of_ne_nil ht.ne_nil
  have hcut : Lexeme.cut c (cs ++ spell ts) = .ok ⟨t, t.spelling, spell ts⟩ :=
    Lexeme.cut_of_matches ht (by rw [hspell, List.cons_append]) hends
  rw [spell_cons, hspell, List.cons_append]
  exact .cons hcut hts

theorem clean_cons (hspace : t ≠ space) (ht : t.Matches t.spelling)
    (hends : t.EndsBefore (spell ts)) (hts : Lexes (spell ts) ts) : Clean (t :: ts) := by
  refine ⟨lexes_spell_cons ht hends hts, fun c hc => ?_⟩
  rw [spell_cons, List.head?_append_of_ne_nil _ ht.ne_nil] at hc
  simpa [endsBefore] using endsBefore_space hspace ht c hc

/-- Whether the token is one character that stands for itself wherever it stands. -/
def isMark : Token → Bool
  | newline | leftParen | rightParen | leftBrace | rightBrace | leftBracket | rightBracket => true
  | _ => false

theorem endsBefore_of_isMark (ht : t.isMark = true) (cs : List Char) : t.EndsBefore cs := by
  intro d _
  cases t <;> first | rfl | cases ht

theorem clean_mark (ht : t.isMark = true) (hts : Lexes (spell ts) ts) : Clean (t :: ts) := by
  have hmatches : t.Matches t.spelling := by
    cases t <;> first | exact .newline | exact .bracket rfl | cases ht
  refine clean_cons ?_ hmatches (endsBefore_of_isMark ht _) hts
  rintro rfl
  cases ht

/-- A space is a token of its own in front of what is not a blank. -/
theorem Clean.lexes_space (h : Clean ts) : Lexes (spell (space :: ts)) (space :: ts) := by
  refine lexes_spell_cons (matches_space_iff.mpr ?_) (fun c hc => ?_) h.lexes
  · simp [spelling, isSpace]
  · simp [endsBefore, h.start c hc]

theorem clean_quoted (quote : Quote) (text : String) (hts : Lexes (spell ts) ts) :
    Clean (quoted quote text :: ts) := by
  have hmatches := Matches.quoted quote (Lexeme.isInside_flatMap_escape quote text.toList)
  rw [Lexeme.unescape_flatMap_escape, String.ofList_toList] at hmatches
  exact clean_cons (fun h => by cases h) hmatches (fun _ _ => rfl) hts

theorem integerText_ne_nil (n : Int) : (Number.integerText n).toList ≠ [] := by
  rw [Number.toList_integerText]
  simp

theorem clean_integerText (n : Int) (hts : Lexes (spell (space :: ts)) (space :: ts)) :
    Clean (word (Number.integerText n) :: space :: ts) := by
  have hword : ∀ c ∈ (Number.integerText n).toList, _ := fun c =>
    Lexeme.isWordChar_of_mem_integerText
  have hmatches : (word (Number.integerText n)).Matches (Number.integerText n).toList := by
    obtain ⟨c, cs, htext⟩ := List.exists_cons_of_ne_nil (integerText_ne_nil n)
    rw [← String.ofList_toList (s := Number.integerText n), String.toList_ofList]
    rw [htext] at hword ⊢
    obtain ⟨⟨hc, hquote⟩, hcs⟩ := List.forall_mem_cons.mp hword
    exact .word hc hquote fun d hd => (hcs d hd).1
  refine clean_cons (fun h => by cases h) hmatches (fun c hc => ?_) hts
  cases hc
  rfl

theorem clean_escaped {c : Char} (hc : c ≠ '\n') (hnext : (spell ts).head? ≠ some '\n')
    (hts : Lexes (spell ts) ts) : Clean (escaped c :: ts) := by
  refine clean_cons (fun h => by cases h) (.escaped hc) (fun d hd => ?_) hts
  have hd' : d ≠ '\n' := by
    rintro rfl
    exact hnext hd
  simp [endsBefore, hd']

theorem clean_map_escaped {cs : List Char} (hne : cs ≠ []) (hcs : '\n' ∉ cs)
    (hts : Lexes (spell (space :: ts)) (space :: ts)) :
    Clean (cs.map escaped ++ space :: ts) := by
  induction cs with
  | nil => exact absurd rfl hne
  | cons c cs ih =>
    rw [List.mem_cons, not_or] at hcs
    obtain ⟨hc, hcs⟩ := hcs
    cases cs with
    | nil => exact clean_escaped (Ne.symm hc) (by simp [spell, spelling]) hts
    | cons d cs =>
      exact clean_escaped (Ne.symm hc) (by simp [spell, spelling])
        (ih (List.cons_ne_nil d cs) hcs).lexes

theorem clean_inTurn {α : Type} {tokens : Nat → α → List Token} {width : α → Nat} {xs : List α}
    (hxs : ∀ x ∈ xs, ∀ k ts, Clean ts → Clean (tokens k x ++ ts)) (hts : Clean ts) (k : Nat) :
    Clean (inTurn tokens width k xs ++ ts) := by
  induction xs generalizing k with
  | nil => exact hts
  | cons x xs ih =>
    obtain ⟨hx, hxs⟩ := List.forall_mem_cons.mp hxs
    rw [inTurn, List.append_assoc]
    exact hx k _ (ih hxs (k + width x))

end Clean

end Token

/-! ## What can be written -/

/-- The identifiers that a program can write: names that are read as names, integers and strings. -/
inductive Identifier.IsPrintable : Identifier → Prop where
  | name {word : String} (hne : word ≠ "") (hline : '\n' ∉ word.toList)
      (hword : ofWord word = .name word 0) : IsPrintable (.name word 0)
  | int (n : Int64) : IsPrintable (.int n)
  | string (text : String) : IsPrintable (.string text)

/-- Every handle refers to an identifier that a program can write. -/
def Arena.AllPrintable (a : Arena) (hs : List Handle) : Prop :=
  ∀ h ∈ hs, ∃ i, a.get? h = some i ∧ i.IsPrintable

theorem Arena.AllPrintable.of_mem {a : Arena} {α : Type} {f : α → List Handle} {xs : List α} {x : α}
    (h : a.AllPrintable (xs.flatMap f)) (hx : x ∈ xs) : a.AllPrintable (f x) :=
  fun k hk => h k (List.mem_flatMap.mpr ⟨x, hx, hk⟩)

/-- Every head is a group. -/
inductive Statement.HasGroupHeads : Statement → Prop where
  | mk {es : List Expression} {body : List Statement} (hbody : ∀ s ∈ body, HasGroupHeads s) :
      HasGroupHeads (.mk (.group es) body)

/-- Statements that a program text can be written for: nothing stands in the head, and the last
statement of the body is a line. -/
structure Statement.IsPrintable (a : Arena) (s : Statement) : Prop where
  head : s.head = .group []
  last : ∃ ss e, s.body = ss ++ [.line e]
  heads : s.HasGroupHeads
  leaves : a.AllPrintable s.leaves

section Clean

open Token (Clean spell)

variable {a : Arena} {style : Nat → Quote} {k : Nat} {ts : List Token}

theorem Identifier.IsPrintable.clean {i : Identifier} (hi : i.IsPrintable) (quote : Quote)
    (hts : Clean ts) : Clean (i.tokens quote ++ .space :: ts) := by
  cases hi with
  | @name word hne hline _ =>
    have hne' : word.toList ≠ [] := by simpa using hne
    exact Token.clean_map_escaped hne' hline hts.lexes_space
  | int n => exact Token.clean_integerText n.toInt hts.lexes_space
  | string text => exact Token.clean_quoted quote text hts.lexes_space

theorem Expression.clean_tokens {e : Expression} (hleaves : a.AllPrintable e.leaves)
    (hts : Clean ts) : Clean (e.tokens a style k ++ ts) := by
  induction e using Expression.induction generalizing k ts with
  | leaf h =>
    obtain ⟨i, hget, hi⟩ := hleaves h (by simp [leaves])
    simp only [tokens, Arena.tokens, hget, List.append_assoc, List.singleton_append]
    exact hi.clean (style k) hts
  | group es ih =>
    rw [leaves, leavesOf_eq] at hleaves
    have hend : Clean (.rightParen :: .space :: ts) := Token.clean_mark rfl hts.lexes_space
    have hes : Clean (tokensOf a style k es ++ .rightParen :: .space :: ts) := by
      rw [tokensOf_eq]
      exact Token.clean_inTurn (fun e he k ts hts => ih e he (hleaves.of_mem he) hts) hend k
    rw [tokens, List.cons_append, List.cons_append, List.append_assoc]
    exact Token.clean_mark rfl hes.lexes

theorem Expression.clean_tokensOf {es : List Expression} (hleaves : a.AllPrintable (leavesOf es))
    (hts : Clean ts) : Clean (tokensOf a style k es ++ ts) := by
  rw [leavesOf_eq] at hleaves
  rw [tokensOf_eq]
  exact Token.clean_inTurn (fun e he k ts hts => clean_tokens (hleaves.of_mem he) hts) hts k

theorem Statement.clean_tokens {s : Statement} (hheads : s.HasGroupHeads)
    (hleaves : a.AllPrintable s.leaves) (hts : Clean ts) : Clean (s.tokens a style k ++ ts) := by
  induction s using Statement.induction generalizing k ts with
  | mk head body ih =>
    obtain ⟨hheads⟩ := hheads
    next es =>
      obtain ⟨hleaves, hleaves'⟩ := List.forall_mem_append.mp hleaves
      rw [leavesOf_eq] at hleaves'
      rw [tokens, List.append_assoc]
      refine Expression.clean_tokensOf hleaves ?_
      split
      · exact Token.clean_mark rfl hts.lexes
      · have hend : Clean (.rightBrace :: ts) := Token.clean_mark rfl hts.lexes
        have hbody : Clean (tokensOf a style (k + (Expression.group es).leaves.length) body ++
            .rightBrace :: ts) := by
          rw [tokensOf_eq]
          exact Token.clean_inTurn (fun s hs k ts hts =>
            ih s hs (hheads s hs) (Arena.AllPrintable.of_mem hleaves' hs) hts) hend _
        rw [List.cons_append, List.cons_append, List.append_assoc]
        exact Token.clean_mark rfl hbody.lexes

theorem Statement.clean_tokensOf {ss : List Statement} (hheads : ∀ s ∈ ss, s.HasGroupHeads)
    (hleaves : a.AllPrintable (leavesOf ss)) (hts : Clean ts) :
    Clean (tokensOf a style k ss ++ ts) := by
  rw [leavesOf_eq] at hleaves
  rw [tokensOf_eq]
  exact Token.clean_inTurn
    (fun s hs k ts hts => clean_tokens (hheads s hs) (hleaves.of_mem hs) hts) hts k

/-- The tokens of statements end in a newline when the last of them is a line. -/
theorem Statement.exists_tokensOf_concat (ss : List Statement) (e : Expression) :
    ∃ ts, tokensOf a style k (ss ++ [.line e]) = ts ++ [.newline] := by
  induction ss generalizing k with
  | nil => exact ⟨Expression.tokensOf a style k e.children, by simp [tokensOf, tokens, line]⟩
  | cons s ss ih =>
    obtain ⟨ts, hts⟩ := ih (k := k + s.leaves.length)
    refine ⟨s.tokens a style k ++ ts, ?_⟩
    rw [List.cons_append, tokensOf, hts, List.append_assoc]

namespace Statement.IsPrintable

variable {s : Statement}

theorem heads_body (hs : s.IsPrintable a) : ∀ t ∈ s.body, t.HasGroupHeads := by
  obtain ⟨hbody⟩ := hs.heads
  exact hbody

theorem leaves_body (hs : s.IsPrintable a) : a.AllPrintable (leavesOf s.body) := by
  have hleaves := hs.leaves
  rw [leaves_eq] at hleaves
  exact (List.forall_mem_append.mp hleaves).2

/-- The text of a statement is cut into its tokens. -/
theorem lexes (hs : s.IsPrintable a) (style : Nat → Quote) :
    Lexeme.Lexes (s.print a style).toList (Statement.tokensOf a style 0 s.body) := by
  have hclean : Clean (Statement.tokensOf a style 0 s.body ++ []) :=
    Statement.clean_tokensOf hs.heads_body hs.leaves_body Token.clean_nil
  rw [List.append_nil] at hclean
  rw [print, String.toList_ofList]
  exact hclean.lexes

/-- The text of a statement ends in a newline, that of its last line. -/
theorem getLast?_print (hs : s.IsPrintable a) (style : Nat → Quote) :
    (s.print a style).toList.getLast? = some '\n' := by
  obtain ⟨ss, e, hbody⟩ := hs.last
  obtain ⟨ts, hts⟩ := Statement.exists_tokensOf_concat (a := a) (k := 0) ss e
  rw [print, String.toList_ofList, hbody, hts]
  simp [spell, Token.spelling]

end Statement.IsPrintable

end Clean

end WordScript
