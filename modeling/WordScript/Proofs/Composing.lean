import WordScript.Proofs.Concatenation

/-!
# Reading is compositional

Reading two texts one after the other is reading them as one, when the first can be read and its
last token is a newline. What is read of the second comes after what is read of the first, into the
same arena. What is wrong with the second is wrong with the whole, as far behind as the first text
reaches: so many bytes on, so many lines down, and in the same column.
-/

namespace WordScript

/-- What starts before an offset behind a text is the text and what starts before it behind that. -/
theorem Text.before_append_add (cs ds : List Char) (offset : Nat) :
    before (cs ++ ds) (byteLength cs + offset) = cs ++ before ds offset := by
  induction cs with
  | nil => simp [byteLength]
  | cons c cs ih =>
    have positive := c.utf8Size_pos
    have nonzero : byteLength (c :: cs) + offset ≠ 0 := by
      rw [byteLength]
      omega
    rw [List.cons_append, before, if_neg nonzero, byteLength, Nat.add_assoc,
      Nat.add_sub_cancel_left, ih, List.cons_append]

namespace Position

/-- The position so many lines further down. -/
def below (lines : Nat) (p : Position) : Position := ⟨lines + p.line, p.column⟩

/-- Behind a text that ends in a newline positions are as many lines further down as it has. -/
theorem afterText_append {cs : List Char} (h : cs.getLast? = some '\n') (ds : List Char) :
    afterText (cs ++ ds) = (afterText ds).below (cs.count '\n') := by
  obtain ⟨cs, rfl⟩ := List.getLast?_eq_some_iff.mp h
  simp only [afterText, below, List.count_append, List.reverse_append, Position.mk.injEq]
  refine ⟨by omega, ?_⟩
  -- the column is counted back to the newline and no further
  rw [List.takeWhile_append]
  split
  · next hall => simp [hall]
  · rfl

theorem ofOffset_append {cs : List Char} (h : cs.getLast? = some '\n') (ds : List Char)
    (offset : Nat) :
    ofOffset (cs ++ ds) (Text.byteLength cs + offset) =
      (ofOffset ds offset).below (cs.count '\n') := by
  unfold ofOffset
  rw [Text.before_append_add, afterText_append h]

end Position

namespace SyntaxError

/-- The error when the text that it is in comes after another, which ends in a newline. -/
def behind (e : SyntaxError) (cs : List Char) : SyntaxError :=
  ⟨e.fault, e.span.moved (Text.byteLength cs), e.position.below (cs.count '\n')⟩

theorem inText_append {cs : List Char} (h : cs.getLast? = some '\n') (ds : List Char)
    (fault : SyntaxFault) (span : Span) :
    inText (cs ++ ds) fault (span.moved (Text.byteLength cs)) =
      (inText ds fault span).behind cs := by
  simp only [inText, behind, Span.moved, Position.ofOffset_append h]

end SyntaxError

namespace Statement

/-- A text that cannot be cut cannot be read, for the same reason. -/
theorem ofText_eq_of_cutAll_error {text : String} {fault : SyntaxFault} {span : Span}
    (hcut : Lexeme.cutAll 0 (withFinalNewline text.toList) = .error (fault, span)) (a : Arena) :
    (ofText text a).1 = .error (.inText (withFinalNewline text.toList) fault span) := by
  simp only [ofText, Lexeme.ofText, hcut]

theorem ofText_eq_of_readAll_error {text : String} {a : Arena} {ls : List Lexeme}
    {refusal : Refusal} (hcut : Lexeme.cutAll 0 (withFinalNewline text.toList) = .ok ls)
    (hread : Reader.readAll { arena := a } ls = .error refusal) :
    (ofText text a).1 =
      .error (.inText (withFinalNewline text.toList) refusal.fault refusal.span) := by
  simp only [ofText, Lexeme.ofText, hcut, hread]

/-- A text that cannot be read is wrong in the same way after what has been read before it, up to
the end of a line. -/
theorem ofText_append_error {text text' : String} (hend : EndsLine text) (hne : text' ≠ "")
    {a : Arena} {s : Statement} {e : SyntaxError} (hs : (ofText text a).1 = .ok s)
    (he : (ofText text' (ofText text a).2).1 = .error e) :
    (ofText (text ++ text') a).1 = .error (e.behind text.toList) := by
  have hplaced := SyntaxError.inText_append hend.getLast? (withFinalNewline text'.toList)
  rw [← withFinalNewline_append hne] at hplaced
  obtain ⟨ls, hcut, hbreak, hlines⟩ := exists_lines_of_endsLine hend hs
  generalize (ofText text a).2 = b at he hlines
  cases hcut' : Lexeme.cutAll 0 (withFinalNewline text'.toList) with
  | error p =>
    obtain ⟨fault, span⟩ := p
    have hwhole := Lexeme.cutAll_append_error hcut hbreak hcut'
    rw [← withFinalNewline_append hne, Nat.zero_add] at hwhole
    obtain rfl := Except.error.inj ((ofText_eq_of_cutAll_error hcut' b).symm.trans he)
    rw [ofText_eq_of_cutAll_error hwhole, hplaced]
  | ok ls' =>
    have hwhole := Lexeme.cutAll_append hcut hbreak hcut'
    rw [← withFinalNewline_append hne, Nat.zero_add] at hwhole
    cases hread : Reader.readAll { arena := b } ls' with
    | ok r =>
      rw [ofText_eq_of_readAll hcut' hread] at he
      cases he
    | error refusal =>
      have hafter := Reader.readAll_after
        (p := ⟨.group [], s.body, Text.byteLength text.toList⟩) (r := { arena := b }) ls'
      rw [hread] at hafter
      obtain rfl := Except.error.inj ((ofText_eq_of_readAll_error hcut' hread).symm.trans he)
      rw [ofText_eq_of_readAll_error hwhole ((Reader.readAll_append hlines _).trans hafter)]
      exact congrArg Except.error (hplaced _ _)

/-- Reading is compositional. After a text that can be read and whose last token is a newline, a
text that is not empty is read as it would be alone into the arena that the first one leaves. The
whole can be read if and only if the second text can be read there; what it is read into is what
the first text is read into and then the second, with the same leaves pushed. Otherwise it is wrong
in the same way, moved by as many bytes and lines as the first text takes up. -/
theorem reading_composes {text text' : String} (hparses : Parses text) (hend : EndsLine text)
    (hne : text' ≠ "") (a : Arena) :
    ∃ s b, ofText text a = (.ok s, b) ∧
      ((∃ t, (ofText (text ++ text') a).1 = .ok t) ↔ ∃ s', (ofText text' b).1 = .ok s') ∧
      (∀ s' c, ofText text' b = (.ok s', c) →
        ofText (text ++ text') a = (.ok (.mk (.group []) (s.body ++ s'.body)), c)) ∧
      ∀ e, (ofText text' b).1 = .error e →
        (ofText (text ++ text') a).1 = .error (e.behind text.toList) := by
  obtain ⟨s, hs⟩ := exists_of_parses hparses a
  have hok : ∀ s' c, ofText text' (ofText text a).2 = (.ok s', c) →
      ofText (text ++ text') a = (.ok (.mk (.group []) (s.body ++ s'.body)), c) := by
    intro s' c hs'
    rw [ofText_append hend hne hs (congrArg Prod.fst hs'), hs']
  have herror := fun e => ofText_append_error (e := e) hend hne hs
  refine ⟨s, (ofText text a).2, Prod.ext hs rfl, ⟨?_, ?_⟩, hok, herror⟩
  · rintro ⟨t, ht⟩
    cases hs' : (ofText text' (ofText text a).2).1 with
    | ok s' => exact ⟨s', rfl⟩
    | error e =>
      rw [herror e hs'] at ht
      cases ht
  · rintro ⟨s', hs'⟩
    exact ⟨_, congrArg Prod.fst (hok s' _ (Prod.ext hs' rfl))⟩

/-- Behind a block, a string on a line that is joined, which can be read; and a bracket that closes
nothing, which stands sixteen bytes and three lines further down in the whole. -/
theorem reading_composes_block :
    (Parses "é \x7b\n  a[(b)]\n\x7d\n" ∧ EndsLine "é \x7b\n  a[(b)]\n\x7d\n") ∧
    (∃ s b s' c, ofText "é \x7b\n  a[(b)]\n\x7d\n" .empty = (.ok s, b) ∧
      ofText "c\\\n'd'" b = (.ok s', c) ∧
      ofText "é \x7b\n  a[(b)]\n\x7d\nc\\\n'd'" .empty =
        (.ok (.mk (.group []) (s.body ++ s'.body)), c)) ∧
    (ofText "é \x7b\n  a[(b)]\n\x7d\né )" .empty).1 =
      .error ⟨.unmatched ')', ⟨19, 20⟩, ⟨4, 3⟩⟩ := by
  have hparses : Parses "é \x7b\n  a[(b)]\n\x7d\n" := by decide +kernel
  have hend : EndsLine "é \x7b\n  a[(b)]\n\x7d\n" := by decide +kernel
  refine ⟨⟨hparses, hend⟩, ?_, ?_⟩
  · obtain ⟨s, b, hs, -, happend, -⟩ :=
      @reading_composes _ "c\\\n'd'" hparses hend (by decide) .empty
    have hparses' : Parses "c\\\n'd'" := by decide +kernel
    obtain ⟨s', hs'⟩ := exists_of_parses hparses' b
    exact ⟨s, b, s', _, hs, Prod.ext hs' rfl, happend s' _ (Prod.ext hs' rfl)⟩
  · obtain ⟨s, b, hs, -, -, hfails⟩ :=
      @reading_composes _ "é )" hparses hend (by decide) .empty
    have he : ((ofText "é )" b).1.map fun _ => ()) = .error ⟨.unmatched ')', ⟨3, 4⟩, ⟨1, 3⟩⟩ := by
      obtain rfl : (ofText "é \x7b\n  a[(b)]\n\x7d\n" .empty).2 = b := congrArg Prod.snd hs
      decide +kernel
    cases he' : (ofText "é )" b).1 with
    | ok s' =>
      rw [he'] at he
      cases he
    | error e =>
      rw [he'] at he
      have hplaced := hfails e he'
      rw [Except.error.inj he] at hplaced
      exact hplaced.trans (congrArg Except.error (by decide +kernel))

end Statement

end WordScript
