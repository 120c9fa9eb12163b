import WordScript.Proofs.Handles
import WordScript.Proofs.Reading

/-!
# What a text writes

The identifiers that a text writes can be told from its tokens: one for each longest run of pieces
of a word, one for each string, and the operator of each index. A text that can be read pushes
exactly these onto the arena, in this order, and the leaves of the statement that it is read into
are their handles, in the same order, each once. No expression is lost, doubled or moved when it is
taken into an index, a group, a head or a block. Whatever was in the arena before stays as it was,
also when the text is refused.
-/

namespace WordScript

/-! ## The identifiers of tokens -/

namespace Token

/-- The characters of a token that is a piece of a word. -/
def piece? : Token → Option String
  | word text => some text
  | escaped c => some c.toString
  | _ => none

/-- Whether the token is a piece of a word. -/
def isPiece (t : Token) : Bool := t.piece?.isSome

/-- The identifiers that a token writes when it is not a piece of a word. -/
def own : Token → List Identifier
  | quoted _ text => [.string text]
  | leftBracket => [.name indexWord 0]
  | _ => []

/-- The identifiers that tokens write: one for each longest run of pieces of a word, one for each
string, and the operator of each index. -/
def identifiers : List Token → List Identifier
  | [] => []
  | t :: ts =>
    if t.isPiece then
      .ofWord (String.join ((t :: ts.takeWhile isPiece).filterMap piece?)) ::
        identifiers (ts.dropWhile isPiece)
    else t.own ++ identifiers ts
termination_by ts => ts.length
decreasing_by
  · exact Nat.lt_succ_of_le (List.dropWhile_sublist _).length_le
  · exact Nat.lt_succ_self _

/-- The identifier of a word that has ended, if there was one. -/
def ended (word : Option String) : List Identifier :=
  word.toList.map .ofWord

/-- The identifiers that tokens write after a word that may have begun. -/
def identifiersAfter (word : Option String) : List Token → List Identifier
  | [] => ended word
  | t :: ts =>
    match t.piece? with
    | some text => identifiersAfter (some (word.getD "" ++ text)) ts
    | none => ended word ++ t.own ++ identifiersAfter none ts

theorem identifiersAfter_some (word : String) (ts : List Token) :
    identifiersAfter (some word) ts =
      .ofWord (word ++ String.join ((ts.takeWhile isPiece).filterMap piece?)) ::
        identifiersAfter none (ts.dropWhile isPiece) := by
  induction ts generalizing word with
  | nil => simp [identifiersAfter, ended]
  | cons t ts ih =>
    cases ht : t.piece? with
    | some text => simp [identifiersAfter, isPiece, ht, ih, String.append_assoc]
    | none => simp [identifiersAfter, isPiece, ht, ended]

/-- Tokens are read piece by piece into the identifiers of their longest runs. -/
theorem identifiersAfter_none (ts : List Token) : identifiersAfter none ts = identifiers ts := by
  fun_induction identifiers ts with
  | case1 => rfl
  | case2 t ts ht ih =>
    obtain ⟨text, htext⟩ := Option.isSome_iff_exists.mp ht
    simp [identifiersAfter, htext, identifiersAfter_some, ih]
  | case3 t ts ht ih =>
    have hnone : t.piece? = none := by simpa [isPiece] using ht
    simp [identifiersAfter, hnone, ended, ih]

end Token

theorem Token.isWritten_of_mem_own {t : Token} {i : Identifier} (hi : i ∈ t.own) : i.IsWritten := by
  cases t <;> simp only [own, List.mem_singleton, List.not_mem_nil] at hi <;> subst hi
  · exact .name indexWord
  · exact .literal (.string _)

/-- Tokens write constants and undefined names only. -/
theorem Token.isWritten_of_mem_identifiers {ts : List Token} {i : Identifier}
    (hi : i ∈ identifiers ts) : i.IsWritten := by
  fun_induction identifiers ts with
  | case1 => cases hi
  | case2 t ts ht ih =>
    rcases List.mem_cons.mp hi with rfl | hi
    · exact Identifier.isWritten_ofWord _
    · exact ih hi
  | case3 t ts ht ih =>
    rcases List.mem_append.mp hi with hi | hi
    · exact isWritten_of_mem_own hi
    · exact ih hi

/-! ## What a reader adds -/

namespace Reader

variable {r t : Reader} {x : Except Refusal Reader} {is js : List Identifier}

theorem pending_eq (r : Reader) : r.pending = Token.ended r.word := by
  unfold pending Token.ended
  cases r.word <;> rfl

/-- When reading goes on, the identifiers have been added and no word has begun. -/
def Yields (is : List Identifier) (r : Reader) (x : Except Refusal Reader) : Prop :=
  ∀ t, x = .ok t → Adds is r t ∧ t.word = none

theorem Yields.ok (h : Adds is r t) (hword : t.word = none) : Yields is r (.ok t) := by
  rintro t' ht
  cases ht
  exact ⟨h, hword⟩

theorem yields_refuse (fault : SyntaxFault) (span : Span) : Yields is r (r.refuse fault span) :=
  fun _ ht => by cases ht

theorem Yields.bind {f : Reader → Except Refusal Reader} (h : Yields is r x)
    (hf : ∀ t, t.word = none → Yields js t (f t)) : Yields (is ++ js) r (x >>= f) := by
  intro u hu
  cases x with
  | error refusal => cases hu
  | ok t =>
    obtain ⟨hadds, hword⟩ := h t rfl
    obtain ⟨hadds', hword'⟩ := hf t hword u hu
    exact ⟨hadds.trans hadds', hword'⟩

/-- What ends the word adds its identifier first. -/
theorem Yields.of_endWord (h : Yields is r.endWord x) : Yields (Token.ended r.word ++ is) r x := by
  rw [← pending_eq]
  intro t ht
  obtain ⟨hadds, hword⟩ := h t ht
  exact ⟨(adds_endWord r).trans hadds, hword⟩

theorem yields_closeGroup (hword : r.word = none) (opener : Opener) (span : Span) :
    Yields [] r (r.closeGroup opener span) := by
  unfold closeGroup
  split
  · next g gs hgroups =>
    split
    · exact .ok (adds_closed hgroups) ((word_addExpression _ _).trans hword)
    · exact yields_refuse _ _
  · exact yields_refuse _ _

/-- An index adds the word in front of it, if one has begun, and its operator. -/
theorem yields_openIndex (r : Reader) (span : Span) :
    Yields (Token.ended r.word ++ [.name indexWord 0]) r (r.openIndex span) := by
  have operator : Identifier.ofWord indexWord = .name indexWord 0 := by decide
  unfold openIndex
  rw [← operator]
  cases hword : r.word with
  | some word =>
    have htakes : Takes [.ofWord word] r ({ r with word := none }.newLeaf (.ofWord word)).1
        ({ r with word := none }.newLeaf (.ofWord word)).2 := ⟨rfl, rfl⟩
    exact .ok (htakes.adds span) rfl
  | none =>
    cases htake : r.takeExpression? with
    | none => exact yields_refuse _ _
    | some p =>
      exact .ok ((takes_takeExpression? htake).adds span)
        ((word_takeExpression? htake).trans hword)

theorem yields_requireClosed {f : Reader → Except Refusal Reader}
    (hf : r.groups = [] → Yields is r (f r)) : Yields is r (r.requireClosed >>= f) := by
  unfold requireClosed
  split
  · intro t ht
    cases ht
  · next hgroups => exact hf hgroups

theorem yields_endLine (r : Reader) : Yields (Token.ended r.word ++ []) r r.endLine :=
  .of_endWord <| yields_requireClosed fun hgroups => .ok (adds_line hgroups) (by simp)

theorem yields_openBlock (r : Reader) (span : Span) :
    Yields (Token.ended r.word ++ []) r (r.openBlock span) :=
  .of_endWord <| yields_requireClosed fun hgroups => .ok (adds_openBlock hgroups span) (by simp)

theorem yields_closeBlock (r : Reader) (span : Span) :
    Yields (Token.ended r.word ++ []) r (r.closeBlock span) := by
  refine .of_endWord (yields_requireClosed fun hgroups => ?_)
  split
  · exact yields_refuse _ _
  · next b bs hblocks => exact .ok (adds_closeBlock hgroups hblocks) (by simp)

theorem yields_finish (r : Reader) : Yields (Token.ended r.word ++ []) r r.finish := by
  refine .of_endWord (yields_requireClosed fun hgroups => ?_)
  split
  · exact yields_refuse _ _
  · split
    · exact .ok (.refl _) (by simp)
    · exact .ok (adds_line hgroups) (by simp)

/-- A piece of a word adds nothing yet. -/
theorem readToken_of_piece? {token : Token} {text : String} (h : token.piece? = some text)
    (span : Span) : r.readToken token span = .ok (r.addToWord text) := by
  cases token <;> cases h <;> rfl

/-- Any other token ends the word, and adds what it writes itself. -/
theorem yields_readToken {token : Token} (h : token.piece? = none) (span : Span) :
    Yields (Token.ended r.word ++ token.own) r (r.readToken token span) := by
  cases token with
  | word text => cases h
  | escaped c => cases h
  | space => exact .of_endWord (.ok (.refl _) (word_endWord r))
  | continuation => exact .of_endWord (.ok (.refl _) (word_endWord r))
  | newline => exact yields_endLine r
  | quoted quote text =>
    exact .of_endWord (.ok (adds_addLeaf r.endWord (.string text)) (by simp))
  | leftParen => exact .of_endWord (.ok (adds_openGroup r.endWord _ span) (word_endWord r))
  | rightParen => exact .of_endWord (yields_closeGroup (word_endWord r) _ _)
  | leftBracket => exact yields_openIndex r span
  | rightBracket =>
    exact .of_endWord ((yields_closeGroup (word_endWord r) _ _).bind
      fun t hword => yields_closeGroup hword _ _)
  | leftBrace => exact yields_openBlock r span
  | rightBrace => exact yields_closeBlock r span

/-- Lexemes add what their tokens write after the word that has begun. -/
theorem adds_foldlM {lexemes : List Lexeme} (h : lexemes.foldlM read r = .ok t)
    (hx : Yields (Token.ended t.word) t x) :
    Yields (Token.identifiersAfter r.word (lexemes.map Lexeme.token)) r x := by
  induction lexemes generalizing r with
  | nil =>
    cases h
    exact hx
  | cons l lexemes ih =>
    rw [List.foldlM_cons] at h
    obtain ⟨u, hread, hu⟩ := exists_of_bind_ok h
    have hrest := ih hu
    have htoken := readToken_of_read hread
    rw [List.map_cons, Token.identifiersAfter]
    cases hpiece : l.token.piece? with
    | some text =>
      rw [readToken_of_piece? hpiece] at htoken
      cases htoken
      exact hrest
    | none =>
      obtain ⟨hadds, hword⟩ := yields_readToken hpiece l.span u htoken
      rw [hword] at hrest
      intro v hv
      obtain ⟨hadds', hword'⟩ := hrest v hv
      exact ⟨Adds.trans hadds hadds', hword'⟩

/-- Reading a whole text adds what its tokens write. -/
theorem adds_readAll {lexemes : List Lexeme} (hword : r.word = none)
    (h : r.readAll lexemes = .ok t) :
    Adds (Token.identifiers (lexemes.map Lexeme.token)) r t := by
  obtain ⟨last, hfold, hlast⟩ := exists_of_bind_ok h
  have hfinish := yields_finish last
  rw [List.append_nil] at hfinish
  rw [← Token.identifiersAfter_none, ← hword]
  exact (adds_foldlM hfold hfinish t hlast).1

end Reader

/-! ## What an arena receives -/

namespace Arena

/-- Identifiers have been added to an arena one after the other, and have got these handles. -/
structure Receives (a : Arena) (is : List Identifier) (hs : List Handle) (b : Arena) : Prop where
  /-- Nothing else has been done to the arena, and the handles are those that it has given. -/
  pushAll : a.pushAll is = (hs, b)
  /-- No handle is given twice. -/
  nodup : hs.Nodup
  /-- Each handle refers to its identifier. -/
  get? : hs.map b.get? = is.map some
  /-- The handles are exactly those that have become live. -/
  mem_iff : ∀ h, h ∈ hs ↔ b.IsLive h ∧ ¬ a.IsLive h
  /-- What was in the arena before is as it was. -/
  kept : ∀ h i, a.get? h = some i → b.get? h = some i
  /-- An arena that was empty gives the handles from one on. -/
  counted : a = .empty → hs = (List.range' 1 is.length).map fun index => ⟨index, 0⟩

section PushAll

variable {a : Arena} {is : List Identifier}

theorem get?_pushAll_of_isLive (ha : a.Tidy) (is : List Identifier) {h : Handle}
    (hl : a.IsLive h) : (a.pushAll is).2.get? h = a.get? h := by
  induction is generalizing a with
  | nil => rfl
  | cons i is ih =>
    rw [pushAll_cons, ih (ha.push i) (isLive_push ha i hl), get?_push_of_isLive ha i hl]

theorem nodup_pushAll (ha : a.Tidy) (is : List Identifier) : (a.pushAll is).1.Nodup := by
  induction is generalizing a with
  | nil => exact List.nodup_nil
  | cons i is ih =>
    refine List.nodup_cons.mpr ⟨fun hmem => ?_, ih (ha.push i)⟩
    exact not_inUse_pushAll (ha.push i) hmem ((inUse_push ha i).mpr (.inl rfl))

theorem map_get?_pushAll (ha : a.Tidy) (his : ∀ i ∈ is, i.IsValid) :
    (a.pushAll is).1.map (a.pushAll is).2.get? = is.map some := by
  induction is generalizing a with
  | nil => rfl
  | cons i is ih =>
    obtain ⟨hi, his⟩ := List.forall_mem_cons.mp his
    simp only [pushAll_cons, List.map_cons, ih (ha.push i) his]
    rw [get?_pushAll_of_isLive (ha.push i) is (isLive_push_self ha hi), get?_push_self ha hi]

theorem mem_pushAll_iff (ha : a.Tidy) (his : ∀ i ∈ is, i.IsValid) (h : Handle) :
    h ∈ (a.pushAll is).1 ↔ (a.pushAll is).2.IsLive h ∧ ¬ a.IsLive h := by
  constructor
  · intro hmem
    refine ⟨?_, fun hl => not_inUse_pushAll ha hmem (ha.inUse hl)⟩
    have hget := List.mem_map_of_mem (f := (a.pushAll is).2.get?) hmem
    rw [map_get?_pushAll ha his] at hget
    obtain ⟨i, -, hi⟩ := List.mem_map.mp hget
    exact isLive_of_get? hi.symm
  · rintro ⟨hl, hnot⟩
    obtain ⟨i, hi⟩ := isLive_iff.mp hl
    rcases get?_pushAll ha hi with hold | ⟨hmem, -⟩
    · exact absurd (isLive_of_get? hold) hnot
    · exact hmem

/-- An arena without free slots gives handles of new slots. -/
theorem handles_pushAll_of_free (ha : a.free = []) (is : List Identifier) :
    (a.pushAll is).1 = (List.range' a.slots.size is.length).map fun index => ⟨index, 0⟩ := by
  induction is generalizing a with
  | nil => rfl
  | cons i is ih =>
    have hpush : a.push i = (⟨a.slots.size, 0⟩, { a with slots := a.slots.push ⟨i, 0⟩ }) := by
      simp only [push, ha]
    have hrest := ih (a := { a with slots := a.slots.push ⟨i, 0⟩ }) ha
    simp [pushAll_cons, hpush, hrest, List.range'_succ]

theorem receives_pushAll (ha : a.Tidy) (his : ∀ i ∈ is, i.IsValid) :
    a.Receives is (a.pushAll is).1 (a.pushAll is).2 where
  pushAll := rfl
  nodup := nodup_pushAll ha is
  get? := map_get?_pushAll ha his
  mem_iff := mem_pushAll_iff ha his
  kept h i hi := by rw [get?_pushAll_of_isLive ha is (isLive_of_get? hi), hi]
  counted := by
    rintro rfl
    exact handles_pushAll_of_free rfl is

end PushAll

end Arena

namespace Statement

/-- What was in the arena before a text is read is still there, and as it was. A text that can be
read gives the arena the identifiers that its tokens write, in their order, and nothing else; the
leaves of the statement that it is read into are their handles, from left to right. -/
theorem leaves_ofText (text : String) {past : List Arena.Effect} {a : Arena}
    (ha : Arena.Run past a) :
    (∀ h i, a.get? h = some i → (ofText text a).2.get? h = some i) ∧
      ∀ s, (ofText text a).1 = .ok s → ∃ lexemes,
        Lexeme.ofText (withFinalNewline text.toList) = .ok lexemes ∧
          a.Receives (Token.identifiers (lexemes.map Lexeme.token)) s.leaves (ofText text a).2 := by
  refine ⟨fun h i hi => ?_, fun s hs => ?_⟩
  · rw [arena_ofText, Arena.get?_pushAll_of_isLive ha.tidy _ (Arena.isLive_of_get? hi), hi]
  · simp only [ofText] at hs ⊢
    cases hlexemes : Lexeme.ofText (withFinalNewline text.toList) with
    | error e => simp [hlexemes] at hs
    | ok lexemes =>
      simp only [hlexemes] at hs ⊢
      cases hread : Reader.readAll { arena := a } lexemes with
      | error refusal => simp [hread] at hs
      | ok r =>
        simp only [hread, Except.ok.injEq] at hs ⊢
        subst hs
        obtain ⟨harena, hleaves⟩ := Reader.adds_readAll rfl hread
        refine ⟨lexemes, rfl, ?_⟩
        rw [← Reader.leaves_readAll hread, hleaves, harena]
        exact Arena.receives_pushAll ha.tidy fun i hi =>
          (Token.isWritten_of_mem_identifiers hi).isValid

/-- An index of an index, read into an arena with a free slot: the first name gets the free slot,
and the names and operators that follow it get new ones, in the order of the text. -/
theorem leaves_ofText_indexed :
    ∃ past a, Arena.Run past a ∧ a.free = [1] ∧
      (ofText "a[b][c]\n" a).1.toOption.map leaves =
        some [⟨1, 1⟩, ⟨2, 0⟩, ⟨3, 0⟩, ⟨4, 0⟩, ⟨5, 0⟩] ∧
      ∀ s, (ofText "a[b][c]\n" a).1 = .ok s → ∃ lexemes,
        Lexeme.ofText (withFinalNewline "a[b][c]\n".toList) = .ok lexemes ∧
          a.Receives (Token.identifiers (lexemes.map Lexeme.token)) s.leaves
            (ofText "a[b][c]\n" a).2 := by
  have hrun := (Arena.Run.empty.serve (.push (.name "x" 0))).serve (.destroy ⟨1, 0⟩)
  exact ⟨_, _, hrun, by decide, by decide +kernel, (leaves_ofText "a[b][c]\n" hrun).2⟩

end Statement

end WordScript
