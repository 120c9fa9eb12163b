import Mathlib.Data.List.Basic
import WordScript.Token.Lexeme

/-!
# The tokens of a text

Which tokens a text is cut into does not depend on where it stands. `Lexes cs ts` says that the
text `cs` is cut into the tokens `ts`; it has one rule for each step of cutting, so that statements
about texts are proved by going through their lexemes.
-/

namespace WordScript

namespace Lexeme

theorem cutAll_nil (offset : Nat) : cutAll offset [] = .ok [] := by
  rw [cutAll]

/-- The first lexeme is cut off, and then the others. -/
theorem cutAll_of_cut {c : Char} {cs : List Char} {p : Cut} (h : cut c cs = .ok p) (offset : Nat) :
    cutAll offset (c :: cs) = (cutAll (offset + Text.byteLength p.taken) p.rest).map
      (⟨p.token, offset, offset + Text.byteLength p.taken⟩ :: ·) := by
  rw [cutAll]
  split
  · next h' => rw [h] at h'; cases h'
  · next h' =>
    rw [h] at h'
    cases h'
    dsimp only
    cases cutAll (offset + Text.byteLength p.taken) p.rest <;> rfl

theorem cutAll_of_cut_error {c : Char} {cs seen : List Char} {fault : SyntaxFault}
    (h : cut c cs = .error (fault, seen)) (offset : Nat) :
    cutAll offset (c :: cs) = .error (fault, ⟨offset, offset + Text.byteLength seen⟩) := by
  rw [cutAll]
  split
  · next h' =>
    rw [h] at h'
    cases h'
    rfl
  · next h' => rw [h] at h'; cases h'

/-- The text is cut into these tokens. -/
inductive Lexes : List Char → List Token → Prop where
  | nil : Lexes [] []
  | cons {c : Char} {cs taken rest : List Char} {t : Token} {ts : List Token}
      (hcut : cut c cs = .ok ⟨t, taken, rest⟩) (hrest : Lexes rest ts) : Lexes (c :: cs) (t :: ts)

theorem lexes_of_cutAll {offset : Nat} {cs : List Char} {lexemes : List Lexeme}
    (h : cutAll offset cs = .ok lexemes) : Lexes cs (lexemes.map token) := by
  fun_induction cutAll offset cs generalizing lexemes with
  | case1 =>
    cases h
    exact .nil
  | case2 => cases h
  | case3 => cases h
  | case4 _ c cs p hcut _ rest hrest =>
    next ih =>
      cases h
      exact .cons hcut (ih hrest)

theorem Lexes.cutAll {cs : List Char} {ts : List Token} (h : Lexes cs ts) (offset : Nat) :
    ∃ lexemes, cutAll offset cs = .ok lexemes ∧ lexemes.map token = ts := by
  induction h generalizing offset with
  | nil => exact ⟨[], cutAll_nil offset, rfl⟩
  | @cons c cs taken rest t ts hcut _ ih =>
    obtain ⟨lexemes, hrest, htokens⟩ := ih (offset + Text.byteLength taken)
    refine ⟨⟨t, offset, offset + Text.byteLength taken⟩ :: lexemes, ?_, ?_⟩
    · rw [cutAll_of_cut hcut, hrest]
      rfl
    · rw [List.map_cons, htokens]

theorem ofText_eq_ok {text : List Char} {lexemes : List Lexeme} :
    ofText text = .ok lexemes ↔ cutAll 0 text = .ok lexemes := by
  unfold ofText
  split
  · next h => simp [h]
  · next h => simp [h]

theorem char_of_quote? {c : Char} {quote : Quote} (h : quote? c = some quote) : quote.char = c := by
  unfold quote? at h
  split at h <;> cases h <;> rfl

end Lexeme

end WordScript
