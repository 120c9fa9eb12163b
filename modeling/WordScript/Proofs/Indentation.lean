import WordScript.Proofs.Written

/-!
# Indented lines tell trees apart

The lines that a tree is shown in say how deep each line is and what is written there, and the depths
say which lines belong together. So two trees that are shown in the same lines are the same but for
the types of their leaves, as long as the text of every leaf fits on one line.
-/

namespace WordScript

/-! ## Lines -/

/-- A line of a shown tree: what is written on it, and how deep it is indented. -/
structure IndentedLine where
  depth : Nat
  text : String

namespace IndentedLine

/-- The characters of a line, with the blanks in front and the end of the line. -/
def chars (l : IndentedLine) : List Char :=
  (indented l.depth l.text).toList

/-- The text shows where it starts and that it is one line. -/
structure IsClear (l : IndentedLine) : Prop where
  head : l.text.toList.head? ≠ some ' '
  oneLine : '\n' ∉ l.text.toList

theorem chars_eq (l : IndentedLine) :
    l.chars = List.replicate (2 * l.depth) ' ' ++ l.text.toList ++ ['\n'] := by
  simp [chars, indented]

/-- The blanks in front of a text can be told from the text. -/
theorem blanks_inj {m n : Nat} {cs cs' : List Char} (hcs : cs.head? ≠ some ' ')
    (hcs' : cs'.head? ≠ some ' ')
    (h : List.replicate m ' ' ++ cs = List.replicate n ' ' ++ cs') : m = n ∧ cs = cs' := by
  induction m generalizing n with
  | zero =>
    cases n with
    | zero => exact ⟨rfl, h⟩
    | succ n =>
      subst h
      exact absurd rfl hcs
  | succ m ih =>
    cases n with
    | zero =>
      subst h
      exact absurd rfl hcs'
    | succ n =>
      obtain ⟨rfl, rfl⟩ := ih (List.cons.inj h).2
      exact ⟨rfl, rfl⟩

/-- A text without a line break can be told from the end of its line. -/
theorem text_inj {cs cs' rest rest' : List Char} (hcs : '\n' ∉ cs) (hcs' : '\n' ∉ cs')
    (h : cs ++ '\n' :: rest = cs' ++ '\n' :: rest') : cs = cs' ∧ rest = rest' := by
  induction cs generalizing cs' with
  | nil =>
    cases cs' with
    | nil => exact ⟨rfl, (List.cons.inj h).2⟩
    | cons c' cs' => exact absurd (by rw [(List.cons.inj h).1]; simp) hcs'
  | cons c cs ih =>
    cases cs' with
    | nil => exact absurd (by rw [(List.cons.inj h).1]; simp) hcs
    | cons c' cs' =>
      obtain ⟨rfl, htail⟩ := List.cons.inj h
      obtain ⟨rfl, hrest⟩ := ih (List.not_mem_of_not_mem_cons hcs)
        (List.not_mem_of_not_mem_cons hcs') htail
      exact ⟨rfl, hrest⟩

/-- A clear line can be told from what follows it. -/
theorem chars_append_inj {l l' : IndentedLine} {rest rest' : List Char} (hl : l.IsClear)
    (hl' : l'.IsClear) (h : l.chars ++ rest = l'.chars ++ rest') : l = l' ∧ rest = rest' := by
  have hhead : ∀ {k : IndentedLine}, k.IsClear → ∀ cs : List Char,
      (k.text.toList ++ '\n' :: cs).head? ≠ some ' ' := by
    intro k hk cs
    have hk := hk.head
    cases hchars : k.text.toList with
    | nil => simp
    | cons c text => simpa [hchars] using hk
  simp only [chars_eq, List.append_assoc, List.singleton_append] at h
  obtain ⟨hdepth, htext⟩ := blanks_inj (hhead hl rest) (hhead hl' rest') h
  obtain ⟨htext, hrest⟩ := text_inj hl.oneLine hl'.oneLine htext
  obtain ⟨depth, text⟩ := l
  obtain ⟨depth', text'⟩ := l'
  obtain rfl : depth = depth' := Nat.eq_of_mul_eq_mul_left Nat.zero_lt_two hdepth
  obtain rfl := String.toList_injective htext
  exact ⟨rfl, hrest⟩

/-- Clear lines can be read off the characters that they are made of. -/
theorem flatMap_chars_inj {ls ls' : List IndentedLine} (hls : ∀ l ∈ ls, l.IsClear)
    (hls' : ∀ l ∈ ls', l.IsClear) (h : ls.flatMap chars = ls'.flatMap chars) : ls = ls' := by
  have hne : ∀ l : IndentedLine, l.chars ≠ [] := fun l hnil => by simp [chars_eq] at hnil
  induction ls generalizing ls' with
  | nil =>
    cases ls' with
    | nil => rfl
    | cons l' ls' => exact absurd (List.append_eq_nil_iff.mp h.symm).1 (hne l')
  | cons l ls ih =>
    cases ls' with
    | nil => exact absurd (List.append_eq_nil_iff.mp h).1 (hne l)
    | cons l' ls' =>
      rw [List.flatMap_cons, List.flatMap_cons] at h
      obtain ⟨rfl, hrest⟩ := chars_append_inj (hls l (by simp)) (hls' l' (by simp)) h
      rw [ih (fun k hk => hls k (by simp [hk])) (fun k hk => hls' k (by simp [hk])) hrest]

/-! ## Lines that belong together -/

/-- No more lines belong to what stands at a depth: there are none, or the next is no deeper. -/
def Closes (depth : Nat) (rest : List IndentedLine) : Prop :=
  ∀ l ∈ rest.head?, l.depth ≤ depth

theorem closes_nil (depth : Nat) : Closes depth [] := by
  simp [Closes]

theorem closes_cons {depth : Nat} {l : IndentedLine} {ls : List IndentedLine}
    (h : l.depth ≤ depth) : Closes depth (l :: ls) := by
  simpa [Closes] using h

theorem Closes.mono {depth depth' : Nat} {rest : List IndentedLine} (h : Closes depth rest)
    (hle : depth ≤ depth') : Closes depth' rest :=
  fun l hl => Nat.le_trans (h l hl) hle

section Parts

/-- Parts that are the same one by one are the same together. -/
theorem flatMap_eq_of_forall₂ {α β : Type} {f : α → List β} {as as' : List α}
    (h : List.Forall₂ (fun a a' => f a = f a') as as') : as.flatMap f = as'.flatMap f := by
  induction h with
  | nil => rfl
  | cons ha _ ih => rw [List.flatMap_cons, List.flatMap_cons, ha, ih]

variable {α : Type} {lines : α → List IndentedLine} {depth : Nat} {as as' : List α}
  {rest rest' : List IndentedLine}

/-- Every part starts with a line at the depth. -/
def StartAt (depth : Nat) (lines : α → List IndentedLine) : Prop :=
  ∀ a, ∃ l ls, lines a = l :: ls ∧ l.depth = depth

/-- After a part comes another one, or what follows all of them. -/
theorem closes_flatMap (hlines : StartAt depth lines) (hrest : Closes depth rest) :
    Closes depth (as.flatMap lines ++ rest) := by
  cases as with
  | nil => exact hrest
  | cons a as =>
    obtain ⟨l, ls, hl, hdepth⟩ := hlines a
    rw [List.flatMap_cons, hl]
    exact closes_cons (Nat.le_of_eq hdepth)

/-- Parts one below the other can be told from what follows them, when that is less deep, and each of
them from the next one. -/
theorem flatMap_lines_inj {R : α → α → Prop} (hlines : StartAt (depth + 1) lines)
    (hparts : ∀ a ∈ as, ∀ a' r r', Closes (depth + 1) r → Closes (depth + 1) r' →
      lines a ++ r = lines a' ++ r' → R a a' ∧ r = r')
    (hrest : Closes depth rest) (hrest' : Closes depth rest')
    (h : as.flatMap lines ++ rest = as'.flatMap lines ++ rest') :
    List.Forall₂ R as as' ∧ rest = rest' := by
  -- a part is deeper than what may follow all parts
  have hdeeper : ∀ {a r r'}, Closes depth r → r ≠ lines a ++ r' := by
    rintro a r r' hr rfl
    obtain ⟨l, ls, hl, hdepth⟩ := hlines a
    have hle := hr l (by simp [hl])
    omega
  induction as generalizing as' with
  | nil =>
    cases as' with
    | nil => exact ⟨.nil, h⟩
    | cons a' as' =>
      rw [List.flatMap_cons, List.append_assoc] at h
      exact absurd h (hdeeper hrest)
  | cons a as ih =>
    cases as' with
    | nil =>
      rw [List.flatMap_cons, List.append_assoc] at h
      exact absurd h.symm (hdeeper hrest')
    | cons a' as' =>
      simp only [List.flatMap_cons, List.append_assoc] at h
      obtain ⟨ha, h⟩ := hparts a (by simp) a' _ _
        (closes_flatMap hlines (hrest.mono (Nat.le_succ depth)))
        (closes_flatMap hlines (hrest'.mono (Nat.le_succ depth))) h
      obtain ⟨has, hrest⟩ := ih (fun b hb => hparts b (by simp [hb])) h
      exact ⟨.cons ha has, hrest⟩

end Parts

end IndentedLine

open IndentedLine

/-! ## Expressions in lines -/

namespace ExpressionTree

/-- Something holds of every shown expression when it holds of a leaf, and of a group whenever it
holds of the members. -/
@[elab_as_elim]
theorem induction {P : ExpressionTree → Prop} (leaf : ∀ kind type text, P (.leaf kind type text))
    (group : ∀ children, (∀ e ∈ children, P e) → P (.group children)) : ∀ e, P e
  | .leaf kind type text => leaf kind type text
  | .group children => group children fun e _ => induction leaf group e

/-- The same shown expression but for the types of the leaves. -/
inductive Alike : ExpressionTree → ExpressionTree → Prop where
  | leaf {kind : LeafKind} {type type' text : String} :
      Alike (.leaf kind type text) (.leaf kind type' text)
  | group {children children' : List ExpressionTree}
      (hchildren : List.Forall₂ Alike children children') :
      Alike (.group children) (.group children')

mutual

/-- The texts of the leaves. -/
def texts : ExpressionTree → List String
  | leaf _ _ text => [text]
  | group children => textsOf children

/-- The texts of the leaves of expressions side by side. -/
def textsOf : List ExpressionTree → List String
  | [] => []
  | e :: es => e.texts ++ textsOf es

end

mutual

/-- The lines of a shown expression. -/
def lines (depth : Nat) : ExpressionTree → List IndentedLine
  | leaf kind _ text => [⟨depth, kind.label ++ ": " ++ text⟩]
  | group children => ⟨depth, "Expression:"⟩ :: linesOf (depth + 1) children

/-- The lines of shown expressions side by side. -/
def linesOf (depth : Nat) : List ExpressionTree → List IndentedLine
  | [] => []
  | e :: es => e.lines depth ++ linesOf depth es

end

theorem textsOf_eq (es : List ExpressionTree) : textsOf es = es.flatMap texts := by
  induction es with
  | nil => rfl
  | cons e es ih => rw [textsOf, ih, List.flatMap_cons]

theorem linesOf_eq (depth : Nat) (es : List ExpressionTree) :
    linesOf depth es = es.flatMap (lines depth) := by
  induction es with
  | nil => rfl
  | cons e es ih => rw [linesOf, ih, List.flatMap_cons]

theorem startAt_lines (depth : Nat) : StartAt depth (lines depth) := by
  intro e
  cases e with
  | leaf kind type text => exact ⟨_, [], rfl, rfl⟩
  | group children => exact ⟨_, _, rfl, rfl⟩

mutual

theorem toList_renderAt (depth : Nat) : ∀ e : ExpressionTree,
    (e.renderAt depth).toList = (e.lines depth).flatMap IndentedLine.chars
  | leaf kind type text => by simp [renderAt, lines, IndentedLine.chars]
  | group children => by
    simp [renderAt, lines, IndentedLine.chars, toList_renderAll (depth + 1) children]

theorem toList_renderAll (depth : Nat) : ∀ es : List ExpressionTree,
    (renderAll depth es).toList = (linesOf depth es).flatMap IndentedLine.chars
  | [] => rfl
  | e :: es => by
    simp [renderAll, linesOf, toList_renderAt depth e, toList_renderAll depth es]

end

theorem isClear_leaf {depth : Nat} {kind : LeafKind} {text : String} (htext : '\n' ∉ text.toList) :
    IsClear ⟨depth, kind.label ++ ": " ++ text⟩ := by
  cases kind <;> exact ⟨by simp [LeafKind.label], by simp [LeafKind.label, htext]⟩

theorem isClear_of_mem_lines {e : ExpressionTree} (htexts : ∀ text ∈ e.texts, '\n' ∉ text.toList)
    {depth : Nat} {l : IndentedLine} (hl : l ∈ e.lines depth) : l.IsClear := by
  induction e using induction generalizing depth with
  | leaf kind type text =>
    obtain rfl := List.mem_singleton.mp hl
    exact isClear_leaf (htexts text (by simp [texts]))
  | group children ih =>
    rw [lines, linesOf_eq, List.mem_cons, List.mem_flatMap] at hl
    rw [texts, textsOf_eq] at htexts
    rcases hl with rfl | ⟨e, he, hl⟩
    · exact ⟨by simp, by simp⟩
    · exact ih e he (fun text htext => htexts text (List.mem_flatMap.mpr ⟨e, he, htext⟩)) hl

/-- The label of a leaf can be told from its text. -/
theorem label_inj {kind kind' : LeafKind} {text text' : String}
    (h : kind.label ++ ": " ++ text = kind'.label ++ ": " ++ text') :
    kind = kind' ∧ text = text' := by
  have hchars := congrArg String.toList h
  cases kind <;> cases kind' <;> simp [LeafKind.label] at hchars ⊢ <;>
    exact String.toList_injective hchars

/-- The label of a leaf can be told from that of a group. -/
theorem label_ne {kind : LeafKind} {text : String} :
    kind.label ++ ": " ++ text ≠ "Expression:" := by
  intro h
  have hchars := congrArg String.toList h
  cases kind <;> simp [LeafKind.label] at hchars

/-- A shown expression can be told from what follows it. -/
theorem lines_append_inj {e e' : ExpressionTree} {depth : Nat} {rest rest' : List IndentedLine}
    (hrest : Closes depth rest) (hrest' : Closes depth rest')
    (h : e.lines depth ++ rest = e'.lines depth ++ rest') : e.Alike e' ∧ rest = rest' := by
  induction e using induction generalizing depth e' rest rest' with
  | leaf kind type text =>
    cases e' with
    | leaf kind' type' text' =>
      obtain ⟨hline, htail⟩ := List.cons.inj h
      obtain ⟨rfl, rfl⟩ := label_inj (congrArg IndentedLine.text hline)
      exact ⟨.leaf, htail⟩
    | group children' =>
      obtain ⟨hline, -⟩ := List.cons.inj h
      exact absurd (congrArg IndentedLine.text hline) label_ne
  | group children ih =>
    cases e' with
    | leaf kind' type' text' =>
      obtain ⟨hline, -⟩ := List.cons.inj h
      exact absurd (congrArg IndentedLine.text hline).symm label_ne
    | group children' =>
      obtain ⟨-, htail⟩ := List.cons.inj h
      rw [linesOf_eq, linesOf_eq] at htail
      obtain ⟨hchildren, hrest⟩ := flatMap_lines_inj (startAt_lines (depth + 1))
        (fun e he e' r r' hr hr' heq => ih e he hr hr' heq) hrest hrest' htail
      exact ⟨.group hchildren, hrest⟩

/-- Shown expressions that are alike are shown in the same lines. -/
theorem Alike.lines_eq {e e' : ExpressionTree} (h : e.Alike e') (depth : Nat) :
    e.lines depth = e'.lines depth := by
  induction e using induction generalizing depth e' with
  | leaf kind type text =>
    cases h with
    | leaf => rfl
  | group children ih =>
    cases h with
    | group hchildren =>
      rw [lines, lines, linesOf_eq, linesOf_eq]
      rw [flatMap_eq_of_forall₂ (forall₂_imp_of_mem (fun e he _ hee => ih e he hee _) hchildren)]

end ExpressionTree

/-! ## Statements in lines -/

namespace Tree

/-- Something holds of every shown statement when it holds of a line, and of a block whenever it
holds of the statements in its body. -/
@[elab_as_elim]
theorem induction {P : Tree → Prop} (line : ∀ head, P (.line head))
    (block : ∀ head body, (∀ t ∈ body, P t) → P (.block head body)) : ∀ t, P t
  | .line head => line head
  | .block head body => block head body fun t _ => induction line block t

/-- The same shown statement but for the types of the leaves. -/
inductive Alike : Tree → Tree → Prop where
  | line {head head' : ExpressionTree} (hhead : head.Alike head') :
      Alike (.line head) (.line head')
  | block {head head' : ExpressionTree} {body body' : List Tree} (hhead : head.Alike head')
      (hbody : List.Forall₂ Alike body body') : Alike (.block head body) (.block head' body')

mutual

/-- The texts of the leaves. -/
def texts : Tree → List String
  | line head => head.texts
  | block head body => head.texts ++ textsOf body

/-- The texts of the leaves of statements one below the other. -/
def textsOf : List Tree → List String
  | [] => []
  | t :: ts => t.texts ++ textsOf ts

end

mutual

/-- The lines of a shown statement. -/
def lines (depth : Nat) : Tree → List IndentedLine
  | line head => ⟨depth, "Statement:"⟩ :: head.lines (depth + 1)
  | block head body => ⟨depth, "Block:"⟩ :: head.lines (depth + 1) ++ linesOf (depth + 1) body

/-- The lines of shown statements one below the other. -/
def linesOf (depth : Nat) : List Tree → List IndentedLine
  | [] => []
  | t :: ts => t.lines depth ++ linesOf depth ts

end

theorem textsOf_eq (ts : List Tree) : textsOf ts = ts.flatMap texts := by
  induction ts with
  | nil => rfl
  | cons t ts ih => rw [textsOf, ih, List.flatMap_cons]

theorem linesOf_eq (depth : Nat) (ts : List Tree) : linesOf depth ts = ts.flatMap (lines depth) := by
  induction ts with
  | nil => rfl
  | cons t ts ih => rw [linesOf, ih, List.flatMap_cons]

theorem startAt_lines (depth : Nat) : StartAt depth (lines depth) := by
  intro t
  cases t with
  | line head => exact ⟨_, _, rfl, rfl⟩
  | block head body => exact ⟨_, _, rfl, rfl⟩

mutual

theorem toList_renderAt (depth : Nat) : ∀ t : Tree,
    (t.renderAt depth).toList = (t.lines depth).flatMap IndentedLine.chars
  | line head => by simp [renderAt, lines, IndentedLine.chars, ExpressionTree.toList_renderAt]
  | block head body => by
    simp [renderAt, lines, IndentedLine.chars, ExpressionTree.toList_renderAt,
      toList_renderAll (depth + 1) body]

theorem toList_renderAll (depth : Nat) : ∀ ts : List Tree,
    (renderAll depth ts).toList = (linesOf depth ts).flatMap IndentedLine.chars
  | [] => rfl
  | t :: ts => by
    simp [renderAll, linesOf, toList_renderAt depth t, toList_renderAll depth ts]

end

theorem isClear_of_mem_lines {t : Tree} (htexts : ∀ text ∈ t.texts, '\n' ∉ text.toList)
    {depth : Nat} {l : IndentedLine} (hl : l ∈ t.lines depth) : l.IsClear := by
  induction t using induction generalizing depth with
  | line head =>
    rcases List.mem_cons.mp hl with rfl | hl
    · exact ⟨by simp, by simp⟩
    · exact ExpressionTree.isClear_of_mem_lines htexts hl
  | block head body ih =>
    rw [lines, linesOf_eq, List.cons_append, List.mem_cons, List.mem_append, List.mem_flatMap] at hl
    rw [texts, textsOf_eq] at htexts
    rcases hl with rfl | hl | ⟨t, ht, hl⟩
    · exact ⟨by simp, by simp⟩
    · exact ExpressionTree.isClear_of_mem_lines
        (fun text htext => htexts text (List.mem_append_left _ htext)) hl
    · exact ih t ht (fun text htext =>
        htexts text (List.mem_append_right _ (List.mem_flatMap.mpr ⟨t, ht, htext⟩))) hl

/-- A shown statement can be told from what follows it. -/
theorem lines_append_inj {t t' : Tree} {depth : Nat} {rest rest' : List IndentedLine}
    (hrest : Closes depth rest) (hrest' : Closes depth rest')
    (h : t.lines depth ++ rest = t'.lines depth ++ rest') : t.Alike t' ∧ rest = rest' := by
  induction t using induction generalizing depth t' rest rest' with
  | line head =>
    cases t' with
    | line head' =>
      obtain ⟨-, htail⟩ := List.cons.inj h
      obtain ⟨hhead, hrest⟩ := ExpressionTree.lines_append_inj
        (hrest.mono (Nat.le_succ depth)) (hrest'.mono (Nat.le_succ depth)) htail
      exact ⟨.line hhead, hrest⟩
    | block head' body' =>
      have htext := congrArg IndentedLine.text (List.cons.inj h).1
      simp at htext
  | block head body ih =>
    cases t' with
    | line head' =>
      have htext := congrArg IndentedLine.text (List.cons.inj h).1
      simp at htext
    | block head' body' =>
      simp only [lines, linesOf_eq, List.cons_append, List.append_assoc] at h
      obtain ⟨-, htail⟩ := List.cons.inj h
      -- the statements of the body are no deeper than the head, and so do not belong to it
      obtain ⟨hhead, hbody⟩ := ExpressionTree.lines_append_inj
        (closes_flatMap (startAt_lines (depth + 1)) (hrest.mono (Nat.le_succ depth)))
        (closes_flatMap (startAt_lines (depth + 1)) (hrest'.mono (Nat.le_succ depth))) htail
      obtain ⟨hbody, hrest⟩ := flatMap_lines_inj (startAt_lines (depth + 1))
        (fun t ht t' r r' hr hr' heq => ih t ht hr hr' heq) hrest hrest' hbody
      exact ⟨.block hhead hbody, hrest⟩

/-- Shown statements that are alike are shown in the same lines. -/
theorem Alike.lines_eq {t t' : Tree} (h : t.Alike t') (depth : Nat) :
    t.lines depth = t'.lines depth := by
  induction t using induction generalizing depth t' with
  | line head =>
    cases h with
    | line hhead => rw [lines, lines, hhead.lines_eq]
  | block head body ih =>
    cases h with
    | block hhead hbody =>
      rw [lines, lines, hhead.lines_eq, linesOf_eq, linesOf_eq]
      rw [flatMap_eq_of_forall₂ (forall₂_imp_of_mem (fun t ht _ htt => ih t ht htt _) hbody)]

/-- Trees whose leaves are on one line each are shown in the same way when they are the same but for
the types of the leaves, and only then. -/
theorem render_eq_iff {t t' : Tree} (ht : ∀ text ∈ t.texts, '\n' ∉ text.toList)
    (ht' : ∀ text ∈ t'.texts, '\n' ∉ text.toList) : t.render = t'.render ↔ t.Alike t' := by
  constructor
  · intro h
    have hchars := congrArg String.toList h
    rw [render, render, toList_renderAt, toList_renderAt] at hchars
    have hlines := flatMap_chars_inj (fun _ hl => isClear_of_mem_lines ht hl)
      (fun _ hl => isClear_of_mem_lines ht' hl) hchars
    exact (lines_append_inj (closes_nil 0) (closes_nil 0) (by rw [hlines])).1
  · intro h
    refine String.toList_injective ?_
    rw [render, render, toList_renderAt, toList_renderAt, h.lines_eq]

end Tree

/-! ## Statements that are shown alike -/

section Shown

variable {a b : Arena}

/-- The handles refer to identifiers that are shown as leaves of the same kind with the same text,
each in its own arena. -/
def ShownAlike (a b : Arena) (h k : Handle) : Prop :=
  ∃ i j, a.get? h = some i ∧ b.get? k = some j ∧ i.toTree.Alike j.toTree

theorem Expression.toTrees_eq (es : List Expression) :
    Expression.toTrees a es = es.mapM (Expression.toTree a) := by
  induction es with
  | nil => rfl
  | cons e es ih =>
    rw [Expression.toTrees, List.mapM_cons, ih]
    cases e.toTree a with
    | error _ => rfl
    | ok t => cases es.mapM (Expression.toTree a) <;> rfl

theorem Statement.toTrees_eq (ss : List Statement) :
    Statement.toTrees a ss = ss.mapM (Statement.toTree a) := by
  induction ss with
  | nil => rfl
  | cons s ss ih =>
    rw [Statement.toTrees, List.mapM_cons, ih]
    cases s.toTree a with
    | error _ => rfl
    | ok t => cases ss.mapM (Statement.toTree a) <;> rfl

/-- What is made of a list is made of its members one by one. -/
theorem forall₂_of_mapM {α β ε : Type} {f : α → Except ε β} {as : List α} {bs : List β}
    (h : as.mapM f = .ok bs) : List.Forall₂ (fun a b => f a = .ok b) as bs := by
  induction as generalizing bs with
  | nil =>
    cases h
    exact .nil
  | cons a as ih =>
    rw [List.mapM_cons] at h
    obtain ⟨b, hb, h⟩ := exists_of_bind_ok h
    obtain ⟨bs', hbs', h⟩ := exists_of_bind_ok h
    cases h
    exact .cons hb (ih hbs')

/-- What stands behind related members is related member by member. -/
theorem forall₂_of_images {α β γ δ : Type} {R : α → γ → Prop} {S : β → δ → Prop}
    {T : γ → δ → Prop} {Q : α → β → Prop} {as : List α} {bs : List β} {cs : List γ} {ds : List δ}
    (hQ : ∀ a ∈ as, ∀ b c d, R a c → S b d → T c d → Q a b) (has : List.Forall₂ R as cs)
    (hbs : List.Forall₂ S bs ds) (h : List.Forall₂ T cs ds) : List.Forall₂ Q as bs := by
  induction has generalizing bs ds with
  | nil =>
    cases h
    cases hbs
    exact .nil
  | cons ha _ ih =>
    cases h with
    | cons hcd hrest =>
      cases hbs with
      | cons hb hbs =>
        exact .cons (hQ _ (by simp) _ _ _ ha hb hcd)
          (ih (fun a ha => hQ a (List.mem_cons_of_mem _ ha)) hbs hrest)

theorem Identifier.exists_toTree (i : Identifier) :
    ∃ kind type text, i.toTree = .leaf kind type text := by
  rw [Identifier.toTree]
  split
  · exact ⟨_, _, _, rfl⟩
  · split <;> exact ⟨_, _, _, rfl⟩

theorem Expression.exists_of_toTree_leaf {k : Handle} {t : ExpressionTree}
    (h : (Expression.leaf k).toTree a = .ok t) : ∃ i, a.get? k = some i ∧ t = i.toTree := by
  rw [Expression.toTree] at h
  split at h
  · next i hi => exact ⟨i, hi, (Except.ok.inj h).symm⟩
  · cases h

theorem Expression.exists_of_toTree_group {es : List Expression} {t : ExpressionTree}
    (h : (Expression.group es).toTree a = .ok t) :
    ∃ ts, List.Forall₂ (fun e t => e.toTree a = .ok t) es ts ∧ t = .group ts := by
  rw [Expression.toTree] at h
  split at h
  · next ts hts =>
    rw [Expression.toTrees_eq] at hts
    exact ⟨ts, forall₂_of_mapM hts, (Except.ok.inj h).symm⟩
  · cases h

/-- A statement is shown as a line when its body is empty, and as a block otherwise. -/
theorem Statement.exists_of_toTree {head : Expression} {body : List Statement} {t : Tree}
    (h : (Statement.mk head body).toTree a = .ok t) :
    ∃ shown ts, head.toTree a = .ok shown ∧
      List.Forall₂ (fun s t => s.toTree a = .ok t) body ts ∧
      ((ts = [] ∧ t = .line shown) ∨ (ts ≠ [] ∧ t = .block shown ts)) := by
  rw [Statement.toTree] at h
  split at h
  · cases h
  · next shown hshown =>
    rw [Statement.toTrees_eq] at h
    split at h
    · cases h
    · next hts => exact ⟨shown, [], hshown, forall₂_of_mapM hts, .inl ⟨rfl, (Except.ok.inj h).symm⟩⟩
    · next t ts hts =>
      exact ⟨shown, t :: ts, hshown, forall₂_of_mapM hts,
        .inr ⟨List.cons_ne_nil t ts, (Except.ok.inj h).symm⟩⟩

/-- Expressions whose shown forms are alike have the same groups, and leaves that are shown alike. -/
theorem Expression.alike_of_toTree {e e' : Expression} {t t' : ExpressionTree}
    (he : e.toTree a = .ok t) (he' : e'.toTree b = .ok t') (h : t.Alike t') :
    e.Alike (ShownAlike a b) e' := by
  induction e using Expression.induction generalizing e' t t' with
  | leaf k =>
    obtain ⟨i, hi, rfl⟩ := Expression.exists_of_toTree_leaf he
    cases e' with
    | leaf k' =>
      obtain ⟨j, hj, rfl⟩ := Expression.exists_of_toTree_leaf he'
      exact .leaf ⟨i, j, hi, hj, h⟩
    | group es' =>
      obtain ⟨ts', -, rfl⟩ := Expression.exists_of_toTree_group he'
      obtain ⟨kind, type, text, hleaf⟩ := i.exists_toTree
      rw [hleaf] at h
      cases h
  | group es ih =>
    obtain ⟨ts, hts, rfl⟩ := Expression.exists_of_toTree_group he
    cases e' with
    | leaf k' =>
      obtain ⟨j, -, rfl⟩ := Expression.exists_of_toTree_leaf he'
      obtain ⟨kind, type, text, hleaf⟩ := j.exists_toTree
      rw [hleaf] at h
      cases h
    | group es' =>
      obtain ⟨ts', hts', rfl⟩ := Expression.exists_of_toTree_group he'
      cases h with
      | group hchildren =>
        refine .group (forall₂_of_images ?_ hts hts' hchildren)
        exact fun e hmem _ _ _ he he' hee => ih e hmem he he' hee

/-- Statements whose shown forms are alike have the same lines and blocks, and heads that are
alike. -/
theorem Statement.alike_of_toTree {s s' : Statement} {t t' : Tree} (hs : s.toTree a = .ok t)
    (hs' : s'.toTree b = .ok t') (h : t.Alike t') : s.Alike (ShownAlike a b) s' := by
  induction s using Statement.induction generalizing s' t t' with
  | mk head body ih =>
    obtain ⟨head', body'⟩ := s'
    obtain ⟨shown, ts, hshown, hts, hcases⟩ := Statement.exists_of_toTree hs
    obtain ⟨shown', ts', hshown', hts', hcases'⟩ := Statement.exists_of_toTree hs'
    have hparts : shown.Alike shown' ∧ List.Forall₂ Tree.Alike ts ts' := by
      rcases hcases with ⟨rfl, rfl⟩ | ⟨-, rfl⟩ <;> rcases hcases' with ⟨rfl, rfl⟩ | ⟨-, rfl⟩
      · cases h with
        | line hhead => exact ⟨hhead, .nil⟩
      · cases h
      · cases h
      · cases h with
        | block hhead hbody => exact ⟨hhead, hbody⟩
    refine .mk (Expression.alike_of_toTree hshown hshown' hparts.1) ?_
    refine forall₂_of_images ?_ hts hts' hparts.2
    exact fun s hmem _ _ _ hs hs' hss => ih s hmem hs hs' hss

/-- A statement can be shown when each of its leaves refers to an identifier. -/
theorem Statement.exists_toTree {s : Statement} (hs : ∀ h ∈ s.leaves, a.IsLive h) :
    ∃ t, s.toTree a = .ok t := by
  have hsame : s.Alike (SameIdentifier a a) s := by
    refine Statement.alike_self fun h hh => ?_
    obtain ⟨i, hi⟩ := Arena.isLive_iff.mp (hs h hh)
    exact ⟨i, hi, hi⟩
  obtain ⟨t, ht, -⟩ := hsame.toTree
  exact ⟨t, ht⟩

theorem Statement.isLive_of_ofText (ha : a.Tidy) {text : String} {s : Statement}
    (hs : (Statement.ofText text a).1 = .ok s) :
    ∀ h ∈ s.leaves, (Statement.ofText text a).2.IsLive h := by
  intro h hh
  rw [Statement.leaves_of_ofText hs] at hh
  have hvalid : ∀ i ∈ Statement.written text, i.IsValid :=
    fun i hi => (Statement.isWritten_of_mem_written hi).isValid
  rw [Statement.arena_ofText]
  exact ((Arena.mem_pushAll_iff ha hvalid h).mp hh).1

/-- How to find out that a text is read, and shown as the given lines with each leaf on one line. -/
theorem Statement.exists_of_shows (a : Arena) (text shown : String)
    (h : ((Statement.ofText text a).1.toOption.bind fun s =>
      (s.toTree (Statement.ofText text a).2).toOption).any (fun t =>
        t.render == shown && t.texts.all fun text => !text.toList.contains '\n') = true) :
    ∃ s t, (Statement.ofText text a).1 = .ok s ∧ s.toTree (Statement.ofText text a).2 = .ok t ∧
      t.render = shown ∧ ∀ text ∈ t.texts, '\n' ∉ text.toList := by
  cases hs : (Statement.ofText text a).1 with
  | error e => simp [hs, Except.toOption] at h
  | ok s =>
    cases ht : s.toTree (Statement.ofText text a).2 with
    | error e => simp [hs, ht, Except.toOption] at h
    | ok t =>
      simp only [hs, ht, Except.toOption, Option.bind_some, Option.any_some, Bool.and_eq_true,
        beq_iff_eq, List.all_eq_true, Bool.not_eq_true', List.contains_eq_mem,
        decide_eq_false_iff_not] at h
      exact ⟨s, t, rfl, ht, h⟩

end Shown

/-- The lines that a tree is shown in determine it up to the types of its leaves, as long as the text
of every leaf is on one line. So two programs, which can be shown whenever they can be read, and are
shown in the same lines, have the same blocks, lines and groups, and leaves of the same kinds with the
same texts. -/
theorem shown_trees_unambiguous :
    (∀ t t' : Tree, (∀ text ∈ t.texts, '\n' ∉ text.toList) →
      (∀ text ∈ t'.texts, '\n' ∉ text.toList) → (t.render = t'.render ↔ t.Alike t')) ∧
    (∀ (text : String) (a : Arena) (s : Statement), a.Tidy → (Statement.ofText text a).1 = .ok s →
      ∃ t, s.toTree (Statement.ofText text a).2 = .ok t) ∧
    ∀ (a a' : Arena) (s s' : Statement) (t t' : Tree), s.toTree a = .ok t → s'.toTree a' = .ok t' →
      (∀ text ∈ t.texts, '\n' ∉ text.toList) → (∀ text ∈ t'.texts, '\n' ∉ text.toList) →
      t.render = t'.render → s.Alike (ShownAlike a a') s' := by
  refine ⟨fun _ _ => Tree.render_eq_iff, ?_, ?_⟩
  · intro text a s ha hs
    exact Statement.exists_toTree (Statement.isLive_of_ofText ha hs)
  · intro a a' s s' t t' ht ht' htexts htexts' hrender
    exact Statement.alike_of_toTree ht ht' ((Tree.render_eq_iff htexts htexts').mp hrender)

/-- A program with a string in it that reads like the label of a block, and another way to write it:
what is shown is the same text. -/
theorem shown_trees_unambiguous_label :
    ∃ s s', (Statement.ofText "if x \x7b\nprint 'Block:'\n\x7d\n" .empty).1 = .ok s ∧
      (Statement.ofText "if\tx\x7b\nprint \"Block:\"\n\x7d" .empty).1 = .ok s' ∧
      s.Alike (ShownAlike (Statement.ofText "if x \x7b\nprint 'Block:'\n\x7d\n" .empty).2
        (Statement.ofText "if\tx\x7b\nprint \"Block:\"\n\x7d" .empty).2) s' := by
  obtain ⟨s, t, hs, ht, hrender, htexts⟩ :=
    Statement.exists_of_shows .empty "if x \x7b\nprint 'Block:'\n\x7d\n"
      ("Block:\n  Expression:\n  Block:\n    Expression:\n      Identifier: if\n" ++
        "      Identifier: x\n    Statement:\n      Expression:\n    Statement:\n" ++
        "      Expression:\n        Identifier: print\n        String: Block:\n" ++
        "  Statement:\n    Expression:\n") (by decide +kernel)
  obtain ⟨s', t', hs', ht', hrender', htexts'⟩ :=
    Statement.exists_of_shows .empty "if\tx\x7b\nprint \"Block:\"\n\x7d" t.render
      (by rw [hrender]; decide +kernel)
  exact ⟨s, s', hs, hs', shown_trees_unambiguous.2.2 _ _ s s' t t' ht ht' htexts htexts'
    hrender'.symm⟩

end WordScript
