import Mathlib.Data.List.Forall2
import WordScript.Tree

/-!
# Trees and their leaves

The leaves of a tree that is put together are those of its parts, from left to right. A text that is
read into two arenas gives two trees that differ in nothing but the handles at their leaves: two
trees are alike when the handles at the same leaf are related, and they have the same shape when
nothing is asked of the handles.
-/

namespace WordScript

/-! ## Lists that are related member by member -/

section Members

variable {α β : Type} {R S : α → β → Prop} {as : List α} {bs : List β}

theorem forall₂_cases (h : List.Forall₂ R as bs) :
    (as = [] ∧ bs = []) ∨
      ∃ a as' b bs', as = a :: as' ∧ bs = b :: bs' ∧ R a b ∧ List.Forall₂ R as' bs' := by
  cases h with
  | nil => exact .inl ⟨rfl, rfl⟩
  | cons hab hrest => exact .inr ⟨_, _, _, _, rfl, rfl, hab, hrest⟩

theorem optionRel_cases {o : Option α} {o' : Option β} (h : Option.Rel R o o') :
    (o = none ∧ o' = none) ∨ ∃ a b, o = some a ∧ o' = some b ∧ R a b := by
  cases h with
  | none => exact .inl ⟨rfl, rfl⟩
  | some hab => exact .inr ⟨_, _, rfl, rfl, hab⟩

/-- Another relation holds when it follows for the members of the first list. -/
theorem forall₂_imp_of_mem (hRS : ∀ a ∈ as, ∀ b, R a b → S a b) (h : List.Forall₂ R as bs) :
    List.Forall₂ S as bs := by
  refine List.Forall₂.imp ?_ ((List.forall₂_and_left _ _).mpr ⟨hRS, h⟩)
  exact fun a b hab => hab.1 b hab.2

/-- What is related to the same members is related member by member. -/
theorem forall₂_of_common {γ : Type} {T : α → γ → Prop} {Q : β → γ → Prop} {cs : List γ}
    (hQ : ∀ a ∈ as, ∀ b c, R a b → T a c → Q b c) (h : List.Forall₂ R as bs)
    (h' : List.Forall₂ T as cs) : List.Forall₂ Q bs cs := by
  induction h generalizing cs with
  | nil =>
    cases h'
    exact .nil
  | cons hab _ ih =>
    cases h' with
    | cons hac hrest =>
      exact .cons (hQ _ (by simp) _ _ hab hac)
        (ih (fun a ha => hQ a (List.mem_cons_of_mem _ ha)) hrest)

theorem forall₂_getElem? (h : List.Forall₂ R as bs) (index : Nat) :
    Option.Rel R as[index]? bs[index]? := by
  induction h generalizing index with
  | nil => exact .none
  | cons hab _ ih =>
    cases index with
    | zero => exact .some hab
    | succ index => exact ih index

theorem exists_of_forall₂ (h : List.Forall₂ R as bs) {a : α} (ha : a ∈ as) : ∃ b ∈ bs, R a b := by
  obtain ⟨index, hindex⟩ := List.mem_iff_getElem?.mp ha
  rcases optionRel_cases (forall₂_getElem? h index) with ⟨hnone, -⟩ | ⟨a', b, ha', hb, hab⟩
  · rw [hindex] at hnone
    contradiction
  · rw [hindex] at ha'
    cases ha'
    exact ⟨b, List.mem_of_getElem? hb, hab⟩

theorem forall₂_getLast? (h : List.Forall₂ R as bs) : Option.Rel R as.getLast? bs.getLast? := by
  rw [List.getLast?_eq_getElem?, List.getLast?_eq_getElem?, h.length_eq]
  exact forall₂_getElem? h _

theorem forall₂_dropLast (h : List.Forall₂ R as bs) : List.Forall₂ R as.dropLast bs.dropLast := by
  rw [List.dropLast_eq_take, List.dropLast_eq_take, h.length_eq]
  exact List.forall₂_take _ h

/-- Joined lists are related part by part when the first parts are equally long. -/
theorem forall₂_of_append {as' : List α} {bs' : List β} (hlength : as.length = bs.length)
    (h : List.Forall₂ R (as ++ as') (bs ++ bs')) :
    List.Forall₂ R as bs ∧ List.Forall₂ R as' bs' := by
  have hfirst := List.forall₂_take as.length h
  have hsecond := List.forall₂_drop as.length h
  rw [List.take_left, hlength, List.take_left] at hfirst
  rw [List.drop_left, hlength, List.drop_left] at hsecond
  exact ⟨hfirst, hsecond⟩

section Parts

variable {γ δ : Type} {f : γ → List α} {g : δ → List β} {cs : List γ} {ds : List δ}

theorem length_flatMap_of_forall₂ (h : List.Forall₂ (fun c d => (f c).length = (g d).length) cs ds) :
    (cs.flatMap f).length = (ds.flatMap g).length := by
  induction h with
  | nil => rfl
  | cons hcd _ ih => simp only [List.flatMap_cons, List.length_append, hcd, ih]

theorem forall₂_of_flatMap (h : List.Forall₂ (fun c d => (f c).length = (g d).length) cs ds)
    (hflat : List.Forall₂ R (cs.flatMap f) (ds.flatMap g)) :
    List.Forall₂ (fun c d => List.Forall₂ R (f c) (g d)) cs ds := by
  induction h with
  | nil => exact .nil
  | cons hcd _ ih =>
    rw [List.flatMap_cons, List.flatMap_cons] at hflat
    obtain ⟨hfirst, hrest⟩ := forall₂_of_append hcd hflat
    exact .cons hfirst (ih hrest)

end Parts

end Members

/-! ## Expressions -/

namespace Expression

theorem leavesOf_eq (es : List Expression) : leavesOf es = es.flatMap leaves := by
  induction es with
  | nil => rfl
  | cons e es ih => rw [leavesOf, ih, List.flatMap_cons]

theorem leavesOf_append (es es' : List Expression) :
    leavesOf (es ++ es') = leavesOf es ++ leavesOf es' := by
  simp only [leavesOf_eq, List.flatMap_append]

@[simp] theorem leavesOf_parts (e : Expression) : leavesOf e.parts = e.leaves := by
  cases e <;> simp [parts, leaves, leavesOf]

@[simp] theorem leaves_push (e child : Expression) :
    (e.push child).leaves = e.leaves ++ child.leaves := by
  simp [push, leaves, leavesOf_append, leavesOf]

theorem leaves_pop? {e child rest : Expression} (h : e.pop? = some (child, rest)) :
    e.leaves = rest.leaves ++ child.leaves := by
  cases e with
  | leaf h => simp [pop?] at h
  | group es =>
    simp only [pop?] at h
    split at h
    · next last hlast =>
      cases h
      obtain ⟨before, rfl⟩ := List.getLast?_eq_some_iff.mp hlast
      simp [leaves, leavesOf_append, leavesOf]
    · contradiction

theorem leaves_of_isEmpty {e : Expression} (h : e.isEmpty = true) : e.leaves = [] := by
  unfold isEmpty at h
  split at h
  · rfl
  · contradiction

theorem mem_leavesOf {es : List Expression} {h : Handle} :
    h ∈ leavesOf es ↔ ∃ e ∈ es, h ∈ e.leaves := by
  rw [leavesOf_eq, List.mem_flatMap]

/-- Something holds of every expression when it holds of a leaf, and of a group whenever it holds of
the members. -/
@[elab_as_elim]
theorem induction {P : Expression → Prop} (leaf : ∀ h, P (.leaf h))
    (group : ∀ es, (∀ e ∈ es, P e) → P (.group es)) : ∀ e, P e
  | .leaf h => leaf h
  | .group es => group es fun e _ => induction leaf group e

/-- The same expression, with related handles at the leaves. -/
inductive Alike (R : Handle → Handle → Prop) : Expression → Expression → Prop where
  | leaf {h k : Handle} (hk : R h k) : Alike R (.leaf h) (.leaf k)
  | group {es es' : List Expression} (hes : List.Forall₂ (Alike R) es es') :
      Alike R (.group es) (.group es')

/-- The same expression but for the handles at the leaves. -/
abbrev SameShape : Expression → Expression → Prop := Alike fun _ _ => True

section Alike

variable {R S : Handle → Handle → Prop} {e e' child child' : Expression}

theorem Alike.imp (hRS : ∀ h k, R h k → S h k) (he : Alike R e e') : Alike S e e' := by
  induction e using induction generalizing e' with
  | leaf h =>
    cases he with
    | leaf hk => exact .leaf (hRS _ _ hk)
  | group es ih =>
    cases he with
    | group hes => exact .group (forall₂_imp_of_mem (fun a ha b => ih a ha) hes)

/-- An expression is alike to itself when its leaves are related to themselves. -/
theorem alike_self (hleaves : ∀ h ∈ e.leaves, R h h) : Alike R e e := by
  induction e using induction with
  | leaf h => exact .leaf (hleaves h (by simp [leaves]))
  | group es ih =>
    refine .group (List.forall₂_same.mpr fun e he => ih e he fun h hh => hleaves h ?_)
    rw [leaves, mem_leavesOf]
    exact ⟨e, he, hh⟩

/-- Expressions that are alike to the same one have the same shape. -/
theorem Alike.sameShape {e'' : Expression} (he : Alike R e e') (he' : Alike S e e'') :
    SameShape e' e'' := by
  induction e using induction generalizing e' e'' with
  | leaf h =>
    cases he
    cases he'
    exact .leaf trivial
  | group es ih =>
    cases he with
    | group hes =>
      cases he' with
      | group hes' => exact .group (forall₂_of_common (fun e he _ _ h h' => ih e he h h') hes hes')

theorem Alike.parts (he : Alike R e e') : List.Forall₂ (Alike R) e.parts e'.parts := by
  cases he with
  | leaf hk => exact .cons (.leaf hk) .nil
  | group hes => exact hes

theorem Alike.push (he : Alike R e e') (hchild : Alike R child child') :
    Alike R (e.push child) (e'.push child') :=
  .group (List.rel_append he.parts (.cons hchild .nil))

theorem Alike.isEmpty (he : Alike R e e') : e.isEmpty = e'.isEmpty := by
  cases he with
  | leaf _ => rfl
  | group hes => cases hes <;> rfl

theorem Alike.pop? (he : Alike R e e') :
    Option.Rel (fun p p' => Alike R p.1 p'.1 ∧ Alike R p.2 p'.2) e.pop? e'.pop? := by
  cases he with
  | leaf _ => exact .none
  | @group es es' hes =>
    rcases optionRel_cases (forall₂_getLast? hes) with ⟨hl, hl'⟩ | ⟨last, last', hl, hl', hlast⟩ <;>
      simp only [Expression.pop?, hl, hl']
    · exact .none
    · exact .some ⟨hlast, .group (forall₂_dropLast hes)⟩

theorem Alike.length_leaves (he : Alike R e e') : e.leaves.length = e'.leaves.length := by
  induction e using induction generalizing e' with
  | leaf h =>
    cases he with
    | leaf _ => rfl
  | group es ih =>
    cases he with
    | group hes =>
      simp only [leaves, leavesOf_eq]
      exact length_flatMap_of_forall₂ (forall₂_imp_of_mem (fun a ha b => ih a ha) hes)

/-- Expressions that are alike are so in every way in which their leaves are related one after the
other. -/
theorem Alike.of_leaves (he : Alike S e e') (hleaves : List.Forall₂ R e.leaves e'.leaves) :
    Alike R e e' := by
  induction e using induction generalizing e' with
  | leaf h =>
    cases he with
    | leaf _ =>
      simp only [leaves, List.forall₂_cons] at hleaves
      exact .leaf hleaves.1
  | group es ih =>
    cases he with
    | group hes =>
      simp only [leaves, leavesOf_eq] at hleaves
      have hparts := forall₂_of_flatMap (hes.imp fun _ _ => Alike.length_leaves) hleaves
      refine .group (List.Forall₂.mp (fun a b h => h) ?_ hparts)
      exact forall₂_imp_of_mem (fun a ha b hab => ih a ha hab) hes

end Alike

end Expression

/-! ## Statements -/

namespace Statement

mutual

/-- The handles at the leaves, those of the head before those of the body. -/
def leaves : Statement → List Handle
  | mk head body => head.leaves ++ leavesOf body

/-- The handles at the leaves of statements one below the other. -/
def leavesOf : List Statement → List Handle
  | [] => []
  | s :: ss => s.leaves ++ leavesOf ss

end

theorem leaves_eq (s : Statement) : s.leaves = s.head.leaves ++ leavesOf s.body := by
  cases s
  rw [leaves, head_mk, body_mk]

theorem leavesOf_eq (ss : List Statement) : leavesOf ss = ss.flatMap leaves := by
  induction ss with
  | nil => rfl
  | cons s ss ih => rw [leavesOf, ih, List.flatMap_cons]

theorem leavesOf_append (ss ss' : List Statement) :
    leavesOf (ss ++ ss') = leavesOf ss ++ leavesOf ss' := by
  simp only [leavesOf_eq, List.flatMap_append]

@[simp] theorem leaves_line (head : Expression) : (line head).leaves = head.leaves := by
  simp [line, leaves, leavesOf]

@[simp] theorem leaves_push (s child : Statement) :
    (s.push child).leaves = s.leaves ++ child.leaves := by
  simp [push, leaves_eq, leavesOf_append, leavesOf]

/-- Something holds of every statement when it holds whenever it holds of those in the body. -/
@[elab_as_elim]
theorem induction {P : Statement → Prop}
    (mk : ∀ head body, (∀ s ∈ body, P s) → P (.mk head body)) : ∀ s, P s
  | .mk head body => mk head body fun s _ => induction mk s

/-- The same statement, with related handles at the leaves. -/
inductive Alike (R : Handle → Handle → Prop) : Statement → Statement → Prop where
  | mk {head head' : Expression} {body body' : List Statement} (hhead : head.Alike R head')
      (hbody : List.Forall₂ (Alike R) body body') : Alike R (.mk head body) (.mk head' body')

/-- The same statement but for the handles at the leaves. -/
abbrev SameShape : Statement → Statement → Prop := Alike fun _ _ => True

section Alike

variable {R S : Handle → Handle → Prop} {s s' child child' : Statement}

theorem Alike.imp (hRS : ∀ h k, R h k → S h k) (hs : Alike R s s') : Alike S s s' := by
  induction s using induction generalizing s' with
  | mk head body ih =>
    cases hs with
    | mk hhead hbody =>
      exact .mk (hhead.imp hRS) (forall₂_imp_of_mem (fun s hs _ => ih s hs) hbody)

/-- A statement is alike to itself when its leaves are related to themselves. -/
theorem alike_self (hleaves : ∀ h ∈ s.leaves, R h h) : Alike R s s := by
  induction s using induction with
  | mk head body ih =>
    refine .mk (Expression.alike_self fun h hh => hleaves h ?_)
      (List.forall₂_same.mpr fun s hs => ih s hs fun h hh => hleaves h ?_)
    · exact List.mem_append_left _ hh
    · rw [leaves, leavesOf_eq]
      exact List.mem_append_right _ (List.mem_flatMap.mpr ⟨s, hs, hh⟩)

/-- Statements that are alike to the same one have the same shape. -/
theorem Alike.sameShape {s'' : Statement} (hs : Alike R s s') (hs' : Alike S s s'') :
    SameShape s' s'' := by
  induction s using induction generalizing s' s'' with
  | mk head body ih =>
    cases hs with
    | mk hhead hbody =>
      cases hs' with
      | mk hhead' hbody' =>
        refine .mk (hhead.sameShape hhead') ?_
        exact forall₂_of_common (fun s hs _ _ h h' => ih s hs h h') hbody hbody'

theorem Alike.head (hs : Alike R s s') : s.head.Alike R s'.head := by
  cases hs with
  | mk hhead _ => exact hhead

theorem Alike.body (hs : Alike R s s') : List.Forall₂ (Alike R) s.body s'.body := by
  cases hs with
  | mk _ hbody => exact hbody

theorem Alike.isBlock (hs : Alike R s s') : s.isBlock = s'.isBlock := by
  cases hs with
  | mk _ hbody => cases hbody <;> rfl

theorem alike_line {head head' : Expression} (hhead : head.Alike R head') :
    Alike R (line head) (line head') :=
  .mk hhead .nil

theorem Alike.push (hs : Alike R s s') (hchild : Alike R child child') :
    Alike R (s.push child) (s'.push child') :=
  .mk hs.head (List.rel_append hs.body (.cons hchild .nil))

theorem Alike.length_leaves (hs : Alike R s s') : s.leaves.length = s'.leaves.length := by
  induction s using induction generalizing s' with
  | mk head body ih =>
    cases hs with
    | mk hhead hbody =>
      have hlength := length_flatMap_of_forall₂ (f := leaves) (g := leaves)
        (forall₂_imp_of_mem (fun s hs _ hss => ih s hs hss) hbody)
      simp only [leaves, leavesOf_eq, List.length_append, hhead.length_leaves, hlength]

/-- Statements that are alike are so in every way in which their leaves are related one after the
other. -/
theorem Alike.of_leaves (hs : Alike S s s') (hleaves : List.Forall₂ R s.leaves s'.leaves) :
    Alike R s s' := by
  induction s using induction generalizing s' with
  | mk head body ih =>
    cases hs with
    | mk hhead hbody =>
      simp only [leaves, leavesOf_eq] at hleaves
      obtain ⟨hheadLeaves, hbodyLeaves⟩ := forall₂_of_append hhead.length_leaves hleaves
      have hparts := forall₂_of_flatMap (hbody.imp fun _ _ => Alike.length_leaves) hbodyLeaves
      refine .mk (hhead.of_leaves hheadLeaves) (List.Forall₂.mp (fun _ _ h => h) ?_ hparts)
      exact forall₂_imp_of_mem (fun s hs _ hss => ih s hs hss) hbody

end Alike

end Statement

/-! ## Trees that are shown -/

section Shown

variable {a b : Arena}

/-- The handles refer to the same identifier, each in its own arena. -/
def SameIdentifier (a b : Arena) (h k : Handle) : Prop :=
  ∃ i, a.get? h = some i ∧ b.get? k = some i

theorem Expression.toTrees_of_forall₂ {es es' : List Expression}
    (h : List.Forall₂ (fun e e' => ∃ tree, e.toTree a = .ok tree ∧ e'.toTree b = .ok tree) es es') :
    ∃ trees, Expression.toTrees a es = .ok trees ∧ Expression.toTrees b es' = .ok trees := by
  induction h with
  | nil => exact ⟨[], rfl, rfl⟩
  | cons he _ ih =>
    obtain ⟨tree, htree, htree'⟩ := he
    obtain ⟨trees, htrees, htrees'⟩ := ih
    exact ⟨tree :: trees, by simp [Expression.toTrees, htree, htrees],
      by simp [Expression.toTrees, htree', htrees']⟩

/-- Expressions with the same identifiers at their leaves are shown in the same way. -/
theorem Expression.Alike.toTree {e e' : Expression} (he : e.Alike (SameIdentifier a b) e') :
    ∃ tree, e.toTree a = .ok tree ∧ e'.toTree b = .ok tree := by
  induction e using Expression.induction generalizing e' with
  | leaf h =>
    cases he with
    | leaf hk =>
      obtain ⟨i, hi, hi'⟩ := hk
      exact ⟨i.toTree, by simp [Expression.toTree, hi], by simp [Expression.toTree, hi']⟩
  | group es ih =>
    cases he with
    | group hes =>
      obtain ⟨trees, htrees, htrees'⟩ :=
        Expression.toTrees_of_forall₂ (forall₂_imp_of_mem (fun e he _ => ih e he) hes)
      exact ⟨.group trees, by simp [Expression.toTree, htrees],
        by simp [Expression.toTree, htrees']⟩

theorem Statement.toTrees_of_forall₂ {ss ss' : List Statement}
    (h : List.Forall₂ (fun s s' => ∃ tree, s.toTree a = .ok tree ∧ s'.toTree b = .ok tree) ss ss') :
    ∃ trees, Statement.toTrees a ss = .ok trees ∧ Statement.toTrees b ss' = .ok trees := by
  induction h with
  | nil => exact ⟨[], rfl, rfl⟩
  | cons hs _ ih =>
    obtain ⟨tree, htree, htree'⟩ := hs
    obtain ⟨trees, htrees, htrees'⟩ := ih
    exact ⟨tree :: trees, by simp [Statement.toTrees, htree, htrees],
      by simp [Statement.toTrees, htree', htrees']⟩

/-- Statements with the same identifiers at their leaves are shown in the same way. -/
theorem Statement.Alike.toTree {s s' : Statement} (hs : s.Alike (SameIdentifier a b) s') :
    ∃ tree, s.toTree a = .ok tree ∧ s'.toTree b = .ok tree := by
  induction s using Statement.induction generalizing s' with
  | mk head body ih =>
    cases hs with
    | mk hhead hbody =>
      obtain ⟨shown, hshown, hshown'⟩ := hhead.toTree
      obtain ⟨trees, htrees, htrees'⟩ :=
        Statement.toTrees_of_forall₂ (forall₂_imp_of_mem (fun s hs _ => ih s hs) hbody)
      cases trees with
      | nil =>
        exact ⟨.line shown, by simp [Statement.toTree, hshown, htrees],
          by simp [Statement.toTree, hshown', htrees']⟩
      | cons tree trees =>
        exact ⟨.block shown (tree :: trees), by simp [Statement.toTree, hshown, htrees],
          by simp [Statement.toTree, hshown', htrees']⟩

end Shown

end WordScript
