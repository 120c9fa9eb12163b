/-!
# Bindings

Names with something bound to each, in the order in which they were first bound. The view of a list
of bindings is `find?`.
-/

namespace WordScript

/-- Names and what is bound to them. -/
abbrev Bindings (α : Type) := List (String × α)

namespace Bindings

variable {α : Type}

/-- What is bound to a name. -/
def find? : Bindings α → String → Option α
  | [], _ => none
  | (key, value) :: rest, name => if key = name then some value else find? rest name

/-- Binds a name, in the place of an earlier binding of it or else after all others. -/
def insert : Bindings α → String → α → Bindings α
  | [], name, value => [(name, value)]
  | (key, old) :: rest, name, value =>
    if key = name then (key, value) :: rest else (key, old) :: insert rest name value

/-- Everything that is bound, in order. -/
def values (bs : Bindings α) : List α :=
  bs.map Prod.snd

@[simp] theorem find?_insert_self (bs : Bindings α) (name : String) (value : α) :
    (bs.insert name value).find? name = some value := by
  induction bs with
  | nil => simp [insert, find?]
  | cons b bs ih =>
    by_cases h : b.1 = name
    · simp [insert, find?, h]
    · simp [insert, find?, h, ih]

theorem find?_insert_of_ne {name other : String} (h : other ≠ name) (bs : Bindings α) (value : α) :
    (bs.insert name value).find? other = bs.find? other := by
  induction bs with
  | nil => simp [insert, find?, Ne.symm h]
  | cons b bs ih =>
    by_cases hkey : b.1 = name
    · simp [insert, find?, hkey, Ne.symm h]
    · simp [insert, find?, hkey, ih]

/-- Binding a name to what it is bound to already changes nothing. -/
theorem insert_eq_self {bs : Bindings α} {name : String} {value : α}
    (h : bs.find? name = some value) : bs.insert name value = bs := by
  induction bs with
  | nil => simp [find?] at h
  | cons b bs ih =>
    obtain ⟨key, old⟩ := b
    by_cases hkey : key = name
    · simp_all [find?, insert]
    · simp_all [find?, insert]

end Bindings

end WordScript
