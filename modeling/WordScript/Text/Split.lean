/-!
# Splitting texts

A text cut at every occurrence of a character. Where it starts or ends with one, or has two in a
row, there is an empty piece.
-/

namespace WordScript.Text

/-- The pieces of a text between the occurrences of a character; there is always at least one. -/
def split (c : Char) : List Char → List (List Char)
  | [] => [[]]
  | d :: ds =>
    if d = c then [] :: split c ds
    else
      match split c ds with
      | [] => [[d]]
      | piece :: pieces => (d :: piece) :: pieces

/-- The pieces as strings. -/
def splitText (c : Char) (text : String) : List String :=
  (split c text.toList).map String.ofList

end WordScript.Text
