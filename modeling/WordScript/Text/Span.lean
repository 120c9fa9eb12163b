/-!
# Spans and positions

A span is a half-open range of byte offsets into a text. A position is where an offset lies for a
reader: a line, and a column that counts characters, both from one.
-/

namespace WordScript

/-- A range of byte offsets, from `start` up to but not including `stop`. -/
structure Span where
  start : Nat
  stop : Nat
deriving DecidableEq, Repr

/-- A line and a column, both counted from one. -/
structure Position where
  line : Nat
  column : Nat
deriving DecidableEq, Repr

namespace Text

/-- The number of bytes that the characters take when encoded. -/
def byteLength : List Char → Nat
  | [] => 0
  | c :: cs => c.utf8Size + byteLength cs

@[simp] theorem byteLength_append (cs ds : List Char) :
    byteLength (cs ++ ds) = byteLength cs + byteLength ds := by
  induction cs with
  | nil => simp [byteLength]
  | cons c cs ih => simp [byteLength, ih, Nat.add_assoc]

/-- The characters that start before the byte offset. -/
def before : List Char → Nat → List Char
  | [], _ => []
  | c :: cs, offset => if offset = 0 then [] else c :: before cs (offset - c.utf8Size)

/-- Cutting at the end of an initial part gives that part. -/
@[simp] theorem before_append (cs ds : List Char) : before (cs ++ ds) (byteLength cs) = cs := by
  induction cs with
  | nil => cases ds <;> simp [before, byteLength]
  | cons c cs ih =>
    have positive := c.utf8Size_pos
    have nonzero : c.utf8Size + byteLength cs ≠ 0 := by omega
    rw [List.cons_append, before, byteLength, if_neg nonzero, Nat.add_sub_cancel_left, ih]

end Text

namespace Span

/-- The smallest span that covers both. -/
def merge (a b : Span) : Span :=
  ⟨min a.start b.start, max a.stop b.stop⟩

/-- The span as a text, its two offsets joined by two dots. -/
def toText (a : Span) : String :=
  toString a.start ++ ".." ++ toString a.stop

end Span

namespace Position

/-- The position that follows the given characters. -/
def afterText (cs : List Char) : Position where
  line := cs.count '\n' + 1
  column := (cs.reverse.takeWhile (· != '\n')).length + 1

/-- The position of a byte offset in a text; an offset past the end counts as the end. -/
def ofOffset (text : List Char) (offset : Nat) : Position :=
  afterText (Text.before text offset)

end Position

end WordScript
