import WordScript.RuntimeError

/-!
# The sink

Where the output of programs goes. A sink may refuse what would make it hold more than a given
number of bytes, and it may refuse to be flushed.
-/

namespace WordScript

/-- The pieces of text written so far, the latest first, and what the sink refuses. -/
structure Sink where
  pieces : List String := []
  limit : Option Nat := none
  refusesFlush : Bool := false
deriving DecidableEq, Repr

namespace Sink

/-- The number of bytes written so far. -/
def size (s : Sink) : Nat :=
  s.pieces.foldr (fun piece bytes => piece.utf8ByteSize + bytes) 0

/-- Whether the sink has room for so many bytes more. -/
def hasRoom (s : Sink) (bytes : Nat) : Bool :=
  match s.limit with
  | none => true
  | some limit => s.size + bytes ≤ limit

/-- Writes a text, in one piece or not at all. The empty text is never written. -/
def write (s : Sink) (text : String) : Except RuntimeError Sink :=
  if text = "" then .ok s
  else if s.hasRoom text.utf8ByteSize then .ok { s with pieces := text :: s.pieces }
  else .error (.stream "sink full")

/-- Makes sure that all output has arrived. -/
def flush (s : Sink) : Except RuntimeError Unit :=
  if s.refusesFlush then .error (.stream "flush refused") else .ok ()

/-- The text written after the first `count` pieces. -/
def textSince (s : Sink) (count : Nat) : String :=
  String.join (s.pieces.take (s.pieces.length - count)).reverse

/-- All of the text written so far. -/
def text (s : Sink) : String :=
  s.textSince 0

end Sink

end WordScript
