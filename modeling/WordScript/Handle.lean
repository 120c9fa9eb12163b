/-!
# Handles

How a program refers to an identifier in the arena.
-/

namespace WordScript

/--
A reference to a slot of the arena. A slot that is freed gets the next generation, so a handle
from before that no longer fits it. Generations are counted in 32 bits, and start again after the
last one. Indices are numbers without a bound: it is assumed that there are fewer than `2 ^ 32` slots
at a time, so that every index fits into 32 bits too.
-/
structure Handle where
  index : Nat
  generation : UInt32
deriving DecidableEq, Repr, Inhabited

/-- The handle of the slot that never holds an identifier. -/
def Handle.invalid : Handle := ⟨0, 0⟩

end WordScript
