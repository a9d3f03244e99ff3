/-!
# Misuse — calls that break their own contract

An operation whose arguments it does not admit has no result and no effect: the caller is wrong, and
whatever was running ends there.  Misuse is kept apart from `Error`, which is what the hardware or the
firmware answered.
-/
namespace AudioBringup

/-- How an operation was called outside its contract. -/
inductive Misuse
  /-- a bit index or bit range outside the word, or an empty range -/
  | bitsOutOfRange
  /-- a field value wider than the field -/
  | valueTooWide
  /-- an access past the end of a DMA region -/
  | outOfBounds
  /-- an access to a DMA region that is not a multiple of its own size -/
  | misaligned
  /-- a call to the bound function while none is bound -/
  | nothingBound
  deriving Repr, DecidableEq

namespace Misuse

/-- The text a misuse stops with, where it names one. -/
def message? : Misuse → Option String
  | .valueTooWide => some "The given value does not fit in the given range"
  | .outOfBounds => some "DMA access out of bounds"
  | .misaligned => some "misaligned DMA access"
  | .bitsOutOfRange | .nothingBound => none

end Misuse
end AudioBringup
