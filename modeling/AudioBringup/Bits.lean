import AudioBringup.Misuse
/-!
# Bits — the fields packed into a machine word

Words are bit vectors, bit 0 the least significant.  Each access comes twice.
- The total form (`withBit`, `field`, `withField`) is for fields whose place is fixed by a layout: a value wider
  than its field is cut to it.
- The checked form (`readBit`, `writeBit`, `readBits`, `writeBits`) takes any index or range and any value, and
  answers a `Misuse` when they do not fit the word.  The word is then left as it was.
-/
namespace AudioBringup
namespace Bits

variable {w : Nat}

/-- Bit `i` set or cleared, every other bit kept. -/
def withBit (n : BitVec w) (i : Nat) (set : Bool) : BitVec w :=
  if set then n ||| BitVec.twoPow w i else n &&& ~~~BitVec.twoPow w i

theorem getLsbD_withBit (n : BitVec w) (i : Nat) (set : Bool) :
    (withBit n i set).getLsbD i = (decide (i < w) && set) := by
  cases set
  · simp [withBit]
  · simpa [withBit] using BitVec.lt_of_getLsbD

/-- The `len` bits from bit `start` up. -/
def field (n : BitVec w) (start len : Nat) : BitVec len := n.extractLsb' start len

/-- The bits from `start` up replaced by `value`, every other bit kept. -/
def withField {len : Nat} (n : BitVec w) (start : Nat) (value : BitVec len) : BitVec w :=
  n &&& ~~~((BitVec.allOnes len).setWidth w <<< start) ||| value.setWidth w <<< start

/-- One end of a range of bit indices. -/
inductive Bound
  | included (i : Nat)
  | excluded (i : Nat)
  | unbounded
  deriving Repr, DecidableEq

/-- A range of bit indices as it is written, before it is held against a word. -/
structure Range where
  lower : Bound
  upper : Bound
  deriving Repr, DecidableEq

namespace Range

/-- The first bit of the range. -/
def start (r : Range) : Nat :=
  match r.lower with
  | .included i => i
  | .excluded i => i + 1
  | .unbounded => 0

/-- The bit after the last one of the range, in a word of `width` bits. -/
def stop (r : Range) (width : Nat) : Nat :=
  match r.upper with
  | .included i => i + 1
  | .excluded i => i
  | .unbounded => width

/-- The range holds a bit, and only bits of a word of `width` bits. -/
def Fits (r : Range) (width : Nat) : Prop := r.start < r.stop width ∧ r.stop width ≤ width

instance (r : Range) (width : Nat) : Decidable (r.Fits width) := inferInstanceAs (Decidable (_ ∧ _))

/-- How many bits the range holds. -/
def size (r : Range) (width : Nat) : Nat := r.stop width - r.start

end Range

/-- The word whose low `len` bits are set. -/
def lowMask (w len : Nat) : BitVec w := BitVec.allOnes w >>> (w - len)

/-- Bit `i`, if the word has it. -/
def readBit (n : BitVec w) (i : Nat) : Except Misuse Bool :=
  if i < w then .ok (n.getLsbD i) else .error .bitsOutOfRange

/-- Bit `i` set or cleared, if the word has it. -/
def writeBit (n : BitVec w) (i : Nat) (set : Bool) : Except Misuse (BitVec w) :=
  if i < w then .ok (withBit n i set) else .error .bitsOutOfRange

/-- The bits of the range, shifted down to bit 0. -/
def readBits (n : BitVec w) (r : Range) : Except Misuse (BitVec w) :=
  if r.Fits w then .ok (n >>> r.start &&& lowMask w (r.size w)) else .error .bitsOutOfRange

/-- The bits of the range replaced by `value`, which has to fit them. -/
def writeBits (n : BitVec w) (r : Range) (value : BitVec w) : Except Misuse (BitVec w) :=
  if r.Fits w then
    let mask := lowMask w (r.size w)
    if value &&& ~~~mask = 0#w then .ok (n &&& ~~~(mask <<< r.start) ||| value <<< r.start)
    else .error .valueTooWide
  else .error .bitsOutOfRange

end Bits
end AudioBringup
