import AudioBringup.Error
/-!
# Playback.BufferList — a waveform in aligned pieces

A stream plays a cyclic buffer that a list of pieces describes.  `split` cuts a buffer into pieces of roughly equal
size, each starting on the alignment the hardware wants, whose lengths add up to the whole.
-/
namespace AudioBringup

/-- One piece of the cyclic buffer. -/
structure BufferPiece where
  /-- where the device finds it -/
  address : BitVec 64
  length : BitVec 32
  /-- an interrupt is raised once the piece has been fetched -/
  interruptOnCompletion : Bool
  deriving Repr, DecidableEq

namespace BufferList

/-- Bytes of one piece's record in memory. -/
def recordLength : Nat := 16
/-- The most pieces one list holds. -/
def maxPieces : Nat := 256
/-- Bytes of a list in memory. -/
def length : Nat := maxPieces * recordLength
/-- What a piece's start is a multiple of. -/
def alignment : Nat := 128

/-- The shortest waveform that gives each of `parts` pieces an aligned part of its own. -/
def minLength (parts : Nat) : Nat := parts * alignment

/-- Whether `parts` pieces can describe `length` bytes. -/
def checkShape (length parts : Nat) : Except Error Unit :=
  if parts = 0 ∨ maxPieces < parts ∨ 0xffffffff < length then .error (.badWaveform length)
  else if length < minLength parts then .error (.waveformTooShort length (minLength parts))
  else .ok ()

/-- Where piece `i` of `parts` starts: its even share of the buffer, brought down to the alignment. -/
def boundary (length parts i : Nat) : Nat :=
  if i = parts then length
  else
    let share := length * i / parts
    share - share % alignment

/-- Piece `i` of `parts` of the buffer at `address`. -/
def piece (address : BitVec 64) (length parts i : Nat) : BufferPiece :=
  let start := boundary length parts i
  { address := address + BitVec.ofNat 64 start
    length := BitVec.ofNat 32 (boundary length parts (i + 1) - start)
    interruptOnCompletion := false }

/-- The pieces of the buffer of `length` bytes at `address`, in order. -/
def split (address : BitVec 64) (length parts : Nat) : Except Error (List BufferPiece) := do
  checkShape length parts
  return (List.range parts).map (piece address length parts)

end BufferList
end AudioBringup
