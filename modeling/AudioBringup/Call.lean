import AudioBringup.Notice
import AudioBringup.Program
import AudioBringup.Width
/-!
# Call — everything the bring-up asks of the world around it

The PCI bus (`candidates` to `release`), the function bound through it (registers, bus master memory, time), the host
side of that memory, and whoever listens to notices.  At most one function is bound at a time, and the calls between
`bindExclusive` and `release` are to that one.  Bus and function calls can fail; memory accesses and notices cannot.
-/
namespace AudioBringup

/-- One request to the world around the bring-up. -/
inductive Call
  /-- every PCI function there is, in the order the bus has them -/
  | candidates
  /-- what a function says it is, without claiming it -/
  | identify (candidate : Pci.Candidate)
  /-- claims a function, with memory decoding and bus mastering on -/
  | bindExclusive (candidate : Pci.Candidate)
  /-- gives up the claimed function -/
  | release
  | read (width : Width) (offset : BitVec 32)
  /-- writes the bits of `value` that the width carries -/
  | write (width : Width) (offset value : BitVec 32)
  /-- memory of at least `length` bytes, whatever they hold -/
  | allocate (length : Nat)
  | free (region : Region)
  | stall (microseconds : Nat)
  /-- starts a timer that expires once, in units of 100 ns -/
  | armTimer (duration : BitVec 64)
  | timerExpired
  | cancelTimer
  | load32 (host : Nat)
  | load64 (host : Nat)
  | store32 (host : Nat) (value : BitVec 32)
  | store64 (host : Nat) (value : BitVec 64)
  | fill (host : Nat) (data : Array Byte)
  | clear (host length : Nat)
  | note (notice : Notice)

namespace Call

/-- What a call is answered by. -/
def Answer : Call → Type
  | .candidates => Except Error (List Pci.Candidate)
  | .identify _ => Except Error Pci.Identity
  | .read .. => Except Error (BitVec 32)
  | .allocate _ => Except Error Region
  | .timerExpired => Except Error Bool
  | .bindExclusive _ | .release | .write .. | .free _ | .stall _ | .armTimer _ | .cancelTimer => Except Error Unit
  | .load32 _ => BitVec 32
  | .load64 _ => BitVec 64
  | .store32 .. | .store64 .. | .fill .. | .clear .. | .note _ => Unit

end Call
end AudioBringup
