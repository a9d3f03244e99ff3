import AudioBringup.Bits
/-!
# Register — the controller's register map

Byte offsets from the start of BAR 0, then one type per register that carries more than one field, with its fields
as functions.  A view holds the raw value, and its setters keep every bit they do not name.
-/
namespace AudioBringup

namespace Register

-- the controller as a whole: capabilities, control, wake enable, state change status, interrupts, stream synchronization
def gcap : BitVec 32 := 0x00
def gctl : BitVec 32 := 0x08
def wakeen : BitVec 32 := 0x0c
def statests : BitVec 32 := 0x0e
def intctl : BitVec 32 := 0x20
def ssync : BitVec 32 := 0x38

-- the command ring: base address in two halves, write pointer, read pointer, control, size
def corblbase : BitVec 32 := 0x40
def corbubase : BitVec 32 := 0x44
def corbwp : BitVec 32 := 0x48
def corbrp : BitVec 32 := 0x4a
def corbctl : BitVec 32 := 0x4c
def corbsize : BitVec 32 := 0x4e

-- the response ring: base address in two halves, write pointer, interrupt count, control, status, size
def rirblbase : BitVec 32 := 0x50
def rirbubase : BitVec 32 := 0x54
def rirbwp : BitVec 32 := 0x58
def rintcnt : BitVec 32 := 0x5a
def rirbctl : BitVec 32 := 0x5c
def rirbsts : BitVec 32 := 0x5d
def rirbsize : BitVec 32 := 0x5e

-- immediate commands: output, input, status
def icoi : BitVec 32 := 0x60
def icii : BitVec 32 := 0x64
def icis : BitVec 32 := 0x68

-- the position buffer's address in two halves; bit 0 of the lower one turns position reporting on
def dplbase : BitVec 32 := 0x70
def dpubase : BitVec 32 := 0x74

/-- The first stream descriptor's block. -/
def streams : BitVec 32 := 0x80
/-- The size of one stream descriptor's block. -/
def streamLength : Nat := 0x20

/-- The block of the stream descriptor with global index `n`: input streams come first, then output streams,
then bidirectional ones. -/
def stream (n : Nat) : BitVec 32 := streams + BitVec.ofNat 32 (n * streamLength)

-- within a stream descriptor's block: control in a low and a high part, cyclic buffer length, last valid index, format,
-- and the buffer list's address in two halves
def sdctl : BitVec 32 := 0x00
def sdctlHigh : BitVec 32 := 0x02
def sdcbl : BitVec 32 := 0x08
def sdlvi : BitVec 32 := 0x0c
def sdfmt : BitVec 32 := 0x12
def sdbdpl : BitVec 32 := 0x18
def sdbdpu : BitVec 32 := 0x1c

/-- Where a register of a stream descriptor's block stands. -/
theorem toNat_stream {n : Nat} {o : BitVec 32} (hn : n < 64) (ho : o.toNat < 0x20) :
    (stream n + o).toNat = 0x80 + 0x20 * n + o.toNat := by
  simp only [stream, streams, streamLength, BitVec.toNat_add, BitVec.toNat_ofNat, BitVec.reduceToNat]
  omega

end Register

open Bits (field withField withBit)

/-- What the controller is capable of. -/
structure GlobalCaps where
  raw : BitVec 16
  deriving Repr, DecidableEq

namespace GlobalCaps

def outputStreams (r : GlobalCaps) : Nat := (field r.raw 12 4).toNat
def inputStreams (r : GlobalCaps) : Nat := (field r.raw 8 4).toNat
def bidirectionalStreams (r : GlobalCaps) : Nat := (field r.raw 3 5).toNat
def addresses64 (r : GlobalCaps) : Bool := r.raw.getLsbD 0
def totalStreams (r : GlobalCaps) : Nat := r.inputStreams + r.outputStreams + r.bidirectionalStreams

end GlobalCaps

/-- Control over the controller and its link. -/
structure GlobalControl where
  raw : BitVec 32
  deriving Repr, DecidableEq

namespace GlobalControl

/-- Reads set once the controller has left reset. -/
def reset (r : GlobalControl) : Bool := r.raw.getLsbD 0
def withReset (r : GlobalControl) (set : Bool) : GlobalControl := ⟨withBit r.raw 0 set⟩

end GlobalControl

/-- A bit per codec address that signalled a state change, cleared by writing it back. -/
structure StateChangeStatus where
  raw : BitVec 16
  deriving Repr, DecidableEq

namespace StateChangeStatus

/-- The codec addresses that reported in, one bit each; the highest bit is none. -/
def codecs (r : StateChangeStatus) : BitVec 16 := (field r.raw 0 15).setWidth 16

end StateChangeStatus

/-- The last command slot the controller has fetched. -/
structure CorbReadPointer where
  raw : BitVec 16
  deriving Repr, DecidableEq

namespace CorbReadPointer

/-- Reads set once the pointer has been reset, and has to be cleared and read back clear after that. -/
def reset (r : CorbReadPointer) : Bool := r.raw.getLsbD 15
def withReset (r : CorbReadPointer) (set : Bool) : CorbReadPointer := ⟨withBit r.raw 15 set⟩
def slot (r : CorbReadPointer) : Nat := (field r.raw 0 8).toNat

end CorbReadPointer

/-- The last response slot the controller has written. -/
structure RirbWritePointer where
  raw : BitVec 16
  deriving Repr, DecidableEq

namespace RirbWritePointer

/-- The value that moves the pointer back to 0. -/
def resetRequest : RirbWritePointer := ⟨withBit 0#16 15 true⟩
def slot (r : RirbWritePointer) : Nat := (field r.raw 0 8).toNat

end RirbWritePointer

/-- The control of either ring: both have their run bit in one place. -/
structure RingControl where
  raw : BitVec 8
  deriving Repr, DecidableEq

namespace RingControl

/-- The ring's DMA engine runs; read back to see that it has changed state. -/
def run (r : RingControl) : Bool := r.raw.getLsbD 1
def withRun (r : RingControl) (set : Bool) : RingControl := ⟨withBit r.raw 1 set⟩

@[simp] theorem run_withRun (r : RingControl) (set : Bool) : (r.withRun set).run = set :=
  Bits.getLsbD_withBit r.raw 1 set

/-- Where the run bit stands in what is written to a ring's control. -/
theorem getLsbD_raw (r : RingControl) : (r.raw.setWidth 32).getLsbD 1 = r.run := by simp [run]

/-- Where the run bit stands in what is read from a ring's control. -/
theorem run_mk (v : BitVec 32) : (mk (v.setWidth 8)).run = v.getLsbD 1 := by simp [run]

end RingControl

/-- The sizes a ring comes in. -/
inductive RingEntries
  | two
  | sixteen
  | twoFiftySix
  deriving Repr, DecidableEq

namespace RingEntries

def count : RingEntries → Nat
  | .two => 2
  | .sixteen => 16
  | .twoFiftySix => 256

/-- The size of so many entries. -/
def ofCount? : Nat → Option RingEntries
  | 2 => some .two
  | 16 => some .sixteen
  | 256 => some .twoFiftySix
  | _ => none

/-- The code of a size in the size register. -/
def code : RingEntries → BitVec 2
  | .two => 0b00
  | .sixteen => 0b01
  | .twoFiftySix => 0b10

end RingEntries

/-- The size of either ring, and the sizes it can have. -/
structure RingSize where
  raw : BitVec 8
  deriving Repr, DecidableEq

namespace RingSize

/-- A bit per size: 2, 16 and 256 entries from the lowest. -/
def capability (r : RingSize) : BitVec 4 := field r.raw 4 4

/-- The largest size the capability names; none named is read as 256 entries. -/
def largest (r : RingSize) : RingEntries :=
  if r.capability.getLsbD 2 || r.capability == 0#4 then .twoFiftySix
  else if r.capability.getLsbD 1 then .sixteen
  else .two

def withEntries (r : RingSize) (n : RingEntries) : RingSize := ⟨withField r.raw 0 n.code⟩

end RingSize

/-- The state of the immediate command interface. -/
structure ImmediateStatus where
  raw : BitVec 16
  deriving Repr, DecidableEq

namespace ImmediateStatus

/-- What a controller without the interface reads as. -/
def absent : ImmediateStatus := ⟨0xffff⟩

/-- Setting it sends the command; the controller clears it once the response is there. -/
def withBusy (r : ImmediateStatus) (set : Bool) : ImmediateStatus := ⟨withBit r.raw 0 set⟩
/-- A response is waiting; cleared by writing it back set. -/
def valid (r : ImmediateStatus) : Bool := r.raw.getLsbD 1
def withValid (r : ImmediateStatus) (set : Bool) : ImmediateStatus := ⟨withBit r.raw 1 set⟩

end ImmediateStatus

/-- The 24 control bits of a stream, read and written as a low and a high part. -/
structure StreamControl where
  raw : BitVec 24
  deriving Repr, DecidableEq

namespace StreamControl

def ofParts (low : BitVec 16) (high : BitVec 8) : StreamControl := ⟨high ++ low⟩
/-- The control with `low` in its low part and nothing in its high part. -/
def ofLow (low : BitVec 16) : StreamControl := ⟨low.setWidth 24⟩
def low (r : StreamControl) : BitVec 16 := field r.raw 0 16
def high (r : StreamControl) : BitVec 8 := field r.raw 16 8

def reset (r : StreamControl) : Bool := r.raw.getLsbD 0
def withReset (r : StreamControl) (set : Bool) : StreamControl := ⟨withBit r.raw 0 set⟩
def run (r : StreamControl) : Bool := r.raw.getLsbD 1
def withRun (r : StreamControl) (set : Bool) : StreamControl := ⟨withBit r.raw 1 set⟩

@[simp] theorem run_withRun (r : StreamControl) (set : Bool) : (r.withRun set).run = set :=
  Bits.getLsbD_withBit r.raw 1 set

/-- Where the run bit stands in what is written to the low part. -/
theorem getLsbD_low (r : StreamControl) : (r.low.setWidth 32).getLsbD 1 = r.run := by simp [run, low, field]

/-- Where the run bit stands in what is read from the low part. -/
theorem run_ofLow (v : BitVec 32) : (ofLow (v.setWidth 16)).run = v.getLsbD 1 := by simp [run, ofLow]

def withPriority (r : StreamControl) (set : Bool) : StreamControl := ⟨withBit r.raw 18 set⟩
/-- The tag the stream's packets carry on the link, of which four bits count. -/
def withNumber (r : StreamControl) (n : BitVec 8) : StreamControl := ⟨withField r.raw 20 (n.setWidth 4)⟩

end StreamControl
end AudioBringup
