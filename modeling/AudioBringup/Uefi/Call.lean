import AudioBringup.Notice
import AudioBringup.Program
import AudioBringup.Width
/-!
# Uefi.Call — the firmware services the bring-up is built on

Boot services, the PCI I/O protocol of one handle, the console, and the memory the firmware handed out.  A service
answers a status and, where it has one, an output, which means something only beside a status that is no error.
Pointers, handles and events are numbers, and zero is none.
-/
namespace AudioBringup
namespace Uefi

/-- What a handle, an event or an allocation is known by; zero is none. -/
abbrev Pointer := Nat

/-- Whom allocated memory is charged to. -/
inductive MemoryType
  | loaderData
  | bootServicesData
  deriving Repr, DecidableEq

def MemoryType.code : MemoryType → Nat
  | .loaderData => 2
  | .bootServicesData => 4

/-- What handles are looked for by. -/
inductive SearchType
  | byProtocol
  deriving Repr, DecidableEq

def SearchType.code : SearchType → Nat
  | .byProtocol => 2

/-- The protocols a handle is opened for. -/
inductive Protocol
  | pciIo
  deriving Repr, DecidableEq

def Protocol.name : Protocol → String
  | .pciIo => "PciIo"

/-- How an agent holds a protocol it opens. -/
inductive OpenMode
  /-- a look, that keeps nobody else away -/
  | get
  /-- sole access -/
  | exclusive
  deriving Repr, DecidableEq

def OpenMode.code : OpenMode → Nat
  | .get => 0x02
  | .exclusive => 0x20

/-- What a timer is told. -/
inductive TimerAction
  | cancel
  /-- go off once, after a time -/
  | relative
  deriving Repr, DecidableEq

def TimerAction.code : TimerAction → Nat
  | .cancel => 0
  | .relative => 2

/-- The attribute bits that turn memory decoding and bus mastering on. -/
def busAttributes : Nat := 0x0200 ||| 0x0400

/-- The page, in bytes. -/
def pageSize : Nat := 4096

/-- One request to the firmware. -/
inductive Call
  | allocatePool (memory : MemoryType) (size : Nat)
  | freePool (pool : Pointer)
  | locateHandles (search : SearchType) (protocol : Protocol)
  /-- a timer event, without anything to be notified -/
  | createTimer
  | setTimer (event : Pointer) (action : TimerAction) (time : BitVec 64)
  | checkEvent (event : Pointer)
  | closeEvent (event : Pointer)
  | stall (microseconds : Nat)
  | openProtocol (handle : Pointer) (protocol : Protocol) (agent : Pointer) (mode : OpenMode)
  | closeProtocol (handle : Pointer) (protocol : Protocol) (agent : Pointer)
  /-- one register of BAR 0 -/
  | memRead (handle : Pointer) (width : Width) (offset : BitVec 32)
  | memWrite (handle : Pointer) (width : Width) (offset value : BitVec 32)
  /-- one dword of configuration space -/
  | configRead (handle : Pointer) (offset : Nat)
  | enableAttributes (handle : Pointer) (attributes : Nat)
  | allocateBuffer (handle : Pointer) (memory : MemoryType) (pages : Nat)
  | freeBuffer (handle : Pointer) (pages : Nat) (host : Pointer)
  /-- lets the device reach memory of the host that both go on using -/
  | map (handle : Pointer) (host : Pointer) (length : Nat)
  | unmap (handle : Pointer) (token : Nat)
  /-- a string of 16-bit units, to be shown up to its first zero -/
  | outputString (units : List (BitVec 16))
  | load32 (host : Pointer)
  | load64 (host : Pointer)
  | store32 (host : Pointer) (value : BitVec 32)
  | store64 (host : Pointer) (value : BitVec 64)
  | fill (host : Pointer) (data : Array Byte)
  | clear (host : Pointer) (length : Nat)
  | note (notice : Notice)

/-- The handles that were located, in a pool of the firmware's. -/
structure HandleBuffer where
  pool : Pointer
  count : Nat
  contents : List Pointer
  deriving Repr, DecidableEq

namespace HandleBuffer

/-- No handles, and nothing to give back. -/
def empty : HandleBuffer := ⟨0, 0, []⟩

/-- The handles there are to read. -/
def handles (b : HandleBuffer) : List Pointer := if b.pool = 0 then [] else b.contents

end HandleBuffer

/-- Memory the device can reach. -/
structure Mapping where
  address : BitVec 64
  /-- how much of it was mapped -/
  length : Nat
  token : Nat
  deriving Repr, DecidableEq

namespace Call

/-- What a request is answered by. -/
def Answer : Call → Type
  | .allocatePool .. | .createTimer | .openProtocol .. | .allocateBuffer .. => Status × Pointer
  | .locateHandles .. => Status × HandleBuffer
  | .memRead .. | .configRead .. => Status × BitVec 32
  | .map .. => Status × Mapping
  | .freePool _ | .setTimer .. | .checkEvent _ | .closeEvent _ | .stall _ | .closeProtocol .. | .memWrite ..
  | .enableAttributes .. | .freeBuffer .. | .unmap .. | .outputString _ => Status
  | .load32 _ => BitVec 32
  | .load64 _ => BitVec 64
  | .store32 .. | .store64 .. | .fill .. | .clear .. | .note _ => Unit

end Call
end Uefi
end AudioBringup
