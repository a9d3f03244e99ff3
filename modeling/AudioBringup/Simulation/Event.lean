import AudioBringup.Uefi.Call
/-!
# Simulation.Event — what a simulated machine was seen doing

Every event has a level of detail at which it shows, and a line of text.  The contents of memory that was given back show
as their 64-bit FNV-1a digest.
-/
namespace AudioBringup
namespace Simulation

/-- The 64-bit FNV-1a digest of some bytes. -/
def digest (data : Array Byte) : UInt64 :=
  data.foldl (fun h b => (h ^^^ UInt64.ofNat b.toNat) * 0x100000001b3) 0xcbf29ce484222325

/-- A digest as its sixteen digits. -/
def digestText (data : Array Byte) : String := Hex.padded 16 (digest data).toNat

/-- How much is shown, each level with all before it. -/
inductive Detail
  | none
  | verbs
  | writes
  | all
  deriving Repr, DecidableEq

namespace Detail

def rank : Detail → Nat
  | .none => 0
  | .verbs => 1
  | .writes => 2
  | .all => 3

end Detail

/-- Something a machine was seen doing. -/
inductive Event
  | read (width : Width) (offset : Nat) (value : BitVec 32)
  | wrote (width : Width) (offset : Nat) (value : BitVec 32)
  /-- a codec was asked; `none` where it does not answer -/
  | asked (word : BitVec 32) (response : Option (BitVec 32))
  | stopped (stream : Nat)
  | allocated (length address : Nat)
  | refused (length : Nat)
  | freed (address : Nat) (contents : Array Byte)
  | stalled (microseconds : Nat)
  | armed (duration : Nat)
  | cancelled
  | timerRead (expired : Bool)
  -- a bus
  | candidates
  | identified (slot : Nat)
  | bound (slot : Nat)
  | released
  -- a firmware
  | called (call : Uefi.Call)
  | bufferFreed (pages address : Nat) (contents : Array Byte)

namespace Event

/-- The text of a firmware call; accesses to registers and memory, output and notices have none. -/
def callText? : Uefi.Call → Option String
  | .allocatePool memory size => s!"AllocatePool {memory.code} {size}"
  | .freePool _ => "FreePool"
  | .locateHandles search protocol => s!"LocateHandleBuffer {search.code} {protocol.name} 0"
  | .createTimer => "CreateEvent 0x80000000 4 0 0"
  | .setTimer event action time => s!"SetTimer {Hex.marked event} {action.code} {time.toNat}"
  | .checkEvent event => s!"CheckEvent {Hex.marked event}"
  | .closeEvent event => s!"CloseEvent {Hex.marked event}"
  | .stall microseconds => s!"Stall {microseconds}"
  | .openProtocol handle protocol agent mode =>
    s!"OpenProtocol {Hex.marked handle} {protocol.name} {Hex.marked agent} 0x0 {Hex.marked mode.code}"
  | .closeProtocol handle protocol agent =>
    s!"CloseProtocol {Hex.marked handle} {protocol.name} {Hex.marked agent} 0x0"
  | .configRead _ offset => s!"PciIo.Pci.Read 2 {Hex.marked offset} 1"
  | .enableAttributes _ attributes => s!"PciIo.Attributes 2 {Hex.marked attributes} 0"
  | .allocateBuffer _ memory pages => s!"PciIo.AllocateBuffer 0 {memory.code} {pages} 0"
  | .freeBuffer _ pages _ => s!"PciIo.FreeBuffer {pages}"
  | .map _ _ length => s!"PciIo.Map 2 {length}"
  | .unmap _ token => s!"PciIo.Unmap {token}"
  | .memRead .. | .memWrite .. | .outputString _ | .load32 _ | .load64 _ | .store32 .. | .store64 .. | .fill ..
  | .clear .. | .note _ => none

/-- The least detail at which an event shows. -/
def detail : Event → Detail
  | .read .. | .timerRead _ | .called (.checkEvent _) => .all
  | .wrote .. | .armed _ | .cancelled | .called (.setTimer ..) => .writes
  | .asked .. | .stopped _ | .allocated .. | .refused _ | .freed .. | .stalled _ | .candidates | .identified _
  | .bound _ | .released | .called _ | .bufferFreed .. => .verbs

/-- The line of an event. -/
def text : Event → String
  | .read width offset value => s!"r{width.bits} {Hex.marked offset} {Hex.marked value.toNat}"
  | .wrote width offset value => s!"w{width.bits} {Hex.marked offset} {Hex.marked value.toNat}"
  | .asked word response =>
    s!"verb 0x{Hex.padded 8 word.toNat} -> " ++ (response.map fun r => Hex.marked r.toNat).getD "none"
  | .stopped stream => s!"stopped {stream}"
  | .allocated length address => s!"alloc {length} at {Hex.marked address}"
  | .refused length => s!"alloc {length} refused"
  | .freed address contents => s!"free {Hex.marked address} {contents.size} {digestText contents}"
  | .stalled microseconds => s!"stall {microseconds}"
  | .armed duration => s!"arm {duration}"
  | .cancelled => "cancel"
  | .timerRead expired => s!"expired {expired}"
  | .candidates => "candidates"
  | .identified slot => s!"identify {slot}"
  | .bound slot => s!"bind {slot}"
  | .released => "release"
  | .called call => (callText? call).getD ""
  | .bufferFreed pages address contents =>
    s!"PciIo.FreeBuffer {pages} {Hex.marked address} {digestText contents}"

/-- The lines of the events that show at a level of detail; the events come newest first. -/
def lines (detail : Detail) (newestFirst : List Event) : List String :=
  ((newestFirst.filter fun e => e.detail.rank ≤ detail.rank).map text).reverse

end Event
end Simulation
end AudioBringup
