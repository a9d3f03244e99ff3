import AudioBringup.Simulation.Device
import AudioBringup.Simulation.Fault
import AudioBringup.Simulation.Machine
import AudioBringup.Uefi.Call
/-!
# Simulation.Firmware — boot services and PCI I/O over simulated devices

Every call is seen before a fault can strike it.  A call that is struck does nothing and has no outputs, but for the
length of a mapping, which stays as it was asked for.  A fault without the error bit is a warning, and its caller goes on.
-/
namespace AudioBringup
namespace Simulation

open Uefi (Status Pointer)

/-- One handle with PCI I/O: its two configuration dwords and its device. -/
structure FirmwareHandle where
  ids : BitVec 32
  classes : BitVec 32
  device : Device

/-- A firmware with its handles, and all it has given out. -/
structure Firmware where
  handles : Array FirmwareHandle
  faults : List Fault := []
  /-- opening a protocol yields no interface -/
  nullInterface : Bool := false
  /-- the most bytes a mapping covers, if there is a limit -/
  mapLimit : Option Nat := none
  timerChecks : Nat := 3
  timer : Countdown := none
  budget : Nat := 200000
  /-- pools that have not been given back -/
  pools : List Pointer := []
  nextPool : Pointer := 1
  mappings : Nat := 0
  /-- what was seen, newest first -/
  events : List Event := []
  /-- what was told, newest first -/
  notices : List Notice := []
  /-- the strings that were shown, newest first -/
  shown : List (List (BitVec 16)) := []

namespace Firmware

/-- The application's own handle. -/
def image : Pointer := 0x1

/-- The one timer event there is. -/
def timerEvent : Pointer := 0xe0

/-- The value of handle `index`. -/
def handleValue (index : Nat) : Pointer := (index + 1) * 0x1000

/-- Which handle a value is, if any. -/
def indexOf? (f : Firmware) (handle : Pointer) : Option Nat :=
  let index := handle / 0x1000 - 1
  if handleValue index = handle ∧ index < f.handles.size then some index else none

/-- How much of the host's memory belongs to one handle: as much as its device can address. -/
def hostShare : Nat := 0x10000000000000000

/-- Where the host finds what the device of handle `index` finds at `address`. -/
def hostOf (index address : Nat) : Pointer := (index + 1) * hostShare + address

/-- The handle whose memory a host pointer is in. -/
def indexOfHost (host : Pointer) : Nat := host / hostShare - 1

/-- The device address of a host pointer. -/
def addressOfHost (host : Pointer) : Nat := host % hostShare

def observe (f : Firmware) (e : Event) : Firmware := { f with events := e :: f.events }

/-- Holds a call against the faults: the status it is struck with, if it is. -/
def strike (f : Firmware) (call : String) (offset : Option Nat) : Option Status × Firmware :=
  match Fault.strike call offset f.faults with
  | (struck, faults) => (struck.map (·.status), { f with faults := faults })

/-- A call that is seen, and has an effect and outputs unless a fault strikes it. -/
def service {α : Type} (f : Firmware) (c : Uefi.Call) (name : String) (offset : Option Nat) (nothing : α)
    (effect : Firmware → (Status × α) × Firmware) : (Status × α) × Firmware :=
  match (f.observe (.called c)).strike name offset with
  | (some status, f) => ((status, nothing), f)
  | (none, f) => effect f

/-- A call without outputs that is seen, and has an effect unless a fault strikes it. -/
def plainService (f : Firmware) (c : Uefi.Call) (name : String) (offset : Option Nat)
    (effect : Firmware → Status × Firmware) : Status × Firmware :=
  match (f.observe (.called c)).strike name offset with
  | (some status, f) => (status, f)
  | (none, f) => effect f

/-- Works on the device of a handle and takes over what was seen there. -/
def onDevice {α : Type} (f : Firmware) (index : Nat) (nothing : α) (work : Device → α × Device) : α × Firmware :=
  match f.handles[index]? with
  | none => (nothing, f)
  | some h =>
    let (a, device) := work h.device
    let events := device.events ++ f.events
    (a, { f with
      handles := f.handles.setIfInBounds index { h with device := { device with events := [] } }
      events := events })

/-- Changes the memory that a host pointer is in. -/
def remember (f : Firmware) (host : Pointer) (work : Memory → Nat → Memory) : Firmware :=
  (f.onDevice (indexOfHost host) () fun d => ((), { d with memory := work d.memory (addressOfHost host) })).2

/-- The number in the `count` bytes at a host pointer. -/
def loadHost (f : Firmware) (host : Pointer) (count : Nat) : Nat :=
  (f.handles[indexOfHost host]?.bind fun h => h.device.memory.load? (addressOfHost host) count).getD 0

/-- Every byte from a host pointer on for `length` bytes is live and zero. -/
def zeroed (f : Firmware) (host : Pointer) (length : Nat) : Bool :=
  (f.handles[indexOfHost host]?.map fun h => h.device.memory.zeroed (addressOfHost host) length).getD false

def newPool (f : Firmware) : Pointer × Firmware :=
  (f.nextPool, { f with pools := f.nextPool :: f.pools, nextPool := f.nextPool + 1 })

def locateHandles (f : Firmware) : (Status × Uefi.HandleBuffer) × Firmware :=
  if f.handles.isEmpty then ((.notFound, .empty), f)
  else
    let (pool, f) := f.newPool
    ((.success, ⟨pool, f.handles.size, (List.range f.handles.size).map handleValue⟩), f)

def checkEvent (f : Firmware) : Status × Firmware :=
  match f.budget with
  | 0 => (.timeout, f)
  | n + 1 =>
    let (expired, timer) := f.timer.look
    (if expired then .success else .notReady, { f with budget := n, timer := timer })

def memRead (f : Firmware) (handle : Pointer) (w : Width) (offset : Nat) : (Status × BitVec 32) × Firmware :=
  match f.budget with
  | 0 => ((.timeout, 0), f)
  | n + 1 =>
    match { f with budget := n }.strike "PciIo.Mem.Read" (some offset) with
    | (some status, f) => ((status, 0), f)
    | (none, f) =>
      let (value, f) := f.onDevice ((f.indexOf? handle).getD f.handles.size) 0 fun d => d.read w offset
      ((.success, value), f)

def memWrite (f : Firmware) (handle : Pointer) (w : Width) (offset : Nat) (value : BitVec 32) : Status × Firmware :=
  match f.strike "PciIo.Mem.Write" (some offset) with
  | (some status, f) => (status, f)
  | (none, f) =>
    (.success, (f.onDevice ((f.indexOf? handle).getD f.handles.size) () fun d => ((), d.write w offset value)).2)

def configRead (f : Firmware) (handle : Pointer) (offset : Nat) : BitVec 32 :=
  match (f.indexOf? handle).bind (f.handles[·]?) with
  | none => 0
  | some h => if offset = Pci.idsOffset then h.ids else if offset = Pci.classOffset then h.classes else 0

def allocateBuffer (f : Firmware) (handle : Pointer) (pages : Nat) : (Status × Pointer) × Firmware :=
  match f.indexOf? handle with
  | none => ((.invalidParameter, 0), f)
  | some index =>
    let (address, f) := f.onDevice index 0 fun d =>
      let (address, memory) := d.memory.allocate (pages * Uefi.pageSize)
      (address, { d with memory := memory })
    ((.success, hostOf index address), f)

/-- Takes pages back.  Pages that the handle did not give out are not found, and a call that fails shows no memory. -/
def freeBuffer (f : Firmware) (handle : Pointer) (pages : Nat) (host : Pointer) : Status × Firmware :=
  match f.strike "PciIo.FreeBuffer" none with
  | (some status, f) => (status, f.observe (.called (.freeBuffer handle pages host)))
  | (none, f) =>
    let address := addressOfHost host
    let index := indexOfHost host
    let block := if f.indexOf? handle = some index then
        f.handles[index]?.bind (·.device.memory.block? address) else none
    match block with
    | none => (.notFound, f.observe (.called (.freeBuffer handle pages host)))
    | some b => (.success, (f.remember host fun m a => m.free a).observe (.bufferFreed pages address b.bytes))

def map (f : Firmware) (host : Pointer) (length : Nat) : (Status × Uefi.Mapping) × Firmware :=
  let token := f.mappings + 1
  let length := (f.mapLimit.map (min length)).getD length
  ((.success, ⟨BitVec.ofNat 64 (addressOfHost host), length, token⟩), { f with mappings := token })

/-- Shows a string up to its first zero.  What was handed over counts as shown, even if the call then fails. -/
def outputString (f : Firmware) (units : List (BitVec 16)) : Status × Firmware :=
  match { f with shown := units.takeWhile (· != 0) :: f.shown }.strike "OutputString" none with
  | (some status, f) => (status, f)
  | (none, f) => (.success, f)

/-- Answers one call. -/
def answer : (c : Uefi.Call) → Firmware → c.Answer × Firmware
  | .allocatePool memory size, f => f.service (.allocatePool memory size) "AllocatePool" none 0 fun f =>
      let (pool, f) := f.newPool
      ((.success, pool), f)
  | .freePool pool, f => f.plainService (.freePool pool) "FreePool" none fun f =>
      (.success, { f with pools := f.pools.filter (· != pool) })
  | .locateHandles search protocol, f =>
      f.service (.locateHandles search protocol) "LocateHandleBuffer" none .empty locateHandles
  | .createTimer, f => f.service .createTimer "CreateEvent" none 0 fun f => ((.success, timerEvent), f)
  | .setTimer event action time, f => f.plainService (.setTimer event action time) "SetTimer" none fun f =>
      (.success, { f with timer := if action = .cancel then none else some f.timerChecks })
  | .checkEvent event, f => f.plainService (.checkEvent event) "CheckEvent" none checkEvent
  | .closeEvent event, f => f.plainService (.closeEvent event) "CloseEvent" none fun f => (.success, f)
  | .stall microseconds, f => f.plainService (.stall microseconds) "Stall" none fun f => (.success, f)
  | .openProtocol handle protocol agent mode, f =>
      f.service (.openProtocol handle protocol agent mode) "OpenProtocol" (some handle) 0 fun f =>
        if (f.indexOf? handle).isNone then ((.unsupported, 0), f)
        else ((.success, if f.nullInterface then 0 else handle), f)
  | .closeProtocol handle protocol agent, f =>
      f.plainService (.closeProtocol handle protocol agent) "CloseProtocol" (some handle) fun f => (.success, f)
  | .memRead handle w offset, f => f.memRead handle w offset.toNat
  | .memWrite handle w offset value, f => f.memWrite handle w offset.toNat value
  | .configRead handle offset, f => f.service (.configRead handle offset) "PciIo.Pci.Read" (some offset) 0 fun f =>
      ((.success, f.configRead handle offset), f)
  | .enableAttributes handle attributes, f =>
      f.plainService (.enableAttributes handle attributes) "PciIo.Attributes" none fun f => (.success, f)
  | .allocateBuffer handle memory pages, f =>
      f.service (.allocateBuffer handle memory pages) "PciIo.AllocateBuffer" none 0 fun f =>
        f.allocateBuffer handle pages
  | .freeBuffer handle pages host, f => f.freeBuffer handle pages host
  | .map handle host length, f => f.service (.map handle host length) "PciIo.Map" none ⟨0, length, 0⟩ fun f =>
      f.map host length
  | .unmap handle token, f => f.plainService (.unmap handle token) "PciIo.Unmap" none fun f => (.success, f)
  | .outputString units, f => f.outputString units
  | .load32 host, f => (BitVec.ofNat 32 (f.loadHost host 4), f)
  | .load64 host, f => (BitVec.ofNat 64 (f.loadHost host 8), f)
  | .store32 host value, f => ((), f.remember host fun m a => m.store a 4 value.toNat)
  | .store64 host value, f => ((), f.remember host fun m a => m.store a 8 value.toNat)
  | .fill host data, f => ((), f.remember host fun m a => m.fill a data)
  | .clear host length, f => ((), f.remember host fun m a => m.clear a length)
  | .note n, f => ((), { f with notices := n :: f.notices })

/-- How many checks outlast the firmware: each of them spends some of the budget, and fails once it is spent. -/
def patience (f : Firmware) : Nat := f.budget + 2

/-- Runs a program over the firmware. -/
def run {α : Type} (f : Firmware) (p : Program Uefi.Call Uefi.Call.Answer α) : Ending α × Firmware := p.run answer f

/-- The events so far as lines, and the firmware without them. -/
def takeEvents (f : Firmware) (detail : Detail) : List String × Firmware :=
  (Event.lines detail f.events, { f with events := [] })

/-- The strings shown so far, oldest first, and the firmware without them. -/
def takeShown (f : Firmware) : List (List (BitVec 16)) × Firmware := (f.shown.reverse, { f with shown := [] })

end Firmware
end Simulation
end AudioBringup
