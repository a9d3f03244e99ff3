import AudioBringup.Uefi.Call
/-!
# Uefi.Services — firmware calls as steps that can fail

Each step makes one call and turns a status that is an error into a `Failure` named after the call.
-/
namespace AudioBringup
namespace Uefi

/-- A program over the firmware. -/
abbrev Firmware := Program Call Call.Answer

/-- A program over the firmware that can fail. -/
abbrev Services := ExceptT Failure Firmware

/-- Makes one firmware call. -/
def Firmware.ask (c : Call) : Firmware c.Answer := Program.request c

namespace Services

def ask (c : Call) : Services c.Answer := ExceptT.lift (Firmware.ask c)

/-- Fails where the status is an error. -/
def check (op : String) (status : Status) : Services Unit :=
  if status.isError then throw ⟨op, status⟩ else pure ()

def allocatePool (memory : MemoryType) (size : Nat) : Services Pointer := do
  let (status, pool) ← ask (.allocatePool memory size)
  check "AllocatePool" status
  return pool

def freePool (pool : Pointer) : Services Unit := do
  check "FreePool" (← ask (.freePool pool))

/-- A timer event that is looked at, not notified. -/
def createTimer : Services Pointer := do
  let (status, event) ← ask .createTimer
  check "CreateEvent" status
  return event

def setTimer (event : Pointer) (action : TimerAction) (time : BitVec 64) : Services Unit := do
  check "SetTimer" (← ask (.setTimer event action time))

/-- Whether an event has been signalled. -/
def checkEvent (event : Pointer) : Services Bool := do
  let status : Status ← ask (.checkEvent event)
  if status = Status.notReady then return false
  check "CheckEvent" status
  return true

def closeEvent (event : Pointer) : Services Unit := do
  check "CloseEvent" (← ask (.closeEvent event))

def stall (microseconds : Nat) : Services Unit := do
  check "Stall" (← ask (.stall microseconds))

/-- Opens PCI I/O on a handle.  An interface that is none counts as unsupported. -/
def openPciIo (handle agent : Pointer) (mode : OpenMode) : Services Unit := do
  let (status, interface) ← ask (.openProtocol handle .pciIo agent mode)
  check "OpenProtocol" status
  if interface = 0 then throw ⟨"OpenProtocol", Status.unsupported⟩

def closePciIo (handle agent : Pointer) : Services Unit := do
  check "CloseProtocol" (← ask (.closeProtocol handle .pciIo agent))

/-- Every handle with PCI I/O.  The buffer is to be given back by `freeHandles`. -/
def locateHandles : Services HandleBuffer := do
  let (status, buffer) : Status × HandleBuffer ← ask (.locateHandles .byProtocol .pciIo)
  if status = Status.notFound then return .empty
  check "LocateHandleBuffer" status
  return buffer

/-- Gives a handle buffer back, if there is one.  Nothing can be done about a pool that is not taken. -/
def freeHandles (buffer : HandleBuffer) : Firmware Unit := do
  if buffer.pool ≠ 0 then
    let _ ← Firmware.ask (.freePool buffer.pool)

def memRead (handle : Pointer) (width : Width) (offset : BitVec 32) : Services (BitVec 32) := do
  let (status, value) ← ask (.memRead handle width offset)
  check "PciIo.Mem.Read" status
  return value

def memWrite (handle : Pointer) (width : Width) (offset value : BitVec 32) : Services Unit := do
  check "PciIo.Mem.Write" (← ask (.memWrite handle width offset value))

def configRead (handle : Pointer) (offset : Nat) : Services (BitVec 32) := do
  let (status, value) ← ask (.configRead handle offset)
  check "PciIo.Pci.Read" status
  return value

def enableAttributes (handle : Pointer) (attributes : Nat) : Services Unit := do
  check "PciIo.Attributes" (← ask (.enableAttributes handle attributes))

def allocateBuffer (handle : Pointer) (pages : Nat) : Services Pointer := do
  let (status, host) ← ask (.allocateBuffer handle .bootServicesData pages)
  check "PciIo.AllocateBuffer" status
  return host

def freeBuffer (handle : Pointer) (pages : Nat) (host : Pointer) : Services Unit := do
  check "PciIo.FreeBuffer" (← ask (.freeBuffer handle pages host))

def map (handle host : Pointer) (length : Nat) : Services Mapping := do
  let (status, mapping) ← ask (.map handle host length)
  check "PciIo.Map" status
  return mapping

def unmap (handle : Pointer) (token : Nat) : Services Unit := do
  check "PciIo.Unmap" (← ask (.unmap handle token))

/-- A step whose failure changes nothing. -/
def tolerate {α : Type} (x : Services α) : Services Unit := ExceptT.mk do
  let _ ← x.run
  return .ok ()

end Services
end Uefi
end AudioBringup
