import AudioBringup.Call
import AudioBringup.Uefi.Services
/-!
# Uefi.Host — the bus and the bound function over firmware calls

`Host.answer` answers every `AudioBringup.Call` by firmware calls.  A candidate is a handle with PCI I/O.  Claiming one is
an exclusive open with memory decoding and bus mastering enabled; memory is whole pages, mapped for both sides; time is
one timer event, created when it is first wanted and closed with the function.
-/
namespace AudioBringup
namespace Uefi

/-- A function opened for sole use. -/
structure Function where
  handle : Pointer
  /-- there from when time is first asked for -/
  timer : Option Pointer := none
  deriving Repr, DecidableEq

/-- What a failed firmware call is to the bring-up. -/
def Failure.toError (f : Failure) : Error :=
  if f.status = Status.outOfResources then .outOfResources else .deviceIo f.op f.status

namespace Services

/-- A step as the bring-up sees it. -/
def toAnswer {α : Type} (x : Services α) : Firmware (Except Error α) := do
  return (← x.run).mapError Failure.toError

end Services

/-- The pages that hold `length` bytes. -/
def pagesFor (length : Nat) : Nat := (length + pageSize - 1) / pageSize

namespace Function

open Services

/-- Whole pages, mapped for the device and cleared for the host; on any failure nothing is kept. -/
def allocate (f : Function) (length : Nat) : Firmware (Except Error Region) := do
  let pages := pagesFor length
  match ← (allocateBuffer f.handle pages).toAnswer with
  | .error e => return .error e
  | .ok 0 => return .error .outOfResources
  | .ok host =>
    match ← (Services.map f.handle host (pages * pageSize)).toAnswer with
    | .error e =>
      let _ ← (freeBuffer f.handle pages host).run
      return .error e
    | .ok mapping =>
      if mapping.length < length then
        -- the firmware could not map it in one piece
        let _ ← (unmap f.handle mapping.token).run
        let _ ← (freeBuffer f.handle pages host).run
        return .error .outOfResources
      else
        Firmware.ask (.clear host length)
        return .ok { host, address := mapping.address, length, token := mapping.token }

/-- Unmaps a region, and gives its pages back once that has succeeded. -/
def free (f : Function) (region : Region) : Services Unit := do
  unmap f.handle region.token
  freeBuffer f.handle (pagesFor region.length) region.host

/-- The function with its timer event, created if it is not there yet. -/
def withTimer (f : Function) : Firmware (Except Error Pointer × Function) := do
  match f.timer with
  | some event => return (.ok event, f)
  | none =>
    match ← createTimer.toAnswer with
    | .error e => return (.error e, f)
    | .ok event => return (.ok event, { f with timer := some event })

def armTimer (f : Function) (duration : BitVec 64) : Firmware (Except Error Unit × Function) := do
  match ← f.withTimer with
  | (.error e, f) => return (.error e, f)
  | (.ok event, f) => return (← (setTimer event .relative duration).toAnswer, f)

def timerExpired (f : Function) : Firmware (Except Error Bool × Function) := do
  match ← f.withTimer with
  | (.error e, f) => return (.error e, f)
  | (.ok event, f) => return (← (checkEvent event).toAnswer, f)

def cancelTimer (f : Function) : Firmware (Except Error Unit) := do
  match f.timer with
  | none => return .ok ()
  | some event => (setTimer event .cancel 0).toAnswer

/-- Closes the timer event, if there is one; a failure is told and goes no further. -/
def drop (f : Function) : Firmware Unit := do
  match f.timer with
  | none => return ()
  | some event =>
    match ← (closeEvent event).run with
    | .ok () => return ()
    | .error e => Firmware.ask (.note (.eventNotClosed e))

end Function

/-- The firmware as the bring-up uses it: on whose behalf protocols are opened, and the function that is bound. -/
structure Host where
  image : Pointer
  bound : Option Function := none
  deriving Repr, DecidableEq

namespace Host

open Services

/-- Every handle with PCI I/O, in the firmware's order. -/
def candidates : Firmware (Except Error (List Pci.Candidate)) := do
  match ← locateHandles.toAnswer with
  | .error e => return .error e
  | .ok buffer =>
    freeHandles buffer
    return .ok (buffer.handles.map .handle)

/-- The handle a candidate names. -/
def handleOf : Pci.Candidate → Pointer
  | .slot index => index
  | .handle value => value

/-- Both configuration dwords under a look at the handle, which is closed before either is held against its status. -/
def identify (image handle : Pointer) : Services Pci.Identity := do
  openPciIo handle image .get
  let ids ← ExceptT.lift (configRead handle Pci.idsOffset).run
  let classes ← ExceptT.lift (configRead handle Pci.classOffset).run
  closePciIo handle image
  return Pci.Identity.ofConfig (← ExceptT.mk (.pure ids)) (← ExceptT.mk (.pure classes))

/-- Opens a handle for sole use and enables its function; closed again where that fails. -/
def bindExclusive (image handle : Pointer) : Services Function := do
  openPciIo handle image .exclusive
  match ← ExceptT.lift (enableAttributes handle busAttributes).run with
  | .error e =>
    tolerate (closePciIo handle image)
    throw e
  | .ok () =>
    let _ ← ask (.note (.functionBound (.handle handle)))
    return { handle }

/-- Gives a function up: its timer event goes first, then the handle. -/
def release (image : Pointer) (f : Function) : Firmware (Except Error Unit) := do
  f.drop
  (closePciIo f.handle image).toAnswer

/-- Answers a call to the bound function that leaves the function as it is. -/
def viaFunction {α : Type} (h : Host) (x : Function → Firmware α) : Firmware (α × Host) := do
  match h.bound with
  | none => .misused .nothingBound
  | some f => return (← x f, h)

/-- Answers a call to the bound function that changes it. -/
def updateFunction {α : Type} (h : Host) (x : Function → Firmware (α × Function)) : Firmware (α × Host) := do
  match h.bound with
  | none => .misused .nothingBound
  | some f =>
    let (a, f) ← x f
    return (a, { h with bound := some f })

/-- Passes an access to the host's memory, or a notice, on as it is. -/
def pass (h : Host) (c : Call) : Firmware (c.Answer × Host) := do
  return (← Firmware.ask c, h)

/-- Answers one call of the bring-up. -/
def answer : (c : AudioBringup.Call) → Host → Firmware (c.Answer × Host)
  | .candidates, h => do return (← candidates, h)
  | .identify c, h => do return (← (identify h.image (handleOf c)).toAnswer, h)
  | .bindExclusive c, h => do
    match ← (bindExclusive h.image (handleOf c)).toAnswer with
    | .error e => return (.error e, h)
    | .ok f => return (.ok (), { h with bound := some f })
  | .release, h => do
    let (a, h) ← h.viaFunction fun f => release h.image f
    return (a, { h with bound := none })
  | .read w offset, h => h.viaFunction fun f => do
    return (← (memRead f.handle w offset).toAnswer).map w.truncate
  | .write w offset value, h => h.viaFunction fun f => (memWrite f.handle w offset (w.truncate value)).toAnswer
  | .allocate length, h => h.viaFunction fun f => f.allocate length
  | .free region, h => h.viaFunction fun f => (f.free region).toAnswer
  | .stall microseconds, h => h.viaFunction fun _ => (Services.stall microseconds).toAnswer
  | .armTimer duration, h => h.updateFunction fun f => f.armTimer duration
  | .timerExpired, h => h.updateFunction fun f => f.timerExpired
  | .cancelTimer, h => h.viaFunction fun f => f.cancelTimer
  | .load32 host, h => h.pass (.load32 host)
  | .load64 host, h => h.pass (.load64 host)
  | .store32 host value, h => h.pass (.store32 host value)
  | .store64 host value, h => h.pass (.store64 host value)
  | .fill host data, h => h.pass (.fill host data)
  | .clear host length, h => h.pass (.clear host length)
  | .note n, h => h.pass (.note n)

end Host
end Uefi
end AudioBringup
