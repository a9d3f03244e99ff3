import AudioBringup.Pci.Discovery
import AudioBringup.Uefi.Host
/-!
# Uefi.Workbench — the bus and one function by hand, call by call

Holds the host and the regions allocated so far.  Binding a function lets go of the one that was bound before, once the
new one is there.
-/
namespace AudioBringup
namespace Uefi

/-- A host, and what was allocated through it. -/
structure Workbench where
  host : Host
  /-- by the order of their allocation; none in the place of one that was given back -/
  regions : Array (Option Region) := #[]

namespace Workbench

variable {α : Type}

/-- Runs a procedure that waits for nothing. -/
def perform (s : Workbench) (x : Procedure Unit α) : Firmware (Except Error α × Workbench) := do
  let ((r, _), host) ← (x 0 ()).expand Host.answer s.host
  return (r, { s with host })

/-- Lets go of the function that is bound, if one is. -/
def letGo (s : Workbench) : Firmware Workbench := do
  match s.host.bound with
  | none => return s
  | some f =>
    f.drop
    return { s with host := { s.host with bound := none } }

/-- Binds a candidate. -/
def bind (s : Workbench) (candidate : Pci.Candidate) : Firmware (Except Error Unit × Workbench) := do
  let former := s.host.bound
  match ← s.perform (Procedure.bindExclusive candidate) with
  | (.error e, s) => return (.error e, s)
  | (.ok (), s) =>
    match former with
    | none => pure ()
    | some f => f.drop
    return (.ok (), s)

/-- Allocates memory and keeps the region. -/
def allocate (s : Workbench) (length : Nat) : Firmware (Except Error Region × Workbench) := do
  match ← s.perform (Procedure.allocate length) with
  | (.error e, s) => return (.error e, s)
  | (.ok region, s) => return (.ok region, { s with regions := s.regions.push (some region) })

/-- Gives the region of one allocation back; nothing where it is not there any more. -/
def free (s : Workbench) (index : Nat) : Firmware (Option (Except Error Unit) × Workbench) := do
  match s.regions[index]?.join with
  | none => return (none, s)
  | some region =>
    let (r, s) ← { s with regions := s.regions.setIfInBounds index none }.perform (Procedure.free region)
    return (some r, s)

/-- Looks for the handles with PCI I/O and gives their buffer back. -/
def locate : Firmware (Except Failure HandleBuffer) := do
  match ← Services.locateHandles.run with
  | .error e => return .error e
  | .ok buffer =>
    Services.freeHandles buffer
    return .ok buffer

end Workbench
end Uefi
end AudioBringup
