import AudioBringup.Procedure
import AudioBringup.Simulation.Device
import AudioBringup.Simulation.Fault
/-!
# Simulation.Machine — a device with the services around it

Answers the calls to a bound function: registers and memory of the device, a timer that counts looks at it, and faults.
Reading registers and looking at the timer spends a budget, so that whatever waits on the machine comes to an end.
-/
namespace AudioBringup
namespace Simulation

/-- A timer that was armed, and the looks left until it has expired. -/
abbrev Countdown := Option Nat

namespace Countdown

/-- A look at a timer: whether it has expired, and the timer after that. -/
def look : Countdown → Bool × Countdown
  | none => (false, none)
  | some 0 => (true, some 0)
  | some (n + 1) => (n == 0, some n)

end Countdown

/-- A device and the services around it. -/
structure Machine where
  device : Device
  budget : Nat := 200000
  faults : List Fault := []
  timer : Countdown := none
  /-- looks until an armed timer has expired -/
  timerChecks : Nat := 3
  /-- allocations after which there are no more, if any -/
  allocLimit : Option Nat := none
  allocated : Nat := 0
  /-- what was told, newest first -/
  notices : List Notice := []

namespace Machine

/-- The failure of a machine that has been waited on for too long. -/
def exhausted : Error := .deviceIo "sim.budget" 0x8000000000000012

def observe (m : Machine) (e : Event) : Machine := { m with device := m.device.observe e }

/-- The error of a fault that struck a call. -/
def faultError (call : String) (f : Fault) : Error :=
  if f.outOfMemory then .outOfResources else .deviceIo ("sim." ++ call) f.status

/-- Lets a call through unless a fault strikes it, in which case it has no effect. -/
def guarded {α : Type} (m : Machine) (call : String) (offset : Option Nat) (effect : Machine → Except Error α × Machine) :
    Except Error α × Machine :=
  match Fault.strike call offset m.faults with
  | (some f, faults) => (.error (faultError call f), { m with faults := faults })
  | (none, faults) => effect { m with faults := faults }

/-- Lets a call through while the budget lasts. -/
def budgeted {α : Type} (m : Machine) (effect : Machine → Except Error α × Machine) : Except Error α × Machine :=
  match m.budget with
  | 0 => (.error exhausted, m)
  | n + 1 => effect { m with budget := n }

def read (m : Machine) (w : Width) (offset : Nat) : Except Error (BitVec 32) × Machine :=
  m.budgeted fun m => m.guarded "read" (some offset) fun m =>
    let (value, device) := m.device.read w offset
    (.ok value, { m with device := device })

def write (m : Machine) (w : Width) (offset : Nat) (value : BitVec 32) : Except Error Unit × Machine :=
  m.guarded "write" (some offset) fun m => (.ok (), { m with device := m.device.write w offset value })

def allocate (m : Machine) (length : Nat) : Except Error Region × Machine :=
  if m.allocLimit.any (· ≤ m.allocated) then (.error .outOfResources, m.observe (.refused length))
  else m.guarded "alloc" none fun m =>
    let (address, memory) := m.device.memory.allocate length
    let device := { m.device with memory := memory, events := .allocated length address :: m.device.events }
    (.ok ⟨address, BitVec.ofNat 64 address, length, address⟩, { m with device := device, allocated := m.allocated + 1 })

def free (m : Machine) (region : Region) : Except Error Unit × Machine :=
  m.guarded "free" none fun m =>
    let contents := ((m.device.memory.block? region.host).map (·.bytes)).getD #[]
    let device := { m.device with
      memory := m.device.memory.free region.host
      events := .freed region.host contents :: m.device.events }
    (.ok (), { m with device := device })

def timerExpired (m : Machine) : Except Error Bool × Machine :=
  m.budgeted fun m => m.guarded "expired" none fun m =>
    let (expired, timer) := m.timer.look
    (.ok expired, { m with timer := timer }.observe (.timerRead expired))

/-- Changes the memory of the device. -/
def remember (m : Machine) (f : Memory → Memory) : Machine :=
  { m with device := { m.device with memory := f m.device.memory } }

/-- Answers one call.  There is no bus here to look for functions on. -/
def answer : (c : Call) → Machine → c.Answer × Machine
  | .candidates, m => (.ok [], m)
  | .identify _, m => (.error .noController, m)
  | .bindExclusive _, m => (.error .noController, m)
  | .release, m => (.ok (), m)
  | .read w offset, m => m.read w offset.toNat
  | .write w offset value, m => m.write w offset.toNat value
  | .allocate length, m => m.allocate length
  | .free region, m => m.free region
  | .stall microseconds, m => m.guarded "stall" none fun m => (.ok (), m.observe (.stalled microseconds))
  | .armTimer duration, m => m.guarded "arm" none fun m =>
      (.ok (), { m with timer := some m.timerChecks }.observe (.armed duration.toNat))
  | .timerExpired, m => m.timerExpired
  | .cancelTimer, m => m.guarded "cancel" none fun m => (.ok (), { m with timer := none }.observe .cancelled)
  | .load32 host, m => (BitVec.ofNat 32 ((m.device.memory.load? host 4).getD 0), m)
  | .load64 host, m => (BitVec.ofNat 64 ((m.device.memory.load? host 8).getD 0), m)
  | .store32 host value, m => ((), m.remember (·.store host 4 value.toNat))
  | .store64 host value, m => ((), m.remember (·.store host 8 value.toNat))
  | .fill host data, m => ((), m.remember (·.fill host data))
  | .clear host length, m => ((), m.remember (·.clear host length))
  | .note n, m => ((), { m with notices := n :: m.notices })

/-- How many checks outlast the machine: each of them spends some of the budget, and fails once it is spent. -/
def patience (m : Machine) : Nat := m.budget + 2

/-- Runs a procedure on the machine. -/
def run {σ α : Type} (m : Machine) (s : σ) (x : Procedure σ α) : Ending (Except Error α × σ) × Machine :=
  (x m.patience s).run answer m

/-- The events so far as lines, and the machine without them. -/
def takeEvents (m : Machine) (detail : Detail) : List String × Machine :=
  (Event.lines detail m.device.events, { m with device := { m.device with events := [] } })

end Machine
end Simulation
end AudioBringup
