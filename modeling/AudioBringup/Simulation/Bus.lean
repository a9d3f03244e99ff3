import AudioBringup.Simulation.Machine
/-!
# Simulation.Bus — functions on a bus, some with a machine behind them

Answers the calls to the bus itself and hands all others to the machine of the function that is bound.
-/
namespace AudioBringup
namespace Simulation

/-- One function on the bus: its two configuration dwords, and what is behind it. -/
structure BusFunction where
  ids : BitVec 32
  classes : BitVec 32
  machine : Option Machine := none

/-- A bus, and the machine its bound function leads to. -/
structure Bus where
  functions : List BusFunction
  faults : List Fault := []
  /-- until a function is bound, a machine that nothing is behind -/
  machine : Machine := { device := { registers := #[] } }
  released : Option Machine := none

namespace Bus

/-- Lets a call through unless a fault strikes it; it is seen either way. -/
def guarded {α : Type} (b : Bus) (e : Event) (call : String) (slot : Option Nat)
    (effect : Bus → Except Error α × Bus) : Except Error α × Bus :=
  let b := { b with machine := b.machine.observe e }
  match Fault.strike call slot b.faults with
  | (some f, faults) =>
    (.error (if f.outOfMemory then .outOfResources else .deviceIo call f.status), { b with faults := faults })
  | (none, faults) => effect { b with faults := faults }

/-- The slot a candidate names. -/
def slotOf : Pci.Candidate → Nat
  | .slot index => index
  | .handle value => value

/-- The answer where there is nothing to bind. -/
def nothingThere : Error := .deviceIo "bind" 0x800000000000000f

def identify (b : Bus) (slot : Nat) : Except Error Pci.Identity × Bus :=
  b.guarded (.identified slot) "identify" (some slot) fun b =>
    match b.functions[slot]? with
    | some f => (.ok (.ofConfig f.ids f.classes), b)
    | none => (.error .noController, b)

/-- Puts a machine in the place of the bound one; what was seen and told so far stays. -/
def bindMachine (b : Bus) (m : Machine) : Bus :=
  { b with machine := { m with
      device := { m.device with events := b.machine.device.events }
      notices := b.machine.notices } }

def bindExclusive (b : Bus) (slot : Nat) : Except Error Unit × Bus :=
  b.guarded (.bound slot) "bind" (some slot) fun b =>
    match b.functions[slot]?.bind (·.machine) with
    | some m => (.ok (), b.bindMachine m)
    | none => (.error nothingThere, b)

/-- Answers one call. -/
def answer : (c : Call) → Bus → c.Answer × Bus
  | .candidates, b => b.guarded .candidates "candidates" none fun b =>
      (.ok ((List.range b.functions.length).map .slot), b)
  | .identify c, b => b.identify (slotOf c)
  | .bindExclusive c, b => b.bindExclusive (slotOf c)
  | .release, b => b.guarded .released "release" none fun b => (.ok (), { b with released := some b.machine })
  | c, b =>
    let (a, machine) := Machine.answer c b.machine
    (a, { b with machine := machine })

/-- How many checks outlast every machine on the bus. -/
def patience (b : Bus) : Nat := (b.functions.filterMap (·.machine)).foldl (fun n m => max n m.patience) b.machine.patience

/-- Runs a procedure on the bus. -/
def run {α : Type} (b : Bus) (x : Procedure Unit α) : Ending (Except Error α) × Bus :=
  match (x b.patience ()).run answer b with
  | (.result (r, _), b) => (.result r, b)
  | (.misused m, b) => (.misused m, b)
  | (.stuck, b) => (.stuck, b)

end Bus
end Simulation
end AudioBringup
