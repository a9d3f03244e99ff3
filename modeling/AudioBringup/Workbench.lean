import AudioBringup.Playback.Streams
/-!
# Workbench — a controller brought up by hand, one step at a time

Holds a controller and whatever the steps so far have yielded.  A step for which something is not there makes no call and
has no result.  What a step did before it failed stays done.
-/
namespace AudioBringup

open Procedure

/-- A controller, and what its steps have yielded. -/
structure Workbench where
  controller : Controller
  topology : Topology := {}
  streams : Option Streams := none
  /-- rings of their own, beside the controller's transport -/
  rings : Option CommandRings := none
  /-- the time for one command of an immediate interface beside the controller's transport -/
  immediate : Option (BitVec 64) := none

namespace Workbench

variable {α τ : Type}

/-- Runs a procedure of the controller. -/
def control (x : Procedure Controller α) : Procedure Workbench α := do
  on (← get).controller (fun c s => { s with controller := c }) x

/-- Runs what a part is needed for, if it is there. -/
def withPart (part : Workbench → Option τ) (x : τ → Procedure Workbench α) : Procedure Workbench (Option α) := do
  match part (← get) with
  | none => return none
  | some t => return some (← x t)

/-- Puts a controller that has done nothing yet in the place of the one there was. -/
def restart (config : Config) : Procedure Workbench Unit := modify fun s => { s with controller := { config } }

/-- Sends one command so many times, going on after a failure; how the last one ended. -/
def command (c : Command) (count : Nat) : Procedure Workbench (Option (Except Error (BitVec 32))) :=
  control (times (fun _ => Controller.command c) count)

/-- Walks the topology and keeps it. -/
def walk : Procedure Workbench Topology := do
  let topology ← control Topology.walk
  modify fun s => { s with topology }
  return topology

/-- Forgets the topology. -/
def forget : Procedure Workbench Unit := modify fun s => { s with topology := {} }

/-- Allocates the streams, in the place of those there were. -/
def allocateStreams : Procedure Workbench Streams := do
  let streams ← control Streams.allocate
  modify fun s => { s with streams := some streams }
  return streams

/-- Programs a waveform for the topology that was kept. -/
def program (waveform : Array Byte) : Procedure Workbench (Option (List NodeAddr)) :=
  withPart (·.streams) fun streams => do
    let s ← get
    on (s.controller, streams) (fun t s => { s with controller := t.1, streams := some t.2 })
      (Streams.program s.topology waveform)

def start : Procedure Workbench (Option Unit) := withPart (·.streams) fun streams => control streams.start

/-- How far one engine of a class has come. -/
def position (streamClass : StreamClass) (index : Nat) : Procedure Workbench (Option (BitVec 32)) :=
  withPart (fun s => s.streams.bind fun streams => ((streams.engines streamClass)[index]?).map (streams, ·))
    fun (streams, engine) => streams.position engine

/-- Gives the streams back; whether it succeeds or not, there are none after it. -/
def releaseStreams : Procedure Workbench (Option Unit) := withPart (·.streams) fun streams => do
  modify fun s => { s with streams := none }
  control streams.release

/-- Sets rings of their own up, in the place of those there were. -/
def setUpRings (poll : PollPolicy) : Procedure Workbench CommandRings := do
  let rings ← CommandRings.setUp poll
  modify fun s => { s with rings := some rings }
  return rings

/-- Sends `count` words through the rings, each `stride` above the one before, going on after a failure; how the last one
ended. -/
def exchangeOnRings (word stride count : Nat) : Procedure Workbench (Option (Option (Except Error (BitVec 32)))) :=
  withPart (·.rings) fun rings =>
    on rings (fun rings s => { s with rings := some rings })
      (times (fun i => CommandRings.exchange (BitVec.ofNat 32 (word + i * stride))) count)

/-- Takes the rings down; whether it succeeds or not, there are none after it. -/
def tearDownRings : Procedure Workbench (Option Unit) := withPart (·.rings) fun rings => do
  modify fun s => { s with rings := none }
  rings.tearDown

/-- Has an immediate interface ready, with so much time for each command. -/
def takeImmediate (timeout : BitVec 64) : Procedure Workbench TransportKind := do
  modify fun s => { s with immediate := some timeout }
  return (Transport.immediate timeout).kind

def exchangeImmediate (word : BitVec 32) : Procedure Workbench (Option (BitVec 32)) :=
  withPart (·.immediate) fun timeout => ImmediateInterface.exchange timeout word

def tearDownImmediate : Procedure Workbench (Option Unit) := withPart (·.immediate) fun timeout => do
  modify fun s => { s with immediate := none }
  (Transport.immediate timeout).tearDown

end Workbench
end AudioBringup
