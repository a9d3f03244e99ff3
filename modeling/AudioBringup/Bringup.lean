import AudioBringup.Pci.Discovery
import AudioBringup.Playback.Streams
/-!
# Bringup — the whole sequence, once

Discover, bind, reset, wait for the codecs, scan them, suppress interrupts, establish the transport, allocate the
streams, walk the topology, program the output stream, start it, free the streams, take the transport down, release.
The first error ends the sequence and is the one reported.  Once the controller is bound, an ended sequence still
stops the stream, takes the transport down and releases the controller as far as the hardware lets it.
-/
namespace AudioBringup

open Procedure

/-- What a completed run found and did. -/
structure Summary where
  identity : Pci.Identity
  /-- a bit for each codec that reported in -/
  codecs : BitVec 16
  transport : TransportKind
  /-- how many nodes there are below the codec roots -/
  nodes : Nat
  /-- the converters the stream format was sent to -/
  outputs : List NodeAddr
  /-- the descriptor of the output stream that was started -/
  streamDescriptor : Nat
  deriving Repr, DecidableEq

namespace Summary

/-- Tells what was found and done. -/
def report {σ : Type} (s : Summary) : Procedure σ Unit := do
  note (.reportController s.identity s.codecs s.transport)
  note (.reportStream s.nodes s.streamDescriptor s.outputs.length)

end Summary

/-- What a run holds while the controller is bound. -/
structure Bringup where
  controller : Controller
  /-- there from when they have been allocated until they are being released -/
  streams : Option Streams := none
  deriving Repr, DecidableEq

namespace Bringup

variable {σ : Type}

/-- Runs a procedure of the controller. -/
def onController {α : Type} (x : Procedure Controller α) : Procedure Bringup α := do
  on (← get).controller (fun c s => { s with controller := c }) x

/-- Runs a procedure of the controller and the streams. -/
def onStreams {α : Type} (streams : Streams) (x : Procedure (Controller × Streams) α) : Procedure Bringup α := do
  on ((← get).controller, streams) (fun t _ => ⟨t.1, some t.2⟩) x

/-- Everything between binding the controller and freeing the streams. -/
def play (identity : Pci.Identity) (waveform : Array Byte) : Procedure Bringup Summary := do
  onController Controller.reset
  onController Controller.waitForCodecs
  let codecs ← onController Controller.scanCodecs
  onController Controller.suppressInterrupts
  let transport ← onController Controller.establishTransport
  let streams ← onController Streams.allocate
  modify fun s => { s with streams := some streams }
  let topology ← onController Topology.walk
  note (.topologyWalked topology.codecs.length topology.nodeCount)
  let (outputs, streams) ← onStreams streams do return (← Streams.program topology waveform, (← get).2)
  onController streams.start
  let linger := (← get).controller.config.playbackLinger
  if 0 < linger then stall linger
  return {
    identity, codecs, transport, outputs
    nodes := topology.nodeCount
    streamDescriptor := (streams.programmedEngine.map (·.descriptor)).getD 0 }

/-- Plays, and takes the streams and the transport down after that. -/
def playThrough (identity : Pci.Identity) (waveform : Array Byte) : Procedure Bringup Summary := do
  let summary ← play identity waveform
  match (← get).streams with
  | none => pure ()
  | some streams =>
    modify fun s => { s with streams := none }
    onController streams.release
  onController Controller.tearDownTransport
  return summary

/-- Tells of a failure of the cleanup, which goes on in spite of it. -/
def tolerate (x : Procedure Bringup Unit) (notice : Error → Notice) : Procedure Bringup Unit := do
  match ← attempt x with
  | .ok () => pure ()
  | .error e => note (notice e)

/-- Undoes whatever an ended run left behind. -/
def abandon : Procedure Bringup Unit := do
  match (← get).streams with
  | none => pure ()
  | some streams => tolerate (onController streams.release) .streamsNotFreed
  tolerate (onController Controller.tearDownTransport) .transportNotTornDown
  tolerate Procedure.release .controllerNotReleased

/-- Runs the whole sequence once, playing `waveform`. -/
def run (config : Config) (waveform : Array Byte) : Procedure σ Summary := do
  let (candidate, identity) ← Pci.discover
  bindExclusive candidate
  match ← within { controller := { config } } (playThrough identity waveform) with
  | (.ok summary, _) =>
    Procedure.release
    note .completed
    return summary
  | (.error e, state) =>
    note (.failed e)
    let _ ← within state abandon
    fail e

end Bringup
end AudioBringup
