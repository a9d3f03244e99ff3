import AudioBringup.Codec.Topology
import AudioBringup.Playback.BufferList
/-!
# Playback.Streams — the stream engines and what they play

Every engine owns a buffer list, all of them share a position buffer, and the one that plays has a sample buffer.
`program` points an engine at a waveform and the converters at the engine, `start` sets it running, `release` stops it
and gives everything back.
-/
namespace AudioBringup

open Procedure

/-- Which way an engine's data goes. -/
inductive StreamClass
  | input
  | output
  | bidirectional
  deriving Repr, DecidableEq

namespace StreamClass

def name : StreamClass → String
  | .input => "input"
  | .output => "output"
  | .bidirectional => "bidirectional"

end StreamClass

/-- One stream engine and the memory of its buffer list. -/
structure StreamEngine where
  streamClass : StreamClass
  /-- the place among the engines of the class -/
  index : Nat
  /-- the place among all engines, which selects the descriptor registers -/
  descriptor : Nat
  list : Region
  deriving Repr, DecidableEq

namespace StreamEngine

/-- Where the engine's descriptor registers start. -/
def base (e : StreamEngine) : BitVec 32 := Register.stream e.descriptor

theorem toNat_base {e : StreamEngine} (hlow : e.descriptor < 64) : e.base.toNat = 0x80 + 0x20 * e.descriptor := by
  have hbase := Register.toNat_stream (n := e.descriptor) (o := 0#32) hlow (by decide)
  rwa [BitVec.add_zero] at hbase

end StreamEngine

/-- Every stream engine of a controller with its memory. -/
structure Streams where
  input : List StreamEngine
  output : List StreamEngine
  bidirectional : List StreamEngine
  positions : Region
  sample : Option Region := none
  /-- the place, among the output engines, of the one that was programmed -/
  programmed : Option Nat := none
  deriving Repr, DecidableEq

namespace Streams

variable {σ : Type}

/-- Bytes of one stream's slot in the position buffer: the position and a reserve. -/
def positionSlot : Nat := 8
/-- The bit beside the position buffer's address that turns position reporting on. -/
def positionEnable : BitVec 64 := 1

/-- `count` engines of a class from `index` on, the first of them with descriptor `descriptor`. -/
def allocateEngines (streamClass : StreamClass) (index descriptor : Nat) : (count : Nat) →
    Procedure σ (List StreamEngine)
  | 0 => return []
  | count + 1 => do
    let list ← allocate BufferList.length
    list.zero
    let rest ← allocateEngines streamClass (index + 1) (descriptor + 1) count
    return { streamClass, index, descriptor, list } :: rest

/-- Allocates a buffer list for every engine and a position buffer for all of them, and turns position reporting
on. -/
def allocate : Procedure Controller Streams := do
  let caps ← Controller.capabilities
  note (.streamsCounted caps.inputStreams caps.outputStreams caps.bidirectionalStreams)
  let input ← allocateEngines .input 0 0 caps.inputStreams
  let output ← allocateEngines .output 0 caps.inputStreams caps.outputStreams
  let bidirectional ← allocateEngines .bidirectional 0 (caps.inputStreams + caps.outputStreams)
    caps.bidirectionalStreams
  let positions ← Procedure.allocate (max caps.totalStreams 1 * positionSlot)
  positions.zero
  writeAddress Register.dplbase Register.dpubase (positions.address ||| positionEnable)
  note (.positionsPlaced positions.address)
  return { input, output, bidirectional, positions }

/-- The engines of a class. -/
def engines (s : Streams) : StreamClass → List StreamEngine
  | .input => s.input
  | .output => s.output
  | .bidirectional => s.bidirectional

/-- The engine that was programmed. -/
def programmedEngine (s : Streams) : Option StreamEngine := s.programmed.bind (s.output[·]?)

/-- How far the controller says `engine` has come. -/
def position (s : Streams) (engine : StreamEngine) : Procedure σ (BitVec 32) :=
  s.positions.load32 (engine.descriptor * positionSlot)

/-- Puts a stream descriptor through reset: set, taken up, cleared and let go. -/
def resetEngine (base : BitVec 32) (limit : WaitLimit) : Procedure σ Unit := do
  let control := StreamControl.ofLow (← read16 (base + Register.sdctl))
  write16 (base + Register.sdctl) ((control.withRun false).withReset true).low
  waitUntil .streamReset limit do return (StreamControl.ofLow (← read16 (base + Register.sdctl))).reset
  let control := StreamControl.ofLow (← read16 (base + Register.sdctl))
  write16 (base + Register.sdctl) (control.withReset false).low
  waitUntil .streamReset limit do return !(StreamControl.ofLow (← read16 (base + Register.sdctl))).reset

/-- Writes the records of pieces into a buffer list, the first at `index`. -/
def writePieces (list : Region) (index : Nat) : List BufferPiece → Procedure σ Unit
  | [] => return ()
  | piece :: rest => do
    let offset := index * BufferList.recordLength
    list.store64 offset piece.address
    list.store32 (offset + 8) piece.length
    list.store32 (offset + 12) (if piece.interruptOnCompletion then 1 else 0)
    writePieces list (index + 1) rest

/-- Runs a procedure of the controller beside the streams. -/
def onController {α : Type} (x : Procedure Controller α) : Procedure (Controller × Streams) α := do
  on (← get).1 (fun c s => (c, s.2)) x

/-- Changes the streams beside the controller. -/
def update (f : Streams → Streams) : Procedure (Controller × Streams) Unit :=
  modify fun s => (s.1, f s.2)

/-- Sends the stream's format and tag to each converter. -/
def formatConverters : List NodeAddr → Procedure Controller Unit
  | [] => return ()
  | addr :: rest => do
    let config := (← get).config
    note (.converterFormatted addr config.format.raw config.streamTag)
    let _ ← Controller.command ⟨addr.codec, addr.node, .setStreamFormat, config.format.raw⟩
    let _ ← Controller.command ⟨addr.codec, addr.node, .setStreamChannel, streamChannel config.streamTag 0⟩
    formatConverters rest

/-- A new sample buffer that holds `waveform`, with the pieces that describe it. -/
def allocateSample (waveform : Array Byte) (parts : Nat) : Procedure σ (Region × List BufferPiece) := do
  match BufferList.checkShape waveform.size parts with
  | .error e => fail e
  | .ok () =>
    let sample ← Procedure.allocate waveform.size
    match BufferList.split sample.address waveform.size parts with
    | .error e =>
      free sample
      fail e
    | .ok pieces =>
      sample.fill 0 waveform
      return (sample, pieces)

/-- Sets the configured output engine up to play `waveform` and points every converter of the topology at it; returns
those converters.  The sample buffer of an earlier waveform goes first. -/
def program (topology : Topology) (waveform : Array Byte) : Procedure (Controller × Streams) (List NodeAddr) := do
  let (controller, streams) ← get
  let config := controller.config
  match streams.output[config.outputStream]? with
  | none => fail (.noOutputStream config.outputStream streams.output.length)
  | some engine =>
    resetEngine engine.base (config.poll.limit .streamReset)
    update fun s => { s with sample := none }
    match streams.sample with
    | none => pure ()
    | some old => free old
    let (sample, pieces) ← allocateSample waveform config.bdlEntries
    writePieces engine.list 0 pieces
    write32 (engine.base + Register.sdcbl) (BitVec.ofNat 32 waveform.size)
    write16 (engine.base + Register.sdlvi) (BitVec.ofNat 16 (pieces.length - 1))
    writeAddress (engine.base + Register.sdbdpl) (engine.base + Register.sdbdpu) engine.list.address
    write16 (engine.base + Register.sdfmt) config.format.raw
    note (.streamProgrammed config.outputStream engine.descriptor waveform.size pieces.length)
    update fun s => { s with sample := some sample, programmed := some config.outputStream }
    onController (formatConverters topology.audioOutputs)
    return topology.audioOutputs

/-- Tags the programmed engine with the stream number and sets it running. -/
def start (streams : Streams) : Procedure Controller Unit := do
  let config := (← get).config
  match streams.programmedEngine with
  | none => fail (.noOutputStream config.outputStream streams.output.length)
  | some engine =>
    let low ← read16 (engine.base + Register.sdctl)
    let high ← read8 (engine.base + Register.sdctlHigh)
    let control := ((((StreamControl.ofParts low high).withReset false).withNumber config.streamTag).withPriority
      true).withRun true
    write8 (engine.base + Register.sdctlHigh) control.high
    let sync ← read32 Register.ssync
    if config.syncStreams then write32 Register.ssync (Bits.withBit sync engine.descriptor true)
    write16 (engine.base + Register.sdctl) control.low
    if config.syncStreams then write32 Register.ssync (Bits.withBit sync engine.descriptor false)
    note (.streamRunning config.outputStream config.streamTag)

/-- Stops an engine: it goes on fetching until its run bit reads back clear. -/
def stopEngine (engine : StreamEngine) (limit : WaitLimit) : Procedure σ Unit := do
  let control := StreamControl.ofLow (← read16 (engine.base + Register.sdctl))
  write16 (engine.base + Register.sdctl) (control.withRun false).low
  waitUntil .streamReset limit do return !(StreamControl.ofLow (← read16 (engine.base + Register.sdctl))).run
  note (.streamStopped engine.index)

/-- Gives several regions back, in their order. -/
def freeAll : List Region → Procedure σ Unit
  | [] => return ()
  | region :: rest => do
    free region
    freeAll rest

/-- Every region of the streams in the order they are given back: the sample buffer, the buffer lists class by class
and the last first, the position buffer. -/
def regions (s : Streams) : List Region :=
  s.sample.toList ++ (s.input.reverse ++ s.output.reverse ++ s.bidirectional.reverse).map (·.list) ++ [s.positions]

/-- Stops the programmed engine, turns position reporting off and gives everything back. -/
def release (streams : Streams) : Procedure Controller Unit := do
  match streams.programmedEngine with
  | none => pure ()
  | some engine => stopEngine engine ((← get).config.poll.limit .streamReset)
  writeAddress Register.dplbase Register.dpubase 0
  freeAll streams.regions

end Streams
end AudioBringup
