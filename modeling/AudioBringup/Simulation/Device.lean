import AudioBringup.Codec.Verb
import AudioBringup.Simulation.Event
import AudioBringup.Simulation.Memory
/-!
# Simulation.Device — a controller with its codecs

A register file in which some registers act: leaving reset, fetching commands and writing responses through the rings,
the immediate interface, and streams that stop.  What takes time is counted in reads of the register that shows it.
-/
namespace AudioBringup
namespace Simulation

/-- One codec: what it answers for each parameter of each node, and whether it answers at all. -/
structure DeviceCodec where
  address : Nat
  /-- answers by node and parameter, the latest first -/
  params : List ((Nat × Nat) × BitVec 32) := []
  silent : Bool := false
  silentNodes : List Nat := []
  /-- the answer to every verb that asks for no parameter -/
  other : BitVec 32 := 0
  deriving Repr, DecidableEq

namespace DeviceCodec

/-- A verb of 12 bits, to tell from its highest four. -/
def isShort (word : BitVec 32) : Bool :=
  let top := (word.extractLsb' 16 4).toNat
  top == 0x7 || top == 0xf

/-- What the codec answers to a word, if anything. -/
def answer? (c : DeviceCodec) (word : BitVec 32) : Option (BitVec 32) :=
  let node := (word.extractLsb' 20 8).toNat
  if c.silent || c.silentNodes.contains node then none
  else if isShort word && (word.extractLsb' 8 12).toNat == 0xf00 then
    some ((c.params.lookup (node, (word.extractLsb' 0 8).toNat)).getD 0)
  else some c.other

end DeviceCodec

/-- A change to what a register reads as. -/
structure Override where
  offset : Nat
  /-- reads still left alone -/
  skip : Nat := 0
  /-- reads still changed, if there is an end to them -/
  count : Option Nat := none
  keep : BitVec 32 := 0xffffffff
  set : BitVec 32 := 0
  deriving Repr, DecidableEq

namespace Override

/-- What a value read at an offset is changed to, and the overrides after that. -/
def applyAll (offset : Nat) (value : BitVec 32) : List Override → BitVec 32 × List Override
  | [] => (value, [])
  | o :: rest =>
    let (value, o) :=
      if o.offset != offset then (value, o)
      else if o.skip != 0 then (value, { o with skip := o.skip - 1 })
      else match o.count with
        | some 0 => (value, o)
        | some (n + 1) => ((value &&& o.keep) ||| o.set, { o with count := some n })
        | none => ((value &&& o.keep) ||| o.set, o)
    let (value, rest) := applyAll offset value rest
    (value, o :: rest)

end Override

/-- A stream that has been told to stop: its control register, and the reads left until it has, if ever. -/
structure PendingStop where
  offset : Nat
  reads : Option Nat
  deriving Repr, DecidableEq

/-- A controller, the codecs on its link and the memory it reaches. -/
structure Device where
  registers : Array Byte
  memory : Memory := {}
  codecs : List DeviceCodec := []
  /-- the command ring's read pointer is held in reset -/
  corbReset : Bool := false
  corbRead : Nat := 0
  rirbWrite : Nat := 0
  /-- reads left until the controller has left reset, once it was told to -/
  pendingReset : Option Nat := none
  /-- an immediate response, and the reads left until it shows -/
  pendingResponse : Option (BitVec 32 × Nat) := none
  pendingStop : Option PendingStop := none
  overrides : List Override := []
  /-- the immediate interface is there -/
  immediate : Bool := true
  immediateLatency : Nat := 0
  /-- reads until the controller has left reset, if ever -/
  resetLatency : Option Nat := some 2
  /-- reads until a stream has stopped, if ever -/
  stopLatency : Option Nat := some 0
  ringsStalled : Bool := false
  /-- what was seen, newest first -/
  events : List Event := []

/-- What a device is like when it is switched on. -/
structure Layout where
  capabilities : BitVec 16 := 0x1000
  /-- the sizes the command ring can have -/
  corbSizes : BitVec 4 := 4
  /-- the sizes the response ring can have -/
  rirbSizes : BitVec 4 := 4
  /-- the state change status to begin with -/
  stateChanges : BitVec 16 := 0
  /-- the addresses of codecs that report in -/
  reporting : List Nat := []
  /-- what registers hold beyond that, written last -/
  registers : List (Width × Nat × BitVec 32) := []

namespace Device

/-- Bytes of the register file. -/
def fileSize : Nat := 0x1000

/-- Plain reading of a register. -/
def load (d : Device) (w : Width) (offset : Nat) : BitVec 32 :=
  BitVec.ofNat 32 (LittleEndian.read 0xff d.registers offset w.bytes)

/-- Plain writing of a register. -/
def store (d : Device) (w : Width) (offset : Nat) (value : BitVec 32) : Device :=
  { d with registers := LittleEndian.write d.registers offset w.bytes value.toNat }

/-- A device with the registers of a layout. -/
def ofLayout (l : Layout) : Device :=
  let d : Device := { registers := Array.replicate fileSize 0 }
  let d := d.store .word 0x00 (l.capabilities.setWidth 32)
  let d := d.store .byte 0x4e (l.corbSizes.setWidth 32 <<< 4)
  let d := d.store .byte 0x5e (l.rirbSizes.setWidth 32 <<< 4)
  let changes := l.reporting.foldl (fun changes address => changes ||| BitVec.twoPow 16 address) l.stateChanges
  let d := d.store .word 0x0e (changes.setWidth 32)
  l.registers.foldl (fun d (w, offset, value) => d.store w offset value) d

def observe (d : Device) (e : Event) : Device := { d with events := e :: d.events }

/-- Asks the codec a word is for. -/
def ask (d : Device) (word : BitVec 32) : Option (BitVec 32) × Device :=
  let response := (d.codecs.find? (·.address == (word.extractLsb' 28 4).toNat)).bind (·.answer? word)
  (response, d.observe (.asked word response))

/-- How many slots a ring has by its size register. -/
def ringEntries (d : Device) (size : Nat) : Nat :=
  match (d.load .byte size).toNat % 4 with
  | 0 => 2
  | 1 => 16
  | _ => 256

/-- The address in a pair of registers. -/
def baseAddress (d : Device) (lower upper : Nat) : Nat :=
  (d.load .dword upper ++ d.load .dword lower).toNat

/-- Writes a response, with its extension, into the next slot of the response ring. -/
def push (d : Device) (response extended : BitVec 32) : Device :=
  let slot := (d.rirbWrite + 1) % d.ringEntries 0x5e
  let address := d.baseAddress 0x50 0x54 + slot * 8
  let d := { d with
    rirbWrite := slot
    memory := d.memory.store address 8 (extended ++ response).toNat }
  d.store .byte 0x5d (d.load .byte 0x5d ||| 1)

/-- Fetches commands until the write pointer is reached, at most `fuel` of them. -/
def fetch (d : Device) : (fuel : Nat) → Device
  | 0 => d
  | fuel + 1 =>
    if d.corbRead = (d.load .word 0x48).toNat % 256 then d
    else
      let slot := (d.corbRead + 1) % d.ringEntries 0x4e
      let d := { d with corbRead := slot }
      match d.memory.load? (d.baseAddress 0x40 0x44 + slot * 4) 4 with
      | none => d
      | some number =>
        let word := BitVec.ofNat 32 number
        match d.ask word with
        | (none, d) => d.fetch fuel
        | (some response, d) => (d.push response (word >>> 28)).fetch fuel

/-- Runs the command ring, if it runs. -/
def runRing (d : Device) : Device :=
  if (d.load .byte 0x4c).getLsbD 1 && !d.ringsStalled then d.fetch 256 else d

/-- Puts an immediate response where it is read. -/
def latch (d : Device) (response : BitVec 32) : Device :=
  let d := (d.store .dword 0x64 response)
  { d.store .word 0x68 ((d.load .word 0x68 &&& ~~~1) ||| 2) with pendingResponse := none }

/-- Sends the word in the immediate output register. -/
def sendImmediate (d : Device) : Device :=
  let d := { d.store .word 0x68 (d.load .word 0x68 ||| 1) with pendingResponse := none }
  match d.ask (d.load .dword 0x60) with
  | (none, d) => d
  | (some response, d) =>
    match d.immediateLatency with
    | 0 => d.latch response
    | n + 1 => { d with pendingResponse := some (response, n) }

/-- Stops the stream whose control register is at `offset`. -/
def stop (d : Device) (offset : Nat) : Device :=
  ({ d.store .word offset (d.load .word offset &&& ~~~2) with pendingStop := none }).observe
    (.stopped ((offset - 0x80) / 0x20))

/-- What reading a register does before its value is taken. -/
def settle (d : Device) (offset : Nat) : Device :=
  if offset = 0x08 then
    match d.pendingReset with
    | none => d
    | some 0 => { d.store .dword 0x08 (d.load .dword 0x08 ||| 1) with pendingReset := none }
    | some (n + 1) => { d with pendingReset := some n }
  else if offset = 0x68 then
    match d.pendingResponse with
    | none => d
    | some (response, 0) => d.latch response
    | some (response, n + 1) => { d with pendingResponse := some (response, n) }
  else
    match d.pendingStop with
    | none => d
    | some p =>
      if p.offset ≠ offset then d
      else match p.reads with
        | none => d
        | some 0 => d.stop offset
        | some (n + 1) => { d with pendingStop := some { p with reads := some n } }

/-- The register belongs to the immediate interface. -/
def isImmediate (offset : Nat) : Bool := offset == 0x60 || offset == 0x64 || offset == 0x68

/-- Reads a register. -/
def read (d : Device) (w : Width) (offset : Nat) : BitVec 32 × Device :=
  let (value, d) :=
    if offset = 0x4a then ((if d.corbReset then 0x8000#32 else BitVec.ofNat 32 d.corbRead), d)
    else if offset = 0x58 then (BitVec.ofNat 32 d.rirbWrite, d)
    else if isImmediate offset && !d.immediate then (0xffffffff#32, d)
    else
      let d := d.settle offset
      (d.load w offset, d)
  let (value, overrides) := Override.applyAll offset value d.overrides
  let value := w.truncate value
  (value, { d with overrides := overrides, events := .read w offset value :: d.events })

/-- The control register of a stream. -/
def isStreamControl (offset : Nat) : Bool := 0x80 ≤ offset && (offset - 0x80) % 0x20 == 0

/-- What writing a register does. -/
def act (d : Device) (w : Width) (offset : Nat) (value : BitVec 32) : Device :=
  if offset = 0x08 then
    ({ d with pendingReset := if value.getLsbD 0 then d.resetLatency else none }).store w offset (value &&& ~~~1)
  else if offset = 0x0e ∨ offset = 0x5d then d.store w offset (d.load w offset &&& ~~~value)
  else if offset = 0x4a then
    { d with corbReset := value.getLsbD 15, corbRead := if value.getLsbD 15 then 0 else d.corbRead }
  else if offset = 0x58 then { d with rirbWrite := if value.getLsbD 15 then 0 else d.rirbWrite }
  else if offset = 0x48 then (d.store w offset value).runRing
  else if offset = 0x4e ∨ offset = 0x5e then
    d.store .byte offset ((d.load .byte offset &&& 0xf0) ||| (value &&& 3))
  else if isImmediate offset && !d.immediate then d
  else if offset = 0x68 then
    let d := if value.getLsbD 1 then d.store .word 0x68 (d.load .word 0x68 &&& ~~~2) else d
    if value.getLsbD 0 then d.sendImmediate else d
  else if w = .word ∧ isStreamControl offset ∧ (d.load .word offset).getLsbD 1 ∧ !value.getLsbD 1 then
    let d := { d.store .word offset (value ||| 2) with pendingStop := some ⟨offset, d.stopLatency⟩ }
    if d.stopLatency = some 0 then d.stop offset else d
  else d.store w offset value

/-- Writes a register. -/
def write (d : Device) (w : Width) (offset : Nat) (value : BitVec 32) : Device :=
  let value := w.truncate value
  (d.observe (.wrote w offset value)).act w offset value

/-- The device with one codec changed; a codec that is not there comes into being. -/
def setCodec (d : Device) (address : Nat) (f : DeviceCodec → DeviceCodec) : Device :=
  if d.codecs.any (·.address == address) then
    { d with codecs := d.codecs.map fun c => if c.address == address then f c else c }
  else { d with codecs := d.codecs ++ [f { address }] }

/-- The device with one parameter of a codec's node changed. -/
def setParam (d : Device) (address node param : Nat) (value : BitVec 32) : Device :=
  d.setCodec address fun c => { c with params := ((node, param), value) :: c.params }

/-- The device with a codec made to answer nothing, or to answer again. -/
def setSilent (d : Device) (address : Nat) (silent : Bool) : Device :=
  d.setCodec address fun c => { c with silent := silent }

end Device
end Simulation
end AudioBringup
