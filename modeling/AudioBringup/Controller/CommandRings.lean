import AudioBringup.Procedure.Wait
import AudioBringup.Region.Access
/-!
# Controller.CommandRings — commands and responses through rings in memory

The command ring (CORB) holds the words the controller fetches, the response ring (RIRB) what it writes back.  The write
cursor is the last command slot filled, the read cursor the last response slot taken.  Both move by one per command,
so they mark the same exchange modulo the sizes of their rings.
-/
namespace AudioBringup

open Procedure

/-- The two rings of a controller, with the host's place in each. -/
structure CommandRings where
  corb : Region
  rirb : Region
  corbEntries : RingEntries
  rirbEntries : RingEntries
  writeCursor : Nat
  readCursor : Nat
  /-- the limit of waits for a pointer or an engine -/
  resetLimit : WaitLimit
  /-- the limit of waits for a fetch or a response -/
  drainLimit : WaitLimit
  deriving Repr, DecidableEq

namespace CommandRings

variable {σ : Type}

/-- Bytes of one command slot. -/
def corbSlot : Nat := 4
/-- Bytes of one response slot: the response and its extension. -/
def rirbSlot : Nat := 8
/-- Bytes of the command ring, enough for its largest size. -/
def corbLength : Nat := 256 * corbSlot
/-- Bytes of the response ring, enough for its largest size. -/
def rirbLength : Nat := 256 * rirbSlot

/-- Clears a ring's run bit and waits for its engine to stop. -/
def stop (control : BitVec 32) (limit : WaitLimit) : Procedure σ Unit := do
  let r := RingControl.mk (← read8 control)
  write8 control (r.withRun false).raw
  waitUntil .ringReset limit do return !(RingControl.mk (← read8 control)).run

/-- Sets a ring's run bit. -/
def start (control : BitVec 32) : Procedure σ Unit := do
  let r := RingControl.mk (← read8 control)
  write8 control (r.withRun true).raw

/-- Moves every pointer of two stopped rings back to 0: the command ring's read pointer by a handshake. -/
def resetPointers (limit : WaitLimit) : Procedure σ Unit := do
  write16 Register.corbwp 0
  write16 Register.corbrp ((CorbReadPointer.mk 0).withReset true).raw
  waitUntil .ringReset limit do return (CorbReadPointer.mk (← read16 Register.corbrp)).reset
  write16 Register.corbrp ((CorbReadPointer.mk 0).withReset false).raw
  waitUntil .ringReset limit do return !(CorbReadPointer.mk (← read16 Register.corbrp)).reset
  write16 Register.rirbwp RirbWritePointer.resetRequest.raw

/-- Gives a ring the largest size it can have. -/
def enlarge (size : BitVec 32) : Procedure σ RingEntries := do
  let r := RingSize.mk (← read8 size)
  write8 size (r.withEntries r.largest).raw
  return r.largest

/-- Stops both rings, points them at fresh memory, resets their pointers and starts them again. -/
def setUp (poll : PollPolicy) : Procedure σ CommandRings := do
  let limit := poll.limit .ringReset
  stop Register.corbctl limit
  stop Register.rirbctl limit
  let corb ← allocate corbLength
  match ← attempt (allocate rirbLength) with
  | .error e =>
    free corb
    fail e
  | .ok rirb =>
    corb.zero
    rirb.zero
    writeAddress Register.corblbase Register.corbubase corb.address
    writeAddress Register.rirblbase Register.rirbubase rirb.address
    let corbEntries ← enlarge Register.corbsize
    let rirbEntries ← enlarge Register.rirbsize
    note (.ringsPlaced corb.address corbEntries.count rirb.address rirbEntries.count)
    resetPointers limit
    start Register.corbctl
    -- one response interrupt for every response
    write16 Register.rintcnt 1
    start Register.rirbctl
    return { corb, rirb, corbEntries, rirbEntries, writeCursor := 0, readCursor := 0
             resetLimit := limit, drainLimit := poll.limit .corbDrain }

/-- The rings with their next command slot filled. -/
def advanceWrite (r : CommandRings) : CommandRings :=
  { r with writeCursor := (r.writeCursor + 1) % r.corbEntries.count }

/-- The rings with their next response slot taken. -/
def advanceRead (r : CommandRings) : CommandRings :=
  { r with readCursor := (r.readCursor + 1) % r.rirbEntries.count }

/-- The response status bits that are cleared by writing them: response interrupt and overrun. -/
def statusClear : BitVec 8 := 0b101

/-- Sends one word and waits for its response. -/
def exchange (word : BitVec 32) : Procedure CommandRings (BitVec 32) := do
  modify advanceWrite
  let rings ← get
  rings.corb.store32 (rings.writeCursor * corbSlot) word
  write16 Register.corbwp (BitVec.ofNat 16 rings.writeCursor)
  waitUntil .corbDrain rings.drainLimit do
    return (CorbReadPointer.mk (← read16 Register.corbrp)).slot == rings.writeCursor
  waitUntil .rirbResponse rings.drainLimit do
    return (RirbWritePointer.mk (← read16 Register.rirbwp)).slot != rings.readCursor
  modify advanceRead
  let rings ← get
  let response ← rings.rirb.load32 (rings.readCursor * rirbSlot)
  write8 Register.rirbsts statusClear
  note (.answered .rings word response)
  return response

/-- Stops both rings and gives their memory back. -/
def tearDown (r : CommandRings) : Procedure σ Unit := do
  stop Register.corbctl r.resetLimit
  stop Register.rirbctl r.resetLimit
  resetPointers r.resetLimit
  free r.corb
  free r.rirb

end CommandRings
end AudioBringup
