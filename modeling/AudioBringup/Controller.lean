import AudioBringup.Controller.Transport
/-!
# Controller — the life of one bound controller

Out of reset, which codecs are there, no interrupts, a transport, commands through it, and the transport taken down.
-/
namespace AudioBringup

open Procedure

/-- A bound controller: what it is to do, which codecs reported in, and its transport once there is one. -/
structure Controller where
  config : Config
  /-- bit `n` is set when a codec reported in at address `n` -/
  presentCodecs : BitVec 16 := 0
  transport : Option Transport := none
  deriving Repr, DecidableEq

namespace Controller

/-- How many codec addresses a link has. -/
def maxCodecs : Nat := 15

/-- Takes the controller out of reset and waits until it says so. -/
def reset : Procedure Controller Unit := do
  let control := GlobalControl.mk (← read32 Register.gctl)
  write32 Register.gctl (control.withReset true).raw
  let limit := (← get).config.poll.limit .controllerReset
  waitUntil .controllerReset limit do return (GlobalControl.mk (← read32 Register.gctl)).reset
  note .outOfReset

/-- Gives the codecs time to report in. -/
def waitForCodecs : Procedure Controller Unit := do
  stall (← get).config.codecReadyStall

/-- Takes down which codecs reported in, and clears their reports. -/
def scanCodecs : Procedure Controller (BitVec 16) := do
  let codecs := (StateChangeStatus.mk (← read16 Register.statests)).codecs
  write16 Register.statests codecs
  modify fun c => { c with presentCodecs := codecs }
  note (.codecsReported codecs)
  return codecs

/-- Turns wake events and interrupts off: nothing here runs from them. -/
def suppressInterrupts : Procedure Controller Unit := do
  write16 Register.wakeen 0
  write32 Register.intctl 0

/-- Sets up the transport the configuration asks for. -/
def establishTransport : Procedure Controller TransportKind := do
  let transport ← Transport.establish (← get).config
  modify fun c => { c with transport := some transport }
  return transport.kind

/-- Brings the controller to where commands can be sent. -/
def bringUp : Procedure Controller TransportKind := do
  reset
  waitForCodecs
  let _ ← scanCodecs
  suppressInterrupts
  establishTransport

/-- Sends one command and returns the raw response. -/
def command (c : Command) : Procedure Controller (BitVec 32) := do
  match (← get).transport with
  | none => fail .noTransport
  | some transport =>
    if c.indirect then note (.indirectNode c.node c.codec)
    on transport (fun t s => { s with transport := some t }) (Transport.exchange c.encode)

def getParameter (codec node : BitVec 8) (p : Parameter) : Procedure Controller (BitVec 32) :=
  command (.getParameter codec node p)

def capabilities : Procedure Controller GlobalCaps := do return ⟨← read16 Register.gcap⟩

/-- Stops the transport and gives back what it holds; nothing to do where there is none.  Either way there is none
after it. -/
def tearDownTransport : Procedure Controller Unit := do
  match (← get).transport with
  | none => return ()
  | some transport =>
    modify fun c => { c with transport := none }
    note (.tearingDown transport.kind)
    transport.tearDown

/-- The addresses of the codecs that reported in, ascending. -/
def codecAddresses (c : Controller) : List (BitVec 8) :=
  ((List.range maxCodecs).filter (c.presentCodecs.getLsbD ·)).map (BitVec.ofNat 8)

end Controller
end AudioBringup
