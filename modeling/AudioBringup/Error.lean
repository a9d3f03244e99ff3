import AudioBringup.Hex
/-!
# Error — the ways the bring-up can fail

A codec that does not answer is no error: its commands are answered by `Response.timedOut`, and the topology walk
passes it over.
-/
namespace AudioBringup

/-- The waits on the hardware, each with a limit of its own kind. -/
inductive WaitSite
  /-- the controller leaving reset -/
  | controllerReset
  /-- a ring pointer's reset being taken up or let go, or a ring's engine stopping -/
  | ringReset
  /-- the controller fetching the command just written -/
  | corbDrain
  /-- the controller writing a response -/
  | rirbResponse
  /-- a stream's reset being taken up or let go, or its engine stopping -/
  | streamReset
  deriving Repr, DecidableEq

namespace WaitSite

def all : List WaitSite := [.controllerReset, .ringReset, .corbDrain, .rirbResponse, .streamReset]

def name : WaitSite → String
  | .controllerReset => "ControllerReset"
  | .ringReset => "RingReset"
  | .corbDrain => "CorbDrain"
  | .rirbResponse => "RirbResponse"
  | .streamReset => "StreamReset"

/-- The wait of a name. -/
def ofName? (name : String) : Option WaitSite := all.find? (·.name == name)

end WaitSite

/-- What ends the bring-up. -/
inductive Error
  /-- the call named `op` answered a failing status -/
  | deviceIo (op : String) (status : BitVec 64)
  /-- memory could not be had -/
  | outOfResources
  /-- no function on the bus is a controller -/
  | noController
  /-- a wait with a limit reached it -/
  | waitTimedOut (site : WaitSite)
  /-- a codec's tree needs more visits than are allowed -/
  | topologyOverflow (codec : BitVec 8)
  /-- a command with nothing to send it through -/
  | noTransport
  /-- the controller has no output stream with the index asked for -/
  | noOutputStream (requested available : Nat)
  /-- the waveform cannot be described by so many buffer pieces at all -/
  | badWaveform (length : Nat)
  /-- the waveform leaves a buffer piece without an aligned part of its own -/
  | waveformTooShort (length least : Nat)
  deriving Repr, DecidableEq

namespace Error

/-- The name of the kind of error. -/
def kind : Error → String
  | .deviceIo .. => "DeviceIo"
  | .outOfResources => "OutOfResources"
  | .noController => "NoController"
  | .waitTimedOut _ => "WaitTimedOut"
  | .topologyOverflow _ => "TopologyOverflow"
  | .noTransport => "NoTransport"
  | .noOutputStream .. => "NoOutputStream"
  | .badWaveform _ => "BadWaveform"
  | .waveformTooShort .. => "WaveformTooShort"

/-- The text of an error, in the pieces it is printed in. -/
def pieces : Error → List String
  | .deviceIo op status => [op, " failed with status ", "0x", Hex.digits status.toNat]
  | .outOfResources => ["out of resources"]
  | .noController => ["no HD audio controller found"]
  | .waitTimedOut site => ["timed out waiting for ", site.name]
  | .topologyOverflow codec => ["codec ", toString codec.toNat, " reported more nodes than can be walked"]
  | .noTransport => ["no command transport established"]
  | .noOutputStream requested available =>
    ["output stream ", toString requested, " requested but only ", toString available, " available"]
  | .badWaveform length => ["a waveform of ", toString length, " bytes cannot be streamed"]
  | .waveformTooShort length least =>
    ["a waveform of ", toString length, " bytes is too short, the BDL needs at least ", toString least]

/-- The text of an error. -/
def message (e : Error) : String := String.join e.pieces

end Error
end AudioBringup
