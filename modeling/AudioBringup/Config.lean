import AudioBringup.Error
import AudioBringup.StreamFormat
/-!
# Config — the tunables of the bring-up

By default no wait on the hardware has a limit, but for the timer of the immediate command interface.
-/
namespace AudioBringup

/-- How long a wait on the hardware goes on. -/
inductive WaitLimit
  /-- until the hardware answers -/
  | unbounded
  /-- for so many checks -/
  | iterations (checks : Nat)
  deriving Repr, DecidableEq

/-- The limit of every wait. -/
structure PollPolicy where
  reset : WaitLimit := .unbounded
  ringReset : WaitLimit := .unbounded
  ringDrain : WaitLimit := .unbounded
  streamReset : WaitLimit := .unbounded
  deriving Repr, DecidableEq

namespace PollPolicy

def unbounded : PollPolicy := {}

/-- One limit for every wait. -/
def uniform (limit : WaitLimit) : PollPolicy := ⟨limit, limit, limit, limit⟩

def limit (p : PollPolicy) : WaitSite → WaitLimit
  | .controllerReset => p.reset
  | .ringReset => p.ringReset
  | .corbDrain | .rirbResponse => p.ringDrain
  | .streamReset => p.streamReset

end PollPolicy

/-- Which way of sending commands is wanted. -/
inductive TransportPreference
  /-- the immediate interface where the controller has it, the rings otherwise -/
  | auto
  | immediate
  | rings
  deriving Repr, DecidableEq

namespace TransportPreference

def name : TransportPreference → String
  | .auto => "Auto"
  | .immediate => "Immediate"
  | .rings => "RingBuffer"

end TransportPreference

/-- What a run is to do. -/
structure Config where
  transport : TransportPreference := .auto
  /-- units of 100 ns the timer of one immediate command runs for -/
  immediateTimeout : BitVec 64 := 10000
  /-- microseconds between leaving reset and looking for codecs -/
  codecReadyStall : Nat := 600
  poll : PollPolicy := .unbounded
  /-- the most nodes visited below one codec -/
  maxWalkVisits : Nat := 256
  /-- the index, among the output streams, of the one to play through -/
  outputStream : Nat := 0
  /-- the number the stream's packets are tagged with -/
  streamTag : BitVec 8 := 1
  format : StreamFormat := .standard
  /-- how many pieces the waveform is described by -/
  bdlEntries : Nat := 2
  /-- hold the stream back by its synchronization bit while it is started -/
  syncStreams : Bool := true
  /-- microseconds between starting the stream and taking everything down -/
  playbackLinger : Nat := 0
  deriving Repr, DecidableEq

end AudioBringup
