import AudioBringup.Controller.CommandRings
import AudioBringup.Controller.ImmediateInterface
/-!
# Controller.Transport — getting a word to a codec and its response back

One command is outstanding at a time, whichever way it goes, so the n-th response belongs to the n-th command.
-/
namespace AudioBringup

open Procedure

/-- The way commands go, once it is there. -/
inductive Transport
  | immediate (timeout : BitVec 64)
  | rings (state : CommandRings)
  deriving Repr, DecidableEq

namespace Transport

variable {σ : Type}

def kind : Transport → TransportKind
  | .immediate _ => .immediate
  | .rings _ => .rings

/-- The kind that is wanted; with no preference the immediate interface, if the controller has it. -/
def choose : TransportPreference → Procedure σ TransportKind
  | .immediate => return .immediate
  | .rings => return .rings
  | .auto => do
    let icis ← read16 Register.icis
    note (.statusProbed icis)
    return if ImmediateStatus.mk icis == .absent then .rings else .immediate

/-- Sets up the way of sending commands that `config` asks for. -/
def establish (config : Config) : Procedure σ Transport := do
  let kind ← choose config.transport
  note (.transportChosen kind)
  match kind with
  | .immediate => return .immediate config.immediateTimeout
  | .rings => return .rings (← CommandRings.setUp config.poll)

/-- Sends one word and waits for its response. -/
def exchange (word : BitVec 32) : Procedure Transport (BitVec 32) := do
  match ← get with
  | .immediate timeout => ImmediateInterface.exchange timeout word
  | .rings r => on r (fun r _ => .rings r) (CommandRings.exchange word)

/-- Stops the transport and gives back whatever it holds. -/
def tearDown : Transport → Procedure σ Unit
  | .immediate _ => return ()
  | .rings r => r.tearDown

end Transport
end AudioBringup
