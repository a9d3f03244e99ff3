import AudioBringup.Codec.Node
import AudioBringup.Config
import AudioBringup.Pci.Identity
import AudioBringup.Region
import AudioBringup.Uefi.Status
/-!
# Notice — what the bring-up tells whoever is watching

A notice is a fact, not a text.  Its level says how much it matters, its target says which part of the bring-up
it comes from, and its pieces are the text in the runs it is printed in.
-/
namespace AudioBringup

/-- How much a notice matters, the most important first. -/
inductive Level
  | error
  | warn
  | info
  | debug
  | trace
  deriving Repr, DecidableEq

namespace Level

def name : Level → String
  | .error => "ERROR"
  | .warn => "WARN"
  | .info => "INFO"
  | .debug => "DEBUG"
  | .trace => "TRACE"

/-- The level of a name. -/
def ofName? (name : String) : Option Level :=
  [.error, .warn, .info, .debug, .trace].find? fun level : Level => level.name == name

/-- A level's place: `0` is reserved for showing nothing. -/
def rank : Level → Nat
  | .error => 1
  | .warn => 2
  | .info => 3
  | .debug => 4
  | .trace => 5

end Level

/-- The two ways of getting commands to the codecs. -/
inductive TransportKind
  | immediate
  | rings
  deriving Repr, DecidableEq

namespace TransportKind

def name : TransportKind → String
  | .immediate => "Immediate"
  | .rings => "RingBuffer"

end TransportKind

/-- Something worth telling. -/
inductive Notice
  -- the run as a whole
  | topologyWalked (codecs nodes : Nat)
  | completed
  | failed (cause : Error)
  | streamsNotFreed (cause : Error)
  | transportNotTornDown (cause : Error)
  | controllerNotReleased (cause : Error)
  -- the bus
  | candidatesFound (count : Nat)
  | candidateSeen (candidate : Pci.Candidate) (identity : Pci.Identity)
  | controllerFound (identity : Pci.Identity)
  -- the controller
  | outOfReset
  | codecsReported (codecs : BitVec 16)
  | tearingDown (kind : TransportKind)
  | gaveUp (site : WaitSite) (checks : Nat)
  -- the transports
  | statusProbed (icis : BitVec 16)
  | transportChosen (kind : TransportKind)
  | ringsPlaced (corb : BitVec 64) (corbEntries : Nat) (rirb : BitVec 64) (rirbEntries : Nat)
  | indirectNode (node codec : BitVec 8)
  | unanswered (word : BitVec 32)
  | answered (kind : TransportKind) (word response : BitVec 32)
  -- the codecs
  | codecAbsent (codec : BitVec 8)
  | codecPresent (codec : BitVec 8) (vendor : BitVec 32)
  | codecWalked (codec : BitVec 8) (nodes : Nat)
  | nodeAbsent (node codec : BitVec 8)
  | nodeRead (addr : NodeAddr) (node : Node)
  | poweringUp (addr : NodeAddr)
  | unmutingOutput (addr : NodeAddr)
  | unmutingInput (addr : NodeAddr)
  -- the streams
  | streamsCounted (input output bidirectional : Nat)
  | positionsPlaced (address : BitVec 64)
  | streamProgrammed (index descriptor length pieces : Nat)
  | converterFormatted (addr : NodeAddr) (format : BitVec 16) (tag : BitVec 8)
  | streamRunning (index : Nat) (tag : BitVec 8)
  | streamStopped (index : Nat)
  -- the firmware
  | functionBound (candidate : Pci.Candidate)
  | eventNotClosed (cause : Uefi.Failure)
  -- the application
  | heapRefused (cause : Uefi.Failure)
  | heapNotFreed (cause : Uefi.Failure)
  | runFailed (cause : Error)
  | reportController (identity : Pci.Identity) (codecs : BitVec 16) (kind : TransportKind)
  | reportStream (nodes descriptor outputs : Nat)
  /-- a text of somebody else's -/
  | said (level : Level) (target text : String)
  deriving Repr

namespace Notice

def level : Notice → Level
  | .said level _ _ => level
  | .heapRefused _ | .runFailed _ => .error
  | .failed _ | .streamsNotFreed _ | .transportNotTornDown _ | .controllerNotReleased _ | .gaveUp .. | .indirectNode ..
  | .eventNotClosed _ | .heapNotFreed _ => .warn
  | .topologyWalked .. | .completed | .controllerFound _ | .outOfReset | .codecsReported _ | .transportChosen _
  | .codecAbsent _ | .codecPresent .. | .streamsCounted .. | .streamRunning .. | .reportController ..
  | .reportStream .. => .info
  | .candidatesFound _ | .candidateSeen .. | .tearingDown _ | .statusProbed _ | .ringsPlaced .. | .unanswered _
  | .codecWalked .. | .nodeAbsent .. | .poweringUp _ | .unmutingOutput _ | .unmutingInput _ | .positionsPlaced _
  | .streamProgrammed .. | .converterFormatted .. | .streamStopped _ | .functionBound _ => .debug
  | .answered .. | .nodeRead .. => .trace

/-- The part of the bring-up a notice comes from. -/
def target : Notice → String
  | .said _ target _ => target
  | .topologyWalked .. | .completed | .failed _ | .streamsNotFreed _ | .transportNotTornDown _
  | .controllerNotReleased _ => "hda"
  | .candidatesFound _ | .candidateSeen .. | .controllerFound _ => "hda::pci"
  | .outOfReset | .codecsReported _ | .tearingDown _ => "hda::controller"
  | .gaveUp .. => "hda::regs"
  | .statusProbed _ | .transportChosen _ => "hda::transport"
  | .ringsPlaced .. | .answered .rings .. => "hda::transport::ring"
  | .unanswered _ | .answered .immediate .. => "hda::transport::immediate"
  | .indirectNode .. => "hda::verb"
  | .codecAbsent _ | .codecPresent .. | .codecWalked .. | .nodeAbsent .. | .nodeRead .. | .poweringUp _
  | .unmutingOutput _ | .unmutingInput _ => "hda::codec"
  | .streamsCounted .. | .positionsPlaced _ | .streamProgrammed .. | .converterFormatted .. | .streamRunning ..
  | .streamStopped _ => "hda::stream"
  | .functionBound _ | .eventNotClosed _ => "hdaaudio::platform"
  | .heapRefused _ | .heapNotFreed _ | .runFailed _ | .reportController .. | .reportStream .. => "hdaaudio"

/-- A decimal number. -/
private def decimal (n : Nat) : List String := [toString n]

/-- A number in hexadecimal behind its marker. -/
private def hex (n : Nat) : List String := ["0x", Hex.digits n]

/-- Hexadecimal digits brought to `width` places, without a marker. -/
private def places (width n : Nat) : List String := Hex.zeros width n ++ [Hex.digits n]

/-- Hexadecimal digits brought to `width` places, behind a marker. -/
private def markedPlaces (width n : Nat) : List String := "0x" :: places width n

/-- Vendor and device of a function. -/
private def devicePieces (i : Pci.Identity) : List String :=
  places 4 i.vendor.toNat ++ [":"] ++ places 4 i.device.toNat

/-- The text of a notice, in the pieces it is printed in. -/
def pieces : Notice → List String
  | .topologyWalked codecs nodes => decimal codecs ++ [" codecs, "] ++ decimal nodes ++ [" nodes"]
  | .completed => ["bring-up complete"]
  | .failed cause => "bring-up failed: " :: cause.pieces
  | .streamsNotFreed cause => "could not free the streams: " :: cause.pieces
  | .transportNotTornDown cause => "could not tear the transport down: " :: cause.pieces
  | .controllerNotReleased cause => "could not release the controller: " :: cause.pieces
  | .candidatesFound count => decimal count ++ [" PCI I/O handles"]
  | .candidateSeen candidate identity =>
    [candidate.text, ": "] ++ devicePieces identity ++ [" class "] ++ places 2 identity.classCode.toNat ++ [":"]
      ++ places 2 identity.subclass.toNat
  | .controllerFound identity => "found HD audio controller " :: devicePieces identity
  | .outOfReset => ["controller out of reset"]
  | .codecsReported codecs => "codec bitmap " :: markedPlaces 4 codecs.toNat
  | .tearingDown kind => ["tearing down the ", kind.name, " transport"]
  | .gaveUp site checks => ["gave up on ", site.name, " after "] ++ decimal checks ++ [" checks"]
  | .statusProbed icis => "ICIS reads " :: hex icis.toNat
  | .transportChosen kind => ["using the ", kind.name, " command transport"]
  | .ringsPlaced corb corbEntries rirb rirbEntries =>
    ["CORB at "] ++ hex corb.toNat ++ [" with "] ++ decimal corbEntries ++ [" entries, RIRB at "] ++ hex rirb.toNat
      ++ [" with "] ++ decimal rirbEntries ++ [" entries"]
  | .indirectNode node codec =>
    ["node "] ++ hex node.toNat ++ [" of codec "] ++ decimal codec.toNat
      ++ [" sets the indirect node address bit, clearing it"]
  | .unanswered word => "no response to " :: markedPlaces 8 word.toNat
  | .answered _ word response => markedPlaces 8 word.toNat ++ [" -> "] ++ markedPlaces 8 response.toNat
  | .codecAbsent codec => ["codec "] ++ decimal codec.toNat ++ [" did not answer, skipping it"]
  | .codecPresent codec vendor => ["codec "] ++ decimal codec.toNat ++ [": vendor "] ++ places 8 vendor.toNat
  | .codecWalked codec nodes => ["codec "] ++ decimal codec.toNat ++ [": "] ++ decimal nodes ++ [" nodes"]
  | .nodeAbsent node codec =>
    ["node "] ++ decimal node.toNat ++ [" of codec "] ++ decimal codec.toNat ++ [" did not answer"]
  | .nodeRead addr node => [addr.text, ": ", node.text]
  | .poweringUp addr => [addr.text, ": powering up"]
  | .unmutingOutput addr => [addr.text, ": unmuting output amp"]
  | .unmutingInput addr => [addr.text, ": unmuting input amp"]
  | .streamsCounted input output bidirectional =>
    decimal input ++ [" input, "] ++ decimal output ++ [" output and "] ++ decimal bidirectional
      ++ [" bidirectional streams"]
  | .positionsPlaced address => "DMA position buffer at " :: hex address.toNat
  | .streamProgrammed index descriptor length pieces =>
    ["output stream "] ++ decimal index ++ [" (descriptor "] ++ decimal descriptor ++ ["): "] ++ decimal length
      ++ [" bytes in "] ++ decimal pieces ++ [" BDL entries"]
  | .converterFormatted addr format tag =>
    [addr.text, ": format "] ++ markedPlaces 4 format.toNat ++ [", stream "] ++ decimal tag.toNat
  | .streamRunning index tag =>
    ["output stream "] ++ decimal index ++ [" running with stream number "] ++ decimal tag.toNat
  | .streamStopped index => ["output stream "] ++ decimal index ++ [" stopped"]
  | .functionBound candidate => ["bound ", candidate.text, " exclusively"]
  | .eventNotClosed cause => cause.pieces
  | .heapRefused cause => cause.pieces
  | .heapNotFreed cause => cause.pieces
  | .runFailed cause => cause.pieces
  | .reportController identity codecs kind =>
    ["controller "] ++ devicePieces identity ++ [", codecs "] ++ markedPlaces 4 codecs.toNat
      ++ [", ", kind.name, " transport"]
  | .reportStream nodes descriptor outputs =>
    decimal nodes ++ [" nodes, stream descriptor "] ++ decimal descriptor ++ [" fed "] ++ decimal outputs
      ++ [" output converters"]
  | .said _ _ text => [text]

/-- A notice as a line of its own, in the pieces it is printed in: everyday notices are bare, the others carry their
level and target. -/
def line (n : Notice) : List String :=
  match n.level with
  | .info => n.pieces ++ ["\n"]
  | level => ["[", level.name, "] ", n.target, ": "] ++ n.pieces ++ ["\n"]

/-- Whether a notice is shown where nothing less important than `limit` is. -/
def shown (limit : Option Level) (n : Notice) : Bool :=
  match limit with
  | none => false
  | some least => n.level.rank ≤ least.rank

end Notice
end AudioBringup
