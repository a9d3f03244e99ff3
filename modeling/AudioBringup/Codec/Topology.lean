import AudioBringup.Controller
/-!
# Codec.Topology — walking the node tree of every codec

A codec has a root at id 0; each node names a run of ids as its children.  The walk visits them in preorder: the ids
still to visit are a list, and a visited node's children are put before the rest of it.  Every visit counts against
the same allowance, so the walk ends whatever the codec answers.
-/
namespace AudioBringup

open Procedure

/-- The nodes of one codec by ascending id. -/
abbrev NodeTable := List (BitVec 8 × Node)

namespace NodeTable

/-- The table with `node` at `id`, in place of whatever was there. -/
def insert (id : BitVec 8) (node : Node) : NodeTable → NodeTable
  | [] => [(id, node)]
  | entry :: rest =>
    if id < entry.1 then (id, node) :: entry :: rest
    else if id = entry.1 then (id, node) :: rest
    else entry :: insert id node rest

/-- The node at `id`. -/
def node? (id : BitVec 8) (t : NodeTable) : Option Node := (List.find? (·.1 == id) t).map (·.2)

end NodeTable

/-- One codec that answered. -/
structure Codec where
  address : BitVec 8
  root : Node
  /-- every node below the root -/
  nodes : NodeTable
  deriving Repr, DecidableEq

/-- Everything the walk found, codecs in ascending order. -/
structure Topology where
  codecs : List Codec := []
  deriving Repr, DecidableEq

namespace Node

/-- Reads every parameter but the vendor, which was asked for to see whether the node is there. -/
def read (addr : NodeAddr) (vendorId : BitVec 32) : Procedure Controller Node := do
  let parameter := Controller.getParameter addr.codec addr.node
  return {
    vendorId
    revisionId := ← parameter .revisionId
    nodeCount := ← parameter .subordinateNodeCount
    functionGroupType := ← parameter .functionGroupType
    audioGroupCaps := ← parameter .audioGroupCaps
    audioWidgetCaps := ← parameter .audioWidgetCaps
    supportedPcmRates := ← parameter .supportedPcmRates
    supportedFormats := ← parameter .supportedFormats
    pinCaps := ← parameter .pinCaps
    inputAmpCaps := ← parameter .inputAmpCaps
    connListLength := ← parameter .connListLength
    supportedPowerStates := ← parameter .supportedPowerStates
    processingCaps := ← parameter .processingCaps
    gpioCount := ← parameter .gpioCount
    outputAmpCaps := ← parameter .outputAmpCaps
    volumeKnobCaps := ← parameter .volumeKnobCaps }

/-- The gain that leaves both channels of an amplifier as they are, unmuted. -/
def unmuted (amp : AmpCaps) : AmpGain :=
  (((AmpGain.none.withLeft true).withRight true).withMute false).withGain (amp.offset.setWidth 8)

/-- Powers a node up and unmutes its amplifiers, where it can be. -/
def configure (addr : NodeAddr) (node : Node) : Procedure Controller Unit := do
  if node.supportsD0 then
    note (.poweringUp addr)
    let _ ← Controller.command ⟨addr.codec, addr.node, .setPowerState, PowerState.d0.code⟩
  if node.outputAmp.canMute then
    note (.unmutingOutput addr)
    let gain := (unmuted node.outputAmp).withOutput true
    let _ ← Controller.command ⟨addr.codec, addr.node, .setAmpGainMute, gain.raw⟩
  if node.inputAmp.canMute then
    note (.unmutingInput addr)
    let gain := (unmuted node.inputAmp).withInput true
    let _ ← Controller.command ⟨addr.codec, addr.node, .setAmpGainMute, gain.raw⟩

end Node

namespace Codec

/-- Visits one id: the node there, brought up, or nothing where none answers. -/
def visit (codec id : BitVec 8) : Procedure Controller (Option Node) := do
  let vendorId ← Controller.getParameter codec id .vendorId
  if vendorId == Response.timedOut then
    note (.nodeAbsent id codec)
    return none
  else
    let node ← Node.read ⟨codec, id⟩ vendorId
    note (.nodeRead ⟨codec, id⟩ node)
    Node.configure ⟨codec, id⟩ node
    return some node

/-- Visits the ids in `pending` and all below them, `allowance` ids in all, and adds what it finds to `found`. -/
def walkBelow (codec : BitVec 8) : (allowance : Nat) → (pending : List (BitVec 8)) → (found : NodeTable) →
    Procedure Controller NodeTable
  | _, [], found => return found
  | 0, _ :: _, _ => fail (.topologyOverflow codec)
  | allowance + 1, id :: pending, found => do
    match ← visit codec id with
    | none => walkBelow codec allowance pending found
    | some node => walkBelow codec allowance (node.children ++ pending) (NodeTable.insert id node found)

/-- Walks the codec at one address; nothing where its root does not answer. -/
def walk (address : BitVec 8) : Procedure Controller (Option Codec) := do
  let vendorId ← Controller.getParameter address 0 .vendorId
  if vendorId == Response.absent || vendorId == Response.timedOut then
    note (.codecAbsent address)
    return none
  else
    note (.codecPresent address vendorId)
    let root ← Node.read ⟨address, 0⟩ vendorId
    Node.configure ⟨address, 0⟩ root
    let nodes ← walkBelow address (← get).config.maxWalkVisits root.children []
    note (.codecWalked address nodes.length)
    return some { address, root, nodes }

/-- Walks the codecs at several addresses, in their order. -/
def walkAll : List (BitVec 8) → Procedure Controller (List Codec)
  | [] => return []
  | address :: rest => do
    let codec ← walk address
    return codec.toList ++ (← walkAll rest)

end Codec

namespace Topology

/-- Walks every codec that reported in. -/
def walk : Procedure Controller Topology := do
  return { codecs := ← Codec.walkAll (← get).codecAddresses }

def codec? (t : Topology) (address : BitVec 8) : Option Codec := t.codecs.find? (·.address == address)

/-- The node at an address, below a root. -/
def node? (t : Topology) (addr : NodeAddr) : Option Node :=
  (t.codec? addr.codec).bind fun c => NodeTable.node? addr.node c.nodes

/-- How many nodes there are below the roots. -/
def nodeCount (t : Topology) : Nat := t.codecs.foldl (fun count codec => count + codec.nodes.length) 0

/-- The converters the stream can feed, in the order of their addresses. -/
def audioOutputs (t : Topology) : List NodeAddr :=
  t.codecs.flatMap fun c => (c.nodes.filter (·.2.isAudioOutput)).map fun n => ⟨c.address, n.1⟩

theorem mem_audioOutputs {t : Topology} {addr : NodeAddr} : addr ∈ t.audioOutputs ↔
    ∃ codec ∈ t.codecs, ∃ e ∈ codec.nodes, e.2.isAudioOutput ∧ ⟨codec.address, e.1⟩ = addr := by
  simp only [audioOutputs, List.mem_flatMap, List.mem_map, List.mem_filter, and_assoc]

end Topology
end AudioBringup
