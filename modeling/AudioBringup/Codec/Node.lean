import AudioBringup.Codec.Verb
/-!
# Codec.Node — one node of a codec

A node is what its codec answered for each parameter.  Everything else about it (its children, its widget type, its
amplifiers) is read off those answers.
-/
namespace AudioBringup

open Bits (field)

/-- The address of a codec and the id of a node in it. -/
structure NodeAddr where
  codec : BitVec 8
  node : BitVec 8
  deriving Repr, DecidableEq

namespace NodeAddr

/-- Nodes are ordered by codec, then by id. -/
def le (a b : NodeAddr) : Bool := a.codec < b.codec || (a.codec == b.codec && a.node ≤ b.node)

/-- A list of addresses in ascending order. -/
def sort (l : List NodeAddr) : List NodeAddr := l.mergeSort le

def text (a : NodeAddr) : String := s!"NodeAddr({a.codec.toNat}, {a.node.toNat})"

end NodeAddr

/-- What a widget does. -/
inductive WidgetType
  | audioOutput
  | audioInput
  | audioMixer
  | audioSelector
  | pinComplex
  | power
  | volumeKnob
  | beepGenerator
  | vendorDefined
  deriving Repr, DecidableEq

namespace WidgetType

def ofCode? (code : BitVec 4) : Option WidgetType :=
  match code.toNat with
  | 0x0 => some .audioOutput
  | 0x1 => some .audioInput
  | 0x2 => some .audioMixer
  | 0x3 => some .audioSelector
  | 0x4 => some .pinComplex
  | 0x5 => some .power
  | 0x6 => some .volumeKnob
  | 0x7 => some .beepGenerator
  | 0xf => some .vendorDefined
  | _ => none

def name : WidgetType → String
  | .audioOutput => "AudioOutput"
  | .audioInput => "AudioInput"
  | .audioMixer => "AudioMixer"
  | .audioSelector => "AudioSelector"
  | .pinComplex => "PinComplex"
  | .power => "Power"
  | .volumeKnob => "VolumeKnob"
  | .beepGenerator => "BeepGenerator"
  | .vendorDefined => "VendorDefined"

end WidgetType

/-- What an amplifier can do. -/
structure AmpCaps where
  raw : BitVec 32
  deriving Repr, DecidableEq

namespace AmpCaps

def canMute (a : AmpCaps) : Bool := a.raw.getLsbD 31
/-- The size of one step, in quarters of a decibel less one. -/
def stepSize (a : AmpCaps) : BitVec 7 := field a.raw 16 7
def steps (a : AmpCaps) : BitVec 7 := field a.raw 8 7
/-- The step that neither amplifies nor attenuates. -/
def offset (a : AmpCaps) : BitVec 7 := field a.raw 0 7

end AmpCaps

/-- The parameters of one node, exactly as the codec reported them. -/
structure Node where
  vendorId : BitVec 32 := 0
  revisionId : BitVec 32 := 0
  nodeCount : BitVec 32 := 0
  functionGroupType : BitVec 32 := 0
  audioGroupCaps : BitVec 32 := 0
  audioWidgetCaps : BitVec 32 := 0
  supportedPcmRates : BitVec 32 := 0
  supportedFormats : BitVec 32 := 0
  pinCaps : BitVec 32 := 0
  inputAmpCaps : BitVec 32 := 0
  connListLength : BitVec 32 := 0
  supportedPowerStates : BitVec 32 := 0
  processingCaps : BitVec 32 := 0
  gpioCount : BitVec 32 := 0
  outputAmpCaps : BitVec 32 := 0
  volumeKnobCaps : BitVec 32 := 0
  deriving Repr, DecidableEq

namespace Node

/-- The id of the first child. -/
def childStart (n : Node) : Nat := (field n.nodeCount 16 8).toNat
def childCount (n : Node) : Nat := (field n.nodeCount 0 8).toNat

/-- The ids of the children, ascending; ids that are no bytes are dropped. -/
def children (n : Node) : List (BitVec 8) :=
  ((List.range' n.childStart n.childCount).filter (· < 256)).map (BitVec.ofNat 8)

def widgetType? (n : Node) : Option WidgetType := WidgetType.ofCode? (field n.audioWidgetCaps 20 4)

/-- A node that reports the type of a function group is one, and no widget. -/
def isFunctionGroup (n : Node) : Bool := field n.functionGroupType 0 8 != 0#8

/-- A converter the stream can feed. -/
def isAudioOutput (n : Node) : Bool :=
  !n.isFunctionGroup && n.audioWidgetCaps != 0#32 && n.widgetType? == some .audioOutput

/-- The node can be powered up fully. -/
def supportsD0 (n : Node) : Bool := n.supportedPowerStates.getLsbD 0

def inputAmp (n : Node) : AmpCaps := ⟨n.inputAmpCaps⟩
def outputAmp (n : Node) : AmpCaps := ⟨n.outputAmpCaps⟩

/-- Every parameter with its name, in the order they are printed in. -/
def fields (n : Node) : List (String × BitVec 32) :=
  [("vendor_id", n.vendorId), ("revision_id", n.revisionId), ("node_count", n.nodeCount),
   ("function_group_type", n.functionGroupType), ("audio_group_caps", n.audioGroupCaps),
   ("audio_widget_caps", n.audioWidgetCaps), ("supported_pcm_rates", n.supportedPcmRates),
   ("supported_formats", n.supportedFormats), ("pin_caps", n.pinCaps), ("input_amp_caps", n.inputAmpCaps),
   ("conn_list_len", n.connListLength), ("supported_power_states", n.supportedPowerStates),
   ("processing_caps", n.processingCaps), ("gpio_count", n.gpioCount), ("output_amp_caps", n.outputAmpCaps),
   ("volume_knob_caps", n.volumeKnobCaps)]

def text (n : Node) : String :=
  "Node \x7b " ++ String.intercalate ", " (n.fields.map fun f => f.1 ++ ": " ++ toString f.2.toNat) ++ " \x7d"

end Node
end AudioBringup
