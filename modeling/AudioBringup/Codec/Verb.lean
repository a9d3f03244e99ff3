import AudioBringup.Bits
/-!
# Codec.Verb — commands and the 32-bit words they are sent as

From the highest bit a word holds the codec address (4 bits), a bit for indirect addressing that is never set, the
node (7) and the verb (20): a 12-bit id with an 8-bit payload, or a 4-bit id with a 16-bit payload.
-/
namespace AudioBringup

open Bits (field withField withBit)

/-- How the low 20 bits of a word are divided. -/
inductive VerbWidth
  | short
  | long
  deriving Repr, DecidableEq

/-- What a node is asked to do, by an id of 12 bits (`short`) or of 4 bits (`long`). -/
inductive Verb
  | short (id : BitVec 12)
  | long (id : BitVec 4)
  deriving Repr, DecidableEq

namespace Verb

def getParameter : Verb := .short 0xf00
def setPowerState : Verb := .short 0x705
def setStreamChannel : Verb := .short 0x706
def setStreamFormat : Verb := .long 0x2
def setAmpGainMute : Verb := .long 0x3

/-- The verb of a width with an id, of which the bits that fit count. -/
def ofId (width : VerbWidth) (id : BitVec 16) : Verb :=
  match width with
  | .short => .short (id.setWidth 12)
  | .long => .long (id.setWidth 4)

def width : Verb → VerbWidth
  | .short _ => .short
  | .long _ => .long

def id : Verb → BitVec 16
  | .short id => id.setWidth 16
  | .long id => id.setWidth 16

end Verb

/-- The parameters of a node that are asked for. -/
inductive Parameter
  | vendorId
  | revisionId
  | subordinateNodeCount
  | functionGroupType
  | audioGroupCaps
  | audioWidgetCaps
  | supportedPcmRates
  | supportedFormats
  | pinCaps
  | inputAmpCaps
  | connListLength
  | supportedPowerStates
  | processingCaps
  | gpioCount
  | outputAmpCaps
  | volumeKnobCaps
  deriving Repr, DecidableEq

namespace Parameter

def code : Parameter → BitVec 8
  | .vendorId => 0x00
  | .revisionId => 0x02
  | .subordinateNodeCount => 0x04
  | .functionGroupType => 0x05
  | .audioGroupCaps => 0x08
  | .audioWidgetCaps => 0x09
  | .supportedPcmRates => 0x0a
  | .supportedFormats => 0x0b
  | .pinCaps => 0x0c
  | .inputAmpCaps => 0x0d
  | .connListLength => 0x0e
  | .supportedPowerStates => 0x0f
  | .processingCaps => 0x10
  | .gpioCount => 0x11
  | .outputAmpCaps => 0x12
  | .volumeKnobCaps => 0x13

/-- Every parameter, by ascending code. -/
def all : List Parameter :=
  [.vendorId, .revisionId, .subordinateNodeCount, .functionGroupType, .audioGroupCaps, .audioWidgetCaps,
   .supportedPcmRates, .supportedFormats, .pinCaps, .inputAmpCaps, .connListLength, .supportedPowerStates,
   .processingCaps, .gpioCount, .outputAmpCaps, .volumeKnobCaps]

/-- The parameter with a code. -/
def ofCode? (code : BitVec 8) : Option Parameter := all.find? (·.code == code)

end Parameter

/-- One request to one node of one codec. -/
structure Command where
  codec : BitVec 8
  node : BitVec 8
  verb : Verb
  payload : BitVec 16
  deriving Repr, DecidableEq

namespace Command

def getParameter (codec node : BitVec 8) (p : Parameter) : Command :=
  ⟨codec, node, .getParameter, p.code.setWidth 16⟩

/-- The node's highest bit falls on the bit for indirect addressing, which a word never sets. -/
def indirect (c : Command) : Bool := c.node.getLsbD 7

/-- The word a command is sent as: fields wider than their place are cut to it, and indirect addressing is off. -/
def encode (c : Command) : BitVec 32 :=
  let verb : BitVec 20 :=
    match c.verb with
    | .short id => id ++ c.payload.setWidth 8
    | .long id => id ++ c.payload
  c.codec.setWidth 4 ++ 0#1 ++ c.node.setWidth 7 ++ verb

/-- The command a word stands for, its low 20 bits divided as `width` says. -/
def decode (word : BitVec 32) (width : VerbWidth) : Command :=
  let codec := (field word 28 4).setWidth 8
  let node := field word 20 8
  match width with
  | .short => ⟨codec, node, .short (field word 8 12), (field word 0 8).setWidth 16⟩
  | .long => ⟨codec, node, .long (field word 16 4), field word 0 16⟩

end Command

namespace Response

/-- Stands for the answer of a codec that never answered. -/
def timedOut : BitVec 32 := 0xffffffff

/-- What an absent codec answers for its vendor. -/
def absent : BitVec 32 := 0

end Response

/-- The power states a node is put into. -/
inductive PowerState
  | d0
  deriving Repr, DecidableEq

namespace PowerState

def code : PowerState → BitVec 16
  | .d0 => 0

end PowerState

/-- The payload that sets an amplifier's gain and mute. -/
structure AmpGain where
  raw : BitVec 16
  deriving Repr, DecidableEq

namespace AmpGain

def none : AmpGain := ⟨0⟩
def withOutput (g : AmpGain) (set : Bool) : AmpGain := ⟨withBit g.raw 15 set⟩
def withInput (g : AmpGain) (set : Bool) : AmpGain := ⟨withBit g.raw 14 set⟩
def withLeft (g : AmpGain) (set : Bool) : AmpGain := ⟨withBit g.raw 13 set⟩
def withRight (g : AmpGain) (set : Bool) : AmpGain := ⟨withBit g.raw 12 set⟩
/-- Which input of a widget with several the gain is for. -/
def withIndex (g : AmpGain) (i : BitVec 8) : AmpGain := ⟨withField g.raw 8 (i.setWidth 4)⟩
def withMute (g : AmpGain) (set : Bool) : AmpGain := ⟨withBit g.raw 7 set⟩
def withGain (g : AmpGain) (gain : BitVec 8) : AmpGain := ⟨withField g.raw 0 (gain.setWidth 7)⟩
def muted (g : AmpGain) : Bool := g.raw.getLsbD 7

end AmpGain

/-- The payload that gives a converter its stream tag and its lowest channel, four bits of each. -/
def streamChannel (stream channel : BitVec 8) : BitVec 16 :=
  0#8 ++ stream.setWidth 4 ++ channel.setWidth 4

end AudioBringup
