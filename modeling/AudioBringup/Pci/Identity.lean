import AudioBringup.Bits
import AudioBringup.Hex
/-!
# Pci.Identity — what a PCI function says it is

Read from two dwords of its configuration space.  A function counts as an HD audio controller when it is one of a
list of known devices, or when its class says so.
-/
namespace AudioBringup
namespace Pci

open Bits (field)

/-- The name of a function that nobody owns yet: a slot of a bus, or a firmware handle. -/
inductive Candidate
  | slot (index : Nat)
  | handle (value : Nat)
  deriving Repr, DecidableEq

namespace Candidate

def text : Candidate → String
  | .slot index => toString index
  | .handle value => Hex.marked value

end Candidate

/-- The configuration space offset of the device and vendor ids. -/
def idsOffset : Nat := 0x00
/-- The configuration space offset of the class code and subclass. -/
def classOffset : Nat := 0x08

def intel : BitVec 16 := 0x8086
def amd : BitVec 16 := 0x1022

/-- Vendor and device of the functions known to be HD audio controllers. -/
def knownDevices : List (BitVec 16 × BitVec 16) :=
  [(intel, 0x2668), (intel, 0x27d8), (intel, 0x269a), (intel, 0x284b), (intel, 0x293e), (intel, 0x3a3e),
   (intel, 0x1c20), (intel, 0x1e20), (intel, 0x8c20), (intel, 0x9c20), (intel, 0xa170), (intel, 0x9d70),
   (intel, 0xa348), (amd, 0x1457)]

/-- What a function says it is. -/
structure Identity where
  vendor : BitVec 16
  device : BitVec 16
  classCode : BitVec 8
  subclass : BitVec 8
  deriving Repr, DecidableEq

namespace Identity

/-- The identity in the configuration dwords at `idsOffset` and `classOffset`. -/
def ofConfig (ids classes : BitVec 32) : Identity :=
  { vendor := field ids 0 16, device := field ids 16 16
    classCode := field classes 24 8, subclass := field classes 16 8 }

def allowListed (i : Identity) : Bool := knownDevices.contains (i.vendor, i.device)

/-- Class 4 (multimedia), subclass 3 (HD audio). -/
def isHdAudioClass (i : Identity) : Bool := i.classCode == 0x04#8 && i.subclass == 0x03#8

def isController (i : Identity) : Bool := i.allowListed || i.isHdAudioClass

end Identity
end Pci
end AudioBringup
