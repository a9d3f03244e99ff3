import AudioBringup.Bits
/-!
# StreamFormat — the layout of samples

One encoding serves the stream descriptor and the converter, so that both agree.  From the lowest bit: channels less
one (4 bits), sample size (3), a gap, divisor less one (3), multiple less one (3), base rate (1).
-/
namespace AudioBringup

/-- Bits per sample. -/
inductive SampleBits
  | bits8
  | bits16
  | bits20
  | bits24
  | bits32
  deriving Repr, DecidableEq

namespace SampleBits

def code : SampleBits → BitVec 3
  | .bits8 => 0b000
  | .bits16 => 0b001
  | .bits20 => 0b010
  | .bits24 => 0b011
  | .bits32 => 0b100

/-- The sample size of so many bits. -/
def ofNat? : Nat → Option SampleBits
  | 8 => some .bits8
  | 16 => some .bits16
  | 20 => some .bits20
  | 24 => some .bits24
  | 32 => some .bits32
  | _ => none

end SampleBits

/-- The rates a format is built for, in samples per second. -/
inductive SampleRate
  | hz8000
  | hz11025
  | hz16000
  | hz22050
  | hz32000
  | hz44100
  | hz48000
  | hz88200
  | hz96000
  | hz176400
  | hz192000
  deriving Repr, DecidableEq

/-- How a rate is made: a base rate (44.1 kHz or 48 kHz), a multiple less one and a divisor less one. -/
structure RateCode where
  base44100 : Bool
  multiple : BitVec 3
  divisor : BitVec 3
  deriving Repr, DecidableEq

namespace SampleRate

def code : SampleRate → RateCode
  | .hz8000 => ⟨false, 0, 5⟩
  | .hz11025 => ⟨true, 0, 3⟩
  | .hz16000 => ⟨false, 0, 2⟩
  | .hz22050 => ⟨true, 0, 1⟩
  | .hz32000 => ⟨false, 1, 2⟩
  | .hz44100 => ⟨true, 0, 0⟩
  | .hz48000 => ⟨false, 0, 0⟩
  | .hz88200 => ⟨true, 1, 0⟩
  | .hz96000 => ⟨false, 1, 0⟩
  | .hz176400 => ⟨true, 3, 0⟩
  | .hz192000 => ⟨false, 3, 0⟩

/-- The rate of so many samples per second. -/
def ofNat? : Nat → Option SampleRate
  | 8000 => some .hz8000
  | 11025 => some .hz11025
  | 16000 => some .hz16000
  | 22050 => some .hz22050
  | 32000 => some .hz32000
  | 44100 => some .hz44100
  | 48000 => some .hz48000
  | 88200 => some .hz88200
  | 96000 => some .hz96000
  | 176400 => some .hz176400
  | 192000 => some .hz192000
  | _ => none

end SampleRate

/-- A stream format as the hardware holds it. -/
structure StreamFormat where
  raw : BitVec 16
  deriving Repr, DecidableEq

namespace StreamFormat

open Bits (field)

/-- The PCM format with these samples; the channels are brought into `1..=16`. -/
def pcm (rate : SampleRate) (bits : SampleBits) (channels : Nat) : StreamFormat :=
  let channels := BitVec.ofNat 4 (max 1 (min channels 16) - 1)
  ⟨0#1 ++ BitVec.ofBool rate.code.base44100 ++ rate.code.multiple ++ rate.code.divisor ++ 0#1 ++ bits.code ++ channels⟩

/-- Two channels of 16 bits at 48 kHz. -/
def standard : StreamFormat := pcm .hz48000 .bits16 2

instance : Inhabited StreamFormat := ⟨standard⟩

def channels (f : StreamFormat) : Nat := (field f.raw 0 4).toNat + 1
/-- The code of the sample size. -/
def bits (f : StreamFormat) : Nat := (field f.raw 4 3).toNat
def divisor (f : StreamFormat) : Nat := (field f.raw 8 3).toNat + 1
def multiple (f : StreamFormat) : Nat := (field f.raw 11 3).toNat + 1
def base44100 (f : StreamFormat) : Bool := f.raw.getLsbD 14

/-- Samples per second, rounded down. -/
def rate (f : StreamFormat) : Nat :=
  (if f.base44100 then 44100 else 48000) * f.multiple / f.divisor

end StreamFormat
end AudioBringup
