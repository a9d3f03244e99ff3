import AudioBringup.Hex
import AudioBringup.StreamFormat
/-!
# Playback.Tone — the test tone as samples

There is no floating point before an operating system is there, so the sine is Bhaskara's rational approximation in
integers: `16x(h - x) / (5h² - 4x(h - x))` over a half wave of `h` steps, within two percent of the curve.
-/
namespace AudioBringup

/-- A tone to be played. -/
structure Tone where
  frequency : Nat
  /-- the peak, as a signed sample -/
  amplitude : BitVec 16
  /-- in milliseconds -/
  duration : Nat
  deriving Repr, DecidableEq

namespace Tone

/-- 440 Hz for half a second, at a quarter of the full range. -/
def standard : Tone := ⟨440, 32767 / 4, 500⟩

/-- How high the half wave of `half` steps stands at step `x`, on the scale of `amplitude`, rounded toward zero. -/
def arch (x half : Nat) (amplitude : Int) : Int :=
  let p := x * (half - x)
  amplitude.sign * (16 * p * amplitude.natAbs / (5 * half * half - 4 * p) : Nat)

/-- The sine of `phase` steps of a full wave of `period` steps, before it is brought into a sample. -/
def wave (phase period : Nat) (amplitude : Int) : Int :=
  let half := max (period / 2) 1
  let phase := phase % period
  if phase < half then arch (min phase half) half amplitude
  else -arch (min (phase - half) half) half amplitude

/-- The sine as a sample. -/
def sine (phase period : Nat) (amplitude : BitVec 16) : BitVec 16 :=
  BitVec.ofInt 16 (wave phase period amplitude.toInt)

/-- Bytes a sample takes: samples of more than 16 bits go into four. -/
def containerBytes (format : StreamFormat) : Nat :=
  match format.bits with
  | 0 => 1
  | 1 => 2
  | _ => 4

/-- One sample in its container, lowest byte first, with its value in the top bits. -/
def container (bytes : Nat) (sample : BitVec 16) : List Byte :=
  let low : Byte := sample.extractLsb' 0 8
  let high : Byte := sample.extractLsb' 8 8
  match bytes with
  | 1 => [high]
  | 2 => [low, high]
  | _ => [0, 0, low, high]

/-- One frame: the same sample for every channel. -/
def frame (format : StreamFormat) (tone : Tone) (index : Nat) : List Byte :=
  let sample := sine (index * tone.frequency) format.rate tone.amplitude
  (List.replicate format.channels (container (containerBytes format) sample)).flatten

/-- How many frames the tone lasts. -/
def frames (format : StreamFormat) (tone : Tone) : Nat := format.rate * tone.duration / 1000

/-- The tone as interleaved samples in a format. -/
def render (tone : Tone) (format : StreamFormat) : Array Byte :=
  (List.range (frames format tone)).foldl (fun samples i => samples ++ frame format tone i) #[]

end Tone
end AudioBringup
