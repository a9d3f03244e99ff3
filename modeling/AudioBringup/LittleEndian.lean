import AudioBringup.Hex
/-!
# LittleEndian — numbers in bytes, lowest byte first

Reading past the end of the bytes finds a given filler there, writing past it does nothing.
-/
namespace AudioBringup
namespace LittleEndian

/-- The number in the `count` bytes at `offset`. -/
def read (filler : Byte) (data : Array Byte) (offset : Nat) : (count : Nat) → Nat
  | 0 => 0
  | count + 1 => (data.getD offset filler).toNat + 256 * read filler data (offset + 1) count

/-- The bytes with the low `count` bytes of `value` at `offset`. -/
def write (data : Array Byte) (offset : Nat) : (count : Nat) → (value : Nat) → Array Byte
  | 0, _ => data
  | count + 1, value => write (data.setIfInBounds offset (BitVec.ofNat 8 value)) (offset + 1) count (value / 256)

/-- The bytes with `source` copied over them from `offset` on. -/
def copy (data : Array Byte) (offset : Nat) (source : Array Byte) : Array Byte :=
  data.extract 0 offset ++ source ++ data.extract (offset + source.size) data.size

end LittleEndian
end AudioBringup
