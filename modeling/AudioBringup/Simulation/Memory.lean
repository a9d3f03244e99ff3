import AudioBringup.LittleEndian
/-!
# Simulation.Memory — the blocks a simulated device can reach

Blocks are handed out at ascending addresses, a whole number of pages apart, and are reached while they are live.  An
access is to one block or to none.
-/
namespace AudioBringup
namespace Simulation

/-- One live block. -/
structure Block where
  address : Nat
  bytes : Array Byte
  deriving Repr, DecidableEq

namespace Block

/-- The block holds all of the `count` bytes at `address`. -/
def holds (b : Block) (address count : Nat) : Bool :=
  b.address ≤ address && address + count ≤ b.address + b.bytes.size

end Block

/-- The live blocks, by ascending address, and where the next one goes. -/
structure Memory where
  blocks : List Block := []
  next : Nat := 0x100000000
  deriving Repr, DecidableEq

namespace Memory

/-- What fresh memory holds. -/
def fresh : Byte := 0xa5

/-- The distance of blocks. -/
def page : Nat := 4096

/-- A new block's address, and the memory with it. -/
def allocate (m : Memory) (length : Nat) : Nat × Memory :=
  (m.next,
    { blocks := m.blocks ++ [⟨m.next, Array.replicate length fresh⟩]
      next := m.next + (max length 1 + page - 1) / page * page })

/-- The block that starts at an address. -/
def block? (m : Memory) (address : Nat) : Option Block := m.blocks.find? (·.address == address)

/-- The memory without the block that starts at an address. -/
def free (m : Memory) (address : Nat) : Memory :=
  { m with blocks := m.blocks.filter (·.address != address) }

/-- The `count` bytes at an address, if they are live. -/
def bytes? (m : Memory) (address count : Nat) : Option (Array Byte) :=
  (m.blocks.find? (·.holds address count)).map fun b =>
    b.bytes.extract (address - b.address) (address - b.address + count)

/-- The number in the `count` bytes at an address, if they are live. -/
def load? (m : Memory) (address count : Nat) : Option Nat :=
  (m.blocks.find? (·.holds address count)).map fun b => LittleEndian.read 0 b.bytes (address - b.address) count

/-- The memory with one block changed: the one that holds `count` bytes at an address. -/
def update (m : Memory) (address count : Nat) (f : Nat → Array Byte → Array Byte) : Memory :=
  { m with blocks := m.blocks.map fun b =>
      if b.holds address count then { b with bytes := f (address - b.address) b.bytes } else b }

/-- The memory with a number in the `count` bytes at an address, where they are live. -/
def store (m : Memory) (address count value : Nat) : Memory :=
  m.update address count fun offset bytes => LittleEndian.write bytes offset count value

/-- The memory with bytes copied to an address, where they are live. -/
def fill (m : Memory) (address : Nat) (data : Array Byte) : Memory :=
  m.update address data.size fun offset bytes => LittleEndian.copy bytes offset data

/-- The memory with `length` bytes at an address cleared, where they are live. -/
def clear (m : Memory) (address length : Nat) : Memory := m.fill address (Array.replicate length 0)

/-- Every byte from an address on for `length` bytes is live and zero. -/
def zeroed (m : Memory) (address length : Nat) : Bool :=
  ((m.bytes? address length).map fun data => data.all (· == 0)).getD false

end Memory
end Simulation
end AudioBringup
