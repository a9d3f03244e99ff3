/-!
# Region — memory the controller reaches by itself

One allocation, known to the host by a pointer and to the device by an address.  The memory behind a region changes
under the host's hands, so it is not part of the region: it is reached through `Call`.
-/
namespace AudioBringup

/-- A piece of bus master memory. -/
structure Region where
  /-- where the host finds it -/
  host : Nat
  /-- where the device finds it -/
  address : BitVec 64
  length : Nat
  /-- what the allocator needs to give it back -/
  token : Nat
  deriving Repr, DecidableEq

end AudioBringup
