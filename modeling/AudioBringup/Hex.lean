/-!
# Hex — lower case hexadecimal text

Digits without padding, the marked form `0x…`, the zero-padded form as the run of pieces it is printed in,
and two digits per byte.
-/
namespace AudioBringup

/-- The unit of memory. -/
abbrev Byte := BitVec 8

namespace Hex

/-- The digits of `n`, most significant first, `0` for zero. -/
def digits (n : Nat) : String := String.ofList (Nat.toDigits 16 n)

/-- The digits of `n` behind the marker `0x`. -/
def marked (n : Nat) : String := "0x" ++ digits n

/-- The zeros that bring the digits of `n` to `width` places, one piece each. -/
def zeros (width n : Nat) : List String :=
  List.replicate (width - (Nat.toDigits 16 n).length) "0"

/-- `n` in `width` places at least. -/
def padded (width n : Nat) : String := String.join (zeros width n) ++ digits n

/-- Two digits for each byte, nothing between them. -/
def bytes (data : Array Byte) : String :=
  data.foldl (fun text b => text ++ padded 2 b.toNat) ""

end Hex
end AudioBringup
