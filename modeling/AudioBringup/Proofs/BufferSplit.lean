import Mathlib.Algebra.Ring.Nat
import AudioBringup.Playback.BufferList
/-!
# Proofs.BufferSplit — pieces that add up to the whole

The boundaries of the pieces climb from 0 to the length of the buffer, so whatever is laid out piece by piece is laid out
from the start of the buffer to its end (`flatMap_boundaries`).
-/
namespace AudioBringup
namespace BufferList

variable {length parts i k : Nat}

theorem checkShape_ok : checkShape length parts = .ok () ↔
    parts ≠ 0 ∧ parts ≤ maxPieces ∧ length ≤ 0xffffffff ∧ minLength parts ≤ length := by
  unfold checkShape
  by_cases hshape : parts = 0 ∨ maxPieces < parts ∨ 0xffffffff < length
  · rw [if_pos hshape]
    constructor
    · exact nofun
    · omega
  · rw [if_neg hshape]
    by_cases hshort : length < minLength parts
    · rw [if_pos hshort]
      constructor
      · exact nofun
      · omega
    · rw [if_neg hshort]
      constructor
      · intro _
        omega
      · exact fun _ => rfl

/-- A shape that is admitted has pieces, wherever the buffer lies. -/
theorem split_of_ok (address : BitVec 64) (h : checkShape length parts = .ok ()) :
    split address length parts = .ok ((List.range parts).map (piece address length parts)) := by
  unfold split
  rw [h]
  rfl

/-! ### Boundaries -/

theorem boundary_zero (hparts : parts ≠ 0) : boundary length parts 0 = 0 := by
  unfold boundary
  rw [if_neg hparts.symm, Nat.mul_zero, Nat.zero_div]
  rfl

theorem boundary_last : boundary length parts parts = length := if_pos rfl

theorem boundary_of_lt (hi : i < parts) :
    boundary length parts i = length * i / parts - length * i / parts % alignment := by
  unfold boundary
  rw [if_neg (Nat.ne_of_lt hi)]

theorem boundary_aligned (hi : i < parts) : boundary length parts i % alignment = 0 := by
  rw [boundary_of_lt hi]
  exact Nat.sub_mod_eq_zero_of_mod_eq (Nat.mod_mod _ _).symm

theorem share_le (hi : i ≤ parts) : length * i / parts ≤ length :=
  Nat.div_le_of_le_mul (by rw [Nat.mul_comm parts]; exact Nat.mul_le_mul_left length hi)

theorem boundary_le (hi : i ≤ parts) : boundary length parts i ≤ length := by
  rcases Nat.lt_or_eq_of_le hi with hlt | rfl
  · rw [boundary_of_lt hlt]
    exact Nat.le_trans (Nat.sub_le _ _) (share_le hi)
  · exact Nat.le_of_eq boundary_last

theorem boundary_lt (hi : i < parts) (hlength : 0 < length) : boundary length parts i < length := by
  have hshare : length * i / parts < length :=
    Nat.div_lt_of_lt_mul (by rw [Nat.mul_comm parts]; exact Nat.mul_lt_mul_of_pos_left hi hlength)
  rw [boundary_of_lt hi]
  exact Nat.lt_of_le_of_lt (Nat.sub_le _ _) hshare

/-- A piece does not end before it starts. -/
theorem boundary_climbs (hi : i < parts) : boundary length parts i ≤ boundary length parts (i + 1) := by
  rcases Nat.lt_or_eq_of_le (Nat.succ_le_of_lt hi) with hlt | rfl
  · have hshare : length * i / parts ≤ length * (i + 1) / parts :=
      Nat.div_le_div_right (Nat.mul_le_mul_left length (Nat.le_succ i))
    rw [boundary_of_lt hi, boundary_of_lt hlt]
    generalize length * i / parts = a at hshare
    generalize length * (i + 1) / parts = b at hshare
    have ha := Nat.div_add_mod a alignment
    have hb := Nat.div_add_mod b alignment
    have hdiv : alignment * (a / alignment) ≤ alignment * (b / alignment) :=
      Nat.mul_le_mul_left _ (Nat.div_le_div_right hshare)
    omega
  · rw [show boundary length (i + 1) (i + 1) = length from boundary_last]
    exact boundary_le (Nat.le_succ i)

/-- What is laid out between each boundary and the next is laid out from the start on. -/
theorem flatMap_boundaries {α : Type} (f : Nat → α) (hparts : parts ≠ 0) : ∀ {k}, k ≤ parts →
    (List.range k).flatMap (fun i =>
      (List.range (boundary length parts (i + 1) - boundary length parts i)).map fun j => f (boundary length parts i + j)) =
    (List.range (boundary length parts k)).map f
  | 0, _ => by rw [boundary_zero hparts]; rfl
  | k + 1, hk => by
    have hclimbs : boundary length parts k ≤ boundary length parts (k + 1) := boundary_climbs hk
    have hlast : boundary length parts (k + 1) =
        boundary length parts k + (boundary length parts (k + 1) - boundary length parts k) := by omega
    rw [List.range_succ, List.flatMap_append, flatMap_boundaries f hparts (Nat.le_of_succ_le hk), hlast, List.range_add,
      List.map_append, List.map_map]
    simp only [List.flatMap_cons, List.flatMap_nil, List.append_nil]
    rfl

/-- The lengths of the pieces add up to the length of the buffer. -/
theorem sum_boundaries (hparts : parts ≠ 0) :
    ((List.range parts).map fun i => boundary length parts (i + 1) - boundary length parts i).sum = length := by
  have hlaid := congrArg List.length (flatMap_boundaries (fun k => k) hparts (Nat.le_refl parts) : _ =
    (List.range (boundary length parts parts)).map fun k => k)
  simpa only [List.length_flatMap, List.length_map, List.length_range, boundary_last] using hlaid

/-! ### Pieces -/

theorem piece_length (hi : i < parts) (hlength : length ≤ 0xffffffff) (address : BitVec 64) :
    (piece address length parts i).length.toNat = boundary length parts (i + 1) - boundary length parts i := by
  have hle : boundary length parts (i + 1) ≤ length := boundary_le hi
  simp only [piece, BitVec.toNat_ofNat]
  omega

theorem piece_address (hi : i < parts) (hlength : 0 < length) {address : BitVec 64}
    (hfits : address.toNat + length ≤ 2 ^ 64) :
    (piece address length parts i).address.toNat = address.toNat + boundary length parts i := by
  have hlt : boundary length parts i < length := boundary_lt hi hlength
  simp only [piece, BitVec.toNat_add, BitVec.toNat_ofNat]
  omega

end BufferList
end AudioBringup
