import Mathlib.Algebra.Order.Field.Rat
import Mathlib.Tactic.Linarith
import AudioBringup.Proofs.BufferSplit
import AudioBringup.Proofs.WordArithmetic
/-!
# Proofs.Partition — a buffer in pieces of nearly one length

Where a shape is admitted, the boundaries of the pieces stand at least one alignment step apart (`boundary_step`) and less
than one below an even share (`boundary_mul_le`, `lt_boundary_mul`).  So the pieces lie end to end, none of them is short,
and all of them are of nearly one length (`Partition`).  No number on the way to them leaves the word it is computed in
(`splitInWords_eq`).
-/
namespace AudioBringup
namespace BufferList

open Word

variable {address : BitVec 64} {length parts i k : Nat}

/-! ### Boundaries that are far enough apart -/

/-- An even share begins at least one alignment step after the one before it. -/
theorem share_step (hleast : minLength parts ≤ length) (hparts : parts ≠ 0) :
    length * i / parts + alignment ≤ length * (i + 1) / parts := by
  rw [← Nat.add_mul_div_left _ _ (Nat.pos_of_ne_zero hparts)]
  apply Nat.div_le_div_right
  rw [Nat.mul_succ]
  exact Nat.add_le_add_left hleast _

/-- **No piece is short**: where there is room for it, each boundary is at least one alignment step after the last. -/
theorem boundary_step (hi : i < parts) (hleast : minLength parts ≤ length) :
    boundary length parts i + alignment ≤ boundary length parts (i + 1) := by
  have hparts : parts ≠ 0 := Nat.ne_of_gt (Nat.zero_lt_of_lt hi)
  have hstep := share_step (i := i) hleast hparts
  rw [boundary_of_lt hi]
  rcases Nat.lt_or_eq_of_le (Nat.succ_le_of_lt hi) with hlt | hlast
  · rw [boundary_of_lt hlt]
    generalize length * i / parts = a at hstep
    generalize length * (i + 1) / parts = b at hstep
    unfold alignment at hstep ⊢
    omega
  · rw [show i + 1 = parts from hlast, Nat.mul_div_cancel _ (Nat.pos_of_ne_zero hparts)] at hstep
    rw [show i + 1 = parts from hlast, boundary_last]
    exact Nat.le_trans (Nat.add_le_add_right (Nat.sub_le _ _) alignment) hstep

theorem boundary_mul_le (hi : i ≤ parts) : boundary length parts i * parts ≤ length * i := by
  rcases Nat.lt_or_eq_of_le hi with hlt | rfl
  · rw [boundary_of_lt hlt]
    exact Nat.le_trans (Nat.mul_le_mul_right parts (Nat.sub_le _ _)) (Nat.div_mul_le_self _ _)
  · rw [show boundary length i i = length from boundary_last]

theorem lt_boundary_mul (hi : i ≤ parts) (hparts : parts ≠ 0) :
    length * i < (boundary length parts i + alignment) * parts := by
  rcases Nat.lt_or_eq_of_le hi with hlt | rfl
  · have hshare : length * i < (length * i / parts + 1) * parts := by
      rw [Nat.mul_comm _ parts]
      exact Nat.lt_mul_div_succ _ (Nat.pos_of_ne_zero hparts)
    refine Nat.lt_of_lt_of_le hshare (Nat.mul_le_mul_right parts ?_)
    rw [boundary_of_lt hlt]
    generalize length * i / parts = a
    unfold alignment
    omega
  · rw [show boundary length i i = length from boundary_last]
    exact Nat.mul_lt_mul_of_pos_right (Nat.lt_add_of_pos_right (by decide)) (Nat.pos_of_ne_zero hparts)

/-- **All pieces are of nearly one length**: each is within one alignment step of an even share, which need not be a whole
number. -/
theorem extent_even (hi : i < parts) :
    |((boundary length parts (i + 1) - boundary length parts i : Nat) : ℚ) - length / parts| < alignment := by
  have hparts : parts ≠ 0 := Nat.ne_of_gt (Nat.zero_lt_of_lt hi)
  have hpos : (0 : ℚ) < parts := Nat.cast_pos.2 (Nat.pos_of_ne_zero hparts)
  have hclimbs : boundary length parts i ≤ boundary length parts (i + 1) := boundary_climbs hi
  have hstart : (boundary length parts i : ℚ) * parts ≤ length * i := by
    exact_mod_cast boundary_mul_le (Nat.le_of_lt hi)
  have hstart' : (length : ℚ) * i < (boundary length parts i + alignment) * parts := by
    exact_mod_cast lt_boundary_mul (Nat.le_of_lt hi) hparts
  have hstop : (boundary length parts (i + 1) : ℚ) * parts ≤ length * (i + 1) := by
    exact_mod_cast boundary_mul_le (Nat.succ_le_of_lt hi)
  have hstop' : (length : ℚ) * (i + 1) < (boundary length parts (i + 1) + alignment) * parts := by
    exact_mod_cast lt_boundary_mul (Nat.succ_le_of_lt hi) hparts
  rw [Nat.cast_sub hclimbs, abs_sub_lt_iff]
  constructor
  · rw [sub_lt_comm, lt_div_iff₀ hpos]
    linarith
  · rw [sub_lt_iff_lt_add, div_lt_iff₀ hpos]
    linarith

/-! ### The pieces -/

/-- The pieces lie end to end from `start` to `stop`. -/
inductive EndToEnd : Nat → List BufferPiece → Nat → Prop
  | nil {start : Nat} : EndToEnd start [] start
  | cons {start stop : Nat} {p : BufferPiece} {rest : List BufferPiece} (here : p.address.toNat = start)
    (further : EndToEnd (start + p.length.toNat) rest stop) : EndToEnd start (p :: rest) stop

theorem EndToEnd.sum {start stop : Nat} {pieces : List BufferPiece} (h : EndToEnd start pieces stop) :
    start + (pieces.map (·.length.toNat)).sum = stop := by
  induction h with
  | nil => rfl
  | cons _ _ ih => rw [List.map_cons, List.sum_cons, ← Nat.add_assoc, ih]

/-- The pieces make up a buffer of `length` bytes at `address`. -/
structure Partition (address : BitVec 64) (length parts : Nat) (pieces : List BufferPiece) : Prop where
  count : pieces.length = parts
  /-- the first starts with the buffer, each other where the one before it ends, and the last ends with the buffer -/
  endToEnd : EndToEnd address.toNat pieces (address.toNat + length)
  total : (pieces.map (·.length.toNat)).sum = length
  aligned : ∀ p ∈ pieces, ∃ n, p.address.toNat = address.toNat + 128 * n
  least : ∀ p ∈ pieces, 128 ≤ p.length.toNat
  /-- the quotient keeps its fraction: rounded down, it can be a whole 128 bytes less than the last piece -/
  even : ∀ p ∈ pieces, |(p.length.toNat : ℚ) - length / parts| < 128
  whole : ∀ p ∈ pieces.dropLast, 128 ∣ p.length.toNat

theorem endToEnd_pieces (hlength : length ≤ 0xffffffff) (hpos : 0 < length) (hfits : address.toNat + length ≤ 2 ^ 64) :
    ∀ {k i : Nat}, i + k = parts → EndToEnd (address.toNat + boundary length parts i)
      ((List.range' i k).map (piece address length parts)) (address.toNat + length)
  | 0, i, hlast => by
    rw [show i = parts from hlast, boundary_last]
    exact .nil
  | k + 1, i, hi => by
    have hlt : i < parts := by omega
    have hclimbs : boundary length parts i ≤ boundary length parts (i + 1) := boundary_climbs hlt
    have hstop : address.toNat + boundary length parts i + (piece address length parts i).length.toNat =
        address.toNat + boundary length parts (i + 1) := by
      rw [piece_length hlt hlength]
      omega
    refine .cons (piece_address hlt hpos hfits) ?_
    rw [hstop]
    exact endToEnd_pieces hlength hpos hfits (by omega)

theorem partition_split (hshape : checkShape length parts = .ok ()) (hfits : address.toNat + length ≤ 2 ^ 64) :
    Partition address length parts ((List.range parts).map (piece address length parts)) := by
  obtain ⟨hparts, hmost, hlength, hleast⟩ := checkShape_ok.1 hshape
  have hpos : 0 < length := Nat.lt_of_lt_of_le (Nat.mul_pos (Nat.pos_of_ne_zero hparts) (by decide)) hleast
  have hends : EndToEnd address.toNat ((List.range parts).map (piece address length parts)) (address.toNat + length) := by
    have hall := endToEnd_pieces hlength hpos hfits (Nat.zero_add parts)
    rwa [boundary_zero hparts, ← List.range_eq_range'] at hall
  have hmem : ∀ {p}, p ∈ (List.range parts).map (piece address length parts) →
      ∃ i < parts, piece address length parts i = p := by
    intro p hp
    obtain ⟨i, hi, rfl⟩ := List.mem_map.1 hp
    exact ⟨i, List.mem_range.1 hi, rfl⟩
  refine ⟨by rw [List.length_map, List.length_range], hends, ?_, ?_, ?_, ?_, ?_⟩
  · exact Nat.add_left_cancel hends.sum
  · intro p hp
    obtain ⟨i, hi, rfl⟩ := hmem hp
    rw [piece_address hi hpos hfits]
    obtain ⟨n, hn⟩ := Nat.dvd_of_mod_eq_zero (boundary_aligned hi)
    exact ⟨n, congrArg (address.toNat + ·) hn⟩
  · intro p hp
    obtain ⟨i, hi, rfl⟩ := hmem hp
    rw [piece_length hi hlength]
    have hstep := boundary_step hi hleast
    unfold alignment at hstep
    omega
  · intro p hp
    obtain ⟨i, hi, rfl⟩ := hmem hp
    rw [piece_length hi hlength]
    exact extent_even hi
  · intro p hp
    -- all pieces but the last
    obtain ⟨n, rfl⟩ := Nat.exists_eq_succ_of_ne_zero hparts
    rw [List.range_succ, List.map_append, List.map_singleton, List.dropLast_concat] at hp
    obtain ⟨i, hi, rfl⟩ := List.mem_map.1 hp
    have hi : i < n := List.mem_range.1 hi
    rw [piece_length (by omega) hlength]
    exact Nat.dvd_sub (Nat.dvd_of_mod_eq_zero (boundary_aligned (by omega)))
      (Nat.dvd_of_mod_eq_zero (boundary_aligned (by omega)))

theorem split_bad (hshape : parts = 0 ∨ maxPieces < parts ∨ 0xffffffff < length) :
    split address length parts = .error (.badWaveform length) := by
  unfold split checkShape
  rw [if_pos hshape]
  rfl

theorem split_short (hshape : ¬(parts = 0 ∨ maxPieces < parts ∨ 0xffffffff < length)) (hshort : length < minLength parts) :
    split address length parts = .error (.waveformTooShort length (minLength parts)) := by
  unfold split checkShape
  rw [if_neg hshape, if_pos hshort]
  rfl

/-! ### In words -/

/-- The boundary, each number of it held against a word of 64 bits. -/
def boundaryInWords (length parts i : Nat) : Option Nat :=
  if i = parts then some length
  else do
    let share ← quotient (← inWord 64 (length * i)) parts
    difference share (share % alignment)

/-- The piece, each number of it held against its word. -/
def pieceInWords (address : BitVec 64) (length parts i : Nat) : Option BufferPiece := do
  let start ← boundaryInWords length parts i
  let stop ← boundaryInWords length parts (← inWord 64 (i + 1))
  let place ← inWord 64 (address.toNat + start)
  let extent ← inWord 32 (← difference stop start)
  return { address := BitVec.ofNat 64 place, length := BitVec.ofNat 32 extent, interruptOnCompletion := false }

/-- The pieces, or the reason why there are none, each number held against its word: nothing where one of them leaves it. -/
def splitInWords (address : BitVec 64) (length parts : Nat) : Option (Except Error (List BufferPiece)) :=
  if parts = 0 ∨ maxPieces < parts ∨ 0xffffffff < length then some (.error (.badWaveform length))
  else do
    let least ← inWord 64 (parts * alignment)
    if length < least then return .error (.waveformTooShort length least)
    return .ok (← (List.range parts).mapM (pieceInWords address length parts))

theorem boundaryInWords_eq (hi : i ≤ parts) (hmost : parts ≤ maxPieces) (hlength : length ≤ 0xffffffff) :
    boundaryInWords length parts i = some (boundary length parts i) := by
  unfold boundaryInWords boundary
  by_cases hlast : i = parts
  · rw [if_pos hlast, if_pos hlast]
  · have hroom : length * i < 2 ^ 64 :=
      Nat.lt_of_le_of_lt (Nat.mul_le_mul hlength (Nat.le_trans hi hmost)) (by decide)
    rw [if_neg hlast, if_neg hlast, inWord_of_lt hroom]
    exact (congrArg (· >>= _) (quotient_of_ne (by omega))).trans (difference_of_le (Nat.mod_le _ _))

theorem pieceInWords_eq (hi : i < parts) (hmost : parts ≤ maxPieces) (hlength : length ≤ 0xffffffff) (hpos : 0 < length)
    (hfits : address.toNat + length ≤ 2 ^ 64) :
    pieceInWords address length parts i = some (piece address length parts i) := by
  have hstart : boundary length parts i < length := boundary_lt hi hpos
  have hstop : boundary length parts (i + 1) ≤ length := boundary_le hi
  have hword : i + 1 < 2 ^ 64 := Nat.lt_of_le_of_lt (Nat.le_trans hi hmost) (by decide)
  have hplace : address.toNat + boundary length parts i < 2 ^ 64 := by omega
  have hextent : boundary length parts (i + 1) - boundary length parts i < 2 ^ 32 := by omega
  unfold pieceInWords
  rw [boundaryInWords_eq (Nat.le_of_lt hi) hmost hlength, inWord_of_lt hword]
  simp only [Option.bind_eq_bind, Option.bind_some]
  rw [boundaryInWords_eq hi hmost hlength]
  simp only [Option.bind_some]
  rw [inWord_of_lt hplace, difference_of_le (boundary_climbs hi)]
  simp only [Option.bind_some]
  rw [inWord_of_lt hextent]
  simp only [Option.bind_some, piece, BitVec.ofNat_add, BitVec.ofNat_toNat, BitVec.setWidth_eq]
  rfl

/-- **Nothing overflows on the way**: wherever the buffer itself ends within the address space. -/
theorem splitInWords_eq (hfits : address.toNat + length ≤ 2 ^ 64) :
    splitInWords address length parts = some (split address length parts) := by
  unfold splitInWords
  by_cases hshape : parts = 0 ∨ maxPieces < parts ∨ 0xffffffff < length
  · rw [if_pos hshape, split_bad hshape]
  have hmost : parts ≤ maxPieces := by omega
  have hword : parts * alignment < 2 ^ 64 := Nat.lt_of_le_of_lt (Nat.mul_le_mul_right alignment hmost) (by decide)
  rw [if_neg hshape, inWord_of_lt hword]
  simp only [Option.bind_eq_bind, Option.bind_some]
  change (if length < minLength parts then _ else _) = _
  by_cases hshort : length < minLength parts
  · rw [if_pos hshort, split_short hshape hshort]
    rfl
  · have hpos : 0 < length :=
      Nat.lt_of_lt_of_le (Nat.mul_pos (Nat.pos_of_ne_zero (by omega)) (by decide)) (Nat.le_of_not_lt hshort)
    rw [if_neg hshort, split_of_ok address (checkShape_ok.2 (by omega)),
      mapM_eq_some fun i hi => pieceInWords_eq (List.mem_range.1 hi) hmost (by omega) hpos hfits]
    rfl

/-! ### The whole -/

/-- **A buffer is cut in pieces of nearly one length, or refused for its shape**: there are no other outcomes, and none of
the numbers on the way to one overflows. -/
theorem split_partitions (address : BitVec 64) (length parts : Nat) (hfits : address.toNat + length ≤ 2 ^ 64) :
    (split address length parts = .error (.badWaveform length) ↔ parts = 0 ∨ 256 < parts ∨ 2 ^ 32 - 1 < length) ∧
    (¬(parts = 0 ∨ 256 < parts ∨ 2 ^ 32 - 1 < length) →
      (split address length parts = .error (.waveformTooShort length (128 * parts)) ↔ length < 128 * parts) ∧
      (128 * parts ≤ length → ∃ pieces, split address length parts = .ok pieces ∧ Partition address length parts pieces)) ∧
    splitInWords address length parts = some (split address length parts) := by
  have hleast : minLength parts = 128 * parts := Nat.mul_comm parts alignment
  rw [← hleast]
  by_cases hshape : parts = 0 ∨ 256 < parts ∨ 2 ^ 32 - 1 < length
  · exact ⟨iff_of_true (split_bad hshape) hshape, absurd hshape, splitInWords_eq hfits⟩
  by_cases hshort : length < minLength parts
  · have hsplit : split address length parts = .error (.waveformTooShort length (minLength parts)) :=
      split_short hshape hshort
    refine ⟨iff_of_false ?_ hshape, fun _ => ⟨iff_of_true hsplit hshort, fun hlong => ?_⟩, splitInWords_eq hfits⟩
    · rw [hsplit]
      exact nofun
    · exact absurd hshort (Nat.not_lt.2 hlong)
  · have hok : checkShape length parts = .ok () := checkShape_ok.2 (by unfold maxPieces; omega)
    have hsplit : split address length parts = .ok _ := split_of_ok address hok
    refine ⟨iff_of_false ?_ hshape, fun _ => ⟨iff_of_false ?_ hshort, fun _ => ?_⟩, splitInWords_eq hfits⟩
    · rw [hsplit]
      exact nofun
    · rw [hsplit]
      exact nofun
    · exact ⟨_, hsplit, partition_split hok hfits⟩

/-- The pieces of 575 bytes in three: the last is longer than a third by more than 127 bytes. -/
theorem split_partitions_three : (0x100080#64).toNat + 575 ≤ 2 ^ 64 ∧
    split 0x100080 575 3 = .ok [⟨0x100080, 128, false⟩, ⟨0x100100, 128, false⟩, ⟨0x100180, 319, false⟩] ∧
    ∃ pieces, split 0x100080 575 3 = .ok pieces ∧ Partition 0x100080 575 3 pieces :=
  ⟨by decide, by decide, ((split_partitions 0x100080 575 3 (by decide)).2.1 (by decide)).2 (by decide)⟩

end BufferList
end AudioBringup
