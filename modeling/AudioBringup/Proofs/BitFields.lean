import AudioBringup.Bits
/-!
# Proofs.BitFields — the checked and the total access to a field agree

A field that lies in its word is read by `readBits` and written by `writeBits` without misuse, and what comes of it is what
`field` and `withField` make of it (`readBits_eq_field`, `writeBits_eq_withField`).  Each word is known by its bits
(`getLsbD_withField`, `getLsbD_withBit_false`), and two fields beside each other are one (`withField_withField`).
-/
namespace AudioBringup
namespace Bits

variable {w len len' start stop i : Nat}

/-! ### One bit -/

theorem getLsbD_withBit_false (n : BitVec w) (i j : Nat) :
    (withBit n i false).getLsbD j = (!decide (j = i) && n.getLsbD j) := by
  simp only [withBit, Bool.false_eq_true, if_false, BitVec.getLsbD_and, BitVec.getLsbD_not, BitVec.getLsbD_twoPow]
  by_cases hj : j < w
  · by_cases hij : i = j
    · simp [hij, hj]
    · simp [hij, hj, Ne.symm hij]
  · simp [BitVec.getLsbD_of_ge n j (Nat.le_of_not_lt hj)]

theorem getLsbD_withBit_of_ne (n : BitVec w) (set : Bool) {j : Nat} (h : j ≠ i) :
    (withBit n i set).getLsbD j = n.getLsbD j := by
  cases set with
  | false => rw [getLsbD_withBit_false, decide_eq_false h, Bool.not_false, Bool.true_and]
  | true => rw [withBit, if_pos rfl, BitVec.getLsbD_or, BitVec.getLsbD_twoPow, decide_eq_false h.symm, Bool.and_false,
      Bool.or_false]

theorem withBit_false_of_clear {n : BitVec w} (h : n.getLsbD i = false) : withBit n i false = n := by
  apply BitVec.eq_of_getLsbD_eq
  intro j _
  rw [getLsbD_withBit_false]
  by_cases hji : j = i
  · simp [hji, h]
  · simp [hji]

/-- A bit of the word is cleared wherever it was found set. -/
theorem clear_if_set (n : BitVec w) (hi : i < w) : (do
    if ← readBit n i then writeBit n i false else Except.ok n) = Except.ok (withBit n i false) := by
  rw [readBit, if_pos hi]
  cases h : n.getLsbD i with
  | true => exact if_pos hi
  | false => exact congrArg Except.ok (withBit_false_of_clear h).symm

/-! ### The bits of a field -/

theorem getLsbD_lowMask (h : len ≤ w) (i : Nat) : (lowMask w len).getLsbD i = decide (i < len) := by
  rw [lowMask, BitVec.getLsbD_ushiftRight, BitVec.getLsbD_allOnes, decide_eq_decide]
  omega

theorem lowMask_eq (h : len ≤ w) : lowMask w len = (BitVec.allOnes len).setWidth w := by
  apply BitVec.eq_of_getLsbD_eq
  intro i hi
  rw [getLsbD_lowMask h, BitVec.getLsbD_setWidth, BitVec.getLsbD_allOnes]
  simp [hi]

/-- Masking the low bits is cutting to them. -/
theorem setWidth_and_lowMask (h : len ≤ w) (n : BitVec w) (w' : Nat) :
    (n &&& lowMask w len).setWidth w' = (n.setWidth len).setWidth w' := by
  apply BitVec.eq_of_getLsbD_eq
  intro i hi
  rw [BitVec.getLsbD_setWidth, BitVec.getLsbD_and, getLsbD_lowMask h, BitVec.getLsbD_setWidth, BitVec.getLsbD_setWidth,
    Bool.and_comm (n.getLsbD i)]

/-- Cutting a word to its low bits leaves what is over after dividing. -/
theorem setWidth_setWidth_eq_umod (h : len < w) (n : BitVec w) : (n.setWidth len).setWidth w = n % BitVec.twoPow w len := by
  have hpow : 2 ^ len < 2 ^ w := Nat.pow_lt_pow_right (by decide) h
  apply BitVec.eq_of_toNat_eq
  rw [BitVec.toNat_setWidth, BitVec.toNat_setWidth, BitVec.toNat_umod, BitVec.toNat_twoPow, Nat.mod_eq_of_lt hpow]
  exact Nat.mod_eq_of_lt (Nat.lt_trans (Nat.mod_lt _ (Nat.two_pow_pos len)) hpow)

theorem getLsbD_withField (h : start + len ≤ w) (n : BitVec w) (v : BitVec len) (i : Nat) :
    (withField n start v).getLsbD i =
      if start ≤ i ∧ i < start + len then v.getLsbD (i - start) else n.getLsbD i := by
  simp only [withField, BitVec.getLsbD_or, BitVec.getLsbD_and, BitVec.getLsbD_not, BitVec.getLsbD_shiftLeft,
    BitVec.getLsbD_setWidth, BitVec.getLsbD_allOnes]
  by_cases hin : start ≤ i ∧ i < start + len
  · rw [if_pos hin]
    simp [show i < w by omega, show ¬i < start by omega, show i - start < w by omega, show i - start < len by omega]
  rw [if_neg hin]
  by_cases hi : i < w
  · by_cases hbelow : i < start
    · simp [hi, hbelow]
    · simp [hi, hbelow, show ¬i - start < len by omega, BitVec.getLsbD_of_ge v (i - start) (by omega)]
  · simp [hi, BitVec.getLsbD_of_ge n i (Nat.le_of_not_lt hi)]

/-- A field and the one below it are one field. -/
theorem withField_withField (h : start + (len' + len) ≤ w) (n : BitVec w) (high : BitVec len') (low : BitVec len) :
    withField (withField n (start + len) high) start low = withField n start (high ++ low) := by
  apply BitVec.eq_of_getLsbD_eq
  intro i _
  rw [getLsbD_withField (by omega), getLsbD_withField (by omega), getLsbD_withField (by omega), BitVec.getLsbD_append]
  by_cases hlow : start ≤ i ∧ i < start + len
  · rw [if_pos hlow, if_pos (by omega), if_pos (by omega)]
  rw [if_neg hlow]
  by_cases hhigh : start + len ≤ i ∧ i < start + len + len'
  · rw [if_pos hhigh, if_pos (by omega), if_neg (by omega), Nat.sub_sub]
  · rw [if_neg hhigh, if_neg (by omega)]

/-! ### Checked access -/

theorem fits_field (hlen : 0 < len) (hstop : start + len = stop) (h : stop ≤ w) :
    Range.Fits ⟨.included start, .excluded stop⟩ w := ⟨show start < stop by omega, h⟩

theorem size_field (hstop : start + len = stop) : Range.size ⟨.included start, .excluded stop⟩ w = len :=
  show stop - start = len by omega

/-- **A field that lies in its word is written** as its layout says, with any value that is no wider than it. -/
theorem writeBits_eq_withField (hlen : 0 < len) (hstop : start + len = stop) (h : stop ≤ w) (n : BitVec w)
    (v : BitVec len) : writeBits n ⟨.included start, .excluded stop⟩ (v.setWidth w) = .ok (withField n start v) := by
  have hroom : v.setWidth w &&& ~~~(BitVec.allOnes len).setWidth w = 0#w := by
    apply BitVec.eq_of_getLsbD_eq
    intro i hi
    rw [BitVec.getLsbD_and, BitVec.getLsbD_not, BitVec.getLsbD_setWidth, BitVec.getLsbD_setWidth, BitVec.getLsbD_allOnes]
    by_cases hv : i < len
    · simp [hi, hv]
    · simp [BitVec.getLsbD_of_ge v i (Nat.le_of_not_lt hv)]
  simp only [writeBits, if_pos (fits_field hlen hstop h), size_field hstop, lowMask_eq (show len ≤ w by omega), if_pos hroom,
    withField, Range.start]

/-- **A field that lies in its word is read** as its layout says. -/
theorem readBits_eq_field (hlen : 0 < len) (hstop : start + len = stop) (h : stop ≤ w) (n : BitVec w) :
    readBits n ⟨.included start, .excluded stop⟩ = .ok ((field n start len).setWidth w) := by
  have hfield : n >>> start &&& lowMask w len = (field n start len).setWidth w := by
    apply BitVec.eq_of_getLsbD_eq
    intro i hi
    rw [BitVec.getLsbD_and, getLsbD_lowMask (by omega), BitVec.getLsbD_ushiftRight, BitVec.getLsbD_setWidth, field,
      BitVec.getLsbD_extractLsb', Bool.and_comm]
    simp [hi]
  simp only [readBits, if_pos (fits_field hlen hstop h), size_field hstop, Range.start, hfield]

end Bits
end AudioBringup
