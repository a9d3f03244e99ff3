import Mathlib.Algebra.Order.Ring.Int
import Mathlib.Tactic.Linarith
import AudioBringup.Playback.Tone
import AudioBringup.Proofs.WordArithmetic
/-!
# Proofs.Sine — two half waves that mirror each other

The two parts a half wave is cut into make a product of at most a quarter of its square, so no step of the wave stands
higher than the amplitude (`natAbs_wave_le`), and no number on the way to it leaves its word (`waveInWords_eq`).  The second
half wave is the first one turned over.  Brought into a sample it still is, but for the peak of the lowest amplitude there
is, for which a sample has no counterpart above zero (`sine_symmetric`).
-/
namespace AudioBringup
namespace Tone

open Word

variable {x half phase period : Nat} {a : Int} {amplitude : BitVec 16}

/-! ### One half wave -/

/-- The product of the two parts a half wave is cut into. -/
def parts (x half : Nat) : Nat := x * (half - x)

theorem four_mul_parts_le (x half : Nat) : 4 * parts x half ≤ half * half := by
  rcases Nat.le_total x half with hx | hx
  · obtain ⟨y, rfl⟩ := Nat.exists_eq_add_of_le hx
    rw [parts, Nat.add_sub_cancel_left, ← Nat.mul_assoc, ← Nat.pow_two]
    exact four_mul_le_sq_add x y
  · rw [parts, Nat.sub_eq_zero_of_le hx]
    exact Nat.zero_le _

theorem parts_mirrored (hx : x ≤ half) : parts (half - x) half = parts x half := by
  rw [parts, parts, Nat.sub_sub_self hx, Nat.mul_comm]

/-- The product is a quarter of the square only where the parts are equal. -/
theorem sq_le_four_mul_parts (hx : x ≤ half) : half * half ≤ 4 * parts x half ↔ half = 2 * x := by
  obtain ⟨y, rfl⟩ := Nat.exists_eq_add_of_le hx
  rw [parts, Nat.add_sub_cancel_left]
  constructor
  · intro h
    have hsquare : ((x : ℤ) - y) ^ 2 ≤ 0 := by
      have h : ((x : ℤ) + y) * (x + y) ≤ 4 * (x * y) := by exact_mod_cast h
      linarith
    have hequal := (pow_eq_zero_iff two_ne_zero).1 (le_antisymm hsquare (sq_nonneg _))
    omega
  · intro h
    obtain rfl : y = x := by omega
    linarith

theorem arch_eq : arch x half a =
    a.sign * (16 * parts x half * a.natAbs / (5 * half * half - 4 * parts x half) : Nat) := rfl

theorem natAbs_arch : (arch x half a).natAbs = 16 * parts x half * a.natAbs / (5 * half * half - 4 * parts x half) := by
  rw [arch_eq, Int.natAbs_mul, Int.natAbs_natCast]
  rcases eq_or_ne a 0 with rfl | ha
  · simp
  · rw [Int.natAbs_sign_of_ne_zero ha, Nat.one_mul]

/-- **No step of a half wave stands higher than the amplitude.** -/
theorem natAbs_arch_le : (arch x half a).natAbs ≤ a.natAbs := by
  rw [natAbs_arch]
  refine Nat.div_le_of_le_mul (Nat.mul_le_mul_right _ ?_)
  have hparts := four_mul_parts_le x half
  rw [Nat.mul_assoc]
  omega

/-- The wave is as high as the amplitude in the middle of a half wave only. -/
theorem natAbs_arch_eq_iff (ha : a ≠ 0) (hhalf : 0 < half) (hx : x ≤ half) :
    (arch x half a).natAbs = a.natAbs ↔ half = 2 * x := by
  have hparts := four_mul_parts_le x half
  have hsquare : 0 < half * half := Nat.mul_pos hhalf hhalf
  have hbelow : 0 < 5 * half * half - 4 * parts x half := by
    rw [Nat.mul_assoc]
    omega
  rw [← sq_le_four_mul_parts hx, Nat.le_antisymm_iff, and_iff_right natAbs_arch_le, natAbs_arch,
    Nat.le_div_iff_mul_le hbelow, Nat.mul_comm a.natAbs, Nat.mul_le_mul_right_iff (Int.natAbs_pos.2 ha), Nat.mul_assoc]
  omega

/-- A half wave is on the side of the amplitude. -/
theorem mul_arch_nonneg : 0 ≤ a * arch x half a := by
  rw [arch_eq, ← Int.mul_assoc, Int.mul_sign_self]
  exact Int.mul_nonneg (Int.natCast_nonneg _) (Int.natCast_nonneg _)

theorem arch_mirrored (hx : x ≤ half) : arch (half - x) half a = arch x half a := by
  rw [arch_eq, arch_eq, parts_mirrored hx]

theorem arch_natAbs : arch x half a = a.sign * (arch x half a).natAbs := by
  rw [natAbs_arch, arch_eq]

/-! ### The whole wave -/

theorem wave_mod : wave (phase % period) period a = wave phase period a := by
  unfold wave
  rw [Nat.mod_mod]

/-- The first half wave. -/
theorem wave_of_lt (hphase : phase < period / 2) : wave phase period a = arch phase (period / 2) a := by
  have hperiod : max (period / 2) 1 = period / 2 := by omega
  unfold wave
  rw [hperiod, Nat.mod_eq_of_lt (by omega)]
  simp only
  rw [if_pos hphase, Nat.min_eq_left (Nat.le_of_lt hphase)]

/-- The second half wave, where an odd period has a step more than in the first. -/
theorem wave_add (hperiod : 2 ≤ period) (hphase : period / 2 + x < period) :
    wave (period / 2 + x) period a = -arch (min x (period / 2)) (period / 2) a := by
  have hmax : max (period / 2) 1 = period / 2 := by omega
  unfold wave
  rw [hmax, Nat.mod_eq_of_lt hphase]
  simp only
  rw [if_neg (by omega), Nat.add_sub_cancel_left]

/-- Every phase is in one of the two half waves. -/
theorem wave_cases (hperiod : 2 ≤ period) (phase : Nat) :
    phase % period < period / 2 ∧ wave phase period a = arch (phase % period) (period / 2) a ∨
      ∃ x, phase % period = period / 2 + x ∧ wave phase period a = -arch (min x (period / 2)) (period / 2) a := by
  rw [← wave_mod]
  rcases Nat.lt_or_ge (phase % period) (period / 2) with hfirst | hsecond
  · exact .inl ⟨hfirst, wave_of_lt hfirst⟩
  · obtain ⟨x, hx⟩ := Nat.exists_eq_add_of_le hsecond
    refine .inr ⟨x, hx, ?_⟩
    rw [hx]
    exact wave_add hperiod (hx ▸ Nat.mod_lt _ (by omega))

/-- **No step of a wave stands higher or lower than the amplitude.** -/
theorem natAbs_wave_le : (wave phase period a).natAbs ≤ a.natAbs := by
  unfold wave
  simp only
  split
  · exact natAbs_arch_le
  · rw [Int.natAbs_neg]
    exact natAbs_arch_le

/-- What the wave of an amplitude is like, as `f` has it step by step. -/
structure Symmetric (period : Nat) (a : Int) (f : Nat → Int) : Prop where
  /-- the second half wave is the first one turned over -/
  turned : ∀ x < period / 2, f (period / 2 + x) = -f x
  /-- each half wave is the same from its end -/
  mirrored : ∀ x, 0 < x → x < period / 2 → f (period / 2 - x) = f x
  periodic : ∀ x k, f (x + k * period) = f x
  /-- the first half wave is on the side of the amplitude, and the second on the other -/
  upright : ∀ x < period / 2, 0 ≤ a * f x
  hanging : ∀ x, period / 2 + x < period → a * f (period / 2 + x) ≤ 0

theorem wave_symmetric (hperiod : 2 ≤ period) : Symmetric period a (wave · period a) where
  turned x hx := by
    rw [wave_add hperiod (by omega), Nat.min_eq_left (Nat.le_of_lt hx), wave_of_lt hx]
  mirrored x hpos hx := by
    rw [wave_of_lt (by omega), wave_of_lt hx, arch_mirrored (Nat.le_of_lt hx)]
  periodic x k := by rw [← wave_mod, Nat.add_mul_mod_self_right, wave_mod]
  upright x hx := by
    rw [wave_of_lt hx]
    exact mul_arch_nonneg
  hanging x hx := by
    rw [wave_add hperiod hx, Int.mul_neg]
    exact Int.neg_nonpos_of_nonneg mul_arch_nonneg

/-! ### The wave in samples -/

theorem toInt_bounds (amplitude : BitVec 16) : -0x8000 ≤ amplitude.toInt ∧ amplitude.toInt < 0x8000 :=
  ⟨BitVec.le_toInt amplitude, BitVec.toInt_lt⟩

/-- A step that has a sample is that sample. -/
theorem toInt_sine (h : wave phase period amplitude.toInt ≠ 0x8000) :
    (sine phase period amplitude).toInt = wave phase period amplitude.toInt := by
  have hle : (wave phase period amplitude.toInt).natAbs ≤ amplitude.toInt.natAbs := natAbs_wave_le
  obtain ⟨hleast, hmost⟩ := toInt_bounds amplitude
  unfold sine
  rw [BitVec.toInt_ofInt]
  refine Int.bmod_eq_of_le ?_ ?_ <;> omega

/-- **The one step that has no sample**: the middle of the second half wave of the lowest amplitude. -/
theorem wave_eq_iff (hperiod : 2 ≤ period) : wave phase period amplitude.toInt = 0x8000 ↔
    amplitude.toInt = -0x8000 ∧ ∃ x, period / 2 = 2 * x ∧ phase % period = period / 2 + x := by
  obtain ⟨hleast, hmost⟩ := toInt_bounds amplitude
  constructor
  · intro h
    have hle : (wave phase period amplitude.toInt).natAbs ≤ amplitude.toInt.natAbs := natAbs_wave_le
    have ha : amplitude.toInt = -0x8000 := by omega
    refine ⟨ha, ?_⟩
    rw [ha] at h
    rcases wave_cases (a := -0x8000) hperiod phase with ⟨-, hfirst⟩ | ⟨x, hx, hsecond⟩
    · have hside : 0 ≤ -0x8000 * arch (phase % period) (period / 2) (-0x8000) := mul_arch_nonneg
      omega
    · have hpeak : (arch (min x (period / 2)) (period / 2) (-0x8000)).natAbs = (-0x8000 : Int).natAbs := by omega
      have hmiddle := (natAbs_arch_eq_iff (by decide) (by omega) (Nat.min_le_right _ _)).1 hpeak
      exact ⟨x, by omega, hx⟩
  · rintro ⟨ha, x, hhalf, hx⟩
    have hpeak := (natAbs_arch_eq_iff (a := -0x8000) (by decide) (by omega) (by omega : x ≤ period / 2)).2 hhalf
    have harch : arch x (period / 2) (-0x8000) = -0x8000 := by
      rw [arch_natAbs, hpeak]
      rfl
    rw [ha, ← wave_mod, hx, wave_add hperiod (hx ▸ Nat.mod_lt _ (by omega)), Nat.min_eq_left (by omega), harch]
    rfl

/-! ### In words -/

/-- How high the half wave of `half` steps stands at step `x`, each number on the way held against its word. -/
def archInWords (x half a : Int) : Option Int := do
  let product ← inSigned (x * (← inSigned (half - x)))
  let above ← inSigned ((← inSigned (16 * product)) * a)
  let below ← inSigned ((← inSigned ((← inSigned (5 * half)) * half)) - (← inSigned (4 * product)))
  signedQuotient above below

/-- The wave, each number on the way held against its word: nothing where one of them leaves it, or where it would be
divided by zero. -/
def waveInWords (phase period : Nat) (a : Int) : Option Int :=
  if period = 0 then none
  else do
    let half := asSigned (max (period / 2) 1)
    let phase := asSigned (phase % period)
    if phase < half then archInWords (min phase half) half a
    else
      let height ← archInWords (min (← inSigned (phase - half)) half) half a
      inSigned (-1 * height)

/-- The quotient is rounded toward zero. -/
theorem arch_eq_tdiv : arch x half a =
    (16 * (parts x half : Int) * a).tdiv ((5 * half * half - 4 * parts x half : Nat) : Int) := by
  rw [arch_eq]
  generalize 5 * half * half - 4 * parts x half = below
  generalize parts x half = product
  have hnat : ∀ n : Nat, (16 * (product : Int) * n).tdiv below = ((16 * product * n / below : Nat) : Int) := by
    intro n
    rw [Int.ofNat_tdiv]
    push_cast
    rfl
  obtain ⟨n, rfl | rfl⟩ := Int.eq_nat_or_neg a
  · rw [hnat, Int.natAbs_natCast]
    rcases Nat.eq_zero_or_pos n with rfl | hn
    · simp
    · rw [Int.sign_natCast_of_ne_zero (by omega), Int.one_mul]
  · rw [Int.mul_neg, Int.neg_tdiv, hnat, Int.natAbs_neg, Int.natAbs_natCast, Int.sign_neg]
    rcases Nat.eq_zero_or_pos n with rfl | hn
    · simp
    · rw [Int.sign_natCast_of_ne_zero (by omega), Int.neg_one_mul]

theorem cast_rest (hx : x ≤ half) : ((x : Int) * (half - x)) = parts x half := by
  rw [parts, Nat.cast_mul, Nat.cast_sub hx]

theorem cast_below : ((5 * half * half - 4 * parts x half : Nat) : Int) = 5 * half * half - 4 * parts x half := by
  have hparts := four_mul_parts_le x half
  rw [Nat.cast_sub (by rw [Nat.mul_assoc]; omega)]
  push_cast
  rfl

/-- What has a result in words has the one it has in whole numbers. -/
theorem archInWords_sound (hx : x ≤ half) {v : Int} (h : archInWords x half a = some v) : v = arch x half a := by
  simp only [archInWords, Option.bind_eq_bind, Option.bind_eq_some_iff, inSigned_eq_some] at h
  obtain ⟨_, ⟨rfl, -⟩, _, ⟨rfl, -⟩, _, ⟨rfl, -⟩, _, ⟨rfl, -⟩, _, ⟨rfl, -⟩, _, ⟨rfl, -⟩, _, ⟨rfl, -⟩, _, ⟨rfl, -⟩,
    hquotient⟩ := h
  rw [cast_rest hx, ← cast_below] at hquotient
  rw [arch_eq_tdiv]
  unfold signedQuotient at hquotient
  split at hquotient
  · cases hquotient
  · exact (inSigned_eq_some.1 hquotient).1

theorem half_of_archInWords {x half a v : Int} (h : archInWords x half a = some v) : 5 * half < 0x8000000000000000 := by
  simp only [archInWords, Option.bind_eq_bind, Option.bind_eq_some_iff, inSigned_eq_some] at h
  obtain ⟨-, -, -, -, -, -, -, -, -, ⟨-, -, hhalf⟩, -⟩ := h
  exact hhalf

/-- **A half wave of up to `2^23` steps stays in its words**, whatever the amplitude. -/
theorem archInWords_eq (hx : x ≤ half) (hpos : 0 < half) (hlow : half ≤ 0x800000) (ha : -0x8000 ≤ a ∧ a < 0x8000) :
    archInWords x half a = some (arch x half a) := by
  have hsquare : half * half ≤ 0x800000 * 0x800000 := Nat.mul_le_mul hlow hlow
  have hleast : 0 < half * half := Nat.mul_pos hpos hpos
  have hparts := four_mul_parts_le x half
  have hbelow : 0 < 5 * half * half - 4 * parts x half := by
    rw [Nat.mul_assoc]
    omega
  have hfive : ((5 : Int) * half * half) = ((5 * (half * half) : Nat) : Int) := by
    push_cast
    exact Int.mul_assoc 5 _ _
  have habove : -0x8000000000000000 ≤ 16 * (parts x half : Int) * a ∧
      16 * (parts x half : Int) * a < 0x8000000000000000 := by
    have hmost : (16 * parts x half : Int) ≤ 0x1000000000000 := by omega
    have hnonneg : (0 : Int) ≤ 16 * parts x half := by omega
    constructor <;> nlinarith
  have harch : (arch x half a).natAbs ≤ a.natAbs := natAbs_arch_le
  have hquotient : signedQuotient (16 * (parts x half : Int) * a) ((5 * half * half - 4 * parts x half : Nat) : Int) =
      some (arch x half a) := by
    unfold signedQuotient
    rw [if_neg (by omega), ← arch_eq_tdiv]
    exact inSigned_eq_some.2 ⟨rfl, by omega, by omega⟩
  simp only [archInWords, Option.bind_eq_bind, Option.bind_eq_some_iff, inSigned_eq_some]
  refine ⟨_, ⟨rfl, by omega, by omega⟩, parts x half, ⟨(cast_rest hx).symm, ?_⟩, _, ⟨rfl, by omega, by omega⟩, _,
    ⟨rfl, habove⟩, _, ⟨rfl, by omega, by omega⟩, _, ⟨rfl, ?_⟩, _, ⟨rfl, by omega, by omega⟩, _, ⟨rfl, ?_⟩, ?_⟩
  · rw [cast_rest hx]
    omega
  · rw [hfive]
    omega
  · rw [hfive]
    omega
  · rw [← cast_below]
    exact hquotient

/-- **Where the wave has a result in words, it has the one it has in whole numbers.** -/
theorem waveInWords_sound (hperiod : period < 0x10000000000000000) {v : Int} (h : waveInWords phase period a = some v) :
    v = wave phase period a := by
  unfold waveInWords at h
  split at h
  · cases h
  have hhalf : asSigned (max (period / 2) 1) = (max (period / 2) 1 : Nat) := asSigned_of_lt (by omega)
  have hphase : phase % period < period := Nat.mod_lt _ (by omega)
  rw [hhalf] at h
  -- a half wave that stays in its words is short, so that the phase is no negative number when it is read as a signed one
  have hlow : 5 * ((max (period / 2) 1 : Nat) : Int) < 0x8000000000000000 := by
    simp only at h
    split at h
    · exact half_of_archInWords h
    · simp only [Option.bind_eq_bind, Option.bind_eq_some_iff] at h
      obtain ⟨_, -, _, hsecond, -⟩ := h
      exact half_of_archInWords hsecond
  have hwrap : asSigned (phase % period) = (phase % period : Nat) := asSigned_of_lt (by omega)
  rw [hwrap] at h
  unfold wave
  generalize max (period / 2) 1 = half at h
  simp only [Nat.cast_lt] at h ⊢
  split at h
  · next hfirst =>
    rw [← Nat.cast_min] at h
    rw [if_pos hfirst]
    exact archInWords_sound (Nat.min_le_right _ _) h
  · next hsecond =>
    simp only [Option.bind_eq_bind, Option.bind_eq_some_iff, inSigned_eq_some] at h
    obtain ⟨_, ⟨rfl, -⟩, height, hheight, rfl, -⟩ := h
    rw [← Nat.cast_sub (by omega), ← Nat.cast_min] at hheight
    rw [if_neg hsecond, archInWords_sound (Nat.min_le_right _ _) hheight, Int.neg_one_mul]

/-- **A wave of up to `2^24` steps stays in its words**, whatever the amplitude. -/
theorem waveInWords_eq (hpos : 0 < period) (hlow : period ≤ 0x1000000) :
    waveInWords phase period amplitude.toInt = some (wave phase period amplitude.toInt) := by
  have hphase : phase % period < period := Nat.mod_lt _ hpos
  have hhalf : asSigned (max (period / 2) 1) = (max (period / 2) 1 : Nat) := asSigned_of_lt (by omega)
  have hwrap : asSigned (phase % period) = (phase % period : Nat) := asSigned_of_lt (by omega)
  have hshort : 0 < max (period / 2) 1 ∧ max (period / 2) 1 ≤ 0x800000 := by omega
  have ha := toInt_bounds amplitude
  unfold waveInWords wave
  rw [if_neg (by omega), hhalf, hwrap]
  generalize max (period / 2) 1 = half at hshort
  simp only [Nat.cast_lt]
  split
  · next hfirst =>
    rw [← Nat.cast_min]
    exact archInWords_eq (Nat.min_le_right _ _) hshort.1 hshort.2 ha
  · next hsecond =>
    have hheight := archInWords_eq (Nat.min_le_right (phase % period - half) half) hshort.1 hshort.2 ha
    have hle : (arch (min (phase % period - half) half) half amplitude.toInt).natAbs ≤ amplitude.toInt.natAbs :=
      natAbs_arch_le
    rw [Nat.cast_min, Nat.cast_sub (by omega)] at hheight
    simp only [Option.bind_eq_bind, Option.bind_eq_some_iff, inSigned_eq_some]
    refine ⟨_, ⟨rfl, by omega, by omega⟩, _, hheight, ?_, by omega, by omega⟩
    rw [Int.neg_one_mul]

/-! ### The samples -/

/-- The middle of the second half wave of the lowest amplitude. -/
def Unmatched (period : Nat) (amplitude : BitVec 16) (phase : Nat) : Prop :=
  amplitude.toInt = -0x8000 ∧ ∃ x, period / 2 = 2 * x ∧ phase % period = period / 2 + x

/-- **The half waves mirror each other**, and the samples are the wave as it is, but for one step: the peak that the lowest
amplitude has above zero, whose sample is the lowest one.  In words the wave has no other result than in whole numbers, and
up to `2^24` steps it has one. -/
theorem sine_symmetric (period : Nat) (amplitude : BitVec 16) (hperiod : 2 ≤ period) :
    Symmetric period amplitude.toInt (wave · period amplitude.toInt) ∧
    (∀ phase, (¬Unmatched period amplitude phase → (sine phase period amplitude).toInt = wave phase period amplitude.toInt) ∧
      (Unmatched period amplitude phase →
        wave phase period amplitude.toInt = 0x8000 ∧ (sine phase period amplitude).toInt = -0x8000)) ∧
    ((∀ phase, ¬Unmatched period amplitude phase) →
      Symmetric period amplitude.toInt fun phase => (sine phase period amplitude).toInt) ∧
    ∀ phase, (period < 0x10000000000000000 → ∀ v, waveInWords phase period amplitude.toInt = some v →
        v = wave phase period amplitude.toInt) ∧
      (period ≤ 0x1000000 → waveInWords phase period amplitude.toInt = some (wave phase period amplitude.toInt)) := by
  have hmatched : ∀ phase, ¬Unmatched period amplitude phase →
      (sine phase period amplitude).toInt = wave phase period amplitude.toInt :=
    fun phase h => toInt_sine fun hpeak => h ((wave_eq_iff hperiod).1 hpeak)
  refine ⟨wave_symmetric hperiod, fun phase => ⟨hmatched phase, fun h => ?_⟩, fun h => ?_, fun phase => ⟨?_, ?_⟩⟩
  · have hpeak := (wave_eq_iff hperiod).2 h
    refine ⟨hpeak, ?_⟩
    unfold sine
    rw [hpeak]
    decide
  · rw [funext fun phase => hmatched phase (h phase)]
    exact wave_symmetric hperiod
  · exact fun hlow v => waveInWords_sound hlow
  · exact fun hlow => waveInWords_eq (by omega) hlow

/-- A wave of the lowest amplitude that passes its peaks: both of them are the lowest sample. -/
theorem sine_symmetric_lowest : 2 ≤ 48000 ∧ Unmatched 48000 0x8000 36000 ∧ (sine 36000 48000 0x8000).toInt = -0x8000 ∧
    (sine 12000 48000 0x8000).toInt = -0x8000 :=
  have hlowest := sine_symmetric 48000 0x8000 (by decide)
  have hpeak : Unmatched 48000 0x8000 36000 := ⟨by decide, 12000, by decide, by decide⟩
  ⟨by decide, hpeak, ((hlowest.2.1 36000).2 hpeak).2, by decide +kernel⟩

/-- **The samples of the lowest amplitude are lopsided**: they have no peak above zero. -/
theorem sine_lopsided : ¬∀ (period : Nat) (amplitude : BitVec 16), 2 ≤ period →
    Symmetric period amplitude.toInt fun phase => (sine phase period amplitude).toInt := by
  intro h
  have hturned := (h 48000 0x8000 (by decide)).turned 12000 (by decide)
  exact absurd hturned (by decide +kernel)

end Tone
end AudioBringup
