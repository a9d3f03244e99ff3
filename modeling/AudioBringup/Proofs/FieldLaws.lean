import Mathlib.Control.Monad.Basic
import AudioBringup.Proofs.BitFields
import AudioBringup.Proofs.WordArithmetic
/-!
# Proofs.FieldLaws — fields that are written and read back

A range of bits is a field of the word if it holds a bit and ends within the word.  Writing such a field replaces its bits
and no others (`writeBits_bits`), what it holds can be written back (`readBits_digits`), and fields apart from each other do
not meet (`writeBits_apart`).  As long as the ends of the range are words themselves, no shift on the way moves a word by as
much as it is wide (`readInWords_eq`, `writeInWords_eq`).
-/
namespace AudioBringup
namespace Bits

open Word

variable {w len start stop start' stop' : Nat} {n v v' m m' : BitVec w} {r r' : Range}

/-! ### In words -/

/-- The first bit of the range, where a word of 64 bits has room for it. -/
def Range.start? (r : Range) : Option Nat :=
  match r.lower with
  | .included i => some i
  | .excluded i => inWord 64 (i + 1)
  | .unbounded => some 0

/-- The bit after the last one of the range, where a word of 64 bits has room for it. -/
def Range.stop? (r : Range) (width : Nat) : Option Nat :=
  match r.upper with
  | .included i => inWord 64 (i + 1)
  | .excluded i => some i
  | .unbounded => some width

/-- The first bit of a field and a mask as wide as the field, each number on the way held against its word. -/
def spanInWords (w : Nat) (r : Range) : Option (Except Misuse (Nat × BitVec w)) := do
  let start ← r.start?
  let stop ← r.stop? w
  if ¬start < stop then return .error .bitsOutOfRange
  if ¬stop ≤ w then return .error .bitsOutOfRange
  let len ← difference stop start
  let mask ← shiftDown (BitVec.allOnes w) (← difference w len)
  return .ok (start, mask)

/-- The bits of the range, each number on the way held against its word. -/
def readInWords (n : BitVec w) (r : Range) : Option (Except Misuse (BitVec w)) := do
  match ← spanInWords w r with
  | .error cause => return .error cause
  | .ok (start, mask) =>
    let low ← shiftDown n start
    return .ok (low &&& mask)

/-- The bits of the range replaced in their place, each number on the way held against its word: what it comes to, and the
word after it. -/
def writeInWords (n : BitVec w) (r : Range) (value : BitVec w) : Option (Except Misuse Unit × BitVec w) := do
  match ← spanInWords w r with
  | .error cause => return (.error cause, n)
  | .ok (start, mask) =>
    if value &&& ~~~mask ≠ 0#w then return (.error .valueTooWide, n)
    let there ← shiftUp mask start
    let new ← shiftUp value start
    return (.ok (), n &&& ~~~there ||| new)

/-- A word and what is to take its place: the word after that is the one it was, unless there is a new one. -/
def replaced (n : BitVec w) : Except Misuse (BitVec w) → Except Misuse Unit × BitVec w
  | .ok m => (.ok (), m)
  | .error cause => (.error cause, n)

theorem start_of_start? (h : r.start? = some start) : r.start = start := by
  obtain ⟨_ | i | _, upper⟩ := r
  · exact Option.some.inj h
  · simp only [Range.start?, inWord, Option.ite_none_right_eq_some, Option.some.injEq] at h
    exact h.2
  · exact Option.some.inj h

theorem stop_of_stop? (h : r.stop? w = some stop) : r.stop w = stop := by
  obtain ⟨lower, i | _ | _⟩ := r
  · simp only [Range.stop?, inWord, Option.ite_none_right_eq_some, Option.some.injEq] at h
    exact h.2
  · exact Option.some.inj h
  · exact Option.some.inj h

theorem size_pos (hfits : r.Fits w) : 0 < r.size w := Nat.sub_pos_of_lt hfits.1

theorem size_le (hfits : r.Fits w) : r.size w ≤ w := Nat.le_trans (Nat.sub_le _ _) hfits.2

theorem place_eq (hfits : r.Fits w) : r.start + r.size w = r.stop w := Nat.add_sub_of_le (Nat.le_of_lt hfits.1)

theorem place_le (hfits : r.Fits w) : r.start + r.size w ≤ w := by
  rw [place_eq hfits]
  exact hfits.2

theorem spanInWords_eq (hstart : r.start? = some start) (hstop : r.stop? w = some stop) :
    spanInWords w r = some (if r.Fits w then .ok (r.start, lowMask w (r.size w)) else .error .bitsOutOfRange) := by
  obtain rfl := start_of_start? hstart
  obtain rfl := stop_of_stop? hstop
  unfold spanInWords
  rw [hstart, hstop]
  simp only [Option.bind_eq_bind, Option.bind_some]
  by_cases hsome : r.start < r.stop w
  · rw [if_neg (not_not.2 hsome)]
    by_cases hinside : r.stop w ≤ w
    · have hfits : r.Fits w := ⟨hsome, hinside⟩
      have hshort : w - r.size w < w := Nat.sub_lt_of_pos_le (size_pos hfits) (size_le hfits)
      rw [if_neg (not_not.2 hinside), if_pos hfits, difference_of_le (Nat.le_of_lt hsome),
        show r.stop w - r.start = r.size w from rfl]
      simp only [Option.bind_some]
      rw [difference_of_le (size_le hfits)]
      simp only [Option.bind_some]
      rw [shiftDown_of_lt hshort]
      rfl
    · rw [if_pos hinside, if_neg (fun hfits => hinside hfits.2)]
      rfl
  · rw [if_pos hsome, if_neg (fun hfits => hsome hfits.1)]
    rfl

theorem readInWords_eq (hstart : r.start? = some start) (hstop : r.stop? w = some stop) :
    readInWords n r = some (readBits n r) := by
  unfold readInWords readBits
  rw [spanInWords_eq hstart hstop]
  simp only [Option.bind_eq_bind, Option.bind_some]
  by_cases hfits : r.Fits w
  · rw [if_pos hfits, if_pos hfits]
    dsimp only
    rw [shiftDown_of_lt (Nat.lt_of_lt_of_le hfits.1 hfits.2)]
    rfl
  · rw [if_neg hfits, if_neg hfits]
    rfl

theorem writeInWords_eq (hstart : r.start? = some start) (hstop : r.stop? w = some stop) :
    writeInWords n r v = some (replaced n (writeBits n r v)) := by
  unfold writeInWords writeBits
  rw [spanInWords_eq hstart hstop]
  simp only [Option.bind_eq_bind, Option.bind_some]
  by_cases hfits : r.Fits w
  · have hshift : r.start < w := Nat.lt_of_lt_of_le hfits.1 hfits.2
    rw [if_pos hfits, if_pos hfits]
    dsimp only
    by_cases hroom : v &&& ~~~lowMask w (r.size w) = 0#w
    · rw [if_neg (not_not.2 hroom), shiftUp_of_lt hshift, shiftUp_of_lt hshift, if_pos hroom]
      rfl
    · rw [if_pos hroom, if_neg hroom]
      rfl
  · rw [if_neg hfits, if_neg hfits]
    rfl

/-! ### One field -/

theorem field_withField (h : start + len ≤ w) (v : BitVec len) : field (withField n start v) start len = v := by
  apply BitVec.eq_of_getLsbD_eq
  intro i hi
  rw [field, BitVec.getLsbD_extractLsb', decide_eq_true hi, Bool.true_and, getLsbD_withField h, if_pos (by omega),
    Nat.add_sub_cancel_left]

theorem withField_field (h : start + len ≤ w) : withField n start (field n start len) = n := by
  apply BitVec.eq_of_getLsbD_eq
  intro i _
  rw [getLsbD_withField h]
  by_cases hin : start ≤ i ∧ i < start + len
  · rw [if_pos hin, field, BitVec.getLsbD_extractLsb', decide_eq_true (by omega), Bool.true_and, Nat.add_sub_cancel' hin.1]
  · rw [if_neg hin]

/-- A field apart from the one that was written is as it was. -/
theorem field_withField_of_apart {len' : Nat} (h : start + len ≤ w) (v : BitVec len)
    (hapart : start + len ≤ start' ∨ start' + len' ≤ start) : field (withField n start v) start' len' = field n start' len' := by
  apply BitVec.eq_of_getLsbD_eq
  intro i hi
  rw [field, field, BitVec.getLsbD_extractLsb', BitVec.getLsbD_extractLsb', getLsbD_withField h, if_neg (by omega)]

/-- Fields apart from each other can be written in any order. -/
theorem withField_comm {len' : Nat} (h : start + len ≤ w) (h' : start' + len' ≤ w) (v : BitVec len) (v' : BitVec len')
    (hapart : start + len ≤ start' ∨ start' + len' ≤ start) :
    withField (withField n start v) start' v' = withField (withField n start' v') start v := by
  apply BitVec.eq_of_getLsbD_eq
  intro i _
  rw [getLsbD_withField h', getLsbD_withField h, getLsbD_withField h, getLsbD_withField h']
  by_cases hin : start ≤ i ∧ i < start + len
  · rw [if_neg (by omega), if_pos hin, if_pos hin]
  · rw [if_neg hin, if_neg hin]

/-! ### Any range -/

theorem and_not_lowMask_eq_zero (h : len ≤ w) : v &&& ~~~lowMask w len = 0#w ↔ v.toNat < 2 ^ len := by
  constructor
  · intro hzero
    refine Nat.lt_pow_two_of_testBit _ fun i hi => ?_
    rw [BitVec.testBit_toNat]
    by_cases hw : i < w
    · have hbit : (v &&& ~~~lowMask w len).getLsbD i = (0#w).getLsbD i := congrArg (BitVec.getLsbD · i) hzero
      rwa [BitVec.getLsbD_and, BitVec.getLsbD_not, getLsbD_lowMask h, decide_eq_true hw, decide_eq_false (Nat.not_lt.2 hi),
        BitVec.getLsbD_zero, Bool.not_false, Bool.and_true, Bool.and_true] at hbit
    · exact BitVec.getLsbD_of_ge v i (Nat.le_of_not_lt hw)
  · intro hlow
    apply BitVec.eq_of_getLsbD_eq
    intro i hi
    rw [BitVec.getLsbD_and, BitVec.getLsbD_not, getLsbD_lowMask h, BitVec.getLsbD_zero]
    by_cases hin : i < len
    · simp [hin]
    · have hclear : v.getLsbD i = false := by
        rw [← BitVec.testBit_toNat]
        exact Nat.testBit_lt_two_pow (Nat.lt_of_lt_of_le hlow (Nat.pow_le_pow_right (by decide) (Nat.le_of_not_lt hin)))
      rw [hclear, Bool.false_and]

theorem setWidth_setWidth_of_lt (hlow : v.toNat < 2 ^ len) : (v.setWidth len).setWidth w = v := by
  apply BitVec.eq_of_toNat_eq
  rw [BitVec.toNat_setWidth, BitVec.toNat_setWidth, Nat.mod_eq_of_lt hlow, Nat.mod_eq_of_lt v.isLt]

theorem writeBits_of_fits (hfits : r.Fits w) (hlow : v.toNat < 2 ^ r.size w) :
    writeBits n r v = .ok (withField n r.start (v.setWidth (r.size w))) := by
  have hwritten := writeBits_eq_withField (size_pos hfits) (place_eq hfits) hfits.2 n (v.setWidth (r.size w))
  rw [setWidth_setWidth_of_lt hlow] at hwritten
  exact hwritten

theorem readBits_of_fits (hfits : r.Fits w) : readBits n r = .ok ((field n r.start (r.size w)).setWidth w) := by
  have hread := readBits_eq_field (size_pos hfits) (place_eq hfits) hfits.2 n
  exact hread

theorem writeBits_of_not_fits (hfits : ¬r.Fits w) : writeBits n r v = .error .bitsOutOfRange := if_neg hfits

theorem readBits_of_not_fits (hfits : ¬r.Fits w) : readBits n r = .error .bitsOutOfRange := if_neg hfits

theorem writeBits_of_wide (hfits : r.Fits w) (hwide : 2 ^ r.size w ≤ v.toNat) : writeBits n r v = .error .valueTooWide := by
  have hroom : ¬v &&& ~~~lowMask w (r.size w) = 0#w := by
    rw [and_not_lowMask_eq_zero (size_le hfits)]
    exact Nat.not_lt.2 hwide
  exact (if_pos hfits).trans (if_neg hroom)

theorem toNat_field (hfits : r.Fits w) :
    ((field n r.start (r.size w)).setWidth w).toNat = n.toNat / 2 ^ r.start % 2 ^ r.size w := by
  rw [BitVec.toNat_setWidth, field, BitVec.extractLsb'_toNat, Nat.shiftRight_eq_div_pow]
  exact Nat.mod_eq_of_lt (Nat.lt_of_lt_of_le (Nat.mod_lt _ (Nat.two_pow_pos _))
    (Nat.pow_le_pow_right (by decide) (size_le hfits)))

theorem not_fits_iff : ¬r.Fits w ↔ r.stop w ≤ r.start ∨ w < r.stop w := by
  unfold Range.Fits
  omega

theorem readBits_refused_iff : readBits n r = .error .bitsOutOfRange ↔ r.stop w ≤ r.start ∨ w < r.stop w := by
  rw [← not_fits_iff]
  refine ⟨fun hrefused hfits => ?_, readBits_of_not_fits⟩
  rw [readBits_of_fits hfits] at hrefused
  cases hrefused

/-- A value is written exactly if the range is a field of the word and the value no wider than it. -/
theorem writeBits_eq_ok_iff : writeBits n r v = .ok m ↔
    r.Fits w ∧ v.toNat < 2 ^ r.size w ∧ withField n r.start (v.setWidth (r.size w)) = m := by
  by_cases hfits : r.Fits w
  · by_cases hlow : v.toNat < 2 ^ r.size w
    · rw [writeBits_of_fits hfits hlow, Except.ok.injEq]
      exact ⟨fun h => ⟨hfits, hlow, h⟩, fun h => h.2.2⟩
    · rw [writeBits_of_wide hfits (Nat.le_of_not_lt hlow)]
      exact ⟨nofun, fun h => absurd h.2.1 hlow⟩
  · rw [writeBits_of_not_fits hfits]
    exact ⟨nofun, fun h => absurd h.1 hfits⟩

theorem writeBits_refused_iff : writeBits n r v = .error .bitsOutOfRange ↔ r.stop w ≤ r.start ∨ w < r.stop w := by
  rw [← not_fits_iff]
  refine ⟨fun hrefused hfits => ?_, writeBits_of_not_fits⟩
  by_cases hlow : v.toNat < 2 ^ r.size w
  · rw [writeBits_of_fits hfits hlow] at hrefused
    cases hrefused
  · rw [writeBits_of_wide hfits (Nat.le_of_not_lt hlow)] at hrefused
    cases hrefused

theorem writeBits_wide_iff : writeBits n r v = .error .valueTooWide ↔
    r.start < r.stop w ∧ r.stop w ≤ w ∧ 2 ^ r.size w ≤ v.toNat := by
  rw [← and_assoc]
  refine ⟨fun hrefused => ?_, fun h => writeBits_of_wide h.1 h.2⟩
  by_cases hfits : r.Fits w
  · refine ⟨hfits, Nat.le_of_not_lt fun hlow => ?_⟩
    rw [writeBits_of_fits hfits hlow] at hrefused
    cases hrefused
  · rw [writeBits_of_not_fits hfits] at hrefused
    cases hrefused

/-- A field holds the digits of the word that it spans, and takes them back. -/
theorem readBits_digits (hfits : r.Fits w) : ∃ f, readBits n r = .ok f ∧
    f.toNat = n.toNat / 2 ^ r.start % 2 ^ r.size w ∧ writeBits n r f = .ok n := by
  have hcut : ((field n r.start (r.size w)).setWidth w).setWidth (r.size w) = field n r.start (r.size w) :=
    (BitVec.setWidth_setWidth_of_le _ (size_le hfits)).trans (BitVec.setWidth_eq _)
  refine ⟨_, readBits_of_fits hfits, toNat_field hfits, writeBits_eq_ok_iff.2 ⟨hfits, ?_, ?_⟩⟩
  · rw [toNat_field hfits]
    exact Nat.mod_lt _ (Nat.two_pow_pos _)
  · rw [hcut, withField_field (place_le hfits)]

/-- A field that was written holds the value, and every other bit is as it was. -/
theorem writeBits_bits (hfits : r.Fits w) (hlow : v.toNat < 2 ^ r.size w) : ∃ m, writeBits n r v = .ok m ∧
    readBits m r = .ok v ∧
    ∀ j < w, m.getLsbD j = if r.start ≤ j ∧ j < r.stop w then v.getLsbD (j - r.start) else n.getLsbD j := by
  refine ⟨_, writeBits_of_fits hfits hlow, ?_, fun j _ => ?_⟩
  · rw [readBits_of_fits hfits, field_withField (place_le hfits), setWidth_setWidth_of_lt hlow]
  · rw [getLsbD_withField (place_le hfits), place_eq hfits]
    by_cases hin : r.start ≤ j ∧ j < r.stop w
    · have hsize : j - r.start < r.size w := Nat.sub_lt_sub_right hin.1 hin.2
      rw [if_pos hin, if_pos hin, BitVec.getLsbD_setWidth, decide_eq_true hsize, Bool.true_and]
    · rw [if_neg hin, if_neg hin]

/-- Ranges apart from each other: writing one leaves the other, and both can be written in any order. -/
theorem writeBits_apart (hapart : r.stop w ≤ r'.start ∨ r'.stop w ≤ r.start) (h : writeBits n r v = .ok m)
    (h' : writeBits n r' v' = .ok m') :
    readBits m r' = readBits n r' ∧ ∃ both, writeBits m r' v' = .ok both ∧ writeBits m' r v = .ok both := by
  obtain ⟨hfits, hlow, rfl⟩ := writeBits_eq_ok_iff.1 h
  obtain ⟨hfits', hlow', rfl⟩ := writeBits_eq_ok_iff.1 h'
  rw [← place_eq hfits, ← place_eq hfits'] at hapart
  refine ⟨?_, _, writeBits_of_fits hfits' hlow', ?_⟩
  · rw [readBits_of_fits hfits', readBits_of_fits hfits', field_withField_of_apart (place_le hfits) _ hapart]
  · rw [writeBits_of_fits hfits hlow, withField_comm (place_le hfits) (place_le hfits') _ _ hapart]

/-! ### The whole -/

/-- **Fields are read and written as such**, in words of any width, by ranges with any ends: a range that is empty or leaves
the word is refused, a value that is wider than its field is refused after that, and a word is left as it was by what is
refused.  Any other range holds the digits of the word that it spans, is written bit by bit with every other bit kept, and
reads back as it was written; what it held can be written back; and ranges apart from each other are written in any order,
and without the other one changing. -/
theorem fields_lawful (w : Nat) (r : Range) (start stop : Nat) (hstart : r.start? = some start)
    (hstop : r.stop? w = some stop) :
    (∀ n : BitVec w, readInWords n r = some (readBits n r) ∧
      (readBits n r = .error .bitsOutOfRange ↔ stop ≤ start ∨ w < stop) ∧
      (start < stop → stop ≤ w → ∃ f, readBits n r = .ok f ∧ f.toNat = n.toNat / 2 ^ start % 2 ^ (stop - start) ∧
        writeBits n r f = .ok n)) ∧
    (∀ n v : BitVec w, writeInWords n r v = some (replaced n (writeBits n r v)) ∧
      (writeBits n r v = .error .bitsOutOfRange ↔ stop ≤ start ∨ w < stop) ∧
      (writeBits n r v = .error .valueTooWide ↔ start < stop ∧ stop ≤ w ∧ 2 ^ (stop - start) ≤ v.toNat) ∧
      (start < stop → stop ≤ w → v.toNat < 2 ^ (stop - start) → ∃ m, writeBits n r v = .ok m ∧ readBits m r = .ok v ∧
        ∀ j < w, m.getLsbD j = if start ≤ j ∧ j < stop then v.getLsbD (j - start) else n.getLsbD j)) ∧
    ∀ (r' : Range) (start' stop' : Nat), r'.start? = some start' → r'.stop? w = some stop' →
      stop ≤ start' ∨ stop' ≤ start → ∀ n v v' m m' : BitVec w, writeBits n r v = .ok m → writeBits n r' v' = .ok m' →
        readBits m r' = readBits n r' ∧ ∃ both, writeBits m r' v' = .ok both ∧ writeBits m' r v = .ok both := by
  have hread := fun n : BitVec w => readInWords_eq (n := n) hstart hstop
  have hwrite := fun n v : BitVec w => writeInWords_eq (n := n) (v := v) hstart hstop
  obtain rfl := start_of_start? hstart
  obtain rfl := stop_of_stop? hstop
  refine ⟨fun n => ⟨hread n, readBits_refused_iff, fun hsome hinside => readBits_digits ⟨hsome, hinside⟩⟩, fun n v => ⟨hwrite n v,
    writeBits_refused_iff, writeBits_wide_iff, fun hsome hinside hlow => writeBits_bits ⟨hsome, hinside⟩ hlow⟩, ?_⟩
  intro r' start' stop' hstart' hstop' hapart n v v' m m' h h'
  obtain rfl := start_of_start? hstart'
  obtain rfl := stop_of_stop? hstop'
  exact writeBits_apart hapart h h'

/-- Two fields of a word of 16 bits, the lower one between ends that are both given the other way: read, written in either
order, and one left alone by the other. -/
theorem fields_lawful_sixteen :
    let low : Range := ⟨.excluded 3, .included 9⟩
    let high : Range := ⟨.included 10, .unbounded⟩
    low.start? = some 4 ∧ low.stop? 16 = some 10 ∧
    (∃ f, readBits 0xbeef#16 low = .ok f ∧ f.toNat = 0xbeef / 2 ^ 4 % 2 ^ 6 ∧ writeBits 0xbeef#16 low f = .ok 0xbeef#16) ∧
    writeBits 0xbeef#16 low 0x15#16 = .ok 0xbd5f#16 ∧ writeBits 0xbeef#16 high 0x2a#16 = .ok 0xaaef#16 ∧
    readBits 0xbd5f#16 high = readBits 0xbeef#16 high ∧
    ∃ both, writeBits 0xbd5f#16 high 0x2a#16 = .ok both ∧ writeBits 0xaaef#16 low 0x15#16 = .ok both :=
  have hlawful := fields_lawful 16 ⟨.excluded 3, .included 9⟩ 4 10 (by decide) (by decide)
  have hlow : writeBits 0xbeef#16 ⟨.excluded 3, .included 9⟩ 0x15#16 = .ok 0xbd5f#16 := by decide
  have hhigh : writeBits 0xbeef#16 ⟨.included 10, .unbounded⟩ 0x2a#16 = .ok 0xaaef#16 := by decide
  ⟨by decide, by decide, (hlawful.1 0xbeef#16).2.2 (by decide) (by decide), hlow, hhigh,
    hlawful.2.2 ⟨.included 10, .unbounded⟩ 10 16 (by decide) (by decide) (.inl (Nat.le_refl 10)) _ _ _ _ _ hlow hhigh⟩

end Bits
end AudioBringup
