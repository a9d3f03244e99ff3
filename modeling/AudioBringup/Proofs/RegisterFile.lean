import Mathlib.Algebra.Ring.Nat
import AudioBringup.Simulation.Device
/-!
# Proofs.RegisterFile — bytes that are written and read back

A number written into some bytes is read back from them, and no other byte changes.  The register file of a simulated
device is such bytes: a register holds what was stored last, and a store beside it does not reach it.
-/
namespace AudioBringup
namespace LittleEndian

variable {filler : Byte} {data data' source : Array Byte} {o q : Nat}

@[simp] theorem size_write : ∀ {count o value : Nat} {data : Array Byte}, (write data o count value).size = data.size
  | 0, _, _, _ => rfl
  | count + 1, o, value, data => by rw [write, size_write, Array.size_setIfInBounds]

theorem getD_setIfInBounds (data : Array Byte) (o q : Nat) (b : Byte) :
    (data.setIfInBounds o b).getD q filler = if o = q ∧ q < data.size then b else data.getD q filler := by
  rw [Array.getD_eq_getD_getElem?, Array.getD_eq_getD_getElem?, Array.getElem?_setIfInBounds]
  by_cases hq : o = q
  · subst hq
    by_cases hsize : o < data.size
    · simp [hsize]
    · simp [hsize]
  · simp [hq]

/-- Where a write ends up: byte `k` of the number in byte `k` of the place, and nowhere else. -/
theorem getD_write : ∀ {count o value : Nat} {data : Array Byte}, (write data o count value).getD q filler =
    if o ≤ q ∧ q < o + count ∧ q < data.size then BitVec.ofNat 8 (value / 256 ^ (q - o)) else data.getD q filler
  | 0, o, value, data => by
    rw [if_neg (by omega)]
    rfl
  | count + 1, o, value, data => by
    rw [write, getD_write, getD_setIfInBounds, Array.size_setIfInBounds]
    by_cases hfirst : o = q
    · subst hfirst
      rw [if_neg (by omega), Nat.sub_self, Nat.pow_zero, Nat.div_one]
      by_cases hsize : o < data.size
      · rw [if_pos ⟨rfl, hsize⟩, if_pos ⟨Nat.le_refl o, by omega, hsize⟩]
      · rw [if_neg (fun h => hsize h.2), if_neg (fun h => hsize h.2.2)]
    · by_cases hrest : o + 1 ≤ q ∧ q < o + 1 + count ∧ q < data.size
      · rw [if_pos hrest, if_pos (by omega), Nat.div_div_eq_div_mul, ← Nat.pow_succ']
        congr 3
        omega
      · rw [if_neg hrest, if_neg (fun h => hfirst h.1), if_neg (by omega)]

theorem getD_write_of_disjoint {count value : Nat} (h : q < o ∨ o + count ≤ q) :
    (write data o count value).getD q filler = data.getD q filler := by
  rw [getD_write, if_neg (by omega)]

theorem read_congr : ∀ {count o : Nat}, (∀ q, o ≤ q → q < o + count → data'.getD q filler = data.getD q filler) →
    read filler data' o count = read filler data o count
  | 0, _, _ => rfl
  | count + 1, o, h => by
    have hrest : read filler data' (o + 1) count = read filler data (o + 1) count :=
      read_congr fun q hq hlt => h q (Nat.le_of_succ_le hq) (by omega)
    rw [read, read, h o (Nat.le_refl o) (by omega), hrest]

theorem read_eq_of_bytes : ∀ {count o value : Nat},
    (∀ k < count, (data.getD (o + k) filler).toNat = value / 256 ^ k % 256) →
      read filler data o count = value % 256 ^ count
  | 0, _, value, _ => (Nat.mod_one value).symm
  | count + 1, o, value, h => by
    have hrest : ∀ k < count, (data.getD (o + 1 + k) filler).toNat = value / 256 / 256 ^ k % 256 := by
      intro k hk
      have hbyte := h (k + 1) (by omega)
      rw [show o + (k + 1) = o + 1 + k by omega, Nat.pow_succ', ← Nat.div_div_eq_div_mul] at hbyte
      exact hbyte
    have hfirst := h 0 (by omega)
    rw [Nat.add_zero, Nat.pow_zero, Nat.div_one] at hfirst
    rw [read, hfirst, read_eq_of_bytes hrest, Nat.pow_succ', Nat.mod_mul]

/-- **What was written is read back**, as far as it was. -/
theorem read_write {count count' value : Nat} (hcount : count' ≤ count) (hfits : o + count ≤ data.size) :
    read filler (write data o count value) o count' = value % 256 ^ count' := by
  refine read_eq_of_bytes fun k hk => ?_
  rw [getD_write, if_pos (by omega), Nat.add_sub_cancel_left, BitVec.toNat_ofNat]

theorem read_zeros {count : Nat} (h : ∀ q, o ≤ q → q < o + count → data.getD q filler = 0) :
    read filler data o count = 0 := by
  have hzero : read filler data o count = 0 % 256 ^ count := by
    refine read_eq_of_bytes fun k hk => ?_
    rw [h (o + k) (by omega) (by omega), Nat.zero_div]
    rfl
  rw [hzero, Nat.zero_mod]

/-- Each digit of the number that is read is one of the bytes. -/
theorem read_digit : ∀ {count o k : Nat}, k < count →
    read filler data o count / 256 ^ k % 256 = (data.getD (o + k) filler).toNat
  | 0, _, _, hk => absurd hk (Nat.not_lt_zero _)
  | count + 1, o, 0, _ => by
    have hbyte := (data.getD o filler).isLt
    rw [read, Nat.pow_zero, Nat.div_one, Nat.add_mul_mod_self_left]
    exact Nat.mod_eq_of_lt hbyte
  | count + 1, o, k + 1, hk => by
    have hbyte := (data.getD o filler).isLt
    have hrest : read filler data o (count + 1) / 256 = read filler data (o + 1) count := by
      rw [read]
      omega
    rw [Nat.pow_succ', ← Nat.div_div_eq_div_mul, hrest, read_digit (Nat.lt_of_succ_lt_succ hk), Nat.add_right_comm,
      Nat.add_assoc]

theorem size_copy (h : o + source.size ≤ data.size) : (copy data o source).size = data.size := by
  rw [copy, Array.size_append, Array.size_append, Array.size_extract, Array.size_extract]
  omega

/-- Where a copy ends up, and nowhere else. -/
theorem getD_copy (h : o + source.size ≤ data.size) : (copy data o source).getD q filler =
    if o ≤ q ∧ q < o + source.size then source.getD (q - o) filler else data.getD q filler := by
  have hbefore : (data.extract 0 o).size = o := by
    rw [Array.size_extract]
    omega
  have hcopied : (data.extract 0 o ++ source).size = o + source.size := by rw [Array.size_append, hbefore]
  simp only [copy, Array.getD_eq_getD_getElem?]
  rcases Nat.lt_or_ge q o with hlow | hlow
  · rw [if_neg (by omega), Array.getElem?_append_left (by omega), Array.getElem?_append_left (by omega),
      Array.getElem?_extract, if_pos (by omega), Nat.zero_add]
  rcases Nat.lt_or_ge q (o + source.size) with hhigh | hhigh
  · rw [if_pos ⟨hlow, hhigh⟩, Array.getElem?_append_left (by omega), Array.getElem?_append_right (by omega), hbefore]
  · rw [if_neg (by omega), Array.getElem?_append_right (by omega), hcopied, Array.getElem?_extract]
    by_cases hin : q < data.size
    · rw [if_pos (by omega), Nat.add_sub_cancel' hhigh]
    · rw [if_neg (by omega), Array.getElem?_eq_none (Nat.le_of_not_lt hin)]

end LittleEndian

namespace Width

theorem toNat_truncate (w : Width) (v : BitVec 32) : (w.truncate v).toNat = v.toNat % 256 ^ w.bytes := by
  have hv := v.isLt
  cases w <;> simp only [truncate, bits, bytes, BitVec.toNat_setWidth] <;> omega

@[simp] theorem truncate_dword (v : BitVec 32) : dword.truncate v = v := by
  apply BitVec.eq_of_toNat_eq
  rw [toNat_truncate]
  exact Nat.mod_eq_of_lt v.isLt

theorem getLsbD_truncate (w : Width) (v : BitVec 32) (i : Nat) :
    (w.truncate v).getLsbD i = (decide (i < w.bits) && v.getLsbD i) := by
  rw [truncate, BitVec.getLsbD_setWidth, BitVec.getLsbD_setWidth]
  cases hv : v.getLsbD i with
  | false => simp
  | true =>
    have hi := BitVec.lt_of_getLsbD hv
    simp [hi]

@[simp] theorem setWidth_truncate_byte (v : BitVec 32) : (byte.truncate v).setWidth 8 = v.setWidth 8 := by
  apply BitVec.eq_of_toNat_eq
  rw [BitVec.toNat_setWidth, toNat_truncate, BitVec.toNat_setWidth]
  exact Nat.mod_mod _ _

@[simp] theorem setWidth_truncate_word (v : BitVec 32) : (word.truncate v).setWidth 16 = v.setWidth 16 := by
  apply BitVec.eq_of_toNat_eq
  rw [BitVec.toNat_setWidth, toNat_truncate, BitVec.toNat_setWidth]
  exact Nat.mod_mod _ _

end Width

namespace Simulation
namespace Device

variable {d d' : Device} {w : Width} {o q : Nat} {v : BitVec 32}

/-- One byte of the register file. -/
def cell (d : Device) (q : Nat) : Byte := d.registers.getD q 0xff

@[simp] theorem size_store : (d.store w o v).registers.size = d.registers.size := LittleEndian.size_write

theorem cell_store_of_disjoint (h : q < o ∨ o + w.bytes ≤ q) : (d.store w o v).cell q = d.cell q :=
  LittleEndian.getD_write_of_disjoint h

theorem load_congr (h : ∀ q, o ≤ q → q < o + w.bytes → d'.cell q = d.cell q) : d'.load w o = d.load w o :=
  congrArg (BitVec.ofNat 32) (LittleEndian.read_congr h)

theorem load_store_of_disjoint {w' : Width} {o' : Nat} (h : o + w.bytes ≤ o' ∨ o' + w'.bytes ≤ o) :
    (d.store w' o' v).load w o = d.load w o :=
  load_congr fun q hq hlt => cell_store_of_disjoint (by omega)

/-- **A register holds what was stored last.** -/
theorem load_store (h : o + w.bytes ≤ d.registers.size) : (d.store w o v).load w o = w.truncate v := by
  apply BitVec.eq_of_toNat_eq
  have hread : LittleEndian.read 0xff (d.store w o v).registers o w.bytes = v.toNat % 256 ^ w.bytes :=
    LittleEndian.read_write (Nat.le_refl _) h
  rw [load, hread, Width.toNat_truncate, BitVec.toNat_ofNat]
  exact Nat.mod_eq_of_lt (Nat.lt_of_le_of_lt (Nat.mod_le _ _) v.isLt)

theorem cell_of_registers (h : d'.registers = d.registers) : d'.cell q = d.cell q :=
  congrArg (fun data => Array.getD data q 0xff) h

theorem load_of_registers (h : d'.registers = d.registers) : d'.load w o = d.load w o :=
  load_congr fun _ _ _ => cell_of_registers h

theorem load_eq_zero (h : ∀ q, o ≤ q → q < o + w.bytes → d.cell q = 0) : d.load w o = 0 := by
  rw [load, LittleEndian.read_zeros h]
  rfl

end Device
end Simulation
end AudioBringup
