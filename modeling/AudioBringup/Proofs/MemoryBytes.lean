import AudioBringup.Proofs.Blocks
import AudioBringup.Proofs.RetainedRegisters
/-!
# Proofs.MemoryBytes — memory byte by byte

What blocks hold is looked at one byte at a time (`Memory.byte`), whatever the width it was stored with.  A change inside a
live block is to the bytes it is to and to no others (`Ordered.byte_update`), and what is loaded from there is what those
bytes make up (`Ordered.load32_at`, `Ordered.load64_at`).
-/
namespace AudioBringup

/-! ### Numbers and their bytes -/

theorem extractLsb'_eq_ofNat {w : Nat} (v : BitVec w) (k : Nat) :
    v.extractLsb' (8 * k) 8 = BitVec.ofNat 8 (v.toNat / 256 ^ k) := by
  rw [BitVec.extractLsb', Nat.shiftRight_eq_div_pow, Nat.pow_mul]

/-- A byte of a number is the digit it has there, as long as the number is wide enough. -/
theorem extractLsb'_ofNat {w k : Nat} (n : Nat) (hk : 8 * k + 8 ≤ w) :
    (BitVec.ofNat w n).extractLsb' (8 * k) 8 = BitVec.ofNat 8 (n / 256 ^ k) := by
  refine BitVec.eq_of_getLsbD_eq fun i hi => ?_
  have hin : 8 * k + i < w := by omega
  have hpow : 256 ^ k = 2 ^ (8 * k) := (Nat.pow_mul 2 8 k).symm
  rw [BitVec.getLsbD_extractLsb', BitVec.getLsbD_ofNat, BitVec.getLsbD_ofNat, hpow, Nat.testBit_div_two_pow, Nat.add_comm i]
  simp only [hi, hin, decide_true, Bool.true_and]

theorem extractLsb'_extractLsb' {w start length first count : Nat} (v : BitVec w) (h : first + count ≤ length) :
    (v.extractLsb' start length).extractLsb' first count = v.extractLsb' (start + first) count := by
  refine BitVec.eq_of_getLsbD_eq fun i hi => ?_
  have hin : first + i < length := by omega
  simp only [BitVec.getLsbD_extractLsb', hi, hin, decide_true, Bool.true_and, Nat.add_assoc]

section
variable {m : Nat → Byte} {p : Nat}

theorem eq_load64 {v : BitVec 64} (h : ∀ i < 8, v.extractLsb' (8 * i) 8 = m (p + i)) : v = load64 m p := by
  have hlow : v.extractLsb' 0 32 = load32 m p := by
    refine eq_load32 fun i hi => ?_
    rw [extractLsb'_extractLsb' v (by omega), Nat.zero_add]
    exact h i (by omega)
  have hhigh : v.extractLsb' 32 32 = load32 m (p + 4) := by
    refine eq_load32 fun i hi => ?_
    rw [extractLsb'_extractLsb' v (by omega), Nat.add_assoc, ← h (4 + i) (by omega), Nat.mul_add]
  rw [load64, ← hlow, ← hhigh, BitVec.extractLsb'_append_extractLsb'_eq_extractLsb' (by decide)]
  exact BitVec.extractLsb'_eq_self.symm

/-- Eight bytes are the low four of them, and the high four that many times more. -/
theorem toNat_load64 : (load64 m p).toNat = (load32 m p).toNat + 2 ^ 32 * (load32 m (p + 4)).toNat := by
  have hlow := (load32 m p).isLt
  rw [load64, BitVec.toNat_append, ← Nat.shiftLeft_add_eq_or_of_lt hlow, Nat.shiftLeft_eq, Nat.add_comm, Nat.mul_comm]

theorem load32_zeros (h : ∀ i < 4, m (p + i) = 0) : load32 m p = 0 := by
  rw [load32, h 3 (by decide), h 2 (by decide), h 1 (by decide), show m p = 0 from h 0 (by decide)]
  rfl

theorem load64_zeros (h : ∀ i < 8, m (p + i) = 0) : load64 m p = 0 := by
  have hhigh : load32 m (p + 4) = 0 := by
    refine load32_zeros fun i hi => ?_
    rw [Nat.add_assoc]
    exact h (4 + i) (by omega)
  rw [load64, hhigh, load32_zeros fun i hi => h i (by omega)]
  rfl

end

namespace Simulation

/-! ### Memory byte by byte -/

/-- What a change of `count` bytes at an address makes of a block. -/
def Block.changed (address count : Nat) (f : Nat → Array Byte → Array Byte) (b : Block) : Block :=
  if b.holds address count then { b with bytes := f (address - b.address) b.bytes } else b

namespace Memory

/-- The byte at an address, 0 where nothing is live. -/
def byte (m : Memory) (q : Nat) : Byte := BitVec.ofNat 8 ((m.load? q 1).getD 0)

variable {m : Memory} {a n p q count : Nat} {f : Nat → Array Byte → Array Byte} {b : Block}

theorem byte_of_dead (h : m.blocks.find? (·.holds q 1) = none) : m.byte q = 0 := by
  rw [byte, load?, h]
  rfl

theorem byte_of_live (h : m.blocks.find? (·.holds q 1) = some b) : m.byte q = b.bytes.getD (q - b.address) 0 := by
  rw [byte, load?, h, Option.map_some, Option.getD_some, LittleEndian.read, LittleEndian.read, Nat.mul_zero, Nat.add_zero,
    BitVec.ofNat_toNat, BitVec.setWidth_eq]

/-- A change to one block leaves every block where it is. -/
theorem find?_update (hsize : ∀ offset bytes, offset + count ≤ bytes.size → (f offset bytes).size = bytes.size) :
    (m.update p count f).blocks.find? (·.holds q 1) = (m.blocks.find? (·.holds q 1)).map (Block.changed p count f) := by
  have hplace : (·.holds q 1) ∘ Block.changed p count f = (·.holds q 1) := by
    funext b
    rw [Function.comp_apply, Block.changed]
    split_ifs with hb
    · have hbounds := Block.holds_iff.1 hb
      rw [Block.holds, hsize (p - b.address) b.bytes (by omega), Block.holds]
    · rfl
  have hmap : (m.update p count f).blocks = m.blocks.map (Block.changed p count f) := rfl
  rw [hmap, List.find?_map, hplace]

/-- **A change inside a live block is to the bytes it is to**, and to no others. -/
theorem Ordered.byte_update (h : m.Ordered) (hlive : (a, n) ∈ m.shape) (hlow : a ≤ p) (hhigh : p + count ≤ a + n)
    (hsize : ∀ offset bytes, offset + count ≤ bytes.size → (f offset bytes).size = bytes.size) (src : Nat → Byte)
    (hf : ∀ offset bytes k, offset + count ≤ bytes.size → (f offset bytes).getD k 0 =
      if offset ≤ k ∧ k < offset + count then src (k - offset) else bytes.getD k 0) :
    (m.update p count f).byte q = if p ≤ q ∧ q < p + count then src (q - p) else m.byte q := by
  obtain ⟨c, hc, rfl, rfl⟩ := mem_shape.1 hlive
  -- a place that is changed lies in the block that holds all of them
  have hinside : p ≤ q ∧ q < p + count → m.blocks.find? (·.holds q 1) = some c := fun hq =>
    h.find?_of_mem hc Nat.one_pos (by omega) (by omega)
  have hmoved := find?_update (m := m) (p := p) (q := q) hsize
  cases hfind : m.blocks.find? (·.holds q 1) with
  | none =>
    have houtside : ¬(p ≤ q ∧ q < p + count) := fun hq => nomatch hfind.symm.trans (hinside hq)
    rw [hfind] at hmoved
    rw [byte_of_dead hmoved, byte_of_dead hfind, if_neg houtside]
  | some b =>
    have hq := Block.holds_iff.1 (List.find?_some (p := fun b : Block => b.holds q 1) hfind)
    rw [hfind, Option.map_some] at hmoved
    rw [byte_of_live hmoved, byte_of_live hfind, Block.changed]
    by_cases hb : b.holds p count = true
    · have hbounds := Block.holds_iff.1 hb
      have hplace : q - b.address - (p - b.address) = q - p := by omega
      rw [if_pos hb]
      dsimp only
      rw [hf _ _ _ (by omega), hplace]
      exact if_congr (by omega) rfl rfl
    · have houtside : ¬(p ≤ q ∧ q < p + count) := by
        intro hin
        obtain rfl := Option.some.inj (hfind.symm.trans (hinside hin))
        exact hb (Block.holds_iff.2 ⟨hlow, hhigh⟩)
      rw [if_neg hb, if_neg houtside]

/-- What is loaded from inside a live block has the bytes that are there for its digits. -/
theorem Ordered.load?_digits (h : m.Ordered) (hlive : (a, n) ∈ m.shape) (hlow : a ≤ p) (hhigh : p + count ≤ a + n)
    (hcount : 0 < count) : ∃ v, m.load? p count = some v ∧ ∀ k < count, BitVec.ofNat 8 (v / 256 ^ k) = m.byte (p + k) := by
  obtain ⟨b, hb, rfl, rfl⟩ := mem_shape.1 hlive
  refine ⟨LittleEndian.read 0 b.bytes (p - b.address) count, ?_, fun k hk => ?_⟩
  · rw [load?, h.find?_of_mem hb hcount hlow hhigh, Option.map_some]
  · rw [byte_of_live (h.find?_of_mem hb Nat.one_pos (by omega) (by omega)), show p + k - b.address = p - b.address + k by omega]
    apply BitVec.eq_of_toNat_eq
    rw [BitVec.toNat_ofNat, ← LittleEndian.read_digit hk]

theorem Ordered.byte_store (h : m.Ordered) (hlive : (a, n) ∈ m.shape) (hlow : a ≤ p) (hhigh : p + count ≤ a + n) (value : Nat) :
    (m.store p count value).byte q = if p ≤ q ∧ q < p + count then BitVec.ofNat 8 (value / 256 ^ (q - p)) else m.byte q := by
  unfold store
  refine h.byte_update hlive hlow hhigh (fun _ _ _ => LittleEndian.size_write) (fun k => BitVec.ofNat 8 (value / 256 ^ k))
    fun offset bytes k hfits => ?_
  rw [LittleEndian.getD_write]
  exact if_congr (by omega) rfl rfl

theorem Ordered.byte_fill {data : Array Byte} (h : m.Ordered) (hlive : (a, n) ∈ m.shape) (hlow : a ≤ p)
    (hhigh : p + data.size ≤ a + n) :
    (m.fill p data).byte q = if p ≤ q ∧ q < p + data.size then data.getD (q - p) 0 else m.byte q := by
  unfold fill
  exact h.byte_update hlive hlow hhigh (fun _ _ => LittleEndian.size_copy) (fun k => data.getD k 0) fun _ _ _ =>
    LittleEndian.getD_copy

theorem Ordered.byte_clear {length : Nat} (h : m.Ordered) (hlive : (a, n) ∈ m.shape) (hlow : a ≤ p)
    (hhigh : p + length ≤ a + n) : (m.clear p length).byte q = if p ≤ q ∧ q < p + length then 0 else m.byte q := by
  have hsize : (Array.replicate length (0 : Byte)).size = length := Array.size_replicate
  rw [clear, h.byte_fill hlive hlow (by omega), hsize]
  refine ite_congr rfl (fun hq => ?_) fun _ => rfl
  rw [Array.getD_eq_getD_getElem?, Array.getElem?_replicate]
  split_ifs <;> rfl

/-- The memory behind a region is live, all of it in one block. -/
structure Backs (m : Memory) (r : Region) : Prop where
  ordered : m.Ordered
  live : ∃ a n, (a, n) ∈ m.shape ∧ a ≤ r.host ∧ r.host + r.length ≤ a + n

/-- **Memory that was just had is there.** -/
theorem Ordered.backs_allocate (h : m.Ordered) (length : Nat) (address : BitVec 64) (token : Nat) :
    (m.allocate length).2.Backs ⟨(m.allocate length).1, address, length, token⟩ where
  ordered := h.allocate length
  live := by
    refine ⟨m.next, length, ?_, Nat.le_refl _, Nat.le_refl _⟩
    simp only [shape_allocate, List.mem_append, List.mem_singleton, or_true]

theorem Backs.of_shape {m' : Memory} {r : Region} (h : m.Backs r) (hshape : m'.shape = m.shape) (hnext : m'.next = m.next) :
    m'.Backs r where
  ordered := h.ordered.of_shape hshape hnext
  live := by
    rw [hshape]
    exact h.live

end Memory

variable {m : Memory} {a n p : Nat}

theorem Memory.Ordered.load32_at (h : m.Ordered) (hlive : (a, n) ∈ m.shape) (hlow : a ≤ p) (hhigh : p + 4 ≤ a + n) :
    BitVec.ofNat 32 ((m.load? p 4).getD 0) = AudioBringup.load32 m.byte p := by
  obtain ⟨v, hv, hdigits⟩ := h.load?_digits hlive hlow hhigh (by decide)
  rw [hv, Option.getD_some]
  exact eq_load32 fun i hi => (extractLsb'_ofNat v (by omega)).trans (hdigits i hi)

theorem Memory.Ordered.load64_at (h : m.Ordered) (hlive : (a, n) ∈ m.shape) (hlow : a ≤ p) (hhigh : p + 8 ≤ a + n) :
    BitVec.ofNat 64 ((m.load? p 8).getD 0) = AudioBringup.load64 m.byte p := by
  obtain ⟨v, hv, hdigits⟩ := h.load?_digits hlive hlow hhigh (by decide)
  rw [hv, Option.getD_some]
  exact eq_load64 fun i hi => (extractLsb'_ofNat v (by omega)).trans (hdigits i hi)

end Simulation

end AudioBringup
