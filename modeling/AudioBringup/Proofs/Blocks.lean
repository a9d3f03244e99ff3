import AudioBringup.Proofs.RegisterFile
import AudioBringup.Simulation.Memory
/-!
# Proofs.Blocks — memory that is handed out block by block

A memory's shape is where its blocks lie and how long they are.  Blocks are handed out in ascending order and never
overlap, so whoever writes inside one of them reads it back there, and no access changes the shape.
-/
namespace AudioBringup
namespace Simulation

theorem Block.holds_iff {b : Block} {address count : Nat} :
    b.holds address count = true ↔ b.address ≤ address ∧ address + count ≤ b.address + b.bytes.size := by
  rw [Block.holds, Bool.and_eq_true, decide_eq_true_eq, decide_eq_true_eq]

namespace Memory

/-- Where each live block lies, and its length. -/
def shape (m : Memory) : List (Nat × Nat) := m.blocks.map fun b => (b.address, b.bytes.size)

/-- Every block ends before the next one, and the last of them where memory is not handed out yet. -/
structure Ordered (m : Memory) : Prop where
  apart : m.shape.Pairwise fun p q => p.1 + p.2 ≤ q.1
  below : ∀ p ∈ m.shape, p.1 + p.2 ≤ m.next

variable {m : Memory} {a n offset count count' : Nat}

theorem mem_shape : (a, n) ∈ m.shape ↔ ∃ b ∈ m.blocks, b.address = a ∧ b.bytes.size = n := by
  simp only [shape, List.mem_map, Prod.mk.injEq]

theorem Ordered.of_shape {m' : Memory} (h : m.Ordered) (hshape : m'.shape = m.shape) (hnext : m'.next = m.next) : m'.Ordered := by
  refine ⟨?_, ?_⟩
  · rw [hshape]
    exact h.apart
  · rw [hshape, hnext]
    exact h.below

/-! ### Handing out and taking back -/

theorem shape_allocate (m : Memory) (length : Nat) : (m.allocate length).2.shape = m.shape ++ [(m.next, length)] := by
  unfold shape allocate
  rw [List.map_append, List.map_cons, List.map_nil, Array.size_replicate]

theorem le_next_allocate (m : Memory) (length : Nat) : m.next + length ≤ (m.allocate length).2.next := by
  change m.next + length ≤ m.next + (max length 1 + 4096 - 1) / 4096 * 4096
  omega

theorem Ordered.allocate (h : m.Ordered) (length : Nat) : (m.allocate length).2.Ordered := by
  have hnext := le_next_allocate m length
  refine ⟨?_, ?_⟩
  · rw [shape_allocate, List.pairwise_append]
    refine ⟨h.apart, List.pairwise_singleton _ _, fun p hp q hq => ?_⟩
    rw [List.mem_singleton.1 hq]
    exact h.below p hp
  · intro p hp
    rw [shape_allocate, List.mem_append, List.mem_singleton] at hp
    rcases hp with hp | rfl
    · have := h.below p hp
      omega
    · exact hnext

theorem shape_free (m : Memory) (address : Nat) : (m.free address).shape = m.shape.filter (·.1 != address) := by
  unfold shape free
  rw [List.filter_map]
  rfl

/-! ### Access -/

theorem shape_update {f : Nat → Array Byte → Array Byte}
    (hf : ∀ offset bytes, offset + count ≤ bytes.size → (f offset bytes).size = bytes.size) :
    (m.update a count f).shape = m.shape := by
  unfold shape update
  rw [List.map_map]
  refine List.map_congr_left fun b _ => ?_
  by_cases hb : b.holds a count = true
  · have hbounds := Block.holds_iff.1 hb
    rw [Function.comp_apply, if_pos hb, hf (a - b.address) b.bytes (by omega)]
  · rw [Function.comp_apply, if_neg hb]

@[simp] theorem shape_store (value : Nat) : (m.store a count value).shape = m.shape :=
  shape_update fun _ _ _ => LittleEndian.size_write

@[simp] theorem shape_fill (data : Array Byte) : (m.fill a data).shape = m.shape :=
  shape_update fun _ _ => LittleEndian.size_copy

@[simp] theorem shape_clear (length : Nat) : (m.clear a length).shape = m.shape := shape_fill _

@[simp] theorem next_store (value : Nat) : (m.store a count value).next = m.next := rfl

@[simp] theorem next_fill (data : Array Byte) : (m.fill a data).next = m.next := rfl

@[simp] theorem next_clear (length : Nat) : (m.clear a length).next = m.next := rfl

/-- An access inside a block is to that block. -/
theorem Ordered.find?_of_mem (h : m.Ordered) {b : Block} (hb : b ∈ m.blocks) (hcount : 0 < count) (hlow : b.address ≤ a)
    (hhigh : a + count ≤ b.address + b.bytes.size) : m.blocks.find? (·.holds a count) = some b := by
  obtain ⟨before, after, hblocks⟩ := List.append_of_mem hb
  rw [List.find?_eq_some_iff_append]
  refine ⟨Block.holds_iff.2 ⟨hlow, hhigh⟩, before, after, hblocks, fun b' hb' => ?_⟩
  have hapart := h.apart
  rw [shape, List.pairwise_map, hblocks] at hapart
  have hle := (List.pairwise_append.1 hapart).2.2 b' hb' b List.mem_cons_self
  simp only [Block.holds, Bool.not_eq_true', Bool.and_eq_false_iff, decide_eq_false_iff_not]
  right
  dsimp only at hle
  omega

theorem Ordered.find? (h : m.Ordered) (hlive : (a, n) ∈ m.shape) (hcount : 0 < count) (hfits : offset + count ≤ n) :
    ∃ b ∈ m.blocks, m.blocks.find? (·.holds (a + offset) count) = some b ∧ b.address = a ∧ b.bytes.size = n := by
  obtain ⟨b, hb, rfl, rfl⟩ := mem_shape.1 hlive
  exact ⟨b, hb, h.find?_of_mem hb hcount (Nat.le_add_right _ _) (by omega), rfl, rfl⟩

/-- **What is stored inside a block is loaded from there.** -/
theorem Ordered.load?_store (h : m.Ordered) (hlive : (a, n) ∈ m.shape) (hcount : 0 < count') (hle : count' ≤ count)
    (hfits : offset + count ≤ n) (value : Nat) :
    (m.store (a + offset) count value).load? (a + offset) count' = some (value % 256 ^ count') := by
  have hstored : (m.store (a + offset) count value).Ordered := h.of_shape (shape_store value) rfl
  have hlive' : (a, n) ∈ (m.store (a + offset) count value).shape := by rwa [shape_store]
  obtain ⟨b', hmem, hfind, ha, hn⟩ := hstored.find? hlive' hcount (Nat.le_trans (by omega : offset + count' ≤ _) hfits)
  rw [load?, hfind, Option.map_some, ha, Nat.add_sub_cancel_left]
  obtain ⟨b, -, rfl⟩ := List.mem_map.1 hmem
  by_cases hb : b.holds (a + offset) count = true
  · rw [if_pos hb] at ha hn ⊢
    dsimp only at ha hn ⊢
    rw [LittleEndian.size_write] at hn
    rw [ha, Nat.add_sub_cancel_left, LittleEndian.read_write hle (by omega)]
  · rw [if_neg hb] at ha hn
    exact absurd (Block.holds_iff.2 ⟨by omega, by omega⟩) hb

end Memory
end Simulation
end AudioBringup
