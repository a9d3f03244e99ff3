import AudioBringup.Proofs.BufferSplit
import AudioBringup.Proofs.Light
/-!
# Proofs.Loaded — an engine pointed at a waveform

What `program` writes into a buffer list, into the sample buffer and into the descriptor of an engine (`Loaded`) is what the
device has to find there to play the waveform and nothing else (`Loaded.plays`).
-/
namespace AudioBringup

open Procedure

/-- One record of a buffer list, as the device reads it. -/
structure BufferRecord where
  address : BitVec 64
  length : BitVec 32
  flags : BitVec 32
  deriving Repr, DecidableEq

namespace BufferRecord

def blank : BufferRecord := ⟨0, 0, 0⟩

/-- The record a piece is written as. -/
def ofPiece (piece : BufferPiece) : BufferRecord :=
  ⟨piece.address, piece.length, if piece.interruptOnCompletion then 1 else 0⟩

/-- The record stays inside a region. -/
def Inside (r : BufferRecord) (g : Region) : Prop :=
  g.address.toNat ≤ r.address.toNat ∧ r.address.toNat + r.length.toNat ≤ g.address.toNat + g.length

end BufferRecord

namespace Arena

/-- Record `i` of a buffer list. -/
def record (w : Arena) (list : Region) (i : Nat) : BufferRecord :=
  let place := list.host + i * BufferList.recordLength
  ⟨load64 w.memory place, load32 w.memory (place + 8), load32 w.memory (place + 12)⟩

/-- The last record that an engine was told to use. -/
def lastValid (w : Arena) (e : StreamEngine) : Nat := (load16 w.written (e.base + Register.sdlvi).toNat).toNat

/-- The records that an engine was told to use, in order. -/
def records (w : Arena) (e : StreamEngine) : List BufferRecord := (List.range (w.lastValid e + 1)).map (w.record e.list)

/-- **The engine plays exactly `waveform`**: out of the live region `sample`, in `parts` pieces. -/
structure Plays (w : Arena) (e : StreamEngine) (sample : Region) (parts : Nat) (waveform : Array Byte) : Prop where
  live : sample ∈ w.live
  count : w.lastValid e + 1 = parts
  listed : load32 w.written (e.base + Register.sdbdpu).toNat ++ load32 w.written (e.base + Register.sdbdpl).toNat =
    e.list.address
  inside : ∀ r ∈ w.records e, r.Inside sample
  aligned : ∀ r ∈ w.records e, r.address.toNat % 128 = 0
  plain : ∀ r ∈ w.records e, r.flags = 0
  total : (load32 w.written (e.base + Register.sdcbl).toNat).toNat = waveform.size
  sum : ((w.records e).map (·.length.toNat)).sum = waveform.size
  heard : (w.records e).flatMap (fun r => w.fetch r.address.toNat r.length.toNat) = waveform.toList.map some
  blank : ∀ i, w.lastValid e < i → (i + 1) * BufferList.recordLength ≤ e.list.length → w.record e.list i = .blank

/-- What was written for an engine to play `waveform` out of `sample`. -/
structure Loaded (w : Arena) (e : StreamEngine) (sample : Region) (parts : Nat) (waveform : Array Byte) : Prop where
  shape : BufferList.checkShape waveform.size parts = .ok ()
  long : waveform.size ≤ sample.length
  records : ∀ i < parts, w.record e.list i = .ofPiece (BufferList.piece sample.address waveform.size parts i)
  samples : ∀ k (hk : k < waveform.size), w.memory (sample.host + k) = waveform[k]
  last : load16 w.written (e.base + Register.sdlvi).toNat = BitVec.ofNat 16 (parts - 1)
  total : load32 w.written (e.base + Register.sdcbl).toNat = BitVec.ofNat 32 waveform.size
  lower : load32 w.written (e.base + Register.sdbdpl).toNat = Bits.field e.list.address 0 32
  upper : load32 w.written (e.base + Register.sdbdpu).toNat = Bits.field e.list.address 32 32

variable {w w' : Arena} {e : StreamEngine} {g list : Region} {parts i k : Nat} {waveform : Array Byte}
  {scratch : List Region}

/-- There is nothing in a buffer list from record `parts` on. -/
def BlankFrom (w : Arena) (parts : Nat) (list : Region) : Prop :=
  ∀ k, parts * BufferList.recordLength ≤ k → k < list.length → w.memory (list.host + k) = 0

theorem record_congr (h : ∀ k < BufferList.recordLength,
    w'.memory (list.host + i * BufferList.recordLength + k) = w.memory (list.host + i * BufferList.recordLength + k)) :
    w'.record list i = w.record list i := by
  have hlength : BufferList.recordLength = 16 := rfl
  unfold record
  refine BufferRecord.mk.injEq .. ▸ ⟨load64_congr fun k hk => h k (by omega), load32_congr fun k hk => ?_,
    load32_congr fun k hk => ?_⟩
  · rw [Nat.add_assoc]
    exact h (8 + k) (by omega)
  · rw [Nat.add_assoc]
    exact h (12 + k) (by omega)

theorem BlankFrom.record (h : w.BlankFrom parts list) (hi : parts ≤ i)
    (hlong : (i + 1) * BufferList.recordLength ≤ list.length) : w.record list i = .blank := by
  have hlength : BufferList.recordLength = 16 := rfl
  have hnext : (i + 1) * BufferList.recordLength = i * BufferList.recordLength + BufferList.recordLength :=
    Nat.succ_mul _ _
  have hfrom : parts * BufferList.recordLength ≤ i * BufferList.recordLength := Nat.mul_le_mul_right _ hi
  have hzero : ∀ k < 16, w.memory (list.host + i * BufferList.recordLength + k) = 0 := by
    intro k hk
    rw [Nat.add_assoc]
    exact h _ (by omega) (by omega)
  have hblank : ∀ p, (∀ k < 4, w.memory (p + k) = 0) → load32 w.memory p = 0 := fun p hp =>
    (load32_congr hp : _ = load32 (fun _ => 0#8) p).trans (by simp [load32])
  unfold Arena.record load64
  refine BufferRecord.mk.injEq .. ▸ ⟨?_, hblank _ fun k hk => ?_, hblank _ fun k hk => ?_⟩
  · rw [hblank _ fun k hk => ?_, hblank _ fun k hk => hzero k (by omega)]
    · rfl
    · rw [Nat.add_assoc]
      exact hzero (4 + k) (by omega)
  · rw [Nat.add_assoc]
    exact hzero (8 + k) (by omega)
  · rw [Nat.add_assoc]
    exact hzero (12 + k) (by omega)

/-! ### What was written is what is played -/

theorem Loaded.parts_le (h : w.Loaded e g parts waveform) : parts ≠ 0 ∧ parts ≤ 256 := by
  obtain ⟨hparts, hmax, -, -⟩ := BufferList.checkShape_ok.1 h.shape
  exact ⟨hparts, hmax⟩

theorem Loaded.lastValid (h : w.Loaded e g parts waveform) : w.lastValid e = parts - 1 := by
  have hparts := h.parts_le
  unfold Arena.lastValid
  rw [h.last, BitVec.toNat_ofNat]
  omega

theorem Loaded.records_eq (h : w.Loaded e g parts waveform) : w.records e =
    (List.range parts).map fun i => .ofPiece (BufferList.piece g.address waveform.size parts i) := by
  have hparts := h.parts_le
  unfold Arena.records
  rw [h.lastValid, Nat.sub_add_cancel (by omega)]
  exact List.map_congr_left fun i hi => h.records i (List.mem_range.1 hi)

theorem Loaded.forall_records {Q : BufferRecord → Prop} (h : w.Loaded e g parts waveform)
    (hQ : ∀ i < parts, Q (.ofPiece (BufferList.piece g.address waveform.size parts i))) : ∀ r ∈ w.records e, Q r := by
  intro r hr
  rw [h.records_eq] at hr
  obtain ⟨i, hi, rfl⟩ := List.mem_map.1 hr
  exact hQ i (List.mem_range.1 hi)

theorem Loaded.size_pos (h : w.Loaded e g parts waveform) : 0 < waveform.size := by
  obtain ⟨hparts, -, -, hmin⟩ := BufferList.checkShape_ok.1 h.shape
  simp only [BufferList.minLength, BufferList.alignment] at hmin
  omega

theorem Loaded.size_lt (h : w.Loaded e g parts waveform) : waveform.size < 2 ^ 32 := by
  obtain ⟨-, -, hsize, -⟩ := BufferList.checkShape_ok.1 h.shape
  omega

/-- A piece begins at its boundary in the sample buffer. -/
theorem Loaded.address (hw : w.Lawful) (hg : g ∈ w.live) (h : w.Loaded e g parts waveform) (hi : i < parts) :
    (BufferList.piece g.address waveform.size parts i).address.toNat =
      g.address.toNat + BufferList.boundary waveform.size parts i := by
  obtain ⟨-, hfits⟩ := hw.placed g hg
  have hlong := h.long
  exact BufferList.piece_address hi h.size_pos (by omega)

/-- A piece ends where the next one begins. -/
theorem Loaded.length (h : w.Loaded e g parts waveform) (hi : i < parts) :
    (BufferList.piece g.address waveform.size parts i).length.toNat =
      BufferList.boundary waveform.size parts (i + 1) - BufferList.boundary waveform.size parts i := by
  obtain ⟨-, -, hsize, -⟩ := BufferList.checkShape_ok.1 h.shape
  exact BufferList.piece_length hi hsize _

/-- The two halves of the list's address were written as they are. -/
theorem Loaded.listed (h : w.Loaded e g parts waveform) :
    load32 w.written (e.base + Register.sdbdpu).toNat ++ load32 w.written (e.base + Register.sdbdpl).toNat =
      e.list.address := by
  rw [h.upper, h.lower]
  unfold Bits.field
  rw [BitVec.extractLsb'_append_extractLsb'_eq_extractLsb' (by decide)]
  exact BitVec.extractLsb'_eq_self

theorem Loaded.inside (hw : w.Lawful) (hg : g ∈ w.live) (h : w.Loaded e g parts waveform) :
    ∀ r ∈ w.records e, r.Inside g := h.forall_records fun i hi => by
  have hlong := h.long
  have hend : BufferList.boundary waveform.size parts (i + 1) ≤ waveform.size := BufferList.boundary_le hi
  have hclimbs : BufferList.boundary waveform.size parts i ≤ BufferList.boundary waveform.size parts (i + 1) :=
    BufferList.boundary_climbs hi
  simp only [BufferRecord.Inside, BufferRecord.ofPiece, h.address hw hg hi, h.length hi]
  omega

theorem Loaded.aligned (hw : w.Lawful) (hg : g ∈ w.live) (h : w.Loaded e g parts waveform) :
    ∀ r ∈ w.records e, r.address.toNat % 128 = 0 := h.forall_records fun i hi => by
  obtain ⟨hpage, -⟩ := hw.placed g hg
  have hboundary : BufferList.boundary waveform.size parts i % BufferList.alignment = 0 := BufferList.boundary_aligned hi
  simp only [BufferList.alignment] at hboundary
  simp only [BufferRecord.ofPiece, h.address hw hg hi]
  omega

theorem Loaded.sum (h : w.Loaded e g parts waveform) : ((w.records e).map (·.length.toNat)).sum = waveform.size := by
  rw [h.records_eq, List.map_map]
  refine Eq.trans (congrArg List.sum (List.map_congr_left fun i hi => ?_)) (BufferList.sum_boundaries h.parts_le.1)
  exact h.length (List.mem_range.1 hi)

/-- What the device finds in a piece is the stretch of the sample buffer from its boundary to the next. -/
theorem Loaded.fetch_piece (hw : w.Lawful) (hg : g ∈ w.live) (h : w.Loaded e g parts waveform) (hi : i < parts) :
    w.fetch (BufferList.piece g.address waveform.size parts i).address.toNat
        (BufferList.piece g.address waveform.size parts i).length.toNat =
      (List.range (BufferList.boundary waveform.size parts (i + 1) - BufferList.boundary waveform.size parts i)).map
        fun j => w.device (g.address.toNat + (BufferList.boundary waveform.size parts i + j)) := by
  rw [h.address hw hg hi, h.length hi]
  simp only [fetch, Nat.add_assoc]

theorem Loaded.device_at (hw : w.Lawful) (hg : g ∈ w.live) (h : w.Loaded e g parts waveform) (hk : k < waveform.size) :
    w.device (g.address.toNat + k) = some waveform[k] := by
  have hlong := h.long
  rw [hw.device_at hg (by omega), h.samples k hk]

/-- The pieces, one after another, are the waveform. -/
theorem Loaded.heard (hw : w.Lawful) (hg : g ∈ w.live) (h : w.Loaded e g parts waveform) :
    (w.records e).flatMap (fun r => w.fetch r.address.toNat r.length.toNat) = waveform.toList.map some := by
  rw [h.records_eq, List.flatMap_map, List.flatMap_def]
  simp only [BufferRecord.ofPiece]
  rw [List.map_congr_left fun i hi => h.fetch_piece hw hg (List.mem_range.1 hi), ← List.flatMap_def,
    BufferList.flatMap_boundaries (fun k => w.device (g.address.toNat + k)) h.parts_le.1 (Nat.le_refl _),
    BufferList.boundary_last]
  refine List.ext_getElem (by simp) fun k hk _ => ?_
  have hk : k < waveform.size := by simpa using hk
  rw [List.getElem_map, List.getElem_range, h.device_at hw hg hk]
  simp

theorem Loaded.plays (hw : w.Lawful) (hg : g ∈ w.live) (hblank : w.BlankFrom parts e.list)
    (h : w.Loaded e g parts waveform) : w.Plays e g parts waveform where
  live := hg
  count := by
    have hparts := h.parts_le
    rw [h.lastValid]
    omega
  listed := h.listed
  inside := h.inside hw hg
  aligned := h.aligned hw hg
  plain := h.forall_records fun _ _ => rfl
  total := by rw [h.total, BitVec.toNat_ofNat, Nat.mod_eq_of_lt h.size_lt]
  sum := h.sum
  heard := h.heard hw hg
  blank i hi hroom := by
    rw [h.lastValid] at hi
    exact hblank.record (by omega) hroom

end Arena
end AudioBringup
