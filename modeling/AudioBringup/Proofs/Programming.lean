import AudioBringup.Proofs.Loaded
/-!
# Proofs.Programming — the steps that point an engine at a waveform

The records of the pieces go into the buffer list (`writePieces_writes`), the waveform into a sample buffer of its own
(`allocateSample_allocates`), and the rest into the descriptor of the engine (`loaded_of_described`).
-/
namespace AudioBringup

open Procedure

namespace Arena

variable {w w' w₁ w₂ : Arena} {e : StreamEngine} {g list : Region} {parts i k d : Nat} {waveform : Array Byte}
  {scratch : List Region}

/-! ### Memory that is kept -/

theorem Retains.trans (hlive : ∀ g ∈ w.live, g ∈ w₁.live) (h₁ : w.Retains w₁) (h₂ : w₁.Retains w₂) : w.Retains w₂ :=
  fun g hg k hk => (h₂ g (hlive g hg) k hk).trans (h₁ g hg k hk)

/-- What is written into a region that is apart from all others leaves them as they are. -/
theorem retains_of_apart (hg : ∀ g' ∈ w.live, g.Apart g')
    (h : ∀ p, (p < g.host ∨ g.host + g.length ≤ p) → w₂.memory p = w₁.memory p) (h₁ : w.Retains w₁) : w.Retains w₂ := by
  intro g' hg' k hk
  refine (h _ ?_).trans (h₁ g' hg' k hk)
  rcases (hg g' hg').1 with hapart | hapart <;> omega

theorem BlankFrom.retains (h : w.BlankFrom parts list) (hw : w.Retains w') (hg : list ∈ w.live) :
    w'.BlankFrom parts list := fun k hfrom hk => (hw list hg k hk).trans (h k hfrom hk)

/-- What is played depends on the buffer list, the sample buffer and the descriptor only. -/
theorem Loaded.undisturbed (h : w.Loaded e g parts waveform) (hw : w.Undisturbed scratch w')
    (hlist : ∀ s ∈ scratch, s.Apart e.list) (hsample : ∀ s ∈ scratch, s.Apart g)
    (hlong : BufferList.length ≤ e.list.length) (hd : e.descriptor < 64) : w'.Loaded e g parts waveform := by
  have hparts := h.parts_le
  have hsize := h.long
  have hregister : ∀ {o : BitVec 32} {i : Nat}, 4 ≤ o.toNat → o.toNat + i < 32 →
      w'.written ((e.base + o).toNat + i) = w.written ((e.base + o).toNat + i) := by
    intro o i hlow hhigh
    refine hw.written _ ?_
    unfold StreamEngine.base
    rw [Register.toNat_stream hd (by omega)]
    exact ⟨by omega, by omega⟩
  refine ⟨h.shape, h.long, fun i hi => ?_, fun k hk => ?_, ?_, ?_, ?_, ?_⟩
  · refine (record_congr fun k hk => ?_).trans (h.records i hi)
    simp only [BufferList.length, BufferList.recordLength, BufferList.maxPieces] at hlong hk ⊢
    rw [Nat.add_assoc]
    exact hw.retains hlist (by omega)
  · exact (hw.retains hsample (by omega)).trans (h.samples k hk)
  · exact (load16_congr fun i hi => hregister (by decide) (by simp only [Register.sdlvi, BitVec.reduceToNat]; omega)).trans
      h.last
  · exact (load32_congr fun i hi => hregister (by decide) (by simp only [Register.sdcbl, BitVec.reduceToNat]; omega)).trans
      h.total
  · exact (load32_congr fun i hi => hregister (by decide) (by simp only [Register.sdbdpl, BitVec.reduceToNat]; omega)).trans
      h.lower
  · exact (load32_congr fun i hi => hregister (by decide) (by simp only [Register.sdbdpu, BitVec.reduceToNat]; omega)).trans
      h.upper

/-! ### The descriptor -/

/-- A descriptor at `base` as it is written for a waveform of `size` bytes in `parts` pieces. -/
def described (m : Nat → Byte) (base : BitVec 32) (size parts : Nat) (list : BitVec 64) (format : BitVec 16) : Nat → Byte :=
  let m := storeLow m (base + Register.sdcbl).toNat 4 (BitVec.ofNat 32 size)
  let m := storeLow m (base + Register.sdlvi).toNat 2 ((BitVec.ofNat 16 (parts - 1)).setWidth 32)
  let m := storeLow m (base + Register.sdbdpl).toNat 4 (Bits.field list 0 32)
  let m := storeLow m (base + Register.sdbdpu).toNat 4 (Bits.field list 32 32)
  storeLow m (base + Register.sdfmt).toNat 2 (format.setWidth 32)

/-- The fields of a descriptor do not get in each other's way. -/
theorem loaded_of_described {m : Nat → Byte} {format : BitVec 16} (hd : e.descriptor < 64)
    (hshape : BufferList.checkShape waveform.size parts = .ok ()) (hlong : waveform.size ≤ g.length)
    (hrecords : ∀ i < parts, w.record e.list i = .ofPiece (BufferList.piece g.address waveform.size parts i))
    (hsamples : ∀ k (hk : k < waveform.size), w.memory (g.host + k) = waveform[k])
    (hwritten : w.written = described m e.base waveform.size parts e.list.address format) :
    w.Loaded e g parts waveform := by
  have hfield : ∀ {o : BitVec 32}, o.toNat < 32 → (e.base + o).toNat = 128 + 32 * e.descriptor + o.toNat :=
    fun ho => Register.toNat_stream hd ho
  have hcbl : (e.base + Register.sdcbl).toNat = 128 + 32 * e.descriptor + 8 := hfield (by decide)
  have hlvi : (e.base + Register.sdlvi).toNat = 128 + 32 * e.descriptor + 12 := hfield (by decide)
  have hfmt : (e.base + Register.sdfmt).toNat = 128 + 32 * e.descriptor + 18 := hfield (by decide)
  have hbdpl : (e.base + Register.sdbdpl).toNat = 128 + 32 * e.descriptor + 24 := hfield (by decide)
  have hbdpu : (e.base + Register.sdbdpu).toNat = 128 + 32 * e.descriptor + 28 := hfield (by decide)
  generalize 128 + 32 * e.descriptor = base at hcbl hlvi hfmt hbdpl hbdpu
  have skip : ∀ {n : Nat} {m : Nat → Byte} {p q count : Nat} {v : BitVec n}, (p + 4 ≤ q ∨ q + count ≤ p) →
      load32 (storeLow m q count v) p = load32 m p := fun h =>
    load32_congr fun i hi => storeLow_of_disjoint (by omega)
  have skip16 : ∀ {n : Nat} {m : Nat → Byte} {p q count : Nat} {v : BitVec n}, (p + 2 ≤ q ∨ q + count ≤ p) →
      load16 (storeLow m q count v) p = load16 m p := fun h =>
    load16_congr fun i hi => storeLow_of_disjoint (by omega)
  have take : ∀ {m : Nat → Byte} {p : Nat} (v : BitVec 32), load32 (storeLow m p 4 v) p = v := fun v => load32_store32 _ _ v
  refine ⟨hshape, hlong, hrecords, hsamples, ?_, ?_, ?_, ?_⟩
  · rw [hwritten, hlvi, described, hcbl, hlvi, hfmt, hbdpl, hbdpu, skip16 (by omega), skip16 (by omega), skip16 (by omega)]
    refine (load16_storeLow (k := 0) _ (by decide)).trans (BitVec.eq_of_getLsbD_eq fun i hi => ?_)
    simp only [BitVec.getLsbD_extractLsb', BitVec.getLsbD_setWidth, hi, Nat.mul_zero, Nat.zero_add, decide_true,
      Bool.true_and]
    rw [decide_eq_true (by omega), Bool.true_and]
  · rw [hwritten, hcbl, described, hcbl, hlvi, hfmt, hbdpl, hbdpu, skip (by omega), skip (by omega), skip (by omega),
      skip (by omega), take]
  · rw [hwritten, hbdpl, described, hcbl, hlvi, hfmt, hbdpl, hbdpu, skip (by omega), skip (by omega), take]
  · rw [hwritten, hbdpu, described, hcbl, hlvi, hfmt, hbdpl, hbdpu, skip (by omega), take]

end Arena

namespace Streams

open Arena (world)

variable {σ : Type} {n : Nat} {s : σ} {w : Arena} {list : Region} {waveform : Array Byte} {parts : Nat}

/-! ### The buffer list -/

/-- The pieces are in the buffer list from `index` on, and nothing else was written. -/
structure Wrote (w : Arena) (list : Region) (index : Nat) (pieces : List BufferPiece) (w' : Arena) : Prop where
  live : w'.live = w.live
  written : w'.written = w.written
  records : ∀ j (hj : j < pieces.length), w'.record list (index + j) = .ofPiece pieces[j]
  memory : ∀ p, p < list.host + index * BufferList.recordLength ∨
    list.host + (index + pieces.length) * BufferList.recordLength ≤ p → w'.memory p = w.memory p

/-- A piece is written field by field. -/
def storePiece (w : Arena) (list : Region) (index : Nat) (piece : BufferPiece) : Arena :=
  let place := list.host + index * BufferList.recordLength
  let m := storeLow w.memory place 8 piece.address
  let m := storeLow m (place + 8) 4 piece.length
  { w with memory := storeLow m (place + 12) 4 (if piece.interruptOnCompletion then 1#32 else 0#32) }

theorem record_storePiece {piece : BufferPiece} {index : Nat} :
    (storePiece w list index piece).record list index = .ofPiece piece := by
  unfold Arena.record BufferRecord.ofPiece storePiece
  generalize list.host + index * BufferList.recordLength = place
  refine BufferRecord.mk.injEq .. ▸ ⟨?_, ?_, ?_⟩
  · refine (load64_congr fun i hi => ?_).trans (load64_storeLow (m := w.memory) piece.address)
    dsimp only
    rw [storeLow_of_disjoint (by omega), storeLow_of_disjoint (by omega)]
  · refine (load32_congr fun i hi => ?_).trans (load32_store32 (storeLow w.memory place 8 piece.address) _ piece.length)
    dsimp only
    rw [storeLow_of_disjoint (by omega)]
    rfl
  · exact load32_store32 _ _ _

theorem storePiece_memory {piece : BufferPiece} {index p : Nat}
    (hp : p < list.host + index * BufferList.recordLength ∨
      list.host + index * BufferList.recordLength + BufferList.recordLength ≤ p) :
    (storePiece w list index piece).memory p = w.memory p := by
  have hrecord : BufferList.recordLength = 16 := rfl
  unfold storePiece
  dsimp only
  rw [storeLow_of_disjoint (by omega), storeLow_of_disjoint (by omega), storeLow_of_disjoint (by omega)]

theorem writePieces_writes : ∀ {pieces : List BufferPiece} {index : Nat} {w : Arena},
    (index + pieces.length) * BufferList.recordLength ≤ list.length →
    Ensures world n (writePieces list index pieces) s w (.succeeds fun _ s' w' => s' = s ∧ Wrote w list index pieces w')
  | [], _, _, _ => ⟨rfl, rfl, rfl, fun _ hj => absurd hj (Nat.not_lt_zero _), fun _ _ => rfl⟩
  | piece :: rest, index, w, hlong => by
    have hrecord : BufferList.recordLength = 16 := rfl
    have hplace : index * BufferList.recordLength = 16 * index := Nat.mul_comm _ _
    have hnext : (index + 1) * BufferList.recordLength = index * BufferList.recordLength + 16 := Nat.succ_mul _ _
    have hend : (index + (piece :: rest).length) * BufferList.recordLength =
        (index + 1 + rest.length) * BufferList.recordLength := by
      rw [List.length_cons, Nat.add_comm rest.length, Nat.add_assoc]
    have hroom : (index + 1) * BufferList.recordLength ≤ (index + 1 + rest.length) * BufferList.recordLength :=
      Nat.mul_le_mul_right _ (Nat.le_add_right _ _)
    refine ensures_bind.2 ((ensures_store64 (by omega) (by omega)).2 ?_)
    rintro _ rfl
    refine ensures_bind.2 ((ensures_store32 (by omega) (by omega)).2 ?_)
    rintro _ rfl
    refine ensures_bind.2 ((ensures_store32 (by omega) (by omega)).2 ?_)
    rintro _ rfl
    have hrest : Ensures world n (writePieces list (index + 1) rest) s (storePiece w list index piece)
        (.succeeds fun _ s' w' => s' = s ∧ Wrote (storePiece w list index piece) list (index + 1) rest w') :=
      writePieces_writes (hend ▸ hlong)
    refine hrest.of_succeeds fun _ s' w' ⟨hs, h⟩ => ⟨hs, h.live, h.written, ?_, ?_⟩
    · rintro (_ | j) hj
      · refine (Arena.record_congr fun k hk => h.memory _ (.inl ?_)).trans record_storePiece
        rw [Nat.add_zero]
        omega
      · rw [show index + (j + 1) = index + 1 + j by omega]
        exact h.records j (Nat.lt_of_succ_lt_succ hj)
    · intro p hp
      exact (h.memory p (by omega)).trans (storePiece_memory (by omega))

/-! ### The sample buffer -/

/-- A region was had for the waveform, and the waveform is in it. -/
structure Sampled (w : Arena) (waveform : Array Byte) (g : Region) (w' : Arena) : Prop where
  granted : w.Grants waveform.size g
  live : w'.live = g :: w.live
  written : w'.written = w.written
  retains : w.Retains w'
  samples : ∀ k (hk : k < waveform.size), w'.memory (g.host + k) = waveform[k]

/-- **A buffer that was had is never given back at once**: what has a shape has pieces. -/
theorem allocateSample_allocates : Ensures world n (allocateSample waveform parts) s w
    ⟨fun r s' w' => s' = s ∧ BufferList.checkShape waveform.size parts = .ok () ∧
        r.2 = (List.range parts).map (BufferList.piece r.1.address waveform.size parts) ∧ Sampled w waveform r.1 w',
      fun _ s' w' => s' = s ∧ w' = w, fun _ => False, fun _ => False⟩ := by
  unfold allocateSample
  cases hshape : BufferList.checkShape waveform.size parts with
  | error e => exact ⟨rfl, rfl⟩
  | ok _ =>
    refine ensures_bind.2 (ensures_allocate.2 ?_)
    rintro (e | g) w₁ hw₁
    · exact ⟨rfl, hw₁⟩
    · obtain ⟨hgranted, hlive, hwritten, hretains⟩ := hw₁
      dsimp only [Outcome.after, Outcome.withOk]
      rw [BufferList.split_of_ok g.address hshape]
      have hlong := hgranted.long
      refine ensures_bind.2 ((ensures_fill (by omega)).2 ?_)
      rintro _ rfl
      refine ⟨rfl, rfl, rfl, hgranted, hlive, hwritten, ?_, fun k hk => storeAll_at hk⟩
      exact Arena.retains_of_apart hgranted.apart (fun p hp => storeAll_of_disjoint (by omega)) hretains

end Streams
end AudioBringup
