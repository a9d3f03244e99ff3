import AudioBringup.Proofs.RegisterFile
import AudioBringup.Proofs.Sine
/-!
# Proofs.Rendering — a tone in containers

A rendered tone is a row of containers of one size, as many for each frame as there are channels, and each reads back as the
sample of its frame brought to the size of the container (`toInt_container`).  Every rate is short enough for the wave to
stay in its words, so the whole tone does wherever its last phase does (`renderInWords_eq`).
-/
namespace AudioBringup
namespace Tone

open Word

variable {format : StreamFormat} {tone : Tone} {s : BitVec 16} {i c bytes : Nat}

/-! ### Rows of one size -/

theorem length_flatten_row {α : Type} {size : Nat} : ∀ {row : List (List α)}, (∀ box ∈ row, box.length = size) →
    row.flatten.length = row.length * size
  | [], _ => by simp
  | box :: row, h => by
    rw [List.flatten_cons, List.length_append, h box List.mem_cons_self,
      length_flatten_row fun b hb => h b (List.mem_cons_of_mem _ hb), List.length_cons, Nat.succ_mul, Nat.add_comm]

/-- Where all boxes of a row are of one size, each begins at a multiple of it. -/
theorem getElem?_flatten_row {α : Type} {size k : Nat} (hk : k < size) : ∀ {row : List (List α)} {j : Nat},
    (∀ box ∈ row, box.length = size) → row.flatten[j * size + k]? = row[j]?.bind (·[k]?)
  | [], _, _ => by simp
  | box :: row, 0, h => by
    rw [List.flatten_cons, Nat.zero_mul, Nat.zero_add,
      List.getElem?_append_left (by rw [h box List.mem_cons_self]; exact hk)]
    rfl
  | box :: row, j + 1, h => by
    have hbox := h box List.mem_cons_self
    rw [List.flatten_cons, List.getElem?_append_right (by rw [hbox, Nat.succ_mul]; omega), List.getElem?_cons_succ,
      ← getElem?_flatten_row hk fun b hb => h b (List.mem_cons_of_mem _ hb), hbox,
      show (j + 1) * size + k - size = j * size + k by rw [Nat.succ_mul]; omega]

/-! ### Containers -/

/-- A sample brought to the size of its container. -/
def scaled (bytes : Nat) (s : Int) : Int :=
  match bytes with
  | 1 => s.fdiv 256
  | 2 => s
  | _ => s * 65536

theorem containerBytes_cases (format : StreamFormat) : containerBytes format = 1 ∨ containerBytes format = 2 ∨
    containerBytes format = 4 := by
  unfold containerBytes
  split <;> simp

theorem length_container (hbytes : bytes = 1 ∨ bytes = 2 ∨ bytes = 4) : (container bytes s).length = bytes := by
  rcases hbytes with rfl | rfl | rfl <;> rfl

/-- What a byte of a container is read as. -/
theorem getD_container {data : Array Byte} {o k : Nat} (hk : data[o + k]? = (container bytes s)[k]?) :
    data.getD (o + k) 0 = (container bytes s).getD k 0 := by
  rw [Array.getD_eq_getD_getElem?, hk, List.getD_eq_getElem?_getD]

/-- The number in a container. -/
theorem read_container {data : Array Byte} {o : Nat} (hbytes : bytes = 1 ∨ bytes = 2 ∨ bytes = 4)
    (hdata : ∀ k < bytes, data[o + k]? = (container bytes s)[k]?) :
    bytes = 1 ∧ LittleEndian.read 0 data o bytes = s.toNat / 256 ∨ bytes = 2 ∧ LittleEndian.read 0 data o bytes = s.toNat ∨
      bytes = 4 ∧ LittleEndian.read 0 data o bytes = 65536 * s.toNat := by
  have hs := s.isLt
  have hlow : (s.extractLsb' 0 8).toNat = s.toNat % 256 := by
    rw [BitVec.extractLsb'_toNat, Nat.shiftRight_zero]
  have hhigh : (s.extractLsb' 8 8).toNat = s.toNat / 256 := by
    rw [BitVec.extractLsb'_toNat, Nat.shiftRight_eq_div_pow]
    exact Nat.mod_eq_of_lt (by omega)
  rcases hbytes with rfl | rfl | rfl
  · have h0 : data.getD o 0 = s.extractLsb' 8 8 := (getD_container (hdata 0 (by decide))).trans rfl
    refine .inl ⟨rfl, ?_⟩
    simp only [LittleEndian.read, h0, hhigh]
    omega
  · have h0 : data.getD o 0 = s.extractLsb' 0 8 := (getD_container (hdata 0 (by decide))).trans rfl
    have h1 : data.getD (o + 1) 0 = s.extractLsb' 8 8 := (getD_container (hdata 1 (by decide))).trans rfl
    refine .inr (.inl ⟨rfl, ?_⟩)
    simp only [LittleEndian.read, h0, h1, hlow, hhigh]
    omega
  · have h0 : data.getD o 0 = 0 := (getD_container (hdata 0 (by decide))).trans rfl
    have h1 : data.getD (o + 1) 0 = 0 := (getD_container (hdata 1 (by decide))).trans rfl
    have h2 : data.getD (o + 1 + 1) 0 = s.extractLsb' 0 8 := (getD_container (hdata 2 (by decide))).trans rfl
    have h3 : data.getD (o + 1 + 1 + 1) 0 = s.extractLsb' 8 8 := (getD_container (hdata 3 (by decide))).trans rfl
    refine .inr (.inr ⟨rfl, ?_⟩)
    simp only [LittleEndian.read, h0, h1, h2, h3, hlow, hhigh, show (0 : Byte).toNat = 0 from rfl]
    omega

/-- **A container reads back as the sample** brought to its size. -/
theorem toInt_container {data : Array Byte} {o : Nat} (hbytes : bytes = 1 ∨ bytes = 2 ∨ bytes = 4)
    (hdata : ∀ k < bytes, data[o + k]? = (container bytes s)[k]?) :
    (BitVec.ofNat (8 * bytes) (LittleEndian.read 0 data o bytes)).toInt = scaled bytes s.toInt := by
  have hs := s.isLt
  have hsigned := BitVec.toInt_eq_toNat_cond s
  rcases read_container hbytes hdata with ⟨rfl, hread⟩ | ⟨rfl, hread⟩ | ⟨rfl, hread⟩
  · rw [hread, scaled, Int.fdiv_eq_ediv_of_nonneg _ (by decide), BitVec.toInt_eq_toNat_cond, BitVec.toNat_ofNat, hsigned]
    norm_num at hs ⊢
    split <;> split <;> omega
  · rw [hread]
    exact congrArg BitVec.toInt (BitVec.ofNat_toNat 16 s |>.trans (BitVec.setWidth_eq s))
  · change _ = s.toInt * 65536
    rw [hread, BitVec.toInt_eq_toNat_cond, BitVec.toNat_ofNat, hsigned]
    norm_num at hs ⊢
    split <;> split <;> omega

/-! ### The row -/

/-- The containers of a tone. -/
def boxes (tone : Tone) (format : StreamFormat) : List (List Byte) :=
  ((List.range (frames format tone)).map fun i => List.replicate format.channels
    (container (containerBytes format) (sine (i * tone.frequency) format.rate tone.amplitude))).flatten

theorem length_of_mem_boxes {box : List Byte} (hbox : box ∈ boxes tone format) : box.length = containerBytes format := by
  obtain ⟨l, hl, hbox⟩ := List.mem_flatten.1 hbox
  obtain ⟨i, -, rfl⟩ := List.mem_map.1 hl
  rw [List.eq_of_mem_replicate hbox]
  exact length_container (containerBytes_cases format)

/-- A frame has a box for each channel. -/
theorem length_of_mem_frames {l : List (List Byte)} {f : Nat → List Byte}
    (hl : l ∈ (List.range (frames format tone)).map fun i => List.replicate format.channels (f i)) :
    l.length = format.channels := by
  obtain ⟨i, -, rfl⟩ := List.mem_map.1 hl
  exact List.length_replicate

theorem length_boxes : (boxes tone format).length = frames format tone * format.channels := by
  rw [boxes, length_flatten_row fun _ => length_of_mem_frames, List.length_map, List.length_range]

/-- Each channel of a frame has the sample of the frame. -/
theorem getElem?_boxes (hi : i < frames format tone) (hc : c < format.channels) :
    (boxes tone format)[i * format.channels + c]? =
      some (container (containerBytes format) (sine (i * tone.frequency) format.rate tone.amplitude)) := by
  rw [boxes, getElem?_flatten_row hc fun _ => length_of_mem_frames, List.getElem?_map, List.getElem?_range hi]
  exact List.getElem?_replicate_of_lt hc

theorem toList_foldl_append {α : Type} {f : Nat → List α} : ∀ {l : List Nat} {data : Array α},
    (l.foldl (fun (data : Array α) i => data ++ f i) data).toList = data.toList ++ (l.map f).flatten
  | [], _ => by simp
  | i :: l, data => by
    rw [List.foldl_cons, toList_foldl_append, Array.toList_appendList, List.append_assoc, List.map_cons, List.flatten_cons]

/-- **A tone is its containers in a row.** -/
theorem render_eq : (render tone format).toList = (boxes tone format).flatten := by
  rw [render, toList_foldl_append, boxes]
  simp only [List.flatten_flatten, List.map_map]
  rfl

theorem size_render : (render tone format).size = frames format tone * format.channels * containerBytes format := by
  rw [← Array.length_toList, render_eq, length_flatten_row fun _ => length_of_mem_boxes, length_boxes]

/-- **Every channel of a frame reads back as the sample of the frame.** -/
theorem read_render (hi : i < frames format tone) (hc : c < format.channels) :
    (BitVec.ofNat (8 * containerBytes format) (LittleEndian.read 0 (render tone format)
      ((i * format.channels + c) * containerBytes format) (containerBytes format))).toInt =
    scaled (containerBytes format) (sine (i * tone.frequency) format.rate tone.amplitude).toInt := by
  refine toInt_container (containerBytes_cases format) fun k hk => ?_
  rw [← Array.getElem?_toList, render_eq, getElem?_flatten_row hk fun _ => length_of_mem_boxes, getElem?_boxes hi hc]
  rfl

/-! ### In words -/

/-- Samples per second, each number on the way held against its word. -/
def rateInWords (format : StreamFormat) : Option Nat := do
  quotient (← inWord 32 ((if format.base44100 then 44100 else 48000) * format.multiple)) format.divisor

/-- One frame, each number on the way held against its word. -/
def frameInWords (format : StreamFormat) (tone : Tone) (rate index : Nat) : Option (List Byte) := do
  let height ← waveInWords (← inWord 64 (index * tone.frequency)) rate tone.amplitude.toInt
  return (List.replicate format.channels (container (containerBytes format) (BitVec.ofInt 16 height))).flatten

/-- The tone, each number on the way held against its word, and the bytes asked for all of it against what one request may
be for. -/
def renderInWords (tone : Tone) (format : StreamFormat) : Option (Array Byte) := do
  let rate ← rateInWords format
  let frames ← quotient (← inWord 64 (rate * tone.duration)) 1000
  let _ ← inWord 63 ((← inWord 64 (frames * format.channels)) * containerBytes format)
  let samples ← (List.range frames).mapM (frameInWords format tone rate)
  return samples.flatten.toArray

theorem channels_le (format : StreamFormat) : format.channels ≤ 16 := by
  have hfield := (Bits.field format.raw 0 4).isLt
  unfold StreamFormat.channels
  omega

theorem multiple_le (format : StreamFormat) : format.multiple ≤ 8 := by
  have hfield := (Bits.field format.raw 11 3).isLt
  unfold StreamFormat.multiple
  omega

theorem divisor_le (format : StreamFormat) : format.divisor ≤ 8 := by
  have hfield := (Bits.field format.raw 8 3).isLt
  unfold StreamFormat.divisor
  omega

theorem base_bounds (format : StreamFormat) :
    44100 ≤ (if format.base44100 then 44100 else 48000) ∧ (if format.base44100 then 44100 else 48000) ≤ 48000 := by
  split <;> decide

/-- **No format has a rate of nothing**, whatever its divisor. -/
theorem rate_pos (format : StreamFormat) : 0 < format.rate := by
  have hbase := (base_bounds format).1
  have hmultiple : 0 < format.multiple := Nat.succ_pos _
  have hdivisor := divisor_le format
  refine Nat.div_pos ?_ (Nat.succ_pos _)
  calc format.divisor ≤ 44100 * 1 := by omega
    _ ≤ _ := Nat.mul_le_mul hbase hmultiple

theorem rate_le (format : StreamFormat) : format.rate ≤ 384000 :=
  calc format.rate ≤ _ := Nat.div_le_self _ _
    _ ≤ 48000 * 8 := Nat.mul_le_mul (base_bounds format).2 (multiple_le format)

theorem rateInWords_eq (format : StreamFormat) : rateInWords format = some format.rate := by
  have hroom : (if format.base44100 then 44100 else 48000) * format.multiple < 2 ^ 32 :=
    Nat.lt_of_le_of_lt (Nat.mul_le_mul (base_bounds format).2 (multiple_le format)) (by decide)
  unfold rateInWords
  rw [inWord_of_lt hroom]
  exact quotient_of_ne (Nat.succ_ne_zero _)

theorem frameInWords_eq (hroom : i * tone.frequency < 2 ^ 64) :
    frameInWords format tone format.rate i = some (frame format tone i) := by
  unfold frameInWords
  rw [inWord_of_lt hroom]
  simp only [Option.bind_eq_bind, Option.bind_some]
  rw [waveInWords_eq (rate_pos format) (Nat.le_trans (rate_le format) (by decide))]
  rfl

/-- What a tone takes at most, on each step of working it out. -/
theorem rooms (format : StreamFormat) (hduration : tone.duration < 2 ^ 32) :
    format.rate * tone.duration < 2 ^ 64 ∧ frames format tone * format.channels < 2 ^ 64 ∧
      frames format tone * format.channels * containerBytes format < 2 ^ 63 := by
  have hlength : format.rate * tone.duration ≤ 384000 * 0xffffffff := Nat.mul_le_mul (rate_le format) (by omega)
  have hframes : frames format tone ≤ 384 * 0xffffffff := by
    unfold frames
    omega
  have hsamples : frames format tone * format.channels ≤ 384 * 0xffffffff * 16 :=
    Nat.mul_le_mul hframes (channels_le format)
  have hbytes : frames format tone * format.channels * containerBytes format ≤ 384 * 0xffffffff * 16 * 4 :=
    Nat.mul_le_mul hsamples (by have := containerBytes_cases format; omega)
  omega

/-- **Nothing overflows on the way to a tone** whose last phase is in its word. -/
theorem renderInWords_eq (hduration : tone.duration < 2 ^ 32) (hfits : frames format tone * tone.frequency < 2 ^ 64) :
    renderInWords tone format = some (render tone format) := by
  obtain ⟨hlength, hsamples, hbytes⟩ := rooms format hduration
  have hframe : ∀ i ∈ List.range (frames format tone), frameInWords format tone format.rate i = some (frame format tone i) :=
    fun i hi => frameInWords_eq (Nat.lt_of_le_of_lt (Nat.mul_le_mul_right _ (Nat.le_of_lt (List.mem_range.1 hi))) hfits)
  simp only [renderInWords, Option.bind_eq_bind, Option.bind_eq_some_iff]
  refine ⟨_, rateInWords_eq format, _, inWord_of_lt hlength, _, quotient_of_ne (by decide), _, inWord_of_lt hsamples, _,
    inWord_of_lt hbytes, _, mapM_eq_some hframe, congrArg some (Array.toList_inj.1 ?_)⟩
  rw [render, toList_foldl_append, Array.toList_empty, List.nil_append, frames]

/-! ### The whole -/

/-- **A tone is well defined, bounded and framed**, in every format there are bits for: where its last phase is in its word,
so is every number on the way to it and nothing is divided by zero, no step of the wave stands higher than the amplitude, and
every channel of every frame reads back as the sample of the frame. -/
theorem render_framed (format : StreamFormat) (frequency duration : BitVec 32) (amplitude : BitVec 16)
    (hfits : format.rate * duration.toNat / 1000 * frequency.toNat < 2 ^ 64) :
    let frames := format.rate * duration.toNat / 1000
    let tone : Tone := ⟨frequency.toNat, amplitude, duration.toNat⟩
    let bytes := containerBytes format
    0 < format.rate ∧ renderInWords tone format = some (render tone format) ∧
    (format.bits = 0 → bytes = 1) ∧ (format.bits = 1 → bytes = 2) ∧ (1 < format.bits → bytes = 4) ∧
    (render tone format).size = frames * format.channels * bytes ∧
    ∀ i < frames,
      waveInWords (i * frequency.toNat) format.rate amplitude.toInt =
        some (wave (i * frequency.toNat) format.rate amplitude.toInt) ∧
      (wave (i * frequency.toNat) format.rate amplitude.toInt).natAbs ≤ amplitude.toInt.natAbs ∧
      ∀ c < format.channels,
        (BitVec.ofNat (8 * bytes)
          (LittleEndian.read 0 (render tone format) ((i * format.channels + c) * bytes) bytes)).toInt =
        scaled bytes (sine (i * frequency.toNat) format.rate amplitude).toInt := by
  refine ⟨rate_pos format, renderInWords_eq duration.isLt hfits, ?_, ?_, ?_, size_render, fun i hi =>
    ⟨waveInWords_eq (rate_pos format) (Nat.le_trans (rate_le format) (by decide)), natAbs_wave_le, fun c hc =>
      read_render hi hc⟩⟩
  · intro h
    simp only [containerBytes, h]
  · intro h
    simp only [containerBytes, h]
  · intro h
    unfold containerBytes
    split <;> omega

/-- A tone of sixteen frames in four channels of eight bits, at a third of the base rate. -/
theorem render_framed_low : (⟨0x0203⟩ : StreamFormat).rate * 1 / 1000 * 8000 < 2 ^ 64 ∧
    (render ⟨8000, 0x8000, 1⟩ ⟨0x0203⟩).size = 16 * 4 * 1 :=
  have hfits : (⟨0x0203⟩ : StreamFormat).rate * (1 : BitVec 32).toNat / 1000 * (8000 : BitVec 32).toNat < 2 ^ 64 := by decide
  ⟨hfits, (render_framed ⟨0x0203⟩ 8000 1 0x8000 hfits).2.2.2.2.2.1⟩

end Tone
end AudioBringup
