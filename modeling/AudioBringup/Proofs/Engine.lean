import AudioBringup.Playback.Streams
import AudioBringup.Proofs.Station
/-!
# Proofs.Engine — one stream engine of a simulated controller

A stream is stopped (`Idle`), running (`Going`) or has been told to stop and counts the looks until it has (`Winding`).
Putting one through its reset, describing what it plays and starting it touches nothing beyond its own descriptor; and one
that is told to stop has stopped after as many looks as its latency says.
-/
namespace AudioBringup

/-! ### The bits of a control register -/

namespace StreamControl

theorem reset_withReset (r : StreamControl) (set : Bool) : (r.withReset set).reset = set := Bits.getLsbD_withBit r.raw 0 set

theorem run_withReset (r : StreamControl) (set : Bool) : (r.withReset set).run = r.run := by
  cases set <;> simp [run, withReset, Bits.withBit]

/-- Where the reset bit stands in what is written to the low part. -/
theorem getLsbD_low_reset (r : StreamControl) : (r.low.setWidth 32).getLsbD 0 = r.reset := by simp [reset, low, Bits.field]

/-- Where the reset bit stands in what is read from the low part. -/
theorem reset_ofLow (v : BitVec 32) : (ofLow (v.setWidth 16)).reset = v.getLsbD 0 := by simp [reset, ofLow]

end StreamControl

namespace Simulation

open Procedure

attribute [local irreducible] LittleEndian.write LittleEndian.read

/-- Everything but the descriptors of the streams. -/
def BeforeStreams (q : Nat) : Prop := q < 0x80

instance : DecidablePred BeforeStreams := fun _ => inferInstanceAs (Decidable (_ < _))

namespace Station

variable {u : Rig} {σ : Type} {n k : Nat} {t : σ} {s s' : Station u} {P : Nat → Prop} {limit : WaitLimit}

/-- What the control register of a stream holds. -/
def control (k : Nat) (s : Station u) : BitVec 32 := s.device.load .word (0x80 + 0x20 * k)

/-- The stream has stopped, and none is being stopped. -/
structure Idle (k : Nat) (s : Station u) : Prop where
  calm : s.device.pendingStop = none
  run : (s.control k).getLsbD 1 = false

/-- The stream runs, and none is being stopped. -/
structure Going (k : Nat) (s : Station u) : Prop where
  calm : s.device.pendingStop = none
  run : (s.control k).getLsbD 1 = true

/-- The stream is being stopped, and has when it was looked at so often. -/
structure Winding (k reads : Nat) (s : Station u) : Prop where
  pending : s.device.pendingStop = some ⟨0x80 + 0x20 * k, some reads⟩
  run : (s.control k).getLsbD 1 = true

theorem control_of_spares (hd : s.device.Spares P s'.device) (hP : P (0x80 + 0x20 * k) ∧ P (0x81 + 0x20 * k)) :
    s'.control k = s.control k :=
  hd.load fun q hq hlt => by
    have hword : Width.word.bytes = 2 := rfl
    obtain rfl | rfl : q = 0x80 + 0x20 * k ∨ q = 0x81 + 0x20 * k := by omega
    · exact hP.1
    · exact hP.2

theorem Idle.of_spares (h : s.Idle k) (hd : s.device.Spares P s'.device)
    (hP : P 0x80 ∧ P (0x80 + 0x20 * k) ∧ P (0x81 + 0x20 * k)) : s'.Idle k :=
  ⟨(hd.stop hP.1).trans h.calm, by rw [control_of_spares hd hP.2]; exact h.run⟩

theorem Going.of_spares (h : s.Going k) (hd : s.device.Spares P s'.device)
    (hP : P 0x80 ∧ P (0x80 + 0x20 * k) ∧ P (0x81 + 0x20 * k)) : s'.Going k :=
  ⟨(hd.stop hP.1).trans h.calm, by rw [control_of_spares hd hP.2]; exact h.run⟩

theorem Idle.rests (h : s.Idle k) (hs : s.Becomes s.device s') : s'.Idle k :=
  h.of_spares (P := fun _ => True) hs.rests.toSpares ⟨trivial, trivial, trivial⟩

/-! ### Registers of a descriptor -/

theorem inert_stream {o : Nat} (ho : 0x70 ≤ o) : Device.Inert o := by
  simp only [Device.Inert, List.mem_cons, List.not_mem_nil, or_false, not_or]
  omega

theorem toNat_control (hk : k < 64) : (Register.stream k + Register.sdctl).toNat = 0x80 + 0x20 * k :=
  Register.toNat_stream hk (by decide)

theorem ensures_read_stream (hk : k < 64) (hcalm : s.device.pendingStop = none) :
    Ensures world n (read16 (Register.stream k + Register.sdctl)) t s (.succeeds fun a t' s' => t' = t ∧
      a = (s.control k).setWidth 16 ∧ s.Becomes s.device s') := by
  refine (ensures_read16_calm hcalm (by rw [toNat_control hk]; omega)).of_succeeds ?_
  rintro _ _ s' ⟨rfl, rfl, h⟩
  rw [toNat_control hk, Device.shown_of_inert (inert_stream (by omega))]
  exact ⟨rfl, rfl, h⟩

/-- Writing the control of a stream, unless that tells it to stop. -/
theorem ensures_write_stream {v : BitVec 16} (hk : k < 64) (hrun : (s.control k).getLsbD 1 = true → v.getLsbD 1 = true) :
    Ensures world n (write16 (Register.stream k + Register.sdctl) v) t s (.succeeds fun _ t' s' => t' = t ∧
      s'.device.pendingStop = s.device.pendingStop ∧ s'.control k = v.setWidth 32 ∧ s.device.Leaves BeforeStreams s'.device) := by
  refine (ensures_write16_inert (inert_stream (by rw [toNat_control hk]; omega)) fun _ => ?_).of_succeeds ?_
  · rw [toNat_control hk]
    exact hrun
  rintro _ _ s' ⟨rfl, h⟩
  rw [toNat_control hk] at h
  refine ⟨rfl, h.stop, ?_, h.leaves (Device.leaves_store fun q hq => ?_)⟩
  · have hsize : Device.fileSize = 4096 := rfl
    have hword : Width.word.bytes = 2 := rfl
    rw [control, h.load, Device.load_store (by rw [s.fits.size]; omega), truncate_setWidth16]
  · have hword : Width.word.bytes = 2 := rfl
    unfold BeforeStreams at hq
    omega

/-- **A stopped stream is through its reset** as soon as it is told, and has not moved. -/
theorem resetEngine_succeeds (hk : k < 64) (hlimit : 0 < limit.checks n) (h : s.Idle k) :
    Ensures world n (Streams.resetEngine (Register.stream k) limit) t s (.succeeds fun _ t' s' => t' = t ∧ s'.Idle k ∧
      s.device.Leaves BeforeStreams s'.device) := by
  refine (ensures_read_stream hk h.calm).andThen ?_
  rintro low _ s₁ ⟨rfl, rfl, h₁⟩
  have hidle₁ : s₁.Idle k := h.rests h₁
  refine (ensures_write_stream hk fun hrun => absurd (hidle₁.run.symm.trans hrun) Bool.false_ne_true).andThen ?_
  rintro _ _ s₂ ⟨rfl, hstop₂, hcontrol₂, h₂⟩
  have hidle₂ : s₂.Idle k := ⟨hstop₂.trans hidle₁.calm, by
    rw [hcontrol₂, StreamControl.getLsbD_low, StreamControl.run_withReset, StreamControl.run_withRun]⟩
  refine (ensures_poll hlimit (ensures_read_stream hk hidle₂.calm) ?_).andThen ?_
  · rw [StreamControl.reset_ofLow, hcontrol₂, StreamControl.getLsbD_low_reset, StreamControl.reset_withReset]
  rintro _ _ s₃ ⟨rfl, h₃⟩
  have hidle₃ : s₃.Idle k := hidle₂.rests h₃
  refine (ensures_read_stream hk hidle₃.calm).andThen ?_
  rintro low _ s₄ ⟨rfl, rfl, h₄⟩
  have hidle₄ : s₄.Idle k := hidle₃.rests h₄
  refine (ensures_write_stream hk fun hrun => absurd (hidle₄.run.symm.trans hrun) Bool.false_ne_true).andThen ?_
  rintro _ _ s₅ ⟨rfl, hstop₅, hcontrol₅, h₅⟩
  have hidle₅ : s₅.Idle k := ⟨hstop₅.trans hidle₄.calm, by
    rw [hcontrol₅, StreamControl.getLsbD_low, StreamControl.run_withReset, StreamControl.run_ofLow, hidle₃.run]⟩
  refine (ensures_poll hlimit (ensures_read_stream hk hidle₅.calm) ?_).of_succeeds ?_
  · rw [StreamControl.reset_ofLow, hcontrol₅, StreamControl.getLsbD_low_reset, StreamControl.reset_withReset]
    rfl
  · rintro _ _ s₆ ⟨rfl, h₆⟩
    exact ⟨rfl, hidle₅.rests h₆, ((((h₁.rests.trans h₂).trans h₃.rests).trans h₄.rests).trans h₅).trans h₆.rests⟩

/-! ### Describing what it plays -/

/-- Whatever stands behind the control of a stream does not move it. -/
theorem Idle.becomes {d : Device} (h : s.Idle k) (hs : s.Becomes d s') (hd : d.pendingStop = s.device.pendingStop)
    (hcontrol : d.load .word (0x80 + 0x20 * k) = s.control k) : s'.Idle k :=
  ⟨hs.stop.trans (hd.trans h.calm), by rw [control, hs.load, hcontrol, h.run]⟩

theorem leaves_store_stream {d : Device} {w : Width} {o : Nat} {v : BitVec 32} (ho : 0x80 ≤ o) :
    d.Leaves BeforeStreams (d.store w o v) :=
  Device.leaves_store fun q hq => by
    unfold BeforeStreams at hq
    omega

theorem describe_succeeds {α : Type} {x : Procedure σ α} {Q : Outcome σ α (Station u)} {length : BitVec 32}
    {last format : BitVec 16} {list : BitVec 64} (hk : k < 64) (h : s.Idle k)
    (hx : ∀ s', s'.Idle k → s.device.Leaves BeforeStreams s'.device → Ensures world n x t s' Q) :
    Ensures world n (do
      write32 (Register.stream k + Register.sdcbl) length
      write16 (Register.stream k + Register.sdlvi) last
      writeAddress (Register.stream k + Register.sdbdpl) (Register.stream k + Register.sdbdpu) list
      write16 (Register.stream k + Register.sdfmt) format
      x) t s Q := by
  have hword : Width.word.bytes = 2 := rfl
  have hcbl : (Register.stream k + Register.sdcbl).toNat = 0x80 + 0x20 * k + 0x08 := Register.toNat_stream hk (by decide)
  have hlvi : (Register.stream k + Register.sdlvi).toNat = 0x80 + 0x20 * k + 0x0c := Register.toNat_stream hk (by decide)
  have hbdpl : (Register.stream k + Register.sdbdpl).toNat = 0x80 + 0x20 * k + 0x18 := Register.toNat_stream hk (by decide)
  have hbdpu : (Register.stream k + Register.sdbdpu).toNat = 0x80 + 0x20 * k + 0x1c := Register.toNat_stream hk (by decide)
  have hfmt : (Register.stream k + Register.sdfmt).toNat = 0x80 + 0x20 * k + 0x12 := Register.toNat_stream hk (by decide)
  have hplain : ∀ {o}, o = 0x0c ∨ o = 0x12 → Device.isStreamControl (0x80 + 0x20 * k + o) = false := by
    simp only [Device.isStreamControl, Bool.and_eq_false_iff, decide_eq_false_iff_not, beq_eq_false_iff_ne]
    omega
  refine (ensures_write32_inert (inert_stream (by omega))).andThen ?_
  rintro _ t s₁ ⟨rfl, h₁⟩
  rw [hcbl] at h₁
  have hidle₁ := h.becomes h₁ rfl (Device.load_store_of_disjoint (by omega))
  refine (ensures_write16_inert (inert_stream (by omega)) fun hcontrol => ?_).andThen ?_
  · rw [hlvi, hplain (.inl rfl)] at hcontrol
    cases hcontrol
  rintro _ t s₂ ⟨rfl, h₂⟩
  rw [hlvi] at h₂
  have hidle₂ := hidle₁.becomes h₂ rfl (Device.load_store_of_disjoint (by omega))
  refine (ensures_writeAddress_inert list (inert_stream (by omega)) (inert_stream (by omega))).andThen ?_
  rintro _ t s₃ ⟨rfl, h₃⟩
  rw [hbdpl, hbdpu] at h₃
  have hidle₃ := hidle₂.becomes h₃ rfl
    ((Device.load_store_of_disjoint (by omega)).trans (Device.load_store_of_disjoint (by omega)))
  refine (ensures_write16_inert (inert_stream (by omega)) fun hcontrol => ?_).andThen ?_
  · rw [hfmt, hplain (.inr rfl)] at hcontrol
    cases hcontrol
  rintro _ t s₄ ⟨rfl, h₄⟩
  rw [hfmt] at h₄
  refine hx s₄ (hidle₃.becomes h₄ rfl (Device.load_store_of_disjoint (by omega))) ?_
  exact (((h₁.leaves (leaves_store_stream (by omega))).trans (h₂.leaves (leaves_store_stream (by omega)))).trans
    (h₃.leaves ((leaves_store_stream (by omega)).trans (leaves_store_stream (by omega))))).trans
    (h₄.leaves (leaves_store_stream (by omega)))

/-! ### Starting -/

/-- Everything but the descriptors and the bits that hold streams back. -/
def BeforeSync (q : Nat) : Prop := q < 0x38 ∨ (0x3c ≤ q ∧ q < 0x80)

/-- Holding a stream back, or letting it go, where that is wanted. -/
theorem ensures_writeIf_sync {wanted : Bool} {v : BitVec 32} {rest : Procedure σ Unit} {Q : Outcome σ Unit (Station u)}
    (hcalm : s.device.pendingStop = none)
    (hrest : ∀ s', s'.device.pendingStop = none → s'.control k = s.control k → s.device.Leaves BeforeSync s'.device →
      Ensures world n rest t s' Q) :
    Ensures world n (if wanted then (do
      write32 Register.ssync v
      rest) else rest) t s Q := by
  have hdword : Width.dword.bytes = 4 := rfl
  have hword : Width.word.bytes = 2 := rfl
  have hsync : Register.ssync.toNat = 0x38 := rfl
  cases wanted with
  | false => exact hrest s hcalm rfl .refl
  | true =>
    refine (ensures_write32_inert (by decide)).andThen ?_
    rintro _ _ s' ⟨rfl, h⟩
    refine hrest s' (h.stop.trans hcalm) ?_ (h.leaves (Device.leaves_store fun q hq => ?_))
    · rw [control, h.load]
      exact Device.load_store_of_disjoint (by omega)
    · unfold BeforeSync at hq
      omega

/-- **A stream that is started runs.** -/
theorem startEngine_succeeds {streams : Streams} {e : StreamEngine} {c : Controller} (he : streams.programmedEngine = some e)
    (hk : e.descriptor < 64) (h : s.Idle e.descriptor) : Ensures world n streams.start c s (.succeeds fun _ c' s' => c' = c ∧
      s'.Going e.descriptor ∧ s.device.Leaves BeforeSync s'.device) := by
  have hbyte : Width.byte.bytes = 1 := rfl
  have hword : Width.word.bytes = 2 := rfl
  have hhigh : (Register.stream e.descriptor + Register.sdctlHigh).toNat = 0x80 + 0x20 * e.descriptor + 2 :=
    Register.toNat_stream hk (by decide)
  refine ensures_get_bind.2 ?_
  rw [he]
  refine (ensures_read_stream hk h.calm).andThen ?_
  rintro low c s₁ ⟨rfl, -, h₁⟩
  refine (ensures_read8_calm (h₁.stop.trans h.calm) (by rw [StreamEngine.base, hhigh]; omega)).andThen ?_
  rintro high c s₂ ⟨rfl, -, h₂⟩
  have hidle₂ : s₂.Idle e.descriptor := (h.rests h₁).rests h₂
  dsimp only
  have hrun : (((((((StreamControl.ofParts low high).withReset false).withNumber c.config.streamTag).withPriority
      true).withRun true).low).setWidth 32).getLsbD 1 = true := by
    rw [StreamControl.getLsbD_low, StreamControl.run_withRun]
  generalize ((((StreamControl.ofParts low high).withReset false).withNumber c.config.streamTag).withPriority true).withRun
    true = control at hrun
  have hbit : control.low.getLsbD 1 = true := by
    rw [BitVec.getLsbD_setWidth] at hrun
    exact hrun
  refine (ensures_write8_inert (inert_stream (by rw [StreamEngine.base, hhigh]; omega))).andThen ?_
  rintro _ c s₃ ⟨rfl, h₃⟩
  rw [StreamEngine.base, hhigh] at h₃
  have hleaves₃ : s.device.Leaves BeforeStreams s₃.device := (h₁.rests.trans h₂.rests).trans (h₃.leaves
    (Device.leaves_store fun q hq => by
      unfold BeforeStreams at hq
      omega))
  have hcontrol₃ : s₃.control e.descriptor = s₂.control e.descriptor := by
    rw [Station.control, h₃.load]
    exact Device.load_store_of_disjoint (by omega)
  refine (ensures_read32_calm (h₃.stop.trans hidle₂.calm) (by decide)).andThen ?_
  rintro sync c s₄ ⟨rfl, -, h₄⟩
  refine ensures_writeIf_sync (k := e.descriptor) (h₄.stop.trans (h₃.stop.trans hidle₂.calm)) fun s₅ hcalm₅ hcontrol₅ h₅ => ?_
  have hidle₅ : (s₅.control e.descriptor).getLsbD 1 = false := by
    rw [hcontrol₅, Station.control, h₄.load, ← Station.control, hcontrol₃, hidle₂.run]
  refine (ensures_write_stream hk fun h => absurd (hidle₅.symm.trans h) Bool.false_ne_true).andThen ?_
  rintro _ c s₆ ⟨rfl, hstop₆, hcontrol₆, h₆⟩
  refine ensures_writeIf_sync (k := e.descriptor) (hstop₆.trans hcalm₅) fun s₇ hcalm₇ hcontrol₇ h₇ => ?_
  refine (ensures_note_rests _).of_succeeds ?_
  rintro _ _ s₈ ⟨rfl, h₈⟩
  have hstreams : ∀ q, BeforeSync q → BeforeStreams q := fun q hq => by
    unfold BeforeSync at hq
    unfold BeforeStreams
    omega
  refine ⟨rfl, ⟨h₈.stop.trans hcalm₇, ?_⟩, ?_⟩
  · rw [Station.control, h₈.load, ← Station.control, hcontrol₇, hcontrol₆, hrun]
  · exact ((((hleaves₃.mono hstreams).trans (h₄.rests.trans h₅)).trans (h₆.mono hstreams)).trans h₇).trans h₈.rests

/-! ### Stopping -/

section
variable {d : Device} {o reads : Nat}

/-- A stream that stops. -/
theorem leaves_stop (ho : 0x80 ≤ o) : d.Leaves BeforeStreams (d.stop o) := by
  have hstored : d.Leaves BeforeStreams (d.store .word o (d.load .word o &&& ~~~2)) := Device.leaves_store fun q hq => by
    unfold BeforeStreams at hq
    omega
  exact hstored.trans ⟨⟨fun _ _ => Device.cell_of_registers rfl, fun _ => ⟨rfl, rfl⟩, fun _ => rfl,
    fun h => absurd h (by decide)⟩, rfl, rfl⟩

theorem load_stop (hd : u.Fits d) (ho : o + 2 ≤ Device.fileSize) : ((d.stop o).load .word o).getLsbD 1 = false := by
  have hload : (d.stop o).load .word o = (d.store .word o (d.load .word o &&& ~~~2)).load .word o :=
    Device.load_of_registers rfl
  rw [hload, Device.load_store (by rw [hd.size]; exact ho), Width.getLsbD_truncate, BitVec.getLsbD_and, BitVec.getLsbD_not]
  simp

theorem read_stream (ho : 0x70 ≤ o) (hd : u.Fits d) : d.read .word o = (Width.word.truncate ((d.settle o).load .word o),
    { d.settle o with events := .read .word o (Width.word.truncate ((d.settle o).load .word o)) :: (d.settle o).events }) := by
  have hover := (hd.settle o).overrides
  unfold Device.read
  rw [if_neg (by omega), if_neg (by omega), if_neg (by simp [Device.isImmediate]; omega)]
  dsimp only
  rw [hover]
  rfl

theorem settle_last (ho : 0x70 ≤ o) (hd : d.pendingStop = some ⟨o, some 0⟩) : d.settle o = d.stop o := by
  rw [Device.settle, if_neg (by omega), if_neg (by omega), hd]
  exact if_neg fun h => h rfl

theorem settle_later (ho : 0x70 ≤ o) (hd : d.pendingStop = some ⟨o, some (reads + 1)⟩) :
    d.settle o = { d with pendingStop := some ⟨o, some reads⟩ } := by
  rw [Device.settle, if_neg (by omega), if_neg (by omega), hd]
  exact if_neg fun h => h rfl

end

/-- Looking at a stream that is being stopped. -/
theorem ensures_look_winding {reads : Nat} (hk : k < 64) (h : s.Winding k reads) :
    Ensures world n (read16 (Register.stream k + Register.sdctl)) t s (.succeeds fun a t' s' => t' = t ∧
      s.device.Leaves BeforeStreams s'.device ∧
        if a.getLsbD 1 then ∃ j < reads, s'.Winding k j else s'.Idle k) := by
  have hsize : Device.fileSize = 4096 := rfl
  refine Ensures.andThen (P := fun a t' s' => t' = t ∧ a = Width.word.truncate (s'.control k) ∧
    s.device.Leaves BeforeStreams s'.device ∧
      if (s'.control k).getLsbD 1 then ∃ j < reads, s'.Winding k j else s'.Idle k) ?_ ?_
  · refine ensures_read_act.of_succeeds ?_
    rintro _ _ s' ⟨rfl, rfl, hdevice, -⟩
    have hread := read_stream (by omega) s.fits (o := 0x80 + 0x20 * k)
    rw [toNat_control hk, hread] at hdevice ⊢
    have hcontrol : s'.control k = (s.device.settle (0x80 + 0x20 * k)).load .word (0x80 + 0x20 * k) := by
      rw [control, hdevice]
      rfl
    refine ⟨rfl, by rw [hcontrol], ?_⟩
    have hseen : (s.device.settle (0x80 + 0x20 * k)).Leaves BeforeStreams s'.device := by
      rw [hdevice]
      exact Device.leaves_of_fields rfl rfl rfl rfl rfl rfl
    have hpending : s'.device.pendingStop = (s.device.settle (0x80 + 0x20 * k)).pendingStop := by rw [hdevice]
    cases reads with
    | zero =>
      rw [settle_last (by omega) h.pending] at hcontrol hseen hpending
      have hstopped : (s'.control k).getLsbD 1 = false := by
        rw [hcontrol, load_stop s.fits (by omega)]
      rw [if_neg (by rw [hstopped]; exact Bool.false_ne_true)]
      exact ⟨(leaves_stop (by omega)).trans hseen, hpending, hstopped⟩
    | succ reads =>
      rw [settle_later (by omega) h.pending] at hcontrol hseen hpending
      have hrun : (s'.control k).getLsbD 1 = true := by
        have hload : ({ s.device with pendingStop := some ⟨0x80 + 0x20 * k, some reads⟩ } : Device).load .word
            (0x80 + 0x20 * k) = s.control k := Device.load_of_registers rfl
        rw [hcontrol, hload, h.run]
      rw [if_pos hrun]
      have hcounted : s.device.Leaves BeforeStreams
          { s.device with pendingStop := some ⟨0x80 + 0x20 * k, some reads⟩ } :=
        ⟨⟨fun _ _ => Device.cell_of_registers rfl, fun _ => ⟨rfl, rfl⟩, fun _ => rfl, fun h => absurd h (by decide)⟩, rfl, rfl⟩
      exact ⟨hcounted.trans hseen, reads, Nat.lt_succ_self reads, hpending, hrun⟩
  · rintro _ _ s' ⟨rfl, rfl, hleaves, h⟩
    refine ensures_pure.2 ⟨rfl, hleaves, ?_⟩
    rw [Width.setWidth_truncate_word, BitVec.getLsbD_setWidth]
    exact h

/-- A stream that is told to stop still shows its run bit. -/
def tellStop (d : Device) (o : Nat) (v : BitVec 32) : Device :=
  { d.store .word o (v ||| 2) with pendingStop := some ⟨o, d.stopLatency⟩ }

section
variable {d : Device} {o : Nat} {v : BitVec 32}

theorem fits_tellStop (hd : u.Fits d) : u.Fits (tellStop d o v) := { hd.store .word o (v ||| 2) with }

theorem leaves_tellStop (ho : 0x80 ≤ o) : d.Leaves BeforeStreams (tellStop d o v) := by
  have hstored : d.Leaves BeforeStreams (d.store .word o (v ||| 2)) := Device.leaves_store fun q hq => by
    unfold BeforeStreams at hq
    omega
  exact hstored.trans ⟨⟨fun _ _ => Device.cell_of_registers rfl, fun _ => ⟨rfl, rfl⟩, fun _ => rfl,
    fun h => absurd h (by decide)⟩, rfl, rfl⟩

theorem load_tellStop (hd : u.Fits d) (ho : o + 2 ≤ Device.fileSize) : ((tellStop d o v).load .word o).getLsbD 1 = true := by
  have hload : (tellStop d o v).load .word o = (d.store .word o (v ||| 2)).load .word o := Device.load_of_registers rfl
  rw [hload, Device.load_store (by rw [hd.size]; exact ho), Width.getLsbD_truncate, BitVec.getLsbD_or]
  simp [Width.bits, Width.bytes]

theorem act_stop (hrun : (d.load .word (0x80 + 0x20 * k)).getLsbD 1 = true) (hv : v.getLsbD 1 = false) :
    d.act .word (0x80 + 0x20 * k) v =
      if d.stopLatency = some 0 then (tellStop d (0x80 + 0x20 * k) v).stop (0x80 + 0x20 * k)
      else tellStop d (0x80 + 0x20 * k) v := by
  have himmediate : Device.isImmediate (0x80 + 0x20 * k) = false := by simp [Device.isImmediate]; omega
  have hcontrol : Device.isStreamControl (0x80 + 0x20 * k) = true := by simp [Device.isStreamControl]
  rw [Device.act, if_neg (by omega), if_neg (by omega), if_neg (by omega), if_neg (by omega), if_neg (by omega),
    if_neg (by omega), himmediate, Bool.false_and, if_neg Bool.false_ne_true, if_neg (by omega),
    if_pos ⟨rfl, hcontrol, hrun, by rw [hv]; rfl⟩]
  rfl

end

/-- Telling a stream to stop. -/
theorem ensures_write_stop {v : BitVec 16} (hk : k < 64) (h : s.Going k) (hv : (v.setWidth 32).getLsbD 1 = false) :
    Ensures world n (write16 (Register.stream k + Register.sdctl) v) t s (.succeeds fun _ t' s' => t' = t ∧
      s.device.Leaves BeforeStreams s'.device ∧ (s'.Idle k ∨ s'.Winding k u.stopLatency)) := by
  have hsize : Device.fileSize = 4096 := rfl
  refine ensures_write_act.of_succeeds ?_
  rintro _ _ s' ⟨rfl, hdevice, -⟩
  rw [toNat_control hk, Device.write, truncate_setWidth16] at hdevice
  have hfits := s.fits.observe (.wrote .word (0x80 + 0x20 * k) (v.setWidth 32))
  have hrun : ((s.device.observe (.wrote .word (0x80 + 0x20 * k) (v.setWidth 32))).load .word (0x80 + 0x20 * k)).getLsbD 1 = true :=
    h.run
  have hseen : s.device.Leaves BeforeStreams (s.device.observe (.wrote .word (0x80 + 0x20 * k) (v.setWidth 32))) :=
    Device.leaves_of_fields rfl rfl rfl rfl rfl rfl
  generalize s.device.observe (.wrote .word (0x80 + 0x20 * k) (v.setWidth 32)) = seen at hdevice hfits hrun hseen
  have hpending : (tellStop seen (0x80 + 0x20 * k) (v.setWidth 32)).pendingStop =
      some ⟨0x80 + 0x20 * k, some u.stopLatency⟩ := by rw [← hfits.stopLatency]; rfl
  have htold := hseen.trans (leaves_tellStop (o := 0x80 + 0x20 * k) (v := v.setWidth 32) (by omega))
  rw [act_stop hrun hv, hfits.stopLatency] at hdevice
  refine ⟨rfl, ?_⟩
  by_cases hnow : u.stopLatency = 0
  · rw [if_pos (congrArg some hnow)] at hdevice
    refine ⟨hdevice ▸ htold.trans (leaves_stop (by omega)), .inl ⟨hdevice ▸ rfl, ?_⟩⟩
    rw [control, hdevice]
    exact load_stop (fits_tellStop hfits) (by omega)
  · rw [if_neg fun h => hnow (Option.some.inj h)] at hdevice
    refine ⟨hdevice ▸ htold, .inr ⟨hdevice ▸ hpending, ?_⟩⟩
    rw [control, hdevice]
    exact load_tellStop hfits (by omega)

/-- **A running stream that is stopped has stopped**, whatever its latency. -/
theorem stopEngine_succeeds {e : StreamEngine} (hk : e.descriptor < 64) (hlimit : u.stopLatency < limit.checks n)
    (h : s.Going e.descriptor) : Ensures world n (Streams.stopEngine e limit) t s (.succeeds fun _ t' s' => t' = t ∧
      s'.Idle e.descriptor ∧ s.device.Leaves BeforeStreams s'.device) := by
  refine (ensures_read_stream hk h.calm).andThen ?_
  rintro low _ s₁ ⟨rfl, rfl, h₁⟩
  have hgoing₁ : s₁.Going e.descriptor := h.of_spares (P := fun _ => True) h₁.rests.toSpares ⟨trivial, trivial, trivial⟩
  refine (ensures_write_stop hk hgoing₁ (by rw [StreamControl.getLsbD_low, StreamControl.run_withRun])).andThen ?_
  rintro _ t s₂ ⟨rfl, h₂, hstopping⟩
  have hwait : Ensures world n (waitUntil .streamReset limit do
      return !(StreamControl.ofLow (← read16 (Register.stream e.descriptor + Register.sdctl))).run) t s₂
      (.succeeds fun _ t' s' => t' = t ∧ s'.Idle e.descriptor ∧ s₂.device.Leaves BeforeStreams s'.device) := by
    refine ensures_waitUntil_of_lt (fun j t' s' => t' = t ∧ s₂.device.Leaves BeforeStreams s'.device ∧
      (s'.Idle e.descriptor ∨ s'.Winding e.descriptor j)) ?_ hlimit ⟨rfl, .refl, hstopping⟩
    rintro j _ s₃ ⟨rfl, h₃, hidle | hwinding⟩
    · refine (ensures_read_stream hk hidle.calm).andThen ?_
      rintro low _ s₄ ⟨rfl, rfl, h₄⟩
      refine ensures_pure.2 ?_
      rw [StreamControl.run_ofLow, hidle.run]
      exact ⟨rfl, hidle.rests h₄, h₃.trans h₄.rests⟩
    · refine (ensures_look_winding hk hwinding).andThen ?_
      rintro low _ s₄ ⟨rfl, h₄, hlook⟩
      have hlow : (StreamControl.ofLow low).run = low.getLsbD 1 := by simp [StreamControl.run, StreamControl.ofLow]
      refine ensures_pure.2 ?_
      rw [hlow]
      cases hrun : low.getLsbD 1 with
      | false =>
        rw [hrun, if_neg Bool.false_ne_true] at hlook
        exact ⟨rfl, hlook, h₃.trans h₄⟩
      | true =>
        rw [hrun, if_pos rfl] at hlook
        obtain ⟨j', hj, hwinding⟩ := hlook
        exact ⟨j', hj, rfl, h₃.trans h₄, .inr hwinding⟩
  refine hwait.andThen ?_
  rintro _ _ s₃ ⟨rfl, hidle, h₃⟩
  refine (ensures_note_rests _).of_succeeds ?_
  rintro _ _ s₄ ⟨rfl, h₄⟩
  exact ⟨rfl, hidle.rests h₄, ((h₁.rests.trans h₂).trans h₃).trans h₄.rests⟩

end Station
end Simulation
end AudioBringup
