import AudioBringup.Proofs.BitFields
import AudioBringup.Proofs.ConverterCommands
import AudioBringup.Proofs.RetainedRegisters
/-!
# Proofs.StreamRegisters — what the registers hold once an engine runs

The control of a stream is read and written in two parts, by a reset and by a start, so what it holds in the end is followed
through both (`resetEngine_held`, `start_held`).  Everything else that programming does keeps clear of it, of stream
synchronization and of the registers of any other stream (`program_held`).  The format and the number that the engine is left
with are those that the converters were told, although either travels by an encoding of its own
(`engine_and_converters_agree`).
-/
namespace AudioBringup

open Procedure

/-! ### The bits of a control -/

namespace StreamControl

theorem getLsbD_ofParts (low : BitVec 16) (high : BitVec 8) (i : Nat) :
    (ofParts low high).raw.getLsbD i = if i < 16 then low.getLsbD i else high.getLsbD (i - 16) := BitVec.getLsbD_append

theorem ofParts_parts (r : StreamControl) : ofParts r.low r.high = r := by
  obtain ⟨raw⟩ := r
  refine congrArg mk (BitVec.eq_of_getLsbD_eq fun i hi => (getLsbD_ofParts _ _ i).trans ?_)
  by_cases hlow : i < 16
  · simp [low, Bits.field, hlow]
  · simp [high, Bits.field, hlow, show i - 16 < 8 by omega, show 16 + (i - 16) = i by omega]

theorem getLsbD_low_of_lt (r : StreamControl) {i : Nat} (hi : i < 16) : r.low.getLsbD i = r.raw.getLsbD i := by
  simp [StreamControl.low, Bits.field, hi]

theorem getLsbD_ofLow (low : BitVec 16) (i : Nat) : (ofLow low).raw.getLsbD i = low.getLsbD i := by
  by_cases hi : i < 16
  · simp [ofLow, show i < 24 by omega]
  · simp [ofLow, BitVec.getLsbD_of_ge low i (by omega)]

/-- What is written to stop an engine and put it into reset. -/
theorem getLsbD_inReset (low : BitVec 16) {i : Nat} (hi : i < 16) (h0 : i ≠ 0) :
    (((ofLow low).withRun false).withReset true).low.getLsbD i = (i != 1 && low.getLsbD i) := by
  rw [getLsbD_low_of_lt _ hi, withReset, Bits.getLsbD_withBit_of_ne _ _ h0, withRun, Bits.getLsbD_withBit_false,
    getLsbD_ofLow]
  rfl

/-- What is written to let it out of reset. -/
theorem getLsbD_outOfReset (low : BitVec 16) {i : Nat} (hi : i < 16) (h0 : i ≠ 0) :
    ((ofLow low).withReset false).low.getLsbD i = low.getLsbD i := by
  rw [getLsbD_low_of_lt _ hi, withReset, Bits.getLsbD_withBit_of_ne _ _ h0, getLsbD_ofLow]

/-- What is written to set it running. -/
theorem getLsbD_started (r : StreamControl) (tag : BitVec 8) (i : Nat) :
    ((((r.withReset false).withNumber tag).withPriority true).withRun true).raw.getLsbD i =
      if i = 0 then false else if i = 1 ∨ i = 18 then true else if 20 ≤ i ∧ i < 24 then tag.getLsbD (i - 20)
      else r.raw.getLsbD i := by
  unfold withRun withPriority withNumber withReset
  by_cases h1 : i = 1
  · subst h1
    exact Bits.getLsbD_withBit _ _ _
  rw [Bits.getLsbD_withBit_of_ne _ _ h1]
  by_cases h18 : i = 18
  · subst h18
    exact Bits.getLsbD_withBit _ _ _
  rw [Bits.getLsbD_withBit_of_ne _ _ h18, Bits.getLsbD_withField (by decide), BitVec.getLsbD_setWidth]
  by_cases h0 : i = 0
  · subst h0
    exact Bits.getLsbD_withBit _ _ _
  rw [Bits.getLsbD_withBit_of_ne _ _ h0, if_neg h0, if_neg (show ¬(i = 1 ∨ i = 18) by omega)]
  by_cases hnumber : 20 ≤ i ∧ i < 24
  · rw [if_pos hnumber, if_pos hnumber, decide_eq_true (by omega), Bool.true_and]
  · rw [if_neg hnumber, if_neg hnumber]

end StreamControl

/-! ### The registers of one engine -/

namespace StreamEngine

variable {e : StreamEngine} {w : Width} {o v : BitVec 32} {c : Call}

/-- The registers of other streams than the engine's. -/
def Others (e : StreamEngine) (i : Nat) : Prop := 0x80 ≤ i ∧ ¬(e.base.toNat ≤ i ∧ i < e.base.toNat + 0x20)

/-- The retained registers but for those of the engine beside its control. -/
def Spared (e : StreamEngine) (i : Nat) : Prop :=
  Register.Retained i ∧ ¬(e.base.toNat + 4 ≤ i ∧ i < e.base.toNat + 0x20)

/-- Writes to no other stream, and does not tell the engine to run. -/
def Tame (e : StreamEngine) (c : Call) : Prop := c.Avoids e.Others ∧ ¬c.Starts (e.base + Register.sdctl)

/-- The engine was told to run once, after calls of which `K` holds, and no other stream was written to. -/
def StartsOnce (e : StreamEngine) (K : History → Prop) (h h' : History) : Prop :=
  ∃ v a pre, h.Grows e.Tame pre ∧ K pre ∧ v.getLsbD 1 = true ∧
    History.Grows e.Tame (⟨.write .word (e.base + Register.sdctl) v, a⟩ :: pre) h'

/-- What the control of the engine holds. -/
def control (e : StreamEngine) (b : Nat → Byte) : StreamControl :=
  .ofParts (load16 b (e.base + Register.sdctl).toNat) (b (e.base + Register.sdctlHigh).toNat)

/-- What its format holds. -/
def format (e : StreamEngine) (b : Nat → Byte) : BitVec 16 := load16 b (e.base + Register.sdfmt).toNat

theorem toNat_register (hlow : e.descriptor < 30) (ho : o.toNat < 0x20) : (e.base + o).toNat = e.base.toNat + o.toNat := by
  rw [toNat_base (by omega)]
  exact Register.toNat_stream (by omega) ho

theorem toNat_sdctl (hlow : e.descriptor < 30) : (e.base + Register.sdctl).toNat = e.base.toNat :=
  toNat_register hlow (by decide)

theorem toNat_sdctlHigh (hlow : e.descriptor < 30) : (e.base + Register.sdctlHigh).toNat = e.base.toNat + 2 :=
  toNat_register hlow (by decide)

theorem toNat_sdfmt (hlow : e.descriptor < 30) : (e.base + Register.sdfmt).toNat = e.base.toNat + 0x12 :=
  toNat_register hlow (by decide)

theorem getLsbD_control (hlow : e.descriptor < 30) (b : Nat → Byte) (i : Nat) : (e.control b).raw.getLsbD i =
    if i < 16 then (load16 b e.base.toNat).getLsbD i else (b (e.base.toNat + 2)).getLsbD (i - 16) := by
  rw [control, toNat_sdctl hlow, toNat_sdctlHigh hlow, StreamControl.getLsbD_ofParts]

/-- The control of the engine is three bytes. -/
theorem control_congr {b b' : Nat → Byte} (hlow : e.descriptor < 30)
    (hb : ∀ i, e.base.toNat ≤ i → i < e.base.toNat + 3 → b' i = b i) : e.control b' = e.control b := by
  rw [control, control, toNat_sdctl hlow, toNat_sdctlHigh hlow, hb _ (by omega) (by omega),
    load16_congr fun i hi => hb _ (by omega) (by omega)]

/-- A control that is written in its high part and then in its low part is what is held, and the format stays. -/
theorem control_of_parts {b b₁ b₂ : Nat → Byte} {r : StreamControl} (hlow : e.descriptor < 30)
    (h₁ : ∀ i, 0x80 ≤ i → b₁ i = storeLow b (e.base + Register.sdctlHigh).toNat 1 (r.high.setWidth 32) i)
    (h₂ : ∀ i, 0x80 ≤ i → b₂ i = storeLow b₁ (e.base + Register.sdctl).toNat 2 (r.low.setWidth 32) i) :
    e.control b₂ = r ∧ e.format b₂ = e.format b := by
  have hbase : e.base.toNat = 0x80 + 0x20 * e.descriptor := toNat_base (by omega)
  have hplace := toNat_sdctl hlow
  have hhigh := toNat_sdctlHigh hlow
  have hformat := toNat_sdfmt hlow
  have hlast : load16 b₂ (e.base + Register.sdctl).toNat = r.low :=
    (load16_congr fun i hi => h₂ _ (by omega)).trans (load16_written _)
  have hfirst : b₂ (e.base + Register.sdctlHigh).toNat = r.high := by
    rw [h₂ _ (by omega), storeLow_of_disjoint (by omega), h₁ _ (by omega), byte_written]
  constructor
  · rw [control, hlast, hfirst, StreamControl.ofParts_parts]
  · refine load16_congr fun i hi => ?_
    rw [h₂ _ (by omega), storeLow_of_disjoint (by omega), h₁ _ (by omega), storeLow_of_disjoint (by omega)]

theorem tame_of_avoids {A : Nat → Prop} (hlow : e.descriptor < 30)
    (hA : ∀ i, 0x80 ≤ i → ¬(e.base.toNat + 4 ≤ i ∧ i < e.base.toNat + 0x20) → A i) (hc : c.Avoids A) : e.Tame c := by
  have hbase : e.base.toNat = 0x80 + 0x20 * e.descriptor := toNat_base (by omega)
  refine ⟨hc.mono fun i hi => hA i hi.1 fun hin => hi.2 ⟨by omega, hin.2⟩, ?_⟩
  rintro ⟨w, v, rfl, -⟩
  have hbytes := w.bytes_pos
  have hplace := toNat_sdctl hlow
  exact hc 0 hbytes (hA _ (by omega) (by omega))

theorem tame_of_not_write (hc : ∀ w o v, c ≠ .write w o v) : e.Tame c :=
  ⟨Call.avoids_of_not_write hc, History.not_starts (hc · _)⟩

/-- What is written for the engine is written to no other stream. -/
theorem avoids_others (hlow : e.descriptor < 30) (hlast : o.toNat + w.bytes ≤ 0x20) :
    (Call.write w (e.base + o) v).Avoids e.Others := by
  have hbytes := w.bytes_pos
  intro i hi hother
  rw [toNat_register hlow (by omega)] at hother
  exact hother.2 ⟨by omega, by omega⟩

/-- Beside its control, everything is written for the engine alone. -/
theorem avoids_write (hlow : e.descriptor < 30) (hfirst : 4 ≤ o.toNat) (hlast : o.toNat + w.bytes ≤ 0x20) :
    (Call.write w (e.base + o) v).Avoids e.Spared := by
  have hbytes := w.bytes_pos
  intro i hi hspared
  rw [toNat_register hlow (by omega)] at hspared
  exact hspared.2 ⟨by omega, by omega⟩

theorem tame_write (hlow : e.descriptor < 30) (hlast : o.toNat + w.bytes ≤ 0x20)
    (hrun : o = Register.sdctl → v.getLsbD 1 = false) : e.Tame (.write w (e.base + o) v) := by
  refine ⟨avoids_others hlow hlast, ?_⟩
  rintro ⟨_, _, heq, hstarts⟩
  obtain ⟨-, hplace, rfl⟩ := Call.write.inj heq
  exact absurd hstarts (Bool.eq_false_iff.1 (hrun ((BitVec.add_right_inj _).1 hplace)))

section
variable {K : History → Prop} {h₀ h h' : History}

theorem StartsOnce.after (hg : h₀.Grows e.Tame h) (hs : e.StartsOnce K h h') : e.StartsOnce K h₀ h' := by
  obtain ⟨v, a, pre, hpre, hs⟩ := hs
  exact ⟨v, a, pre, hg.trans hpre, hs⟩

theorem StartsOnce.others (hlow : e.descriptor < 30) (hs : e.StartsOnce K h h') : h.Grows (Call.Avoids e.Others) h' := by
  obtain ⟨v, a, pre, hpre, -, -, hpost⟩ := hs
  have hwrite : h.Grows (Call.Avoids e.Others) (⟨.write .word (e.base + Register.sdctl) v, a⟩ :: pre) :=
    .call (avoids_others hlow (by decide)) (hpre.mono fun _ => And.left)
  exact hwrite.trans (hpost.mono fun _ => And.left)

end

end StreamEngine

namespace Streams

variable {σ α : Type} {init : Nat → Byte} {n : Nat} {s : σ} {h : History} {e : StreamEngine} {limit : WaitLimit}

/-! ### Programming -/

/-- The low part of the control is read and written back as `g` makes it, which does not run. -/
theorem ensures_rewrite (hlow : e.descriptor < 30) {g : BitVec 16 → BitVec 16} {rest : Procedure σ α}
    {ok : α → σ → History → Prop}
    (hstop : ∀ low, low = load16 (h.held init) e.base.toNat → (g low).getLsbD 1 = false)
    (hrest : ∀ h', h.Grows e.Tame h' → h'.held init =
        storeLow (h.held init) e.base.toNat 2 ((g (load16 (h.held init) e.base.toNat)).setWidth 32) →
      Ensures (retaining init) n rest s h' (.ifDone ok)) : Ensures (retaining init) n (do
        let low ← read16 (e.base + Register.sdctl)
        write16 (e.base + Register.sdctl) (g low)
        rest) s h (.ifDone ok) := by
  have hplace := StreamEngine.toNat_sdctl hlow
  have hretained : ∀ i < 2, Register.Retained ((e.base + Register.sdctl).toNat + i) := fun i _ =>
    .inr (by rw [hplace, StreamEngine.toNat_base (by omega)]; omega)
  refine (ensures_read16_retained hretained).ifDoneThen ?_
  rintro low _ _ ⟨rfl, hread, a, rfl⟩
  rw [hplace] at hread
  refine ensures_write_retained (hrest _ (.call (StreamEngine.tame_write hlow (by decide) fun _ => ?_)
    (.call (StreamEngine.tame_of_not_write nofun) .refl)) ?_)
  · simpa using hstop low hread
  · rw [← hread, ← hplace]
    rfl

/-- **A reset** leaves the control as it was, but for its run bit and its reset bit, and tells the engine to run at no
time. -/
theorem resetEngine_held (hlow : e.descriptor < 30) : Ensures (retaining init) n (resetEngine e.base limit) s h
    (.ifDone fun _ s' h' => s' = s ∧ h.Grows e.Tame h' ∧
      (∀ i, ¬(e.base.toNat ≤ i ∧ i < e.base.toNat + 2) → h'.held init i = h.held init i) ∧
      ∀ i, i ≠ 0 → i ≠ 1 → (e.control (h'.held init)).raw.getLsbD i = (e.control (h.held init)).raw.getLsbD i) := by
  have hwait : ∀ {f : BitVec 16 → Bool}, Confined (Call.Avoids fun _ => True) id
      (waitUntil .streamReset limit do return f (← read16 (e.base + Register.sdctl)) : Procedure σ Unit) :=
    confined_waitUntil (confined_look16 trivial) fun _ => trivial
  have hclear : ∀ {h h' : History}, h.Grows (Call.Avoids fun _ => True) h' →
      h.Grows e.Tame h' ∧ h'.held init = h.held init := fun hg =>
    ⟨hg.mono fun _ => StreamEngine.tame_of_avoids hlow fun _ _ _ => trivial, funext fun _ => hg.held trivial⟩
  -- the second half reads back what the first one wrote, so that the run bit stays clear
  refine ensures_rewrite (g := fun low => (((StreamControl.ofLow low).withRun false).withReset true).low) hlow
    (fun low _ => StreamControl.getLsbD_inReset low (by decide) (by decide)) fun h₁ hg₁ hheld₁ => ?_
  refine hwait.ifDone.ifDoneThen ?_
  rintro _ _ h₂ ⟨rfl, hg₂⟩
  obtain ⟨htame₂, hheld₂⟩ := hclear hg₂
  have hagain : load16 (h₂.held init) e.base.toNat =
      (((StreamControl.ofLow (load16 (h.held init) e.base.toNat)).withRun false).withReset true).low := by
    rw [hheld₂, hheld₁, load16_written]
  refine ensures_rewrite (g := fun low => ((StreamControl.ofLow low).withReset false).low) hlow ?_ fun h₃ hg₃ hheld₃ => ?_
  · rintro _ rfl
    rw [StreamControl.getLsbD_outOfReset _ (by decide) (by decide), hagain,
      StreamControl.getLsbD_inReset _ (by decide) (by decide)]
    rfl
  refine Ensures.ifDone hwait.ifDone ?_
  rintro _ _ h₄ ⟨rfl, hg₄⟩
  obtain ⟨htame₄, hheld₄⟩ := hclear hg₄
  have houtside : ∀ i, ¬(e.base.toNat ≤ i ∧ i < e.base.toNat + 2) → h₄.held init i = h.held init i := by
    intro i hi
    rw [hheld₄, hheld₃, storeLow_of_disjoint (by omega), hheld₂, hheld₁, storeLow_of_disjoint (by omega)]
  refine ⟨rfl, ((hg₁.trans htame₂).trans hg₃).trans htame₄, houtside, fun i h0 h1 => ?_⟩
  rw [StreamEngine.getLsbD_control hlow, StreamEngine.getLsbD_control hlow, houtside _ (by omega), hheld₄, hheld₃,
    load16_written, hagain]
  by_cases hi : i < 16
  · rw [if_pos hi, if_pos hi, StreamControl.getLsbD_outOfReset _ hi h0, StreamControl.getLsbD_inReset _ hi h0,
      bne_iff_ne.2 h1, Bool.true_and]
  · rw [if_neg hi, if_neg hi]

/-- What programming leaves of the registers: the control as it was, but for its run bit and its reset bit, and
synchronization. -/
structure Readied (init : Nat → Byte) (e : StreamEngine) (h h' : History) : Prop where
  tame : h.Grows e.Tame h'
  control : ∀ i, i ≠ 0 → i ≠ 1 → (e.control (h'.held init)).raw.getLsbD i = (e.control (h.held init)).raw.getLsbD i
  sync : load32 (h'.held init) Register.ssync.toNat = load32 (h.held init) Register.ssync.toNat

section
variable {c : Controller} {s : Streams} {topology : Topology} {waveform : Array Byte}

theorem program_held (hlow : ∀ e ∈ s.output, e.descriptor < 30) :
    Ensures (retaining init) n (program topology waveform) (c, s) h (.ifDone fun _ t' h' =>
      t'.1.config = c.config ∧ t'.2.output = s.output ∧
        ∃ e, s.output[c.config.outputStream]? = some e ∧ Readied init e h h') := by
  rw [program_eq]
  refine ensures_get_bind.2 ?_
  dsimp only
  cases he : s.output[c.config.outputStream]? with
  | none => trivial
  | some e =>
    have hlow := hlow e (List.mem_of_getElem? he)
    have hbase : e.base.toNat = 0x80 + 0x20 * e.descriptor := StreamEngine.toNat_base (by omega)
    refine (resetEngine_held hlow).ifDoneThen ?_
    rintro _ _ h₁ ⟨rfl, htame₁, houtside₁, hcontrol₁⟩
    -- whatever comes after the reset keeps clear of the control
    refine Ensures.ifDone (Confined.ifDone (P := Call.Avoids e.Spared) (f := fun t => (t.1.config, t.2.output)) ?_) ?_
    · have hformat : ∀ converters, Confined (Call.Avoids e.Spared) (fun t => (t.1.config, t.2.output))
          (onController (formatConverters converters)) := fun converters =>
        confined_onController ((formatConverters_posting converters).mono fun _ hc => hc.avoids.mono fun _ => And.left)
          fun c t hc => congrArg (·, t.2.output) (show c.config = t.1.config from congrArg Prod.fst hc)
      refine confined_bind (confined_modify fun _ => rfl) fun _ => ?_
      refine confined_bind (confined_dropSample fun _ _ => trivial) fun _ => ?_
      exact confined_load (fun _ hc _ => Call.avoids_of_not_write hc)
        (fun _ _ _ h4 hlast _ _ => StreamEngine.avoids_write hlow h4 hlast) (fun _ _ _ => rfl) (hformat _)
    · rintro _ t' h' ⟨hkept, hg⟩
      refine ⟨congrArg Prod.fst hkept, congrArg Prod.snd hkept, e, rfl, ?_⟩
      have hspared : ∀ i, e.Spared i → h'.held init i = h₁.held init i := fun i => hg.held
      have htame : h₁.Grows e.Tame h' := hg.mono fun _ => StreamEngine.tame_of_avoids hlow fun _ hi hin => ⟨.inr hi, hin⟩
      refine ⟨htame₁.trans htame, fun i h0 h1 => ?_, ?_⟩
      · rw [StreamEngine.control_congr hlow fun i hi hi' => hspared i ⟨.inr (by omega), by omega⟩]
        exact hcontrol₁ i h0 h1
      · have hssync : Register.ssync.toNat = 0x38 := rfl
        exact load32_congr fun i hi => (hspared _ ⟨.inl (by omega), by omega⟩).trans (houtside₁ _ (by omega))

/-- The engine that was programmed is the configured one, and has the format. -/
theorem program_formats (hlow : ∀ e ∈ s.output, e.descriptor < 30) :
    Ensures (retaining init) n (program topology waveform) (c, s) h (.ifDone fun _ t' h' =>
      t'.2.programmed = some c.config.outputStream ∧
      ∀ e, s.output[c.config.outputStream]? = some e → e.format (h'.held init) = c.config.format.raw) := by
  rw [program_eq]
  refine ensures_get_bind.2 ?_
  dsimp only
  cases he : s.output[c.config.outputStream]? with
  | none => trivial
  | some e =>
    have hlow := hlow e (List.mem_of_getElem? he)
    have hbase : e.base.toNat = 0x80 + 0x20 * e.descriptor := StreamEngine.toNat_base (by omega)
    have hplace := StreamEngine.toNat_sdfmt hlow
    have hformat : ∀ converters, Confined (Call.Avoids Register.Retained) (fun t : Controller × Streams => t.2)
        (onController (formatConverters converters)) := fun converters =>
      confined_onController ((formatConverters_posting converters).mono fun _ => Call.Posting.avoids) fun _ _ _ => rfl
    -- the reset, the earlier sample buffer, the new one, and what is written before the format
    iterate 8 refine ensures_anything.ifDoneThen fun _ _ _ _ => ?_
    refine ensures_write_retained (ensures_bind.2 ((ensures_note (n := n)).2 ?_))
    rintro _ ⟨rfl, -⟩
    refine ensures_modify_bind.2 ((hformat _).ifDone.ifDoneThen ?_)
    rintro _ t' h' ⟨hkept, hg⟩
    refine ⟨congrArg Streams.programmed hkept, ?_⟩
    rintro _ ⟨⟩
    exact (load16_congr fun i hi => hg.held (.inr (by omega))).trans (load16_written _)

end

/-! ### Starting -/

/-- Synchronization was written, if `on`, and nothing else was done. -/
structure Synced (init : Nat → Byte) (on : Bool) (v : BitVec 32) (h h' : History) : Prop where
  grows : h.Grows (· = .write .dword Register.ssync v) h'
  sync : load32 (h'.held init) Register.ssync.toNat = if on then v else load32 (h.held init) Register.ssync.toNat

section
variable {on : Bool} {v : BitVec 32} {h' : History}

theorem Synced.avoids (hs : Synced init on v h h') : h.Grows (Call.Avoids (0x80 ≤ ·)) h' := by
  refine hs.grows.mono ?_
  rintro _ rfl i hi hin
  simp only [Register.ssync, Width.bytes, BitVec.reduceToNat] at *
  omega

end

theorem ensures_synced {on : Bool} {v : BitVec 32} {rest : Procedure σ α} {ok : α → σ → History → Prop}
    (hrest : ∀ h', Synced init on v h h' → Ensures (retaining init) n rest s h' (.ifDone ok)) :
    Ensures (retaining init) n (if on then (do
        write32 Register.ssync v
        rest) else rest) s h (.ifDone ok) := by
  cases on with
  | false => exact hrest h ⟨.refl, rfl⟩
  | true => exact ensures_write_retained (hrest _ ⟨.call rfl .refl, load32_written v⟩)

/-- What starting an engine leaves of its registers: it was told to run once, and held back until then if streams are to be
synchronized. -/
structure Started (init : Nat → Byte) (e : StreamEngine) (config : Config) (h h' : History) : Prop where
  control : e.control (h'.held init) =
    ((((e.control (h.held init)).withReset false).withNumber config.streamTag).withPriority true).withRun true
  format : e.format (h'.held init) = e.format (h.held init)
  sync : load32 (h'.held init) Register.ssync.toNat =
    if config.syncStreams then Bits.withBit (load32 (h.held init) Register.ssync.toNat) e.descriptor false
    else load32 (h.held init) Register.ssync.toNat
  once : e.StartsOnce (fun pre => config.syncStreams = true →
    (load32 (pre.held init) Register.ssync.toNat).getLsbD e.descriptor = true) h h'

/-- The control is read in its two parts. -/
theorem ensures_readControl (hlow : e.descriptor < 30) {rest : BitVec 16 → BitVec 8 → Procedure σ α}
    {ok : α → σ → History → Prop} (hrest : ∀ low high h', StreamControl.ofParts low high = e.control (h.held init) →
      h.Grows e.Tame h' → h'.held init = h.held init → Ensures (retaining init) n (rest low high) s h' (.ifDone ok)) :
    Ensures (retaining init) n (do
      let low ← read16 (e.base + Register.sdctl)
      let high ← read8 (e.base + Register.sdctlHigh)
      rest low high) s h (.ifDone ok) := by
  have hbase : e.base.toNat = 0x80 + 0x20 * e.descriptor := StreamEngine.toNat_base (by omega)
  have hplace := StreamEngine.toNat_sdctl hlow
  have hhigh := StreamEngine.toNat_sdctlHigh hlow
  refine (ensures_read16_retained fun i hi => .inr (by omega)).ifDoneThen ?_
  rintro low _ _ ⟨rfl, rfl, a, rfl⟩
  refine (ensures_read8_retained (.inr (by omega))).ifDoneThen ?_
  rintro high _ _ ⟨rfl, rfl, a', rfl⟩
  have hread : ∀ {w o}, e.Tame (.read w o) := StreamEngine.tame_of_not_write nofun
  exact hrest _ _ _ rfl (.call hread (.call hread .refl)) rfl

theorem start_held {c : Controller} {s : Streams} (he : s.programmedEngine = some e) (hlow : e.descriptor < 30) :
    Ensures (retaining init) n s.start c h (.ifDone fun _ _ h' => Started init e c.config h h') := by
  unfold start
  refine ensures_get_bind.2 ?_
  rw [he]
  dsimp only
  generalize c.config = config
  have hbase : e.base.toNat = 0x80 + 0x20 * e.descriptor := StreamEngine.toNat_base (by omega)
  have hplace := StreamEngine.toNat_sdctl hlow
  have hhigh := StreamEngine.toNat_sdctlHigh hlow
  have hssync : Register.ssync.toNat = 0x38 := rfl
  refine ensures_readControl hlow fun low high h₀ hread hg₀ hheld₀ => ?_
  rw [hread]
  -- what is written, whatever it is made of, is the control in two parts
  generalize hcontrol : ((((e.control (h.held init)).withReset false).withNumber config.streamTag).withPriority
    true).withRun true = control
  have hrun : (control.low.setWidth 32).getLsbD 1 = true := by
    rw [StreamControl.getLsbD_low, ← hcontrol, StreamControl.run_withRun]
  refine ensures_write_retained ?_
  refine (ensures_read32_retained fun i hi => .inl (by omega)).ifDoneThen ?_
  rintro sync _ _ ⟨rfl, hsync, a₃, rfl⟩
  refine ensures_synced fun h₁ hs₁ => ensures_write_retained (ensures_synced fun h₂ hs₂ => ?_)
  refine (ensures_note (n := n)).2 ?_
  rintro _ ⟨rfl, -⟩
  have hheld₁ : ∀ i, 0x80 ≤ i → h₁.held init i =
      storeLow (h.held init) (e.base + Register.sdctlHigh).toNat 1 (control.high.setWidth 32) i :=
    fun i hi => (hs₁.avoids.held hi).trans (congrArg (storeLow · _ 1 _ i) hheld₀)
  have hheld₂ : ∀ i, 0x80 ≤ i → h₂.held init i =
      storeLow (h₁.held init) (e.base + Register.sdctl).toNat 2 (control.low.setWidth 32) i :=
    fun i hi => hs₂.avoids.held hi
  have htame : ∀ {h h' : History}, h.Grows (Call.Avoids (0x80 ≤ ·)) h' → h.Grows e.Tame h' := fun hg =>
    hg.mono fun _ => StreamEngine.tame_of_avoids hlow fun _ hi _ => hi
  have hsync₀ : sync = load32 (h.held init) Register.ssync.toNat :=
    hsync.trans (load32_congr fun i hi => (storeLow_of_disjoint (by omega)).trans (congrFun hheld₀ _))
  obtain ⟨hheld, hformat⟩ := StreamEngine.control_of_parts hlow hheld₁ hheld₂
  refine ⟨hcontrol ▸ hheld, hformat, ?_, control.low.setWidth 32, Except.ok (), h₁, ?_, fun hon => ?_, hrun, ?_⟩
  · refine hs₂.sync.trans ?_
    rw [← hsync₀]
    cases hon : config.syncStreams with
    | true => rfl
    | false =>
      have hkept : load32 (h₁.held init) Register.ssync.toNat = sync := by
        rw [hs₁.sync, hon]
        exact hsync.symm
      exact (load32_congr fun i hi => storeLow_of_disjoint (by omega)).trans hkept
  · have hwrite : e.Tame (.write .byte (e.base + Register.sdctlHigh) (control.high.setWidth 32)) :=
      StreamEngine.tame_write hlow (by decide) fun heq => absurd heq (by decide)
    have hread : e.Tame (.read .dword Register.ssync) := StreamEngine.tame_of_not_write nofun
    exact .trans (.call hread (.call hwrite hg₀)) (htame hs₁.avoids)
  · rw [hs₁.sync, hon, if_pos rfl, Bits.getLsbD_withBit, decide_eq_true (by omega)]
    rfl
  · exact .call (StreamEngine.tame_of_not_write nofun) (htame hs₂.avoids)

/-! ### The engine and the converters -/

theorem getLsbD_streamChannel (stream channel : BitVec 8) {i : Nat} (hi : i < 4) :
    (streamChannel stream channel).getLsbD (4 + i) = stream.getLsbD i := by
  rw [streamChannel, BitVec.getLsbD_append, if_neg (by omega), BitVec.getLsbD_append, if_pos (by omega),
    BitVec.getLsbD_setWidth, Nat.add_sub_cancel_left, decide_eq_true hi, Bool.true_and]

/-- What the words to the converters carry. -/
theorem payload_of_mem {config : Config} {converters : List NodeAddr} {cmd : Command}
    (hcmd : cmd.encode ∈ converterWords config converters) :
    (cmd.verb = .setStreamFormat → cmd.payload = config.format.raw) ∧
      (cmd.verb = .setStreamChannel → Bits.field cmd.payload 4 4 = config.streamTag.setWidth 4) := by
  obtain ⟨sent, hsent, hword⟩ := List.mem_map.1 hcmd
  obtain ⟨addr, -, hsent⟩ := List.mem_flatMap.1 hsent
  have hcontent := (congrArg Command.contentOf hword).symm
  rw [Command.contentOf_encode, Command.contentOf_encode] at hcontent
  have hapart : ∀ {payload : BitVec 16} {low : BitVec 8}, 0x2#4 ++ payload ≠ 0x706#12 ++ low := fun heq => by
    have hbit := congrArg (BitVec.getLsbD · 16) heq
    rw [BitVec.getLsbD_append, BitVec.getLsbD_append, if_neg (by decide), if_neg (by decide)] at hbit
    exact absurd hbit (by decide)
  simp only [converterCommands, List.mem_cons, List.not_mem_nil, or_false] at hsent
  rcases hsent with rfl | rfl
  · constructor <;> intro hverb <;> rw [hverb] at hcontent
    · exact (BitVec.append_right_inj _).1 hcontent
    · exact absurd hcontent.symm hapart
  · constructor <;> intro hverb <;> rw [hverb] at hcontent
    · exact absurd hcontent hapart
    · have hlow := (BitVec.append_right_inj _).1 hcontent
      refine BitVec.eq_of_getLsbD_eq fun i hi => ?_
      have hbit := congrArg (BitVec.getLsbD · (4 + i)) hlow
      simp only [BitVec.getLsbD_setWidth, getLsbD_streamChannel _ _ hi, show 4 + i < 8 by omega, decide_true,
        Bool.true_and] at hbit
      simpa [Bits.field, hi] using hbit

/-- The engine was programmed and started: it has the format and the number that its converters were told, it runs, and
nothing else of its control and of stream synchronization has changed.  It was told to run once, and where streams are to be
synchronized its bit was set then. -/
structure Agrees (init : Nat → Byte) (config : Config) (converters : List NodeAddr) (e : StreamEngine) (h h' : History) :
    Prop where
  sent : h'.sent = h.sent ++ converterWords config converters
  format : ∀ cmd : Command, cmd.encode ∈ converterWords config converters → cmd.verb = .setStreamFormat →
    cmd.payload = e.format (h'.held init)
  number : ∀ cmd : Command, cmd.encode ∈ converterWords config converters → cmd.verb = .setStreamChannel →
    Bits.field cmd.payload 4 4 = Bits.field (e.control (h'.held init)).raw 20 4
  tag : (Bits.field (e.control (h'.held init)).raw 20 4).toNat = config.streamTag.toNat % 16
  reset : (e.control (h'.held init)).reset = false
  run : (e.control (h'.held init)).run = true
  priority : (e.control (h'.held init)).raw.getLsbD 18 = true
  control : ∀ i, i ≠ 0 → i ≠ 1 → i ≠ 18 → i < 20 →
    (e.control (h'.held init)).raw.getLsbD i = (e.control (h.held init)).raw.getLsbD i
  sync : ∀ i, (load32 (h'.held init) Register.ssync.toNat).getLsbD i =
    (!(config.syncStreams && i == e.descriptor) && (load32 (h.held init) Register.ssync.toNat).getLsbD i)
  once : e.StartsOnce (fun pre => config.syncStreams = true →
    (load32 (pre.held init) Register.ssync.toNat).getLsbD e.descriptor = true) h h'
  others : h.Grows (Call.Avoids e.Others) h'

theorem Started.agrees {config : Config} {converters : List NodeAddr} {h₁ h' : History} (hlow : e.descriptor < 30)
    (hready : Readied init e h h₁) (hformat : e.format (h₁.held init) = config.format.raw)
    (hstarted : Started init e config h₁ h') (hsent : h'.sent = h.sent ++ converterWords config converters) :
    Agrees init config converters e h h' := by
  have hbits : ∀ i, (e.control (h'.held init)).raw.getLsbD i = _ := fun i =>
    (congrArg (fun r : StreamControl => r.raw.getLsbD i) hstarted.control).trans (StreamControl.getLsbD_started _ _ i)
  have hnumber : Bits.field (e.control (h'.held init)).raw 20 4 = config.streamTag.setWidth 4 := by
    refine BitVec.eq_of_getLsbD_eq fun i hi => ?_
    rw [Bits.field, BitVec.getLsbD_extractLsb', hbits, if_neg (by omega), if_neg (by omega), if_pos (by omega),
      BitVec.getLsbD_setWidth, Nat.add_sub_cancel_left]
  have honce := hstarted.once.after hready.tame
  refine ⟨hsent, fun cmd hcmd hverb => ?_, fun cmd hcmd hverb => ?_, ?_, hbits 0, hbits 1, hbits 18,
    fun i h0 h1 h18 h20 => ?_, fun i => ?_, honce, honce.others hlow⟩
  · rw [hstarted.format, hformat]
    exact (payload_of_mem hcmd).1 hverb
  · rw [hnumber]
    exact (payload_of_mem hcmd).2 hverb
  · rw [hnumber]
    exact BitVec.toNat_setWidth _ _
  · rw [hbits, if_neg h0, if_neg (by omega), if_neg (by omega)]
    exact hready.control i h0 h1
  · rw [hstarted.sync, hready.sync]
    cases config.syncStreams with
    | false => rfl
    | true => exact Bits.getLsbD_withBit_false _ _ _

/-- Starting an engine puts no word to a transport. -/
theorem start_wordless {s : Streams} (hlow : ∀ e, s.programmedEngine = some e → e.descriptor < 30) :
    Confined Call.Wordless id s.start :=
  confined_start (fun _ _ => trivial) (fun _ => ⟨by decide, by decide⟩)
    (fun e _ he => wordless_stream (hlow e he) (by decide)) (fun e _ he => wordless_stream (hlow e he) (by decide))
    fun _ _ => trivial

/-- **The engine and its converters agree** once a waveform is programmed and started, on a platform on which the registers of
the streams and of stream synchronization read as they were last written.  Whatever they held, and whatever was done with the
streams before, they hold then what `Agrees` says, and no other stream was written to. -/
theorem engine_and_converters_agree (n : Nat) (c : Controller) (h : History) (deeds : List Deed) :
    Ensures recording n (session deeds) c h (.ifDone fun t _ _ =>
      ∀ (m : Nat) (c : Controller) (topology : Topology) (waveform : Array Byte) (init : Nat → Byte) (h : History),
        Ensures (retaining init) m (do
          let _ ← program topology waveform
          onController (← get).2.start) (c, t.2) h (.ifDone fun _ _ h' =>
            ∃ e, t.2.output[c.config.outputStream]? = some e ∧
              Agrees init c.config topology.audioOutputs e h h')) := by
  refine session_low.ifDone ?_
  intro t _ _ hlow m c topology waveform init h
  have hsent : Ensures (retaining init) m (program topology waveform) (c, t.2) h
      (.ifDone fun _ _ h' => h'.sent = h.sent ++ converterWords c.config topology.audioOutputs) :=
    (program_tells hlow).retaining.ifDone fun _ _ _ => And.right
  refine (((program_held hlow).bothDone (program_formats hlow)).bothDone hsent).ifDoneThen ?_
  rintro _ t₁ h₁ ⟨⟨⟨hconfig, houtput, e, he, hready⟩, hprogrammed, hformat⟩, hsent⟩
  have hengine : t₁.2.programmedEngine = some e := by
    rw [programmedEngine, hprogrammed, houtput]
    exact he
  have hlow := hlow e (List.mem_of_getElem? he)
  refine ensures_get_bind.2 (ensures_get_bind.2 (ensures_on.2 ?_))
  refine ((start_held hengine hlow).bothDone (start_wordless ?_).ifDone).ifDone ?_
  · rintro e' he'
    cases hengine.symm.trans he'
    exact hlow
  · rintro _ _ h' ⟨hstarted, -, hg⟩
    have hsent' : h'.sent = h₁.sent := hg.of_stable History.stable_sent rfl
    exact ⟨e, he, (hconfig ▸ hstarted).agrees hlow hready (hformat e he) (hsent'.trans hsent)⟩

/-- A platform on which nothing fails and every register reads as it was written, with every bit set before that. -/
def retentive : (c : Call) → History → c.Answer
  | .read w o, h => .ok (w.truncate (load32 (h.held fun _ => 0xff) o.toNat))
  | c, h => obliging c h

-- of a control with every bit set, the reset bit goes and the number becomes what the tag is modulo 16
example :
    let play : Procedure (Controller × Streams) Unit := do
      let _ ← program {} (Array.replicate 256 0)
      onController (← get).2.start
    let last := ((play 8 ({ config := { streamTag := 0x15 } }, solo)).run (askOf retentive) []).2
    (soleEngine.control (last.held fun _ => 0xff)).raw = 0x5ffffe := by
  decide +kernel

end Streams
end AudioBringup
