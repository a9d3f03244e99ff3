import AudioBringup.Proofs.Programming
import AudioBringup.Proofs.StreamCalls
/-!
# Proofs.Playback — programming an engine, however often and whatever of it fails

Between one attempt and the next the streams have all their memory, their buffer lists hold no more records than the
configuration has pieces, and whatever sample buffer they hold is what the configured engine plays (`Streams.Steady`).
Every attempt leaves them so (`program_attempted`).
-/
namespace AudioBringup

open Procedure Arena

namespace Streams

variable {n : Nat} {config : Config} {scratch : List Region} {s : Streams} {c : Controller} {w w' : Arena} {g : Region}
  {waveform : Array Byte} {topology : Topology}

/-- The streams have all their memory, and whatever sample buffer they hold is what the configured engine plays. -/
structure Steady (config : Config) (scratch : List Region) (s : Streams) (w : Arena) : Prop where
  lawful : w.Lawful
  holds : w.Holds (scratch ++ s.regions)
  long : ∀ e ∈ s.output, BufferList.length ≤ e.list.length
  low : ∀ e ∈ s.output, e.descriptor < 64
  blank : ∀ e, s.output[config.outputStream]? = some e → w.BlankFrom config.bdlEntries e.list
  chosen : ∀ i, s.programmed = some i → i = config.outputStream
  loaded : ∀ g, s.sample = some g → s.programmed = some config.outputStream ∧
    ∃ e waveform, s.output[config.outputStream]? = some e ∧ w.Loaded e g config.bdlEntries waveform

namespace Steady

theorem list_mem {e : StreamEngine} (he : e ∈ s.output) : e.list ∈ s.regions := by
  have hmem : e.list ∈ (s.input.reverse ++ s.output.reverse ++ s.bidirectional.reverse).map (·.list) :=
    List.mem_map.2 ⟨e, List.mem_append_left _ (List.mem_append_right _ (List.mem_reverse.2 he)), rfl⟩
  exact List.mem_append_left _ (List.mem_append_right _ hmem)

theorem sample_mem (hg : s.sample = some g) : g ∈ s.regions := by
  refine List.mem_append_left _ (List.mem_append_left _ ?_)
  rw [hg]
  exact List.mem_singleton.2 rfl

/-- The memory of the transport is apart from that of the streams. -/
theorem scratch_apart (h : Steady config scratch s w) (hg : g ∈ s.regions) : ∀ r ∈ scratch, r.Apart g := fun _ hr =>
  (List.pairwise_append.1 (h.holds.apart h.lawful)).2.2 _ hr _ hg

theorem live (h : Steady config scratch s w) (hg : g ∈ s.regions) : g ∈ w.live :=
  h.holds.mem (List.mem_append_right _ hg)

theorem undisturbed (h : Steady config scratch s w) (hw : w.Undisturbed scratch w') : Steady config scratch s w' := by
  refine ⟨hw.lawful h.lawful, hw.holds h.holds, h.long, h.low, fun e he k hfrom hk => ?_, h.chosen, fun g hg => ?_⟩
  · exact (hw.retains (h.scratch_apart (list_mem (List.mem_of_getElem? he))) hk).trans (h.blank e he k hfrom hk)
  · obtain ⟨hprogrammed, e, waveform, he, hloaded⟩ := h.loaded g hg
    have hmem := List.mem_of_getElem? he
    refine ⟨hprogrammed, e, waveform, he, hloaded.undisturbed hw ?_ ?_ (h.long e hmem) (h.low e hmem)⟩
    · exact h.scratch_apart (list_mem hmem)
    · exact h.scratch_apart (sample_mem hg)

/-- Streams that hold no sample buffer need nothing of the registers. -/
theorem of_written (h : Steady config scratch s w) (hnone : s.sample = none) (m : Nat → Byte) :
    Steady config scratch s { w with written := m } where
  lawful := ⟨h.lawful.apart, h.lawful.placed⟩
  holds := h.holds
  long := h.long
  low := h.low
  blank := h.blank
  chosen := h.chosen
  loaded g hg := by cases hnone.symm.trans hg

/-- The sample buffer is let go of, and given back or not. -/
theorem dropSample (h : Steady config scratch s w) : Steady config scratch { s with sample := none } w := by
  refine ⟨h.lawful, ?_, h.long, h.low, h.blank, h.chosen, nofun⟩
  cases hs : s.sample with
  | none =>
    have hsame : { s with sample := none } = s := by rw [← hs]
    rw [hsame]
    exact h.holds
  | some old =>
    have hholds := h.holds
    unfold regions at hholds
    rw [hs] at hholds
    exact (hholds.perm List.perm_middle).drop

theorem freeSample {old : Region} (h : Steady config scratch s w) (hold : s.sample = some old) :
    Steady config scratch { s with sample := none } { w with live := w.live.erase old } := by
  have hholds := h.holds
  unfold regions at hholds
  rw [hold] at hholds
  exact ⟨h.lawful.free, (hholds.perm List.perm_middle).free, h.long, h.low, h.blank, h.chosen, nofun⟩

end Steady

/-! ### Programming -/

/-- What holds of the streams however an attempt to program them ends. -/
def Settled (config : Config) (scratch : List Region) (t : Controller × Streams) (w : Arena) : Prop :=
  t.1.Roomy config scratch ∧ Steady config scratch t.2 w

/-- The streams play `waveform` through the configured engine. -/
def Playing (config : Config) (waveform : Array Byte) (s : Streams) (w : Arena) : Prop :=
  ∃ e g, s.programmedEngine = some e ∧ s.sample = some g ∧ w.Plays e g config.bdlEntries waveform

theorem Steady.playing {e : StreamEngine} (h : Steady config scratch s w) (he : s.output[config.outputStream]? = some e)
    (hprogrammed : s.programmed = some config.outputStream) (hg : s.sample = some g)
    (hloaded : w.Loaded e g config.bdlEntries waveform) : Playing config waveform s w := by
  refine ⟨e, g, ?_, hg, hloaded.plays h.lawful (h.live (sample_mem hg)) (h.blank e he)⟩
  unfold programmedEngine
  rw [hprogrammed]
  exact he

/-- The last part of programming: the engine is loaded, and the converters are pointed at it. -/
theorem formatConverters_playing {e : StreamEngine} (hc : c.Roomy config scratch) (h : Steady config scratch s w)
    (he : s.output[config.outputStream]? = some e) (hprogrammed : s.programmed = some config.outputStream)
    (hg : s.sample = some g) (hloaded : w.Loaded e g config.bdlEntries waveform) :
    Ensures Arena.world n (onController (formatConverters topology.audioOutputs)) (c, s) w
      (throughout fun t w' => Settled config scratch t w' ∧ Playing config waveform t.2 w') := by
  have hlight : ∀ c, Light scratch c → Closed Arena.world (w.Undisturbed scratch) c := fun _ => closed_of_light
  have hkeeps := formatConverters_keeps hlight topology.audioOutputs n c w hc .refl
  have hout : ∀ c' w', c'.Roomy config scratch ∧ w.Undisturbed scratch w' →
      Settled config scratch (c', s) w' ∧ Playing config waveform s w' := by
    rintro c' w' ⟨hc', hw⟩
    have h' := h.undisturbed hw
    have hmem := List.mem_of_getElem? he
    refine ⟨⟨hc', h'⟩, h'.playing he hprogrammed hg ?_⟩
    exact hloaded.undisturbed hw (h.scratch_apart (Steady.list_mem hmem)) (h.scratch_apart (Steady.sample_mem hg))
      (h.long e hmem) (h.low e hmem)
  refine ensures_bind.2 (ensures_get.2 (ensures_on.2 ?_))
  exact hkeeps.mono (fun _ c' w' => hout c' w') (fun _ c' w' => hout c' w') (fun _ => id) fun _ => id

/-- What is to hold once an attempt was made to program an engine with `waveform`. -/
def attempted (config : Config) (scratch : List Region) (waveform : Array Byte) (α : Type) :
    Outcome (Controller × Streams) α Arena :=
  ⟨fun _ t w => Settled config scratch t w ∧ Playing config waveform t.2 w, fun _ t w => Settled config scratch t w,
    fun _ => False, fun _ => True⟩

/-- The buffer list and the sample buffer are written, and nothing points at them yet. -/
structure Prepared (config : Config) (scratch : List Region) (s : Streams) (e : StreamEngine) (g : Region)
    (waveform : Array Byte) (w : Arena) : Prop where
  steady : Steady config scratch s w
  none : s.sample = none
  engine : s.output[config.outputStream]? = some e
  holds : w.Holds (scratch ++ g :: s.regions)
  shape : BufferList.checkShape waveform.size config.bdlEntries = .ok ()
  long : waveform.size ≤ g.length
  records : ∀ i < config.bdlEntries,
    w.record e.list i = .ofPiece (BufferList.piece g.address waveform.size config.bdlEntries i)
  samples : ∀ k (hk : k < waveform.size), w.memory (g.host + k) = waveform[k]

theorem Prepared.of_written {e : StreamEngine} (h : Prepared config scratch s e g waveform w) (m : Nat → Byte) :
    Prepared config scratch s e g waveform { w with written := m } :=
  { h with steady := h.steady.of_written h.none m }

/-- A register that is written, or is not because the write fails. -/
theorem write_prepared {e : StreamEngine} {wd : Width} {o v : BitVec 32} {Q : Outcome (Controller × Streams) Unit Arena}
    (h : Prepared config scratch s e g waveform w) (herror : ∀ error w', Steady config scratch s w' → Q.error error (c, s) w')
    (hok : ∀ w', Prepared config scratch s e g waveform w' → w'.written = storeLow w.written o.toNat wd.bytes v →
      Q.ok () (c, s) w') : Ensures Arena.world n (write wd o v) (c, s) w Q := by
  refine ensures_write.2 ?_
  rintro (error | ⟨⟩) w' hw'
  · obtain ⟨v', rfl⟩ := hw'
    exact herror error _ (h.steady.of_written h.none _)
  · obtain rfl := hw'
    exact hok _ (h.of_written _) rfl

/-- What was prepared is what the engine is pointed at. -/
theorem Prepared.taken {e : StreamEngine} {format : BitVec 16} {before : Nat → Byte} (h : Prepared config scratch s e g waveform w)
    (hwritten : w.written = described before e.base waveform.size config.bdlEntries e.list.address format) :
    Steady config scratch { s with sample := some g, programmed := some config.outputStream } w ∧
      w.Loaded e g config.bdlEntries waveform := by
  have hloaded : w.Loaded e g config.bdlEntries waveform :=
    loaded_of_described (h.steady.low e (List.mem_of_getElem? h.engine)) h.shape h.long h.records h.samples hwritten
  refine ⟨⟨h.steady.lawful, ?_, h.steady.long, h.steady.low, h.steady.blank, ?_, ?_⟩, hloaded⟩
  · have hregions : regions { s with sample := some g, programmed := some config.outputStream } = g :: s.regions := by
      unfold regions
      rw [h.none]
      rfl
    rw [hregions]
    exact h.holds
  · rintro i ⟨⟩
    rfl
  · rintro g' ⟨⟩
    exact ⟨rfl, e, waveform, h.engine, hloaded⟩

theorem describe_attempted {e : StreamEngine} {count : Nat} (hc : c.Roomy config scratch)
    (h : Prepared config scratch s e g waveform w) (hcount : count = config.bdlEntries) :
    Ensures Arena.world n (describe config e g count waveform topology.audioOutputs) (c, s) w
      (attempted config scratch waveform _) := by
  subst hcount
  have herror : ∀ (error : Error) w', Steady config scratch s w' → Settled config scratch (c, s) w' := fun _ _ h => ⟨hc, h⟩
  refine ensures_bind.2 (write_prepared h herror fun w₁ h h₁ => ensures_bind.2 (write_prepared h herror fun w₂ h h₂ => ?_))
  refine (ensures_bind (n := n)).2 (ensures_bind.2 (write_prepared h herror fun w₃ h h₃ => ?_))
  refine write_prepared (n := n) h herror fun w₄ h h₄ => ?_
  refine (ensures_bind (n := n)).2 (write_prepared h herror fun w₅ h h₅ => ?_)
  refine ensures_bind.2 (ensures_note.2 ?_)
  rintro _ rfl
  rw [h₄, h₃, h₂, h₁] at h₅
  obtain ⟨hsteady, hloaded⟩ := h.taken h₅
  refine ensures_bind.2 (ensures_modify.2 (ensures_bind.2 ?_))
  refine (formatConverters_playing hc hsteady h.engine rfl rfl hloaded).mono (fun _ _ _ => id) (fun _ _ _ h => h.1)
    (fun _ => id) fun _ => id

/-- The sample buffer and the buffer list are written, apart from all that was there before. -/
theorem Steady.prepared {e : StreamEngine} {w₁ w₂ : Arena} {pieces : List BufferPiece} (h : Steady config scratch s w)
    (hnone : s.sample = none) (he : s.output[config.outputStream]? = some e)
    (hshape : BufferList.checkShape waveform.size config.bdlEntries = .ok ()) (hsampled : Sampled w waveform g w₁)
    (hpieces : pieces = (List.range config.bdlEntries).map (BufferList.piece g.address waveform.size config.bdlEntries))
    (hwrote : Wrote w₁ e.list 0 pieces w₂) : Prepared config scratch s e g waveform w₂ := by
  have hmem := List.mem_of_getElem? he
  have hlength : pieces.length = config.bdlEntries := by
    rw [hpieces, List.length_map, List.length_range]
  have hlong := h.long e hmem
  obtain ⟨-, hmax, -, -⟩ := BufferList.checkShape_ok.1 hshape
  have hrecords : config.bdlEntries * BufferList.recordLength ≤ e.list.length :=
    Nat.le_trans (Nat.mul_le_mul_right BufferList.recordLength hmax) hlong
  have hlive : w₂.live = g :: w.live := hwrote.live.trans hsampled.live
  have hlawful : w₂.Lawful := h.lawful.allocate hsampled.granted hlive
  have hholds : w₂.Holds (scratch ++ g :: s.regions) := (h.holds.allocate hlive).perm List.perm_middle.symm
  have hlist : g.Apart e.list := hsampled.granted.apart _ (h.live (list_mem hmem))
  have hmemory : ∀ p, (p < e.list.host ∨ e.list.host + config.bdlEntries * BufferList.recordLength ≤ p) →
      w₂.memory p = w₁.memory p := by
    intro p hp
    refine hwrote.memory p ?_
    rw [hlength, Nat.zero_mul, Nat.zero_add]
    exact hp
  refine ⟨⟨hlawful, ?_, h.long, h.low, fun e' he' => ?_, h.chosen, ?_⟩, hnone, he, hholds, hshape, hsampled.granted.long,
    fun i hi => ?_, fun k hk => ?_⟩
  · exact (hholds.perm List.perm_middle).drop
  · obtain rfl := Option.some.inj (he.symm.trans he')
    intro k hfrom hk
    rw [hmemory _ (by omega), hsampled.retains _ (h.live (list_mem hmem)) k hk]
    exact h.blank e he k hfrom hk
  · intro g' hg'
    cases hnone.symm.trans hg'
  · have hrecord := hwrote.records i (by omega)
    rw [Nat.zero_add] at hrecord
    rw [hrecord]
    congr 1
    simp only [hpieces, List.getElem_map, List.getElem_range]
  · have hgranted := hsampled.granted.long
    rw [hmemory _ (by rcases hlist.1 with h | h <;> omega)]
    exact hsampled.samples k hk

theorem load_attempted {e : StreamEngine} (hc : c.Roomy config scratch) (h : Steady config scratch s w)
    (hnone : s.sample = none) (he : s.output[config.outputStream]? = some e) :
    Ensures Arena.world n (load config e waveform topology.audioOutputs) (c, s) w (attempted config scratch waveform _) := by
  refine ensures_bind.2 (allocateSample_allocates.mono ?_ ?_ (fun _ => id) fun _ h => h.elim)
  · rintro ⟨g, pieces⟩ _ w₁ ⟨rfl, hshape, hpieces, hsampled⟩
    have hpieces : pieces = (List.range config.bdlEntries).map
      (BufferList.piece g.address waveform.size config.bdlEntries) := hpieces
    have hlength : pieces.length = config.bdlEntries := by
      rw [hpieces, List.length_map, List.length_range]
    have hroom : (0 + pieces.length) * BufferList.recordLength ≤ e.list.length := by
      rw [Nat.zero_add, hlength]
      exact Nat.le_trans (Nat.mul_le_mul_right _ (BufferList.checkShape_ok.1 hshape).2.1) (h.long e (List.mem_of_getElem? he))
    refine (ensures_bind (n := n)).2 ((writePieces_writes hroom).of_succeeds ?_)
    rintro _ _ w₂ ⟨rfl, hwrote⟩
    exact describe_attempted hc (h.prepared hnone he hshape hsampled hpieces hwrote) hlength
  · rintro error _ _ ⟨rfl, rfl⟩
    exact ⟨hc, h⟩

/-- The streams are in order without the sample buffer they had, whether it is given back or not. -/
theorem dropSample_steady (h : Steady config scratch s w) :
    Ensures Arena.world n (dropSample s.sample) (c, { s with sample := none }) w
      (throughout fun t w' => t = (c, { s with sample := none }) ∧ Steady config scratch { s with sample := none } w') := by
  cases hold : s.sample with
  | none => exact ⟨rfl, h.dropSample⟩
  | some old =>
    refine ensures_free.2 ?_
    rintro (error | ⟨⟩) w' hw'
    · rcases hw' with rfl | rfl
      · exact ⟨rfl, h.dropSample⟩
      · exact ⟨rfl, h.freeSample hold⟩
    · obtain rfl := hw'
      exact ⟨rfl, h.freeSample hold⟩

/-- **However an attempt to program an engine ends**, the streams stay in order; if it comes to a result, the engine plays
the waveform. -/
theorem program_attempted (hc : c.Roomy config scratch) (h : Steady config scratch s w) :
    Ensures Arena.world n (program topology waveform) (c, s) w (attempted config scratch waveform _) := by
  obtain rfl : c.config = config := hc.1
  rw [program_eq, ensures_bind, ensures_get, Outcome.withOk]
  dsimp only
  cases he : s.output[c.config.outputStream]? with
  | none => exact ⟨hc, h⟩
  | some e =>
    have hmem := List.mem_of_getElem? he
    dsimp only
    have hlight : ∀ c, Light scratch c → Closed Arena.world (w.Undisturbed scratch) c := fun _ => closed_of_light
    have hkeeps : Keeps Arena.world (fun t => t = (c, s)) (w.Undisturbed scratch) (resetEngine e.base
        (c.config.poll.limit .streamReset)) := resetEngine_keeps hlight (h.low e hmem)
    have hreset := hkeeps n (c, s) w rfl .refl
    refine ensures_bind.2 (hreset.mono ?_ ?_ (fun _ => id) fun _ => id)
    · rintro _ _ w₁ ⟨rfl, hw₁⟩
      refine (ensures_bind (n := n)).2 (ensures_modify.2 (ensures_bind.2 ?_))
      refine (dropSample_steady (h.undisturbed hw₁)).mono ?_ ?_ (fun _ => id) fun _ => id
      · rintro _ _ w₂ ⟨rfl, h⟩
        exact load_attempted hc h rfl he
      · rintro error _ w₂ ⟨rfl, h⟩
        exact ⟨hc, h⟩
    · rintro error _ w' ⟨rfl, hw'⟩
      exact ⟨hc, h.undisturbed hw'⟩

end Streams
end AudioBringup
