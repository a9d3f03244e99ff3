import AudioBringup.Proofs.BufferSplit
import AudioBringup.Proofs.Routine
/-!
# Proofs.StreamCalls — which calls programming an engine makes

Programming is a row of steps (`program_eq`), each confined to calls of a few kinds.  What is said here of any class of
calls that has those is used for several: the plain ones, those that leave position reporting alone, those that start
nothing.
-/
namespace AudioBringup

open Procedure

namespace Streams

/-! ### The steps of programming -/

/-- Gives an earlier sample buffer back. -/
def dropSample {σ : Type} : Option Region → Procedure σ Unit
  | none => pure ()
  | some earlier => free earlier

/-- The sample buffer comes first of what the streams hold. -/
theorem regions_sample (s : Streams) : s.regions = s.sample.toList ++ regions { s with sample := none } := by
  simp [regions]

/-- Points an engine at its buffer list, has the streams hold the sample buffer, and points the converters at the engine. -/
def describe (config : Config) (engine : StreamEngine) (sample : Region) (count : Nat) (waveform : Array Byte)
    (converters : List NodeAddr) : Procedure (Controller × Streams) (List NodeAddr) := do
  write32 (engine.base + Register.sdcbl) (BitVec.ofNat 32 waveform.size)
  write16 (engine.base + Register.sdlvi) (BitVec.ofNat 16 (count - 1))
  writeAddress (engine.base + Register.sdbdpl) (engine.base + Register.sdbdpu) engine.list.address
  write16 (engine.base + Register.sdfmt) config.format.raw
  note (.streamProgrammed config.outputStream engine.descriptor waveform.size count)
  update fun s => { s with sample := some sample, programmed := some config.outputStream }
  onController (formatConverters converters)
  return converters

/-- Gets a sample buffer and writes the waveform and the buffer list for it, before the engine is pointed at them. -/
def load (config : Config) (engine : StreamEngine) (waveform : Array Byte) (converters : List NodeAddr) :
    Procedure (Controller × Streams) (List NodeAddr) := do
  let (sample, pieces) ← allocateSample waveform config.bdlEntries
  writePieces engine.list 0 pieces
  describe config engine sample pieces.length waveform converters

/-- **Programming is one row of steps**, whether there is an earlier sample buffer or not. -/
theorem program_eq (topology : Topology) (waveform : Array Byte) : program topology waveform = (do
    let (controller, streams) ← get
    match streams.output[controller.config.outputStream]? with
    | none => fail (.noOutputStream controller.config.outputStream streams.output.length)
    | some engine =>
      resetEngine engine.base (controller.config.poll.limit .streamReset)
      update fun s => { s with sample := none }
      dropSample streams.sample
      load controller.config engine waveform topology.audioOutputs) := by
  unfold program
  congr 1
  funext ⟨controller, streams⟩
  dsimp only
  cases streams.output[controller.config.outputStream]? with
  | none => rfl
  | some engine =>
    dsimp only
    cases streams.sample <;> rfl

/-! ### Their calls -/

section
variable {σ τ : Type} {P : Call → Prop} {f : σ → τ}

theorem confined_resetEngine {base : BitVec 32} {limit : WaitLimit} (hread : ∀ w o, P (.read w o))
    (hwrite : ∀ v, P (.write .word (base + Register.sdctl) v)) (hgave : ∀ k, P (.note (.gaveUp .streamReset k))) :
    Confined P f (resetEngine base limit) := by
  refine confined_bind (confined_read16 (hread _ _)) fun _ => confined_bind (confined_write (hwrite _)) fun _ => ?_
  refine confined_bind (confined_waitUntil (confined_look16 (hread _ _)) hgave) fun _ => ?_
  refine confined_bind (confined_read16 (hread _ _)) fun _ => confined_bind (confined_write (hwrite _)) fun _ => ?_
  exact confined_waitUntil (confined_look16 (hread _ _)) hgave

theorem confined_writePieces {list : Region} (hstore64 : ∀ p v, P (.store64 p v)) (hstore32 : ∀ p v, P (.store32 p v)) :
    ∀ {index : Nat} {pieces : List BufferPiece}, Confined P f (writePieces list index pieces)
  | _, [] => confined_pure _
  | _, _ :: _ => by
    refine confined_bind (confined_store64 (hstore64 _ _)) fun _ => confined_bind (confined_store32 (hstore32 _ _)) fun _ => ?_
    exact confined_bind (confined_store32 (hstore32 _ _)) fun _ => confined_writePieces hstore64 hstore32

theorem confined_dropSample {earlier : Option Region} (hfree : ∀ g ∈ earlier, P (.free g)) :
    Confined P f (dropSample earlier) := by
  cases earlier with
  | none => exact confined_pure _
  | some g => exact confined_ask (c := .free g) (hfree g rfl)

/-- A waveform that has a sample buffer has pieces as well, so that the buffer is never given back at once. -/
theorem confined_allocateSample {waveform : Array Byte} {parts : Nat} (hallocate : ∀ k, P (.allocate k))
    (hfill : ∀ p data, P (.fill p data)) : Confined P f (allocateSample waveform parts) := by
  unfold allocateSample
  cases hshape : BufferList.checkShape waveform.size parts with
  | error e => exact confined_fail e
  | ok _ =>
    refine confined_bind (confined_ask (c := .allocate _) (hallocate _)) fun sample => ?_
    rw [BufferList.split_of_ok sample.address hshape]
    exact confined_bind (confined_fill (hfill _ _)) fun _ => confined_pure _

end

section
variable {α τ υ : Type} {P : Call → Prop} {f : Controller × Streams → τ}

theorem confined_onController {g : Controller → υ} {x : Procedure Controller α} (hx : Confined P g x)
    (hf : ∀ c t, g c = g t.1 → f (c, t.2) = f t) : Confined P f (onController x) := fun _ t _ =>
  ensures_bind.2 (ensures_get.2 (confined_on hx fun c => hf c t))

/-- What programming does once the engine is reset and the earlier sample buffer is gone is confined to calls that write no
register but those of the engine beside its control, and to those that format the converters. -/
theorem confined_load {e : StreamEngine} {waveform : Array Byte} {config : Config} {converters : List NodeAddr}
    (hother : ∀ c, (∀ w o v, c ≠ .write w o v) → (∀ g, c ≠ .free g) → P c)
    (hwrite : ∀ w o v, 4 ≤ o.toNat → o.toNat + w.bytes ≤ Register.streamLength → o.toNat ≠ 0x10 → o.toNat ≠ 0x14 →
      P (.write w (e.base + o) v))
    (hupdate : ∀ t sample programmed, f (t.1, { t.2 with sample, programmed }) = f t)
    (hformat : Confined P f (onController (formatConverters converters))) :
    Confined P f (load config e waveform converters) := by
  have hnote : ∀ m, P (.note m) := fun m => hother _ nofun nofun
  refine confined_bind (confined_allocateSample (fun _ => hother _ nofun nofun) fun _ _ => hother _ nofun nofun) fun r => ?_
  refine confined_bind (confined_writePieces (fun _ _ => hother _ nofun nofun) fun _ _ => hother _ nofun nofun)
    fun _ => ?_
  refine confined_bind (confined_write (hwrite _ _ _ (by decide) (by decide) (by decide) (by decide))) fun _ => ?_
  refine confined_bind (confined_write (hwrite _ _ _ (by decide) (by decide) (by decide) (by decide))) fun _ => ?_
  refine confined_bind (confined_bind (confined_write (hwrite _ _ _ (by decide) (by decide) (by decide) (by decide)))
    fun _ => confined_write (hwrite _ _ _ (by decide) (by decide) (by decide) (by decide))) fun _ => ?_
  refine confined_bind (confined_write (hwrite _ _ _ (by decide) (by decide) (by decide) (by decide))) fun _ => ?_
  refine confined_bind (confined_note (hnote _)) fun _ => confined_bind (confined_modify fun t => hupdate t _ _) fun _ => ?_
  exact confined_bind hformat fun _ => confined_pure _

end

theorem confined_start {P : Call → Prop} {s : Streams} (hread : ∀ w o, P (.read w o))
    (hssync : ∀ v, P (.write .dword Register.ssync v))
    (hlow : ∀ e v, s.programmedEngine = some e → P (.write .word (e.base + Register.sdctl) v))
    (hhigh : ∀ e v, s.programmedEngine = some e → P (.write .byte (e.base + Register.sdctlHigh) v))
    (hrunning : ∀ i tag, P (.note (.streamRunning i tag))) : Confined P id s.start := by
  refine confined_bind confined_get fun c => ?_
  cases he : s.programmedEngine with
  | none => exact confined_fail _
  | some e =>
    have hnoted : Confined (σ := Controller) P id (note (.streamRunning c.config.outputStream c.config.streamTag)) :=
      confined_note (hrunning _ _)
    refine confined_bind (confined_read16 (hread _ _)) fun low => confined_bind (confined_read8 (hread _ _)) fun high => ?_
    refine confined_bind (confined_write (hhigh e _ he)) fun _ => confined_bind (confined_read (hread _ _)) fun sync => ?_
    have hreleased := confined_ite (c := c.config.syncStreams)
      (confined_bind (confined_write (hssync (Bits.withBit sync e.descriptor false))) fun _ => hnoted) hnoted
    have hstarted := fun v => confined_bind (confined_write (hlow e v he)) fun _ => hreleased
    exact confined_ite (confined_bind (confined_write (hssync _)) fun _ => hstarted _) (hstarted _)

end Streams
end AudioBringup
