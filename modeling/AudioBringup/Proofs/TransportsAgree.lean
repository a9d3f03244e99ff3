import AudioBringup.Proofs.ImmediateChannel
import AudioBringup.Proofs.LockstepStreams
import AudioBringup.Proofs.RingChannel
/-!
# Proofs.TransportsAgree — the rings and the immediate interface cannot be told apart

Both are channels to the codecs, so the walk and the programming after it stay in lockstep over them: the codecs hear the
same words, and what comes back is the same.
-/
namespace AudioBringup

open Procedure

/-- What a run ends in, without the state it leaves. -/
def Ending.shown {σ α : Type} : Ending (Except Error α × σ) → Ending (Except Error α)
  | .result (r, _) => .result r
  | .misused m => .misused m
  | .stuck => .stuck

namespace Streams

/-- Walks the codecs and programs an engine for the converters they have. -/
def walkAndProgram (waveform : Array Byte) : Procedure (Controller × Streams) (Topology × List NodeAddr) := do
  let topology ← onController Topology.walk
  let converters ← program topology waveform
  return (topology, converters)

section
variable {ω₁ ω₂ ρ : Type} {W₁ : World Call Call.Answer ω₁} {W₂ : World Call Call.Answer ω₂} {n : Nat} {link : Link}
  {P : Platform ρ} {c : Controller}

theorem walkAndProgram_paired {D₁ : Channel W₁ n link P} {D₂ : Channel W₂ n link P} (waveform : Array Byte)
    (hcodecs : ∀ a ∈ c.codecAddresses, link.Has a) :
    Lockstep.Paired D₁ D₂ c Eq (walkAndProgram waveform) (walkAndProgram waveform) := by
  refine matched_bind (Lockstep.onController_paired (Lockstep.walk_locked hcodecs)) ?_
  rintro topology _ ⟨rfl, hall⟩
  refine matched_bind (Lockstep.program_paired waveform hall) ?_
  rintro converters _ rfl
  exact matched_pure rfl

/-- **Over any two channels to the same codecs** every run ends the same way, and has sent the same words. -/
theorem walkAndProgram_agree (D₁ : Channel W₁ n link P) (D₂ : Channel W₂ n link P) {t₁ t₂ : Transport}
    {words : List (BitVec 32)} {x : ρ} {w₁ w₁' : ω₁} {w₂ w₂' : ω₂} {s s' : Streams}
    {e₁ e₂ : Ending (Except Error (Topology × List NodeAddr) × (Controller × Streams))} {waveform : Array Byte}
    (hcodecs : ∀ a ∈ c.codecAddresses, link.Has a) (hstreams : s.Alike s') (hat₁ : D₁.At t₁ words x w₁)
    (hat₂ : D₂.At t₂ words x w₂)
    (h₁ : (walkAndProgram waveform n ({ c with transport := some t₁ }, s)).Ends W₁ w₁ e₁ w₁')
    (h₂ : (walkAndProgram waveform n ({ c with transport := some t₂ }, s')).Ends W₂ w₂ e₂ w₂') :
    e₁.shown = e₂.shown ∧ D₁.sent w₁' = D₂.sent w₂' := by
  have hlevel : Lockstep.Beside D₁ D₂ c ({ c with transport := some t₁ }, s) w₁ ({ c with transport := some t₂ }, s') w₂ :=
    ⟨⟨t₁, t₂, words, x, rfl, rfl, hat₁, hat₂⟩, hstreams⟩
  cases walkAndProgram_paired waveform hcodecs _ _ _ _ hlevel _ _ _ _ h₁ h₂ with
  | misused m hsent => exact ⟨rfl, hsent⟩
  | stuck hsent => exact ⟨rfl, hsent⟩
  | @result r r' _ _ _ _ hr hbeside =>
    refine ⟨?_, hbeside.sameSent⟩
    cases r with
    | error e =>
      cases r' with
      | error e' =>
        obtain rfl : e = e' := hr
        rfl
      | ok b => cases hr
    | ok a =>
      cases r' with
      | error e' => cases hr
      | ok b =>
        obtain rfl : a = b := hr
        rfl

end

/-- **The two transports are observationally equal.**  The codecs are any machines, one at each address that reported in;
the rings have any size and stand anywhere; the devices take as long as they like over each answer, within the limit of the
waits and the timer.  Then runs there are on both sides, and any two of them end in the same topology and converters, in
the same failure, or the same way otherwise, with the same words sent to the codecs. -/
theorem rings_agree_with_immediate {ρ : Type} (link : Link) (P : Platform ρ) (lasts : BitVec 64 → Nat)
    {latency latency' n : Nat} (c : Controller) {s s' : Streams} {r : CommandRings} {t : RingOrders} (ring : RingSide ρ)
    (timeout : BitVec 64) (immediate : ImmediateSide ρ) (waveform : Array Byte)
    (hcodecs : ∀ a ∈ c.codecAddresses, link.Has a) (hstreams : s.Alike s')
    (hring : CommandRings.InStep t r [] [] ring.device) (hcorb : t.corbRun = true) (hrirb : t.rirbRun = true)
    (hlimit : latency < r.drainLimit.checks n)
    (hsent : immediate.sent = []) (himmediate : immediate.Sound) (htimer : latency' < lasts timeout) (hn : latency' < n)
    (hrest : ring.rest = immediate.rest) :
    let overRings := (walkAndProgram waveform n ({ c with transport := some (.rings r) }, s)).Ends
      (RingSide.world link P latency) ring
    let overImmediate := (walkAndProgram waveform n ({ c with transport := some (.immediate timeout) }, s')).Ends
      (ImmediateSide.world link P latency' lasts) immediate
    (∃ e w, overRings e w) ∧ (∃ e w, overImmediate e w) ∧
      ∀ e w e' w', overRings e w → overImmediate e' w' → e.shown = e'.shown ∧ w.device.fetched = w'.sent := by
  have hready : ring.Ready link latency n [] r := ⟨hlimit, t, [], hring, rfl, hcorb, hrirb⟩
  have hsound : ring.Sound link := by
    refine ⟨?_, ?_, ?_⟩
    · rw [hring.stands.corbRead]
      exact Nat.lt_of_lt_of_le hring.corb_lt r.corbEntries.count_le
    · rw [hring.stands.rirbWrite]
      exact Nat.lt_of_lt_of_le hring.rirb_lt r.rirbEntries.count_le
    · rw [hring.stands.said_nil]
      exact Link.honest_nil
  refine ⟨?_, ?_, ?_⟩
  · exact Program.exists_ends (fun c _ h => RingSide.exists_answer h c) _ hsound
  · exact Program.exists_ends (fun c _ h => ⟨_, _, ImmediateSide.eager_world c h⟩) _ himmediate
  · intro e w e' w' h h'
    exact walkAndProgram_agree (ringChannel link P latency n) (immediateChannel link P lasts hn) hcodecs hstreams
      ⟨r, rfl, hready, rfl⟩ ⟨timeout, rfl, htimer, hsent, hrest.symm⟩ h h'

/-! ### A codec that counts -/

/-- A codec with a function group and one converter below it; its revision is how many words it has heard. -/
def countingCodec : CodecMachine where
  State := Nat
  start := 0
  step heard word :=
    (match (Bits.field word 20 7).toNat, (Bits.field word 0 20).toNat with
      | _, 0xf0000 => 0x10ec0888
      | _, 0xf0002 => BitVec.ofNat 32 heard
      | 0, 0xf0004 => 0x00010001
      | 1, 0xf0004 => 0x00020001
      | 1, 0xf0005 => 1
      | 2, 0xf0009 => 1
      | _, _ => 0, heard + 1)

/-- It is at address 0, and there is no other. -/
def countingLink : Link := fun address => if address = 0 then some countingCodec else none

/-- A platform with memory for everyone, whose registers all show what was last written to the first stream's control. -/
def echoing : Platform (BitVec 32) where
  read _ _ x := (.ok x, x)
  write _ o v x := (.ok (), if o = Register.stream 0 then v else x)
  allocate k x := (.ok k, x)
  free _ x := (.ok (), x)
  blind := by
    rintro _ o v v' x ⟨d, hd, ho⟩
    have hne : o ≠ Register.stream 0 := by
      intro h
      have hzero : (Register.stream 0).toNat = 0x80 := by decide
      rw [← h] at hzero
      rcases ho with rfl | rfl
      · rw [Register.toNat_stream hd (by decide)] at hzero
        simp only [Register.sdbdpl, BitVec.reduceToNat] at hzero
        omega
      · rw [Register.toNat_stream hd (by decide)] at hzero
        simp only [Register.sdbdpu, BitVec.reduceToNat] at hzero
        omega
    rw [if_neg hne, if_neg hne]

/-- Rings of two commands and sixteen responses, set up and at their start. -/
def smallRings : CommandRings where
  corb := ⟨0x1000, 0x1000, 1024, 0⟩
  rirb := ⟨0x2000, 0x2000, 2048, 0⟩
  corbEntries := .two
  rirbEntries := .sixteen
  writeCursor := 0
  readCursor := 0
  resetLimit := .unbounded
  drainLimit := .iterations 3

/-- The device that works them. -/
def smallDevice : RingDevice where
  told := ⟨id, 0x1000, 0x2000, 0x10, 0x21, true, true, false, 0⟩
  memory := fun _ => 0
  corbRunning := true
  rirbRunning := true
  corbInReset := false
  corbRead := 0
  rirbWrite := 0
  outstanding := []
  unannounced := none
  fetched := []
  answered := []

theorem smallDevice_inStep : CommandRings.InStep smallDevice.told smallRings [] [] smallDevice where
  served := {
    corbSlots := rfl
    rirbSlots := rfl
    corbAt := fun i _ => rfl
    rirbAt := fun i _ => rfl
    corbLong := Nat.le_refl _
    rirbLong := Nat.le_refl _ }
  stands := ⟨rfl, rfl, rfl, rfl, rfl, rfl, rfl, rfl⟩
  reset := rfl
  write := rfl
  corb_lt := by decide
  rirb_lt := by decide

def oneEngine : Streams where
  input := []
  output := [⟨.output, 0, 0, ⟨0x4000, 0x4000, BufferList.length, 0⟩⟩]
  bidirectional := []
  positions := ⟨0x6000, 0x6000, 8, 0⟩

/-- What a run found: how many nodes, and which converters. -/
def found : Ending (Except Error (Topology × List NodeAddr)) → Option (Nat × List NodeAddr)
  | .result (.ok (topology, converters)) => some (topology.nodeCount, converters)
  | _ => none

/-- A run beside one engine, with a codec at address 0. -/
def smallRun (t : Transport) : Program Call Call.Answer (Except Error (Topology × List NodeAddr) × (Controller × Streams)) :=
  walkAndProgram (Array.replicate 256 0) 4 ({ config := {}, presentCodecs := 1, transport := some t }, oneEngine)

/-- Over the rings as over the immediate interface the walk finds both nodes, and the converter is pointed at the engine. -/
theorem rings_agree_with_immediate_countingCodec :
    (∃ e w, (smallRun (.rings smallRings)).Ends (RingSide.world countingLink echoing 2) ⟨smallDevice, 0, 0⟩ e w) ∧
    ∀ e w, (smallRun (.rings smallRings)).Ends (RingSide.world countingLink echoing 2) ⟨smallDevice, 0, 0⟩ e w →
      found e.shown = some (2, [⟨0, 2⟩]) := by
  have himmediate : (ImmediateSide.mk 0 none false [] 0 0 (0 : BitVec 32)).Sound := nofun
  have hcodecs : ∀ a ∈ ({ config := {}, presentCodecs := 1 } : Controller).codecAddresses, countingLink.Has a := by decide
  have hlow : ∀ e ∈ oneEngine.output, e.descriptor < 64 := by decide
  have htimer : 3 < (10 : BitVec 64).toNat := by decide
  have hlimit : 2 < smallRings.drainLimit.checks 4 := by decide
  obtain ⟨hruns, -, hagree⟩ := rings_agree_with_immediate countingLink echoing (·.toNat) { config := {}, presentCodecs := 1 }
    ⟨smallDevice, 0, 0⟩ 10 ⟨0, none, false, [], 0, 0, 0⟩ (Array.replicate 256 0) hcodecs (.refl hlow)
    smallDevice_inStep rfl rfl hlimit rfl himmediate htimer (Nat.lt_succ_self 3) rfl
  -- one run over the immediate interface, executed
  have hrun : (smallRun (.immediate 10)).Ends (ImmediateSide.world countingLink echoing 3 (·.toNat))
      ⟨0, none, false, [], 0, 0, 0⟩ _ _ :=
    Program.ends_run (fun c _ h => ImmediateSide.eager_world c h) himmediate
  have hfound : found ((smallRun (.immediate 10)).run (ImmediateSide.eager countingLink echoing (·.toNat))
      ⟨0, none, false, [], 0, 0, 0⟩).1.shown = some (2, [⟨0, 2⟩]) := by
    decide +kernel
  refine ⟨hruns, fun e w h => ?_⟩
  rw [(hagree e w _ _ h hrun).1]
  exact hfound

end Streams
end AudioBringup
