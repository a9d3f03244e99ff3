import AudioBringup.Proofs.Arena
import AudioBringup.Proofs.RingFifo
/-!
# Proofs.Light — the steps that leave the memory of the streams alone

Commands write the command ring and registers of their own; resetting and starting an engine writes its control only.
Neither touches what a stream descriptor says, or what it points at.
-/
namespace AudioBringup

open Procedure Arena

/-! ### Commands -/

/-- The rings have room for every slot the host can come to. -/
structure CommandRings.Roomy (r : CommandRings) : Prop where
  corb : CommandRings.corbLength ≤ r.corb.length
  rirb : CommandRings.rirbLength ≤ r.rirb.length
  write : r.writeCursor < r.corbEntries.count
  read : r.readCursor < r.rirbEntries.count

/-- The memory of the transport is `scratch`, and has room. -/
def Transport.Roomy (scratch : List Region) : Transport → Prop
  | .immediate _ => True
  | .rings r => scratch = [r.corb, r.rirb] ∧ r.Roomy

/-- The controller is to do `config`, and the memory of its transport is `scratch` if it has one. -/
def Controller.Roomy (config : Config) (scratch : List Region) (c : Controller) : Prop :=
  c.config = config ∧ ∀ t, c.transport = some t → t.Roomy scratch

/-- The transport, if there is one, has the memory it needs. -/
def Controller.Housed (c : Controller) (w : Arena) : Prop := ∃ scratch, c.Roomy c.config scratch ∧ w.Holds scratch

/-- A platform that nothing was done with yet. -/
def Arena.untouched : Arena := ⟨fun _ => 0, [], fun _ => 0⟩

theorem Arena.lawful_untouched : Arena.untouched.Lawful := ⟨List.Pairwise.nil, nofun⟩

/-- A controller without a transport needs no memory for one. -/
theorem Arena.housed_untouched {config : Config} : Controller.Housed { config } Arena.untouched :=
  ⟨[], ⟨rfl, nofun⟩, [], List.Perm.refl _⟩

theorem RingEntries.count_pos (e : RingEntries) : 0 < e.count := Nat.zero_lt_of_lt e.two_le_count

theorem Width.bytes_le : ∀ w : Width, w.bytes ≤ 4
  | .byte | .word | .dword => by decide

theorem CommandRings.Roomy.advanceWrite {r : CommandRings} (h : r.Roomy) : r.advanceWrite.Roomy :=
  { h with write := Nat.mod_lt _ r.corbEntries.count_pos }

theorem CommandRings.Roomy.advanceRead {r : CommandRings} (h : r.Roomy) : r.advanceRead.Roomy :=
  { h with read := Nat.mod_lt _ r.rirbEntries.count_pos }

namespace Arena

variable {scratch : List Region} {wd : Width} {o v : BitVec 32}

/-- No register below the stream descriptors describes a stream. -/
theorem light_low (ho : o.toNat < 124) : Light scratch (.write wd o v) := by
  intro i hi hdescribing
  have hbytes := Width.bytes_le wd
  have hlow := hdescribing.1
  omega

/-- The control of a stream does not describe it. -/
theorem light_control {d : Nat} (hd : d < 64) (ho : o.toNat + wd.bytes ≤ 4) :
    Light scratch (.write wd (Register.stream d + o) v) := by
  intro i hi hdescribing
  have hfield := hdescribing.2
  rw [Register.toNat_stream hd (by omega)] at hfield
  omega

end Arena

section
variable {σ ω : Type} {W : World Call Call.Answer ω} {P : σ → Prop} {K : ω → Prop} {scratch : List Region}

theorem ImmediateInterface.awaitResponse_keeps (hlight : ∀ c, Light scratch c → Closed W K c) : ∀ patience,
    Keeps W P K (ImmediateInterface.awaitResponse patience)
  | 0 => fun _ _ _ _ _ => trivial
  | patience + 1 => by
    refine keeps_bind (keeps_read16 (hlight _ trivial)) fun status => keeps_ite keeps_pure ?_
    refine keeps_bind (keeps_ask (hlight .timerExpired trivial)) fun _ => keeps_ite keeps_pure ?_
    exact awaitResponse_keeps hlight patience

theorem ImmediateInterface.exchange_keeps (hlight : ∀ c, Light scratch c → Closed W K c) (timeout : BitVec 64)
    (word : BitVec 32) : Keeps W P K (ImmediateInterface.exchange timeout word) := by
  refine keeps_bind (keeps_write (hlight _ (light_low (by decide)))) fun _ => ?_
  refine keeps_bind (keeps_write (hlight _ (light_low (by decide)))) fun _ => ?_
  refine keeps_bind (keeps_write (hlight _ (light_low (by decide)))) fun _ => ?_
  refine keeps_bind (keeps_ask (hlight (.armTimer timeout) trivial)) fun _ => ?_
  refine keeps_bind (fun n => awaitResponse_keeps hlight n n) fun answered => ?_
  refine keeps_bind (keeps_ask (hlight .cancelTimer trivial)) fun _ => keeps_ite ?_ ?_
  · refine keeps_bind (keeps_read (hlight _ trivial)) fun response => ?_
    refine keeps_bind (keeps_read16 (hlight _ trivial)) fun status => ?_
    refine keeps_bind (keeps_write (hlight _ (light_low (by decide)))) fun _ => ?_
    exact keeps_bind (keeps_note (hlight _ trivial)) fun _ => keeps_pure
  · exact keeps_bind (keeps_note (hlight _ trivial)) fun _ => keeps_pure

theorem CommandRings.exchange_keeps (hlight : ∀ c, Light scratch c → Closed W K c) (word : BitVec 32) :
    Keeps W (fun r => Transport.Roomy scratch (.rings r)) K (CommandRings.exchange word) := by
  refine keeps_bind (keeps_modify fun r h => ⟨h.1, h.2.advanceWrite⟩) fun _ => keeps_get fun r hr => ?_
  obtain ⟨rfl, hroomy⟩ := hr
  have hwrite : r.writeCursor * corbSlot + 4 ≤ r.corb.length := by
    have hcount := r.corbEntries.count_le
    have hcursor := hroomy.write
    have hcorb := hroomy.corb
    simp only [corbSlot, corbLength] at hcorb ⊢
    omega
  refine keeps_bind (keeps_store32 hwrite (Nat.mul_mod_left _ _) (hlight _ ⟨r.corb, List.mem_cons_self, ?_⟩)) fun _ => ?_
  · omega
  refine keeps_bind (keeps_write (hlight _ (light_low (by decide)))) fun _ => ?_
  refine keeps_bind (keeps_waitUntil (keeps_look16 (hlight _ trivial)) fun _ => hlight _ trivial) fun _ => ?_
  refine keeps_bind (keeps_waitUntil (keeps_look16 (hlight _ trivial)) fun _ => hlight _ trivial) fun _ => ?_
  refine keeps_bind (keeps_modify fun r h => ⟨h.1, h.2.advanceRead⟩) fun _ => keeps_get fun r' hr' => ?_
  have hread : r'.readCursor * rirbSlot + 4 ≤ r'.rirb.length := by
    have hcount := r'.rirbEntries.count_le
    have hcursor := hr'.2.read
    have hrirb := hr'.2.rirb
    simp only [rirbSlot, rirbLength] at hrirb ⊢
    omega
  have haligned : r'.readCursor * rirbSlot % 4 = 0 := by
    simp only [rirbSlot]
    omega
  refine keeps_bind (keeps_load32 hread haligned (hlight _ trivial)) fun _ => ?_
  refine keeps_bind (keeps_write (hlight _ (light_low (by decide)))) fun _ => ?_
  exact keeps_bind (keeps_note (hlight _ trivial)) fun _ => keeps_pure

theorem Transport.exchange_keeps (hlight : ∀ c, Light scratch c → Closed W K c) (word : BitVec 32) :
    Keeps W (Transport.Roomy scratch) K (Transport.exchange word) := by
  refine keeps_get fun t ht => ?_
  cases t with
  | immediate timeout => exact ImmediateInterface.exchange_keeps hlight timeout word
  | rings r => exact keeps_on (CommandRings.exchange_keeps hlight word) ht fun _ _ h _ => h

theorem Controller.command_keeps {config : Config} (hlight : ∀ c, Light scratch c → Closed W K c) (cmd : Command) :
    Keeps W (Controller.Roomy config scratch) K (Controller.command cmd) := by
  refine keeps_get fun c hc => ?_
  cases ht : c.transport with
  | none => exact keeps_fail
  | some t =>
    have hsent : Keeps W (Controller.Roomy config scratch) K
        (on t (fun t s => { s with transport := some t }) (Transport.exchange cmd.encode)) := by
      refine keeps_on (Transport.exchange_keeps hlight _) (hc.2 t ht) fun t s h hs => ⟨hs.1, ?_⟩
      rintro _ ⟨⟩
      exact h
    exact keeps_ite (keeps_bind (keeps_note (hlight _ trivial)) fun _ => hsent) hsent

namespace Streams

theorem formatConverters_keeps {config : Config} (hlight : ∀ c, Light scratch c → Closed W K c) : ∀ converters,
    Keeps W (Controller.Roomy config scratch) K (formatConverters converters)
  | [] => keeps_pure
  | addr :: rest => by
    refine keeps_get fun c _ => keeps_bind (keeps_note (hlight _ trivial)) fun _ => ?_
    refine keeps_bind (Controller.command_keeps hlight _) fun _ => ?_
    refine keeps_bind (Controller.command_keeps hlight _) fun _ => ?_
    exact formatConverters_keeps hlight rest

/-! ### An engine's control -/

theorem resetEngine_keeps {d : Nat} {limit : WaitLimit} (hlight : ∀ c, Light scratch c → Closed W K c) (hd : d < 64) :
    Keeps W P K (resetEngine (Register.stream d) limit) := by
  have hcontrol : ∀ v, Closed W K (.write .word (Register.stream d + Register.sdctl) v) := fun _ =>
    hlight _ (light_control hd (by decide))
  refine keeps_bind (keeps_read16 (hlight _ trivial)) fun _ => keeps_bind (keeps_write (hcontrol _)) fun _ => ?_
  refine keeps_bind (keeps_waitUntil (keeps_look16 (hlight _ trivial)) fun _ => hlight _ trivial) fun _ => ?_
  refine keeps_bind (keeps_read16 (hlight _ trivial)) fun _ => keeps_bind (keeps_write (hcontrol _)) fun _ => ?_
  exact keeps_waitUntil (keeps_look16 (hlight _ trivial)) fun _ => hlight _ trivial

theorem start_keeps {s : Streams} {P : Controller → Prop} (hlight : ∀ c, Light scratch c → Closed W K c)
    (hlow : ∀ e, s.programmedEngine = some e → e.descriptor < 64) : Keeps W P K s.start := by
  refine keeps_get fun c _ => ?_
  cases he : s.programmedEngine with
  | none => exact keeps_fail
  | some engine =>
    have hd := hlow engine he
    have hssync : ∀ v, Closed W K (.write .dword Register.ssync v) := fun _ => hlight _ (light_low (by decide))
    have hrunning : Keeps W P K (note (.streamRunning c.config.outputStream c.config.streamTag)) :=
      keeps_note (hlight _ trivial)
    have hreleased : ∀ v, Keeps W P K (if c.config.syncStreams then (do
        write32 Register.ssync v
        note (.streamRunning c.config.outputStream c.config.streamTag))
      else note (.streamRunning c.config.outputStream c.config.streamTag)) := fun v =>
      keeps_ite (keeps_bind (keeps_write (hssync v)) fun _ => hrunning) hrunning
    refine keeps_bind (keeps_read16 (hlight _ trivial)) fun low => ?_
    refine keeps_bind (keeps_read8 (hlight _ trivial)) fun high => ?_
    refine keeps_bind (keeps_write (hlight _ (light_control hd (by decide)))) fun _ => ?_
    refine keeps_bind (keeps_read (hlight _ trivial)) fun sync => ?_
    refine keeps_ite (keeps_bind (keeps_write (hssync _)) fun _ => ?_) ?_
    · exact keeps_bind (keeps_write (hlight _ (light_control hd (by decide)))) fun _ => hreleased _
    · exact keeps_bind (keeps_write (hlight _ (light_control hd (by decide)))) fun _ => hreleased _

end Streams
end
end AudioBringup
