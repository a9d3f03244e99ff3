import AudioBringup.Controller
import AudioBringup.Proofs.Station
/-!
# Proofs.PowerOn — a controller leaves its reset

From a controller that was just switched on to one that commands can be sent to: it is out of reset after as many looks as
its latency says, and everything beyond that is as it was.
-/
namespace AudioBringup
namespace Simulation

open Procedure

attribute [local irreducible] LittleEndian.write LittleEndian.read

/-! ### Switched on -/

namespace Rig

variable {u : Rig}

/-- The register file before anything is stored in it. -/
def blank : Device := { registers := Array.replicate Device.fileSize 0 }

theorem registers_device (u : Rig) : u.device.registers = ((((blank.store .word 0x00 (u.capabilities.setWidth 32)).store
    .byte 0x4e (u.corbSizes.setWidth 32 <<< 4)).store .byte 0x5e (u.rirbSizes.setWidth 32 <<< 4)).store .word 0x0e
      (u.stateChanges.setWidth 32)).registers := rfl

theorem fits_device (u : Rig) : u.Fits u.device where
  size := by
    rw [registers_device]
    simp only [Device.size_store, blank, Array.size_replicate]
  codecs := rfl
  immediate := rfl
  resetLatency := rfl
  stopLatency := rfl
  overrides := rfl
  immediateLatency := rfl
  pendingResponse := rfl
  ringsStalled := rfl

theorem cell_blank {q : Nat} (hq : q < Device.fileSize) : blank.cell q = 0 := by
  have hsize : q < (Array.replicate Device.fileSize (0 : Byte)).size := by rwa [Array.size_replicate]
  rw [Device.cell, blank, Array.getD_eq_getD_getElem?, Array.getElem?_replicate, if_pos hq]
  rfl

theorem cell_device {q : Nat} (hq : q < Device.fileSize) (hcaps : q ≠ 0x00 ∧ q ≠ 0x01) (hchanges : q ≠ 0x0e ∧ q ≠ 0x0f)
    (hsizes : q ≠ 0x4e ∧ q ≠ 0x5e) : u.device.cell q = 0 := by
  have hword : Width.word.bytes = 2 := rfl
  have hbyte : Width.byte.bytes = 1 := rfl
  rw [Device.cell_of_registers (registers_device u), Device.cell_store_of_disjoint (by omega),
    Device.cell_store_of_disjoint (by omega), Device.cell_store_of_disjoint (by omega),
    Device.cell_store_of_disjoint (by omega), cell_blank hq]

theorem load_capabilities : (u.device.load .word 0x00).setWidth 16 = u.capabilities := by
  rw [Device.load_of_registers (registers_device u), Device.load_store_of_disjoint (by decide),
    Device.load_store_of_disjoint (by decide), Device.load_store_of_disjoint (by decide),
    Device.load_store (by simp only [blank, Array.size_replicate]; decide), Width.setWidth_truncate_word,
    BitVec.setWidth_setWidth_of_le _ (by decide), BitVec.setWidth_eq]

theorem load_stateChanges : (u.device.load .word 0x0e).setWidth 16 = u.stateChanges := by
  rw [Device.load_of_registers (registers_device u),
    Device.load_store (by simp only [Device.size_store, blank, Array.size_replicate]; decide), Width.setWidth_truncate_word,
    BitVec.setWidth_setWidth_of_le _ (by decide), BitVec.setWidth_eq]

end Rig

namespace Station

variable {u : Rig} {n : Nat} {s s' : Station u} {c : Controller}

/-! ### Leaving reset -/

/-- Everything but the global control register. -/
def BeyondControl (q : Nat) : Prop := q < 0x08 ∨ 0x0c ≤ q

theorem leaves_store_control {d : Device} {v : BitVec 32} : d.Leaves BeyondControl (d.store .dword 0x08 v) :=
  Device.leaves_store fun q hq => by
    have hbytes : Width.dword.bytes = 4 := rfl
    unfold BeyondControl at hq
    omega

theorem settle_control {d : Device} : d.Leaves BeyondControl (d.settle 0x08) := by
  unfold Device.settle
  rw [if_pos rfl]
  split
  · exact .refl
  · exact leaves_store_control.trans (Device.leaves_of_fields rfl rfl rfl rfl rfl rfl)
  · exact Device.leaves_of_fields rfl rfl rfl rfl rfl rfl

theorem read_control {d : Device} (h : u.Fits d) : d.read .dword 0x08 = ((d.settle 0x08).load .dword 0x08,
    { d.settle 0x08 with events := .read .dword 0x08 ((d.settle 0x08).load .dword 0x08) :: (d.settle 0x08).events }) := by
  have hover := (h.settle 0x08).overrides
  unfold Device.read
  rw [if_neg (by decide), if_neg (by decide), if_neg (by simp [Device.isImmediate])]
  dsimp only
  rw [hover]
  simp only [Override.applyAll, Width.truncate_dword]

/-- A look at the global control register. -/
theorem ensures_read_control : Ensures world n (read32 Register.gctl) c s (.succeeds fun a c' s' => c' = c ∧
    s.device.Leaves BeyondControl s'.device ∧
      (s.device.pendingReset = some 0 → a.getLsbD 0 = true) ∧
      ∀ k, s.device.pendingReset = some (k + 1) → s'.device.pendingReset = some k) := by
  refine ensures_read_act.of_succeeds ?_
  rintro _ _ s' ⟨rfl, rfl, hdevice, -⟩
  have hread := read_control s.fits
  change s'.device = (s.device.read .dword 0x08).2 at hdevice
  rw [hread] at hdevice
  dsimp only at hdevice
  refine ⟨rfl, ?_, fun hnow => ?_, fun k hlater => ?_⟩
  · rw [hdevice]
    exact settle_control.trans (Device.leaves_of_fields rfl rfl rfl rfl rfl rfl)
  · change (s.device.read .dword 0x08).1.getLsbD 0 = true
    have hset : (s.device.settle 0x08).registers = (s.device.store .dword 0x08 (s.device.load .dword 0x08 ||| 1)).registers := by
      rw [Device.settle, if_pos rfl, hnow]
    rw [hread, Device.load_of_registers hset, Device.load_store (by rw [s.fits.size]; decide), Width.truncate_dword,
      BitVec.getLsbD_or]
    simp
  · rw [hdevice, Device.settle, if_pos rfl, hlater]

/-- Telling the controller to leave reset. -/
theorem ensures_write_control {v : BitVec 32} (hv : v.getLsbD 0 = true) : Ensures world n (write32 Register.gctl v) c s
    (.succeeds fun _ c' s' => c' = c ∧ s.device.Leaves BeyondControl s'.device ∧
      s'.device.pendingReset = some u.resetLatency) := by
  refine ensures_write_act.of_succeeds ?_
  rintro _ _ s' ⟨rfl, hdevice, -⟩
  have hact : s.device.write .dword 0x08 v =
      ({ s.device.observe (.wrote .dword 0x08 v) with pendingReset := some u.resetLatency } : Device).store .dword 0x08
        (v &&& ~~~1) := by
    rw [Device.write, Device.act, if_pos rfl, Width.truncate_dword, if_pos hv, ← s.fits.resetLatency]
    rfl
  change s'.device = s.device.write .dword 0x08 v at hdevice
  rw [hact] at hdevice
  refine ⟨rfl, ?_, ?_⟩
  · rw [hdevice]
    have hpending : s.device.Leaves BeyondControl
        { s.device.observe (.wrote .dword 0x08 v) with pendingReset := some u.resetLatency } :=
      Device.leaves_of_fields rfl rfl rfl rfl rfl rfl
    exact hpending.trans leaves_store_control
  · rw [hdevice]
    rfl

/-- **The controller is out of reset** after its latency, and beyond the register that shows it nothing has changed. -/
theorem reset_succeeds (hlimit : u.resetLatency < (c.config.poll.limit .controllerReset).checks n) :
    Ensures world n Controller.reset c s (.succeeds fun _ c' s' => c' = c ∧ s.device.Leaves BeyondControl s'.device) := by
  refine ensures_read_control.andThen ?_
  rintro control _ s₁ ⟨rfl, h₁, -⟩
  have hbit : ((GlobalControl.mk control).withReset true).raw.getLsbD 0 = true := Bits.getLsbD_withBit control 0 true
  refine (ensures_write_control hbit).andThen ?_
  rintro _ c s₂ ⟨rfl, h₂, hpending⟩
  refine ensures_bind.2 (ensures_get.2 ?_)
  have hwait : Ensures world n (waitUntil .controllerReset (c.config.poll.limit .controllerReset) do
      return (GlobalControl.mk (← read32 Register.gctl)).reset) c s₂ (.succeeds fun _ c' s' => c' = c ∧
        s.device.Leaves BeyondControl s'.device) := by
    refine ensures_waitUntil_of_lt (fun k c' s' => s'.device.pendingReset = some k ∧ c' = c ∧
      s.device.Leaves BeyondControl s'.device) ?_ hlimit ⟨hpending, rfl, h₁.trans h₂⟩
    rintro k _ s₃ ⟨hpending, rfl, h₃⟩
    refine ensures_read_control.andThen ?_
    rintro control _ s₄ ⟨rfl, h₄, hnow, hlater⟩
    refine ensures_pure.2 ?_
    change if control.getLsbD 0 = true then _ else _
    cases k with
    | zero =>
      rw [if_pos (hnow hpending)]
      exact ⟨rfl, h₃.trans h₄⟩
    | succ k =>
      split
      · exact ⟨rfl, h₃.trans h₄⟩
      · exact ⟨k, Nat.lt_succ_self k, hlater k hpending, rfl, h₃.trans h₄⟩
  refine hwait.andThen ?_
  rintro _ _ s₃ ⟨rfl, h₃⟩
  refine (ensures_note_rests .outOfReset).of_succeeds ?_
  rintro _ _ s₄ ⟨rfl, h₄⟩
  exact ⟨rfl, h₃.trans h₄.rests⟩

/-! ### Up to the transport -/

/-- Everything but the registers of the controller as a whole, of which the capabilities belong to the rest. -/
def BeyondGlobal (q : Nat) : Prop := q < 0x08 ∨ 0x24 ≤ q

theorem shown_stateChanges {d : Device} : d.shown .word Register.statests.toNat = d.load .word 0x0e := by
  rw [show Register.statests.toNat = 0x0e from rfl, Device.shown, if_neg (by decide), if_neg (by decide),
    if_neg (by simp [Device.isImmediate])]

/-- Clearing reports by writing them back. -/
theorem ensures_write_stateChanges {v : BitVec 16} : Ensures world n (write16 Register.statests v) c s
    (.succeeds fun _ c' s' => c' = c ∧ s.device.Leaves BeyondGlobal s'.device) := by
  refine ensures_write_act.of_succeeds ?_
  rintro _ _ s' ⟨rfl, hdevice, -⟩
  refine ⟨rfl, ?_⟩
  have hseen : s.device.Leaves BeyondGlobal (s.device.observe (.wrote .word 0x0e (Width.word.truncate (v.setWidth 32)))) :=
    Device.leaves_of_fields rfl rfl rfl rfl rfl rfl
  change s'.device = (s.device.observe _).act .word 0x0e _ at hdevice
  rw [hdevice, Device.act, if_neg (by decide), if_pos (by decide)]
  refine hseen.trans (Device.leaves_store fun q hq => ?_)
  have hbytes : Width.word.bytes = 2 := rfl
  unfold BeyondGlobal at hq
  omega

theorem scanCodecs_succeeds (hcalm : s.device.pendingStop = none)
    (hchanges : (s.device.load .word 0x0e).setWidth 16 = u.stateChanges) :
    Ensures world n Controller.scanCodecs c s (.succeeds fun codecs c' s' =>
      codecs = (StateChangeStatus.mk u.stateChanges).codecs ∧ c' = { c with presentCodecs := codecs } ∧
        s.device.Leaves BeyondGlobal s'.device) := by
  refine (ensures_read16_calm hcalm (by decide)).andThen ?_
  rintro changes c s₁ ⟨rfl, rfl, h₁⟩
  rw [shown_stateChanges, hchanges]
  refine ensures_write_stateChanges.andThen ?_
  rintro _ c s₂ ⟨rfl, h₂⟩
  refine ensures_bind.2 (ensures_modify.2 ?_)
  refine (ensures_note_rests _).andThen ?_
  rintro _ _ s₃ ⟨rfl, h₃⟩
  exact ensures_pure.2 ⟨rfl, rfl, (h₁.rests.trans h₂).trans h₃.rests⟩

theorem suppressInterrupts_succeeds : Ensures world n Controller.suppressInterrupts c s (.succeeds fun _ c' s' =>
    c' = c ∧ s.device.Leaves BeyondGlobal s'.device) := by
  have hword : Width.word.bytes = 2 := rfl
  have hdword : Width.dword.bytes = 4 := rfl
  have hwake : Register.wakeen.toNat = 0x0c := rfl
  have hinterrupts : Register.intctl.toNat = 0x20 := rfl
  refine (ensures_write16_inert (by decide) (by simp [Device.isStreamControl, hwake])).andThen ?_
  rintro _ _ s₁ ⟨rfl, h₁⟩
  refine (ensures_write32_inert (by decide)).of_succeeds ?_
  rintro _ _ s₂ ⟨rfl, h₂⟩
  refine ⟨rfl, Device.Leaves.trans (h₁.leaves (Device.leaves_store fun q hq => ?_))
    (h₂.leaves (Device.leaves_store fun q hq => ?_))⟩
  · unfold BeyondGlobal at hq
    omega
  · unfold BeyondGlobal at hq
    omega

/-- A controller that commands can be sent to once it has a transport: neither its rings nor its streams run, and no
memory is in use. -/
structure Awake (s : Station u) : Prop where
  capabilities : (s.device.load .word 0x00).setWidth 16 = u.capabilities
  blank : ∀ q, 0x60 ≤ q ∨ q = 0x4c ∨ q = 0x5c → q < Device.fileSize → s.device.cell q = 0
  calm : s.device.pendingStop = none
  shape : s.device.memory.shape = []
  next : s.device.memory.next = u.base

theorem Awake.of_device (h : u.device.Leaves BeyondGlobal s.device) : s.Awake where
  capabilities := by
    rw [h.load fun q _ hq => .inl (Nat.lt_trans hq (by decide)), Rig.load_capabilities]
  blank q hq hlt := by
    rw [h.cell q (.inr (by omega)), Rig.cell_device hlt (by omega) (by omega) (by omega)]
  calm := h.stop (.inr (by decide))
  shape := h.shape
  next := h.next

end Station
end Simulation
end AudioBringup
