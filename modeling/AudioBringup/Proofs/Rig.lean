import AudioBringup.Proofs.Blocks
import AudioBringup.Simulation.Machine
/-!
# Proofs.Rig — a simulated controller without faults

A rig is what a fault-free controller can differ in when it is switched on.  A `Station` is such a controller some calls
later; it keeps what the rig fixes, whatever is asked of it.  Its world answers as its machine does, but never runs out
of patience.
-/
namespace AudioBringup
namespace Simulation

/-- A fault-free controller that is still switched off. -/
structure Rig where
  capabilities : BitVec 16 := 0x1000
  /-- the sizes the command ring can have -/
  corbSizes : BitVec 4 := 4
  /-- the sizes the response ring can have -/
  rirbSizes : BitVec 4 := 4
  /-- the addresses that report in -/
  stateChanges : BitVec 16 := 0
  codecs : List DeviceCodec := []
  /-- the immediate interface is there -/
  immediate : Bool := true
  /-- reads until the controller has left reset -/
  resetLatency : Nat := 2
  /-- reads until a stream has stopped -/
  stopLatency : Nat := 0
  timerChecks : Nat := 3
  /-- where its memory begins -/
  base : Nat := 0x100000000

namespace Rig

/-- The device once it is switched on: no register holds anything beyond its capabilities and who reported in. -/
def device (u : Rig) : Device :=
  { Device.ofLayout { capabilities := u.capabilities, corbSizes := u.corbSizes, rirbSizes := u.rirbSizes
                      stateChanges := u.stateChanges } with
    memory := { next := u.base }, codecs := u.codecs, immediate := u.immediate
    resetLatency := some u.resetLatency, stopLatency := some u.stopLatency }

def machine (u : Rig) : Machine := { device := u.device, timerChecks := u.timerChecks }

/-- What a codec answers to a word, if anything. -/
def answer? (u : Rig) (word : BitVec 32) : Option (BitVec 32) :=
  (u.codecs.find? (·.address == (word.extractLsb' 28 4).toNat)).bind (·.answer? word)

/-- What stays as it was built, whatever the device does. -/
structure Fits (u : Rig) (d : Device) : Prop where
  size : d.registers.size = Device.fileSize
  codecs : d.codecs = u.codecs
  immediate : d.immediate = u.immediate
  resetLatency : d.resetLatency = some u.resetLatency
  stopLatency : d.stopLatency = some u.stopLatency
  overrides : d.overrides = []
  immediateLatency : d.immediateLatency = 0
  pendingResponse : d.pendingResponse = none
  ringsStalled : d.ringsStalled = false

variable {u : Rig} {d : Device}

theorem Fits.store (h : u.Fits d) (w : Width) (o : Nat) (v : BitVec 32) : u.Fits (d.store w o v) :=
  { h with size := Device.size_store.trans h.size }

theorem Fits.observe (h : u.Fits d) (e : Event) : u.Fits (d.observe e) := { h with }

theorem Fits.ask (h : u.Fits d) (word : BitVec 32) : d.ask word = (u.answer? word, d.observe (.asked word (u.answer? word))) := by
  simp only [Device.ask, answer?, h.codecs]

theorem Fits.stop (h : u.Fits d) (o : Nat) : u.Fits (d.stop o) :=
  { h.store .word o (d.load .word o &&& ~~~2) with }

theorem Fits.latch (h : u.Fits d) (response : BitVec 32) : u.Fits (d.latch response) := by
  have hstored := h.store .dword 0x64 response
  unfold Device.latch
  dsimp only
  generalize d.store .dword 0x64 response = stored at hstored
  exact { hstored.store .word 0x68 ((stored.load .word 0x68 &&& ~~~1) ||| 2) with pendingResponse := rfl }

theorem Fits.sendImmediate (h : u.Fits d) : u.Fits d.sendImmediate := by
  have hbusy : u.Fits { d.store .word 0x68 (d.load .word 0x68 ||| 1) with pendingResponse := none } :=
    { h.store .word 0x68 (d.load .word 0x68 ||| 1) with pendingResponse := rfl }
  unfold Device.sendImmediate
  dsimp only
  generalize { d.store .word 0x68 (d.load .word 0x68 ||| 1) with pendingResponse := none } = busy at hbusy
  rw [hbusy.ask]
  cases u.answer? (busy.load .dword 0x60) with
  | none => exact hbusy.observe _
  | some response =>
    have hasked : u.Fits (busy.observe (.asked (busy.load .dword 0x60) (some response))) := hbusy.observe _
    simp only [hasked.immediateLatency]
    exact hasked.latch response

theorem Fits.push (h : u.Fits d) (response extended : BitVec 32) : u.Fits (d.push response extended) := by
  unfold Device.push
  refine Fits.store ?_ _ _ _
  exact { h with }

theorem Fits.fetch : ∀ {fuel : Nat} {d : Device}, u.Fits d → u.Fits (d.fetch fuel)
  | 0, _, h => h
  | fuel + 1, d, h => by
    unfold Device.fetch
    split
    · exact h
    · have hnext : u.Fits { d with corbRead := (d.corbRead + 1) % d.ringEntries 0x4e } := { h with }
      dsimp only
      split
      · exact hnext
      · rename_i number _
        rw [hnext.ask]
        cases u.answer? (BitVec.ofNat 32 number) with
        | none => exact (hnext.observe _).fetch
        | some response => exact ((hnext.observe _).push _ _).fetch

theorem Fits.settle (h : u.Fits d) (o : Nat) : u.Fits (d.settle o) := by
  unfold Device.settle
  by_cases hreset : o = 0x08
  · rw [if_pos hreset]
    split
    · exact h
    · generalize hstored : d.store .dword 0x08 (d.load .dword 0x08 ||| 1) = stored
      have hfits : u.Fits stored := hstored ▸ h.store .dword 0x08 _
      exact { hfits with }
    · exact { h with }
  rw [if_neg hreset]
  by_cases hstatus : o = 0x68
  · rw [if_pos hstatus]
    split
    · exact h
    · exact h.latch _
    · rename_i heq
      rw [h.pendingResponse] at heq
      cases heq
  rw [if_neg hstatus]
  split
  · exact h
  · split
    · exact h
    · split
      · exact h
      · exact h.stop o
      · exact { h with }

theorem Fits.read (h : u.Fits d) (w : Width) (o : Nat) : u.Fits (d.read w o).2 := by
  have hseen : ∀ {d' : Device} {v : BitVec 32} {e : Event}, u.Fits d' →
      u.Fits { d' with overrides := (Override.applyAll o v d'.overrides).2, events := e :: d'.events } := fun h' =>
    { h' with overrides := by rw [h'.overrides]; rfl }
  have hsettled := h.settle o
  unfold Device.read
  generalize d.settle o = settled at hsettled
  split
  rename_i heq
  refine hseen ?_
  split at heq
  · cases heq
    exact h
  · split at heq
    · cases heq
      exact h
    · split at heq
      · cases heq
        exact h
      · cases heq
        exact hsettled

theorem Fits.runRing (h : u.Fits d) : u.Fits d.runRing := by
  unfold Device.runRing
  split
  · exact h.fetch
  · exact h

theorem Fits.act (h : u.Fits d) (w : Width) (o : Nat) (v : BitVec 32) : u.Fits (d.act w o v) := by
  have hstopping : u.Fits { d.store .word o (v ||| 2) with pendingStop := some ⟨o, d.stopLatency⟩ } :=
    { h.store .word o (v ||| 2) with }
  unfold Device.act
  by_cases hreset : o = 0x08
  · rw [if_pos hreset]
    have hpending : u.Fits { d with pendingReset := if v.getLsbD 0 then d.resetLatency else none } := { h with }
    exact hpending.store w o (v &&& ~~~1)
  rw [if_neg hreset]
  by_cases hclear : o = 0x0e ∨ o = 0x5d
  · rw [if_pos hclear]
    exact h.store w o (d.load w o &&& ~~~v)
  rw [if_neg hclear]
  by_cases hcorb : o = 0x4a
  · rw [if_pos hcorb]
    exact { h with }
  rw [if_neg hcorb]
  by_cases hrirb : o = 0x58
  · rw [if_pos hrirb]
    exact { h with }
  rw [if_neg hrirb]
  by_cases hsend : o = 0x48
  · rw [if_pos hsend]
    exact (h.store w o v).runRing
  rw [if_neg hsend]
  by_cases hsize : o = 0x4e ∨ o = 0x5e
  · rw [if_pos hsize]
    exact h.store .byte o _
  rw [if_neg hsize]
  by_cases himmediate : (Device.isImmediate o && !d.immediate) = true
  · rw [if_pos himmediate]
    exact h
  rw [if_neg himmediate]
  by_cases hstatus : o = 0x68
  · rw [if_pos hstatus]
    have hcleared : u.Fits (if v.getLsbD 1 then d.store .word 0x68 (d.load .word 0x68 &&& ~~~2) else d) := by
      split
      · exact h.store .word 0x68 _
      · exact h
    dsimp only
    split
    · exact hcleared.sendImmediate
    · exact hcleared
  rw [if_neg hstatus]
  split
  · dsimp only
    split
    · exact hstopping.stop o
    · exact hstopping
  · exact h.store w o v

theorem Fits.write (h : u.Fits d) (w : Width) (o : Nat) (v : BitVec 32) : u.Fits (d.write w o v) :=
  (h.observe _).act w o (w.truncate v)

end Rig
end Simulation
end AudioBringup
