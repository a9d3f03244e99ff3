import AudioBringup.Proofs.RingSetup
import AudioBringup.Proofs.Station
/-!
# Proofs.RingLink — commands through the rings of a simulated controller

Rings that are set up lie where the controller looks for them (`Serving`), and a controller that is told of a command
fetches and answers it at once.  So every wait of an exchange is over at the first look, as long as the codec answers.
-/
namespace AudioBringup
namespace Simulation

open Procedure

attribute [local irreducible] LittleEndian.write LittleEndian.read

/-- The registers of the two transports. -/
def OnLink (q : Nat) : Prop := 0x40 ≤ q ∧ q < 0x70

/-- Every other register. -/
def BeyondLink (q : Nat) : Prop := q < 0x40 ∨ 0x70 ≤ q

/-- What rings are set up by: where they lie, how long they are, and whether they run. -/
def OfRings (q : Nat) : Prop := (0x40 ≤ q ∧ q < 0x48) ∨ (0x4c ≤ q ∧ q < 0x58) ∨ q = 0x5c ∨ q = 0x5e

instance : DecidablePred OnLink := fun _ => inferInstanceAs (Decidable (_ ∧ _))

instance : DecidablePred BeyondLink := fun _ => inferInstanceAs (Decidable (_ ∨ _))

instance : DecidablePred OfRings := fun _ => inferInstanceAs (Decidable (_ ∨ _))

/-! ### The device fetches and answers -/

namespace Device

variable {u : Rig} {d : Device} {j : Nat} {word response : BitVec 32}

/-- One command between the pointers, which is answered. -/
theorem fetch_answered (fuel : Nat) (h : u.Fits d) (hslot : (d.corbRead + 1) % d.ringEntries 0x4e = j) (hne : d.corbRead ≠ j)
    (hpointer : (d.load .word 0x48).toNat % 256 = j)
    (hword : d.memory.load? (d.baseAddress 0x40 0x44 + j * 4) 4 = some word.toNat) (hanswer : u.answer? word = some response) :
    d.fetch (fuel + 2) =
      (({ d with corbRead := j } : Device).observe (.asked word (some response))).push response (word >>> 28) := by
  have hfits : u.Fits ({ d with corbRead := j } : Device) := { h with }
  have hfetched : d.memory.load? (({ d with corbRead := j } : Device).baseAddress 0x40 0x44 + j * 4) 4 = some word.toNat := hword
  have hstop : ∀ {d' : Device} {fuel : Nat}, d'.corbRead = j → (d'.load .word 0x48).toNat % 256 = j → d'.fetch (fuel + 1) = d' := by
    intro d' fuel hread hpointer
    rw [fetch, if_pos (hread.trans hpointer.symm)]
  rw [fetch, if_neg (by rw [hpointer]; exact hne)]
  dsimp only
  rw [hslot, hfetched]
  dsimp only
  rw [BitVec.ofNat_toNat, BitVec.setWidth_eq, hfits.ask, hanswer]
  refine hstop rfl ?_
  have hload : (push (({ d with corbRead := j } : Device).observe (.asked word (some response))) response (word >>> 28)).load
      .word 0x48 = d.load .word 0x48 := load_store_of_disjoint (by decide)
  rw [hload]
  exact hpointer

/-- An address that was written in halves. -/
theorem baseAddress_of_halves {lower upper : Nat} {address : BitVec 64} (hlower : d.load .dword lower = Bits.field address 0 32)
    (hupper : d.load .dword upper = Bits.field address 32 32) : d.baseAddress lower upper = address.toNat := by
  rw [baseAddress, hlower, hupper]
  exact congrArg BitVec.toNat (BitVec.extractLsb'_append_extractLsb'_eq_extractLsb' (by decide) |>.trans
    BitVec.extractLsb'_eq_self)

/-- A size register has the slots of the size that is written into it. -/
theorem ringEntries_of_load {o : Nat} (size : RingSize) {e : RingEntries} (old : BitVec 32)
    (h : d.load .byte o = Width.byte.truncate ((old &&& 0xf0) ||| (((size.withEntries e).raw.setWidth 32) &&& 3))) :
    d.ringEntries o = e.count := by
  have hcode : (d.load .byte o).toNat % 4 = e.code.toNat := by
    have hbits : (d.load .byte o).extractLsb' 0 2 = e.code := by
      rw [← RingOrders.code_withEntries size e, h]
      ext i hi
      simp only [BitVec.getElem_extractLsb', Width.getLsbD_truncate, BitVec.getLsbD_or, BitVec.getLsbD_and]
      obtain rfl | rfl : i = 0 ∨ i = 1 := by omega
      · simp [Width.bits, Width.bytes]
      · simp [Width.bits, Width.bytes]
    rw [← hbits, BitVec.extractLsb'_toNat, Nat.shiftRight_zero]
  rw [ringEntries, hcode]
  cases e <;> rfl

/-- A response changes the place in its ring, the ring, and the status of the ring. -/
theorem push_leaves {P : Nat → Prop} {response extended : BitVec 32} (hP : ¬P 0x5d ∧ ¬P 0x58) :
    d.Leaves P (d.push response extended) := by
  have hwritten : d.Leaves P { d with
      rirbWrite := (d.rirbWrite + 1) % d.ringEntries 0x5e
      memory := d.memory.store (d.baseAddress 0x50 0x54 + (d.rirbWrite + 1) % d.ringEntries 0x5e * 8) 8
        (extended ++ response).toNat } :=
    ⟨⟨fun _ _ => cell_of_registers rfl, fun _ => ⟨rfl, rfl⟩, fun h => absurd h hP.2, fun _ => rfl⟩, Memory.shape_store _, rfl⟩
  refine hwritten.trans (leaves_store fun q hq => ?_)
  have hbyte : Width.byte.bytes = 1 := rfl
  have hne : q ≠ 0x5d := fun h => hP.1 (h ▸ hq)
  omega

end Device

/-! ### Rings that lie where the controller looks for them -/

/-- The controller works the rings that the host holds. -/
structure Placed (r : CommandRings) (d : Device) : Prop where
  run : (d.load .byte 0x4c).getLsbD 1 = true
  corbEntries : d.ringEntries 0x4e = r.corbEntries.count
  rirbEntries : d.ringEntries 0x5e = r.rirbEntries.count
  corbBase : d.baseAddress 0x40 0x44 = r.corb.host
  rirbBase : d.baseAddress 0x50 0x54 = r.rirb.host
  ordered : d.memory.Ordered
  corbLive : (r.corb.host, CommandRings.corbLength) ∈ d.memory.shape
  rirbLive : (r.rirb.host, CommandRings.rirbLength) ∈ d.memory.shape
  corbLong : r.corb.length = CommandRings.corbLength
  rirbLong : r.rirb.length = CommandRings.rirbLength

/-- So it does, and both are in the same place of each ring. -/
structure Serving (r : CommandRings) (d : Device) : Prop extends Placed r d where
  released : d.corbReset = false
  corbRead : d.corbRead = r.writeCursor
  rirbWrite : d.rirbWrite = r.readCursor
  write_lt : r.writeCursor < r.corbEntries.count
  read_lt : r.readCursor < r.rirbEntries.count

variable {r : CommandRings} {d d' : Device}

theorem Placed.of_spares (h : Placed r d) (hd : d.Spares OfRings d') (hordered : d'.memory.Ordered)
    (hshape : d.memory.shape ⊆ d'.memory.shape) : Placed r d' := by
  have hdword : Width.dword.bytes = 4 := rfl
  have hbyte : Width.byte.bytes = 1 := rfl
  have hload : ∀ {w : Width} {o : Nat}, (∀ q, o ≤ q → q < o + w.bytes → OfRings q) → d'.load w o = d.load w o := hd.load
  unfold OfRings at hload
  exact {
    run := by
      rw [hload fun q hq hlt => by omega]
      exact h.run
    corbEntries := by
      rw [Device.ringEntries, hload fun q hq hlt => by omega]
      exact h.corbEntries
    rirbEntries := by
      rw [Device.ringEntries, hload fun q hq hlt => by omega]
      exact h.rirbEntries
    corbBase := by
      rw [Device.baseAddress, hload fun q hq hlt => by omega, hload fun q hq hlt => by omega]
      exact h.corbBase
    rirbBase := by
      rw [Device.baseAddress, hload fun q hq hlt => by omega, hload fun q hq hlt => by omega]
      exact h.rirbBase
    ordered := hordered
    corbLive := hshape h.corbLive
    rirbLive := hshape h.rirbLive
    corbLong := h.corbLong
    rirbLong := h.rirbLong }

theorem Placed.of_leaves (h : Placed r d) (hd : d.Leaves OfRings d') : Placed r d' :=
  h.of_spares hd.toSpares (hd.ordered h.ordered) fun _ hp => hd.shape ▸ hp

/-- Rings stay where they are when the host goes on in them. -/
theorem Placed.advance (h : Placed r d) : Placed r.advanceWrite.advanceRead d :=
  ⟨h.run, h.corbEntries, h.rirbEntries, h.corbBase, h.rirbBase, h.ordered, h.corbLive, h.rirbLive, h.corbLong, h.rirbLong⟩

/-- Whoever leaves the registers of the rings alone, and takes no memory back, does not disturb them. -/
theorem Serving.of_spares (h : Serving r d) (hd : d.Spares (fun q => OfRings q ∨ q = 0x4a ∨ q = 0x58) d')
    (hordered : d'.memory.Ordered) (hshape : d.memory.shape ⊆ d'.memory.shape) : Serving r d' :=
  { h.toPlaced.of_spares (hd.mono fun _ => .inl) hordered hshape with
    released := (hd.corb (by decide)).1.trans h.released
    corbRead := (hd.corb (by decide)).2.trans h.corbRead
    rirbWrite := (hd.rirb (by decide)).trans h.rirbWrite
    write_lt := h.write_lt
    read_lt := h.read_lt }

theorem Serving.of_leaves (h : Serving r d) (hd : d.Leaves (fun q => OfRings q ∨ q = 0x4a ∨ q = 0x58) d') : Serving r d' :=
  h.of_spares hd.toSpares (hd.ordered h.ordered) fun _ hp => hd.shape ▸ hp

/-! ### One exchange -/

/-- What becomes of the device when it is told of a command that is answered. -/
structure Answered (d : Device) (word response : BitVec 32) (i j : Nat) (r : CommandRings) (d' : Device) : Prop where
  corbReset : d'.corbReset = d.corbReset
  corbRead : d'.corbRead = i
  rirbWrite : d'.rirbWrite = j
  memory : ∃ extended : BitVec 32, d'.memory = d.memory.store (r.rirb.host + j * 8) 8 (extended ++ response).toNat
  rings : d.Leaves OfRings d'
  rest : d.Leaves BeyondLink d'
  said : Station.said .rings d'.events = word :: Station.said .rings d.events

theorem Serving.write_pointer {u : Rig} {word response : BitVec 32} {i : Nat} (h : Serving r d) (hfits : u.Fits d)
    (hi : i = (r.writeCursor + 1) % r.corbEntries.count)
    (hword : d.memory.load? (r.corb.host + i * 4) 4 = some word.toNat) (hanswer : u.answer? word = some response) :
    Answered d word response i ((r.readCursor + 1) % r.rirbEntries.count) r
      (d.write .word 0x48 ((BitVec.ofNat 16 i).setWidth 32)) := by
  have hi_lt : i < 256 := by
    rw [hi]
    exact Nat.lt_of_lt_of_le (Nat.mod_lt _ (Nat.lt_of_lt_of_le (by decide) r.corbEntries.two_le_count)) r.corbEntries.count_le
  have hvalue : ((BitVec.ofNat 16 i).setWidth 32).toNat = i := by
    rw [BitVec.toNat_setWidth, BitVec.toNat_ofNat]
    omega
  have htruncate : Width.word.truncate ((BitVec.ofNat 16 i).setWidth 32) = (BitVec.ofNat 16 i).setWidth 32 := by
    apply BitVec.eq_of_toNat_eq
    rw [Width.toNat_truncate, hvalue]
    exact Nat.mod_eq_of_lt (Nat.lt_trans hi_lt (by decide))
  generalize hv : (BitVec.ofNat 16 i).setWidth 32 = v at hvalue htruncate
  generalize htold : (d.observe (.wrote .word 0x48 v)).store .word 0x48 v = told
  have hact : d.write .word 0x48 v = told.runRing := by
    rw [Device.write, htruncate, ← htold]
    rfl
  have hleaves : ∀ P : Nat → Prop, ¬P 0x48 ∧ ¬P 0x49 → d.Leaves P told := fun P hP => by
    have hseen : d.Leaves P (d.observe (.wrote .word 0x48 v)) := Device.leaves_of_fields rfl rfl rfl rfl rfl rfl
    rw [← htold]
    refine hseen.trans (Device.leaves_store fun q hq => ?_)
    have hword : Width.word.bytes = 2 := rfl
    have h48 : q ≠ 0x48 := fun h => hP.1 (h ▸ hq)
    have h49 : q ≠ 0x49 := fun h => hP.2 (h ▸ hq)
    omega
  have hplaced : Placed r told := h.toPlaced.of_leaves (hleaves OfRings (by decide))
  have hfields : told.corbReset = d.corbReset ∧ told.corbRead = d.corbRead ∧ told.rirbWrite = d.rirbWrite ∧
      told.memory = d.memory ∧ Station.said .rings told.events = Station.said .rings d.events := by
    rw [← htold]
    exact ⟨rfl, rfl, rfl, rfl, rfl⟩
  have htoldFits : u.Fits told := by
    rw [← htold]
    exact (hfits.observe _).store _ _ _
  obtain ⟨hreset, hread, hwrite, hmemory, hsaid⟩ := hfields
  have hpointer : (told.load .word 0x48).toNat % 256 = i := by
    rw [← htold, Device.load_store (by rw [(hfits.observe _).size]; decide), htruncate, hvalue, Nat.mod_eq_of_lt hi_lt]
  have hrun : told.runRing = (({ told with corbRead := i } : Device).observe (.asked word (some response))).push response
      (word >>> 28) := by
    rw [Device.runRing, if_pos (by rw [hplaced.run, htoldFits.ringsStalled]; rfl)]
    refine Device.fetch_answered 254 htoldFits ?_ ?_ hpointer ?_ hanswer
    · rw [hread, h.corbRead, hplaced.corbEntries, hi]
    · rw [hread, h.corbRead, hi]
      exact (succ_mod_ne r.corbEntries.two_le_count h.write_lt).symm
    · rw [hmemory, hplaced.corbBase]
      exact hword
  have hslot : (told.rirbWrite + 1) % told.ringEntries 0x5e = (r.readCursor + 1) % r.rirbEntries.count := by
    rw [hwrite, h.rirbWrite, hplaced.rirbEntries]
  have hmoved : ∀ P : Nat → Prop, ¬P 0x4a → told.Leaves P (({ told with corbRead := i } : Device).observe
      (.asked word (some response))) := fun P hP =>
    ⟨⟨fun _ _ => Device.cell_of_registers rfl, fun h => absurd h hP, fun _ => rfl, fun _ => rfl⟩, rfl, rfl⟩
  rw [hact, hrun]
  exact {
    corbReset := hreset
    corbRead := rfl
    rirbWrite := hslot
    memory := by
      refine ⟨word >>> 28, ?_⟩
      change told.memory.store (told.baseAddress 0x50 0x54 + (told.rirbWrite + 1) % told.ringEntries 0x5e * 8) 8 _ = _
      rw [hslot, hmemory, hplaced.rirbBase]
    rings := ((hleaves OfRings (by decide)).trans (hmoved OfRings (by decide))).trans (Device.push_leaves (by decide))
    rest := ((hleaves BeyondLink (by decide)).trans (hmoved BeyondLink (by decide))).trans (Device.push_leaves (by decide))
    said := congrArg (word :: ·) hsaid }

theorem Answered.placed {word response : BitVec 32} {i j : Nat} (h : Answered d word response i j r d') (hd : Placed r d) :
    Placed r d' := hd.of_leaves h.rings

/-- The response is where the host looks for it. -/
theorem Answered.response {word response : BitVec 32} {i j : Nat} (h : Answered d word response i j r d') (hd : Placed r d)
    (hj : j < 256) : d'.memory.load? (r.rirb.host + j * 8) 4 = some response.toNat := by
  obtain ⟨extended, hmemory⟩ := h.memory
  have hlong : CommandRings.rirbLength = 2048 := rfl
  have hlow : (extended ++ response).toNat % 256 ^ 4 = response.toNat := by
    have hlt := response.isLt
    rw [BitVec.toNat_append, ← Nat.shiftLeft_add_eq_or_of_lt hlt, Nat.shiftLeft_eq]
    omega
  rw [hmemory, hd.ordered.load?_store hd.rirbLive (by decide) (by decide) (by omega), hlow]

namespace Station

variable {u : Rig} {σ : Type} {n : Nat} {t : σ} {s s' : Station u} {word response : BitVec 32}

/-- Clearing the status of the response ring. -/
theorem ensures_write_status {v : BitVec 8} : Ensures world n (write8 Register.rirbsts v) t s (.succeeds fun _ t' s' => t' = t ∧
    ∃ w, s.Becomes (s.device.store .byte 0x5d w) s') := by
  refine ensures_write_act.of_succeeds ?_
  rintro _ _ s' ⟨rfl, hdevice, htimer⟩
  have hsilent : ∀ kind, word? kind (.wrote .byte 0x5d (Width.byte.truncate (v.setWidth 32))) = none :=
    fun kind => if_neg fun h => absurd h.2 (by decide)
  change s'.device = (s.device.observe _).act .byte 0x5d _ at hdevice
  rw [Device.act, if_neg (by decide), if_pos (by decide)] at hdevice
  exact ⟨rfl, s.device.load .byte 0x5d &&& ~~~Width.byte.truncate (v.setWidth 32),
    ⟨_, hdevice, fun kind => List.filterMap_cons_none (hsilent kind)⟩, htimer⟩

theorem shown_corbReadPointer {d : Device} {i : Nat} (hreset : d.corbReset = false) (hread : d.corbRead = i) (hi : i < 256) :
    (CorbReadPointer.mk ((d.shown .word Register.corbrp.toNat).setWidth 16)).slot = i := by
  rw [show Register.corbrp.toNat = 0x4a from rfl, Device.shown, if_pos rfl, hreset, if_neg Bool.false_ne_true, hread]
  simp only [CorbReadPointer.slot, Bits.field, BitVec.extractLsb'_toNat, BitVec.toNat_setWidth, BitVec.toNat_ofNat]
  omega

theorem shown_rirbWritePointer {d : Device} {j : Nat} (hwrite : d.rirbWrite = j) (hj : j < 256) :
    (RirbWritePointer.mk ((d.shown .word Register.rirbwp.toNat).setWidth 16)).slot = j := by
  rw [show Register.rirbwp.toNat = 0x58 from rfl, Device.shown, if_neg (by decide), if_pos rfl, hwrite]
  simp only [RirbWritePointer.slot, Bits.field, BitVec.extractLsb'_toNat, BitVec.toNat_setWidth, BitVec.toNat_ofNat]
  omega

/-- The command goes into its slot. -/
theorem ensures_putCommand {r : CommandRings} {i : Nat} (h : Serving r s.device) (hi : i < r.corbEntries.count) :
    Ensures world n (r.corb.store32 (i * CommandRings.corbSlot) word) t s (.succeeds fun _ t' s' => t' = t ∧
      Serving r s'.device ∧ s'.device.memory.load? (r.corb.host + i * 4) 4 = some word.toNat ∧
      s.device.Leaves BeyondLink s'.device ∧ s'.device.pendingStop = s.device.pendingStop ∧ s'.sent .rings = s.sent .rings) := by
  have hcount := r.corbEntries.count_le
  have hcommand : i * CommandRings.corbSlot + 4 ≤ CommandRings.corbLength := by
    simp only [CommandRings.corbSlot, CommandRings.corbLength]
    omega
  refine (ensures_store32_block (g := r.corb) (h.corbLong ▸ hcommand) (Nat.mul_mod_left _ _)).of_succeeds ?_
  rintro _ _ s' ⟨rfl, h'⟩
  have hstored : s.device.Leaves (fun _ => True)
      { s.device with memory := s.device.memory.store (r.corb.host + i * CommandRings.corbSlot) 4 word.toNat } :=
    ⟨⟨fun _ _ => Device.cell_of_registers rfl, fun _ => ⟨rfl, rfl⟩, fun _ => rfl, fun _ => rfl⟩, Memory.shape_store _, rfl⟩
  have hleaves := h'.leaves hstored
  refine ⟨rfl, h.of_leaves (hleaves.mono fun _ _ => trivial), ?_, hleaves.mono fun _ _ => trivial, h'.stop, h'.sent .rings⟩
  have hlt : word.toNat < 256 ^ 4 := word.isLt
  rw [h'.memory]
  refine (h.ordered.load?_store h.corbLive (by decide) (Nat.le_refl 4) hcommand word.toNat).trans ?_
  rw [Nat.mod_eq_of_lt hlt]

/-- The response is taken out of its slot. -/
theorem ensures_takeResponse {r : CommandRings} {j : Nat} (hlong : r.rirb.length = CommandRings.rirbLength)
    (hj : j < r.rirbEntries.count) (hload : s.device.memory.load? (r.rirb.host + j * 8) 4 = some response.toNat) :
    Ensures world n (do
        let answer ← r.rirb.load32 (j * CommandRings.rirbSlot)
        write8 Register.rirbsts CommandRings.statusClear
        note (.answered .rings word answer)
        return answer) t s (.succeeds fun a t' s' => a = response ∧ t' = t ∧
      s.device.Leaves (fun q => q ≠ 0x5d) s'.device ∧ s'.sent .rings = s.sent .rings) := by
  have hcount := r.rirbEntries.count_le
  have hresponse : j * CommandRings.rirbSlot + 4 ≤ r.rirb.length := by
    rw [hlong]
    simp only [CommandRings.rirbSlot, CommandRings.rirbLength]
    omega
  refine (ensures_load32_block hresponse (by simp only [CommandRings.rirbSlot]; omega)).andThen ?_
  rintro _ _ s₁ ⟨rfl, rfl, h₁⟩
  refine ensures_write_status.andThen ?_
  rintro _ _ s₂ ⟨rfl, status, h₂⟩
  refine (ensures_note_rests _).andThen ?_
  rintro _ _ s₃ ⟨rfl, h₃⟩
  have hstatus : s₁.device.Leaves (fun q => q ≠ 0x5d) (s₁.device.store .byte 0x5d status) :=
    Device.leaves_store fun q hq => by
      have hbyte : Width.byte.bytes = 1 := rfl
      omega
  refine ensures_pure.2 ⟨?_, rfl, (h₁.rests.trans (h₂.leaves hstatus)).trans h₃.rests,
    ((h₃.sent .rings).trans (h₂.sent .rings)).trans (h₁.sent .rings)⟩
  rw [CommandRings.rirbSlot, hload, Option.getD_some, BitVec.ofNat_toNat, BitVec.setWidth_eq]

/-- **An exchange over the rings comes back with the answer of the codec**, if it answers. -/
theorem exchange_serving {r : CommandRings} (h : Serving r s.device) (hcalm : s.device.pendingStop = none)
    (hlimit : 0 < r.drainLimit.checks n) (hanswer : u.answer? word = some response) :
    Ensures world n (CommandRings.exchange word) r s (.succeeds fun a r' s' => a = response ∧
      r' = r.advanceWrite.advanceRead ∧ Serving r' s'.device ∧ s.device.Leaves BeyondLink s'.device ∧
        s'.sent .rings = s.sent .rings ++ [word]) := by
  generalize hi : (r.writeCursor + 1) % r.corbEntries.count = i
  generalize hj : (r.readCursor + 1) % r.rirbEntries.count = j
  have hcorb := r.corbEntries.two_le_count
  have hrirb := r.rirbEntries.two_le_count
  have hi_lt : i < r.corbEntries.count := hi ▸ Nat.mod_lt _ (by omega)
  have hj_lt : j < r.rirbEntries.count := hj ▸ Nat.mod_lt _ (by omega)
  have hi_small := Nat.lt_of_lt_of_le hi_lt r.corbEntries.count_le
  have hj_small := Nat.lt_of_lt_of_le hj_lt r.rirbEntries.count_le
  have hcursor : r.advanceWrite.writeCursor = i := hi
  have hplace : r.advanceWrite.advanceRead.readCursor = j := hj
  refine ensures_modify_bind.2 (ensures_get_bind.2 ?_)
  rw [hcursor]
  refine (ensures_putCommand h hi_lt).andThen ?_
  rintro _ _ s₁ ⟨rfl, hserving₁, hword, hleaves₁, hstop₁, hsent₁⟩
  -- the controller is told, and answers
  refine ensures_write_act.andThen ?_
  rintro _ _ s₂ ⟨rfl, hdevice, -⟩
  have h₂ := hserving₁.write_pointer s₁.fits hi.symm hword hanswer
  rw [hj] at h₂
  change s₂.device = s₁.device.write .word 0x48 ((BitVec.ofNat 16 i).setWidth 32) at hdevice
  rw [← hdevice] at h₂
  have hcalm₂ : s₂.device.pendingStop = none := ((h₂.rest.stop (by decide)).trans hstop₁).trans hcalm
  -- so both waits are over at the first look
  have hread : (CorbReadPointer.mk ((s₂.device.shown .word Register.corbrp.toNat).setWidth 16)).slot = i :=
    shown_corbReadPointer (h₂.corbReset.trans hserving₁.released) h₂.corbRead hi_small
  refine (ensures_poll hlimit (ensures_read16_calm hcalm₂ (by decide)) (by rw [hread, beq_self_eq_true])).andThen ?_
  rintro _ _ s₃ ⟨rfl, h₃⟩
  have hwritten : (RirbWritePointer.mk ((s₃.device.shown .word Register.rirbwp.toNat).setWidth 16)).slot = j :=
    shown_rirbWritePointer (((h₃.rests (P := fun _ => True)).rirb trivial).trans h₂.rirbWrite) hj_small
  have hmoved : (j != r.advanceWrite.readCursor) = true := bne_iff_ne.2 (hj ▸ succ_mod_ne hrirb h.read_lt)
  refine (ensures_poll hlimit (ensures_read16_calm (h₃.stop.trans hcalm₂) (by decide)) (by rw [hwritten, hmoved])).andThen ?_
  rintro _ _ s₄ ⟨rfl, h₄⟩
  refine ensures_modify_bind.2 (ensures_get_bind.2 ?_)
  rw [hplace]
  have hload := h₂.response hserving₁.toPlaced hj_small
  rw [← h₃.memory, ← h₄.memory] at hload
  refine (ensures_takeResponse h.rirbLong hj_lt hload).of_succeeds ?_
  rintro _ _ s₅ ⟨rfl, rfl, hleaves₅, hsent₅⟩
  have hserving₂ : Serving r.advanceWrite.advanceRead s₂.device :=
    { (h₂.placed hserving₁.toPlaced).advance with
      released := h₂.corbReset.trans hserving₁.released
      corbRead := h₂.corbRead.trans hcursor.symm
      rirbWrite := h₂.rirbWrite.trans hplace.symm
      write_lt := hcursor ▸ hi_lt
      read_lt := hplace ▸ hj_lt }
  have hlast : s₂.device.Leaves (fun q => q ≠ 0x5d) s₅.device := (h₃.rests.trans h₄.rests).trans hleaves₅
  refine ⟨rfl, rfl, ?_, ?_, ?_⟩
  · exact hserving₂.of_leaves (hlast.mono fun q hq h => by subst h; revert hq; decide)
  · exact (hleaves₁.trans h₂.rest).trans (hlast.mono fun q hq h => by subst h; revert hq; decide)
  · have hsent₂ : s₂.sent .rings = s₁.sent .rings ++ [word] := by
      rw [sent, h₂.said, List.reverse_cons]
      rfl
    exact ((hsent₅.trans ((h₄.sent .rings).trans (h₃.sent .rings))).trans hsent₂).trans (congrArg (· ++ [word]) hsent₁)

/-! ### Stopping and starting -/

section
variable {control : BitVec 32} {limit : WaitLimit}

/-- The control registers of the rings hold what is written. -/
theorem inert_control (hcontrol : control = Register.corbctl ∨ control = Register.rirbctl) :
    Device.Inert control.toNat ∧ control.toNat ≠ 0x08 ∧ control.toNat + Width.byte.bytes ≤ Device.fileSize := by
  rcases hcontrol with rfl | rfl <;> decide

/-- A ring's run bit is written, every other register is left alone. -/
theorem ensures_write_run {control' : RingControl} (hcontrol : control = Register.corbctl ∨ control = Register.rirbctl) :
    Ensures world n (write8 control control'.raw) t s (.succeeds fun _ t' s' => t' = t ∧
      s.device.Leaves (· ≠ control.toNat) s'.device ∧ (s'.device.load .byte control.toNat).getLsbD 1 = control'.run) := by
  obtain ⟨hinert, -, hfits⟩ := inert_control hcontrol
  refine (ensures_write8_inert hinert).of_succeeds ?_
  rintro _ _ s' ⟨rfl, h⟩
  refine ⟨rfl, h.leaves (Device.leaves_store fun q hq => ?_), ?_⟩
  · have hbyte : Width.byte.bytes = 1 := rfl
    omega
  · rw [h.load, Device.load_store (by rw [s.fits.size]; exact hfits), Width.getLsbD_truncate, RingControl.getLsbD_raw]
    rfl

theorem stop_succeeds (hcontrol : control = Register.corbctl ∨ control = Register.rirbctl)
    (hcalm : s.device.pendingStop = none) (hlimit : 0 < limit.checks n) :
    Ensures world n (CommandRings.stop control limit) t s (.succeeds fun _ t' s' => t' = t ∧
      s.device.Leaves (· ≠ control.toNat) s'.device ∧ (s'.device.load .byte control.toNat).getLsbD 1 = false) := by
  obtain ⟨hinert, hne, -⟩ := inert_control hcontrol
  refine (ensures_read8_calm hcalm hne).andThen ?_
  rintro _ _ s₁ ⟨rfl, rfl, h₁⟩
  refine (ensures_write_run hcontrol).andThen ?_
  rintro _ _ s₂ ⟨rfl, h₂, hrun⟩
  rw [RingControl.run_withRun] at hrun
  have hcalm₂ : s₂.device.pendingStop = none := by
    rw [h₂.stop, h₁.stop, hcalm]
    rcases hcontrol with rfl | rfl <;> decide
  refine (ensures_poll hlimit (ensures_read8_calm hcalm₂ hne) ?_).of_succeeds ?_
  · rw [RingControl.run_mk, Device.shown_of_inert hinert, hrun]
    rfl
  · rintro _ _ s₃ ⟨rfl, h₃⟩
    exact ⟨rfl, (h₁.rests.trans h₂).trans h₃.rests, by rw [h₃.load, hrun]⟩

theorem start_succeeds (hcontrol : control = Register.corbctl ∨ control = Register.rirbctl)
    (hcalm : s.device.pendingStop = none) : Ensures world n (CommandRings.start control) t s (.succeeds fun _ t' s' =>
      t' = t ∧ s.device.Leaves (· ≠ control.toNat) s'.device ∧ (s'.device.load .byte control.toNat).getLsbD 1 = true) := by
  refine (ensures_read8_calm hcalm (inert_control hcontrol).2.1).andThen ?_
  rintro _ _ s₁ ⟨rfl, rfl, h₁⟩
  refine (ensures_write_run hcontrol).of_succeeds ?_
  rintro _ _ s₂ ⟨rfl, h₂, hrun⟩
  rw [RingControl.run_withRun] at hrun
  exact ⟨rfl, h₁.rests.trans h₂, hrun⟩

end

/-! ### The pointers -/

/-- Everything but the pointers of the rings. -/
def BeyondPointers (q : Nat) : Prop := q < 0x48 ∨ (0x4b ≤ q ∧ q ≠ 0x58)

instance : DecidablePred BeyondPointers := fun _ => inferInstanceAs (Decidable (_ ∨ _))

/-- A stopped command ring fetches nothing. -/
theorem ensures_write_stopped (hrun : (s.device.load .byte 0x4c).getLsbD 1 = false) :
    Ensures world n (write16 Register.corbwp 0) t s (.succeeds fun _ t' s' => t' = t ∧
      s.device.Leaves BeyondPointers s'.device) := by
  refine ensures_write_act.of_succeeds ?_
  rintro _ _ s' ⟨rfl, hdevice, -⟩
  have hseen : s.device.Leaves BeyondPointers (s.device.observe (.wrote .word 0x48 0)) :=
    Device.leaves_of_fields rfl rfl rfl rfl rfl rfl
  have hact : s.device.write .word 0x48 0 = ((s.device.observe (.wrote .word 0x48 0)).store .word 0x48 0).runRing := rfl
  have hstopped : ((s.device.observe (.wrote .word 0x48 0)).store .word 0x48 0).load .byte 0x4c = s.device.load .byte 0x4c :=
    Device.load_store_of_disjoint (by decide)
  change s'.device = s.device.write .word 0x48 0 at hdevice
  rw [hact, Device.runRing, hstopped, hrun, Bool.false_and, if_neg Bool.false_ne_true] at hdevice
  refine ⟨rfl, ?_⟩
  rw [hdevice]
  refine hseen.trans (Device.leaves_store fun q hq => ?_)
  have hword : Width.word.bytes = 2 := rfl
  unfold BeyondPointers at hq
  omega

/-- Holding the read pointer of the command ring in its reset, or letting it go. -/
theorem ensures_write_readPointer {v : BitVec 16} : Ensures world n (write16 Register.corbrp v) t s
    (.succeeds fun _ t' s' => t' = t ∧ s.device.Leaves (· ≠ 0x4a) s'.device ∧ s'.device.corbReset = v.getLsbD 15 ∧
      s'.device.corbRead = if v.getLsbD 15 then 0 else s.device.corbRead) := by
  refine ensures_write_act.of_succeeds ?_
  rintro _ _ s' ⟨rfl, hdevice, -⟩
  have hbit : (Width.word.truncate (v.setWidth 32)).getLsbD 15 = v.getLsbD 15 := by
    rw [Width.getLsbD_truncate, BitVec.getLsbD_setWidth]
    rfl
  change s'.device = (s.device.observe _).act .word 0x4a _ at hdevice
  rw [Device.act, if_neg (by decide), if_neg (by decide), if_pos rfl, hbit] at hdevice
  refine ⟨rfl, ?_, ?_, ?_⟩
  · rw [hdevice]
    exact ⟨⟨fun _ _ => Device.cell_of_registers rfl, fun h => absurd rfl h, fun _ => rfl, fun _ => rfl⟩, rfl, rfl⟩
  · rw [hdevice]
  · rw [hdevice]
    rfl

theorem ensures_write_writePointer : Ensures world n (write16 Register.rirbwp RirbWritePointer.resetRequest.raw) t s
    (.succeeds fun _ t' s' => t' = t ∧ s.device.Leaves (· ≠ 0x58) s'.device ∧ s'.device.rirbWrite = 0) := by
  refine ensures_write_act.of_succeeds ?_
  rintro _ _ s' ⟨rfl, hdevice, -⟩
  have hbit : (Width.word.truncate (RirbWritePointer.resetRequest.raw.setWidth 32)).getLsbD 15 = true := by decide
  change s'.device = (s.device.observe _).act .word 0x58 _ at hdevice
  rw [Device.act, if_neg (by decide), if_neg (by decide), if_neg (by decide), if_pos rfl, if_pos hbit] at hdevice
  refine ⟨rfl, ?_, ?_⟩
  · rw [hdevice]
    exact ⟨⟨fun _ _ => Device.cell_of_registers rfl, fun _ => ⟨rfl, rfl⟩, fun h => absurd rfl h, fun _ => rfl⟩, rfl, rfl⟩
  · rw [hdevice]

theorem shown_corbReset {d : Device} (hread : d.corbRead < 0x8000) :
    (CorbReadPointer.mk ((d.shown .word Register.corbrp.toNat).setWidth 16)).reset = d.corbReset := by
  rw [show Register.corbrp.toNat = 0x4a from rfl, Device.shown, if_pos rfl, CorbReadPointer.reset, BitVec.getLsbD_setWidth]
  cases d.corbReset with
  | true =>
    rw [if_pos rfl]
    rfl
  | false =>
    rw [if_neg Bool.false_ne_true, BitVec.getLsbD_ofNat, Nat.testBit_lt_two_pow hread]
    rfl

/-- **The pointers of stopped rings are back at 0.** -/
theorem resetPointers_succeeds {limit : WaitLimit} (hcalm : s.device.pendingStop = none) (hlimit : 0 < limit.checks n)
    (hrun : (s.device.load .byte 0x4c).getLsbD 1 = false) : Ensures world n (CommandRings.resetPointers limit) t s
      (.succeeds fun _ t' s' => t' = t ∧ s.device.Leaves BeyondPointers s'.device ∧ s'.device.corbReset = false ∧
        s'.device.corbRead = 0 ∧ s'.device.rirbWrite = 0) := by
  have hpointers : ∀ q, BeyondPointers q → q ≠ 0x4a ∧ q ≠ 0x58 := fun q hq => by
    unfold BeyondPointers at hq
    omega
  refine (ensures_write_stopped hrun).andThen ?_
  rintro _ _ s₁ ⟨rfl, h₁⟩
  refine ensures_write_readPointer.andThen ?_
  rintro _ _ s₂ ⟨rfl, h₂, hreset₂, hread₂⟩
  have hset : ((CorbReadPointer.mk 0).withReset true).raw.getLsbD 15 = true := Bits.getLsbD_withBit 0 15 true
  rw [hset] at hreset₂ hread₂
  rw [if_pos rfl] at hread₂
  have hcalm₂ : s₂.device.pendingStop = none := (h₂.stop (by decide)).trans ((h₁.stop (by decide)).trans hcalm)
  refine (ensures_poll hlimit (ensures_read16_calm hcalm₂ (by decide)) ?_).andThen ?_
  · rw [shown_corbReset (by rw [hread₂]; decide), hreset₂]
  rintro _ _ s₃ ⟨rfl, h₃⟩
  refine ensures_write_readPointer.andThen ?_
  rintro _ _ s₄ ⟨rfl, h₄, hreset₄, hread₄⟩
  have hclear : ((CorbReadPointer.mk 0).withReset false).raw.getLsbD 15 = false := Bits.getLsbD_withBit 0 15 false
  rw [hclear] at hreset₄ hread₄
  have hread : s₄.device.corbRead = 0 := by
    rw [hread₄, if_neg Bool.false_ne_true, ((h₃.rests (P := fun _ => True)).corb trivial).2, hread₂]
  have hcalm₄ : s₄.device.pendingStop = none := (h₄.stop (by decide)).trans (h₃.stop.trans hcalm₂)
  refine (ensures_poll hlimit (ensures_read16_calm hcalm₄ (by decide)) ?_).andThen ?_
  · rw [shown_corbReset (by rw [hread]; decide), hreset₄]
    rfl
  rintro _ _ s₅ ⟨rfl, h₅⟩
  have hrests : s₄.device.Leaves (fun _ => True) s₅.device := h₅.rests
  refine ensures_write_writePointer.of_succeeds ?_
  rintro _ _ s₆ ⟨rfl, h₆, hwrite⟩
  refine ⟨rfl, ?_, ?_, ?_, hwrite⟩
  · exact ((((h₁.trans (h₂.mono fun q hq => (hpointers q hq).1)).trans h₃.rests).trans
      (h₄.mono fun q hq => (hpointers q hq).1)).trans h₅.rests).trans (h₆.mono fun q hq => (hpointers q hq).2)
  · rw [(h₆.corb (by decide)).1, (hrests.corb trivial).1, hreset₄]
  · rw [(h₆.corb (by decide)).2, (hrests.corb trivial).2, hread]

/-! ### Setting up and taking down -/

/-- Neither ring runs. -/
def Halted (s : Station u) : Prop :=
  (s.device.load .byte 0x4c).getLsbD 1 = false ∧ (s.device.load .byte 0x5c).getLsbD 1 = false

theorem Halted.of_spares {P : Nat → Prop} (h : s.Halted) (hd : s.device.Spares P s'.device) (hP : P 0x4c ∧ P 0x5c) :
    s'.Halted := by
  have hbyte : Width.byte.bytes = 1 := rfl
  refine ⟨?_, ?_⟩
  · rw [hd.load fun q hq hlt => by rw [show q = 0x4c by omega]; exact hP.1]
    exact h.1
  · rw [hd.load fun q hq hlt => by rw [show q = 0x5c by omega]; exact hP.2]
    exact h.2

/-- Everything but the controls of the rings. -/
def BeyondControls (q : Nat) : Prop := q ≠ 0x4c ∧ q ≠ 0x5c

theorem stopBoth_succeeds {α : Type} {limit : WaitLimit} {x : Procedure σ α} {Q : Outcome σ α (Station u)}
    (hcalm : s.device.pendingStop = none) (hlimit : 0 < limit.checks n)
    (hx : ∀ s', s.device.Leaves BeyondControls s'.device → s'.Halted → Ensures world n x t s' Q) :
    Ensures world n (do
      CommandRings.stop Register.corbctl limit
      CommandRings.stop Register.rirbctl limit
      x) t s Q := by
  refine (stop_succeeds (.inl rfl) hcalm hlimit).andThen ?_
  rintro _ _ s₁ ⟨rfl, h₁, hcorb⟩
  refine (stop_succeeds (.inr rfl) ((h₁.stop (by decide)).trans hcalm) hlimit).andThen ?_
  rintro _ _ s₂ ⟨rfl, h₂, hrirb⟩
  refine hx s₂ ((h₁.mono fun q hq => hq.1).trans (h₂.mono fun q hq => hq.2)) ⟨?_, hrirb⟩
  have hbyte : Width.byte.bytes = 1 := rfl
  rw [h₂.load fun q hq hlt => by rw [show q = 0x4c by omega]; decide]
  exact hcorb

/-- **Rings that are taken down are stopped, and their memory is given back.** -/
theorem tearDown_succeeds {r : CommandRings} (hcalm : s.device.pendingStop = none) (hlimit : 0 < r.resetLimit.checks n) :
    Ensures world n r.tearDown t s (.succeeds fun _ t' s' => t' = t ∧ s.device.Spares BeyondLink s'.device ∧ s'.Halted ∧
      s'.device.memory.shape = (s.device.memory.shape.filter (·.1 != r.corb.host)).filter (·.1 != r.rirb.host)) := by
  refine stopBoth_succeeds hcalm hlimit fun s₁ h₁ hhalted => ?_
  have hcalm₁ : s₁.device.pendingStop = none := (h₁.stop ⟨by decide, by decide⟩).trans hcalm
  refine (resetPointers_succeeds hcalm₁ hlimit hhalted.1).andThen ?_
  rintro _ _ s₂ ⟨rfl, h₂, -⟩
  refine (ensures_free_block r.corb).andThen ?_
  rintro _ _ s₃ ⟨rfl, h₃⟩
  refine (ensures_free_block r.rirb).of_succeeds ?_
  rintro _ _ s₄ ⟨rfl, h₄⟩
  have hfreed₃ : s₂.device.Spares (fun _ => True) s₃.device :=
    h₃.spares ⟨fun _ _ => Device.cell_of_registers rfl, fun _ => ⟨rfl, rfl⟩, fun _ => rfl, fun _ => rfl⟩
  have hfreed₄ : s₃.device.Spares (fun _ => True) s₄.device :=
    h₄.spares ⟨fun _ _ => Device.cell_of_registers rfl, fun _ => ⟨rfl, rfl⟩, fun _ => rfl, fun _ => rfl⟩
  have hcontrols : ∀ q, BeyondLink q → BeyondControls q := fun q hq => by
    unfold BeyondLink at hq
    unfold BeyondControls
    omega
  have hpointers : ∀ q, BeyondLink q → BeyondPointers q := fun q hq => by
    unfold BeyondLink at hq
    unfold BeyondPointers
    omega
  refine ⟨rfl, ?_, ?_, ?_⟩
  · exact (((h₁.toSpares.mono hcontrols).trans (h₂.toSpares.mono hpointers)).trans (hfreed₃.mono fun _ _ => trivial)).trans
      (hfreed₄.mono fun _ _ => trivial)
  · exact ((hhalted.of_spares h₂.toSpares (by decide)).of_spares hfreed₃ ⟨trivial, trivial⟩).of_spares hfreed₄
      ⟨trivial, trivial⟩
  · rw [h₄.memory, Memory.shape_free, h₃.memory, Memory.shape_free, h₂.shape, h₁.shape]

/-- A ring is given the largest size it can have. -/
theorem enlarge_succeeds {size : BitVec 32} (hsize : size = Register.corbsize ∨ size = Register.rirbsize)
    (hcalm : s.device.pendingStop = none) : Ensures world n (CommandRings.enlarge size) t s (.succeeds fun e t' s' =>
      t' = t ∧ s.device.Leaves (· ≠ size.toNat) s'.device ∧ s'.device.ringEntries size.toNat = e.count) := by
  have hplace : size.toNat ≠ 0x08 ∧ size.toNat + Width.byte.bytes ≤ Device.fileSize ∧
      (size.toNat = 0x4e ∨ size.toNat = 0x5e) := by
    rcases hsize with rfl | rfl <;> decide
  obtain ⟨hne, hfits, hoffset⟩ := hplace
  refine (ensures_read8_calm hcalm hne).andThen ?_
  rintro raw _ s₁ ⟨rfl, -, h₁⟩
  refine ensures_write_act.andThen ?_
  rintro _ _ s₂ ⟨rfl, hdevice, -⟩
  have hact : s₂.device = (s₁.device.observe (.wrote .byte size.toNat
      (((RingSize.mk raw).withEntries (RingSize.mk raw).largest).raw.setWidth 32))).store .byte size.toNat
        ((s₁.device.load .byte size.toNat &&& 0xf0) |||
          ((((RingSize.mk raw).withEntries (RingSize.mk raw).largest).raw.setWidth 32) &&& 3)) := by
    rw [hdevice, Device.write, truncate_setWidth8, Device.act, if_neg hne, if_neg (by omega), if_neg (by omega),
      if_neg (by omega), if_neg (by omega), if_pos hoffset]
    rfl
  generalize hold : s₁.device.load .byte size.toNat = old at hact
  refine ensures_pure.2 ⟨rfl, ?_, ?_⟩
  · rw [hact]
    have hseen : s.device.Leaves (· ≠ size.toNat) (s₁.device.observe (.wrote .byte size.toNat
        (((RingSize.mk raw).withEntries (RingSize.mk raw).largest).raw.setWidth 32))) :=
      h₁.rests.trans (Device.leaves_of_fields rfl rfl rfl rfl rfl rfl)
    refine hseen.trans (Device.leaves_store fun q hq => ?_)
    have hbyte : Width.byte.bytes = 1 := rfl
    omega
  · refine Device.ringEntries_of_load (RingSize.mk raw) old ?_
    rw [hact, Device.load_store (by rw [(s₁.fits.observe _).size]; exact hfits)]

/-- Memory for both rings, cleared. -/
theorem allocateRings_succeeds {α : Type} {f : Region → Region → Procedure σ α} {Q : Outcome σ α (Station u)}
    (hordered : s.device.memory.Ordered) (hroom : s.device.memory.next + 2 * Memory.page < 2 ^ 64)
    (hf : ∀ corb rirb s', corb.address.toNat = corb.host → rirb.address.toNat = rirb.host →
      corb.length = CommandRings.corbLength → rirb.length = CommandRings.rirbLength →
      s'.device.memory.shape = s.device.memory.shape ++ [(corb.host, corb.length), (rirb.host, rirb.length)] →
      s'.device.memory.Ordered → s.device.Spares (fun _ => True) s'.device → Ensures world n (f corb rirb) t s' Q) :
    Ensures world n (do
      let corb ← Procedure.allocate CommandRings.corbLength
      match ← Procedure.attempt (Procedure.allocate CommandRings.rirbLength) with
      | .error e =>
        Procedure.free corb
        Procedure.fail e
      | .ok rirb =>
        corb.zero
        rirb.zero
        f corb rirb) t s Q := by
  have hcorbLong : CommandRings.corbLength = 1024 := rfl
  have hpage : Memory.page = 4096 := rfl
  refine (ensures_allocate_block _).andThen ?_
  rintro corb _ s₁ ⟨rfl, hcorb, h₁⟩
  refine (ensures_allocate_block _).attempt.andThen ?_
  rintro _ _ s₂ ⟨rirb, rfl, rfl, hrirb, h₂⟩
  dsimp only
  refine (ensures_zero_block corb).andThen ?_
  rintro _ _ s₃ ⟨rfl, h₃⟩
  refine (ensures_zero_block rirb).andThen ?_
  rintro _ _ s₄ ⟨rfl, h₄⟩
  have hnext : s₁.device.memory.next = s.device.memory.next + 4096 := by
    rw [h₁.memory]
    rfl
  have hspares : ∀ {s s' : Station u} {m : Memory}, s.Becomes { s.device with memory := m } s' →
      s.device.Spares (fun _ => True) s'.device := fun h =>
    h.spares ⟨fun _ _ => Device.cell_of_registers rfl, fun _ => ⟨rfl, rfl⟩, fun _ => rfl, fun _ => rfl⟩
  refine hf corb rirb s₄ ?_ ?_ ?_ ?_ ?_ ?_ ((((hspares h₁).trans (hspares h₂)).trans (hspares h₃)).trans (hspares h₄))
  · rw [hcorb, BitVec.toNat_ofNat]
    exact Nat.mod_eq_of_lt (by omega)
  · rw [hrirb, BitVec.toNat_ofNat]
    exact Nat.mod_eq_of_lt (by omega)
  · rw [hcorb]
  · rw [hrirb]
  · rw [h₄.memory, Memory.shape_clear, h₃.memory, Memory.shape_clear, h₂.memory, Memory.shape_allocate, h₁.memory,
      Memory.shape_allocate, List.append_assoc, hcorb, hrirb, h₁.memory]
    rfl
  · rw [h₄.memory, h₃.memory, h₂.memory, h₁.memory]
    exact ((hordered.allocate _).allocate _).of_shape (by rw [Memory.shape_clear, Memory.shape_clear]) rfl

/-- Where rings lie and how long they are. -/
def OfPlace (q : Nat) : Prop := (0x40 ≤ q ∧ q < 0x48) ∨ (0x50 ≤ q ∧ q < 0x58) ∨ q = 0x4e ∨ q = 0x5e

/-- A base address is where it was written, in halves. -/
theorem ensures_writeAddress_base {lower upper : BitVec 32} {o : Nat} (address : BitVec 64) (hlower : lower.toNat = o)
    (hupper : upper.toNat = o + 4) (ho : Device.Inert o ∧ Device.Inert (o + 4) ∧ o + 8 ≤ Device.fileSize) :
    Ensures world n (writeAddress lower upper address) t s (.succeeds fun _ t' s' => t' = t ∧
      s.device.Leaves (fun q => q < o ∨ o + 8 ≤ q) s'.device ∧ s'.device.baseAddress o (o + 4) = address.toNat) := by
  have hdword : Width.dword.bytes = 4 := rfl
  have hsize : o + 8 ≤ s.device.registers.size := s.fits.size ▸ ho.2.2
  refine (ensures_writeAddress_inert address (hlower ▸ ho.1) (hupper ▸ ho.2.1)).of_succeeds ?_
  rintro _ _ s' ⟨rfl, h'⟩
  rw [hlower, hupper] at h'
  refine ⟨rfl, h'.leaves ((Device.leaves_store fun q hq => by omega).trans (Device.leaves_store fun q hq => by omega)),
    Device.baseAddress_of_halves ?_ ?_⟩
  · rw [h'.load, Device.load_store_of_disjoint (by omega), Device.load_store (by omega), Width.truncate_dword]
  · rw [h'.load, Device.load_store (by rw [Device.size_store]; omega), Width.truncate_dword]

/-- The controller is told where rings lie, and how long they are. -/
theorem placeRings_succeeds {α : Type} {corb rirb : Region} {f : RingEntries → RingEntries → Procedure σ α}
    {Q : Outcome σ α (Station u)} (hcalm : s.device.pendingStop = none)
    (hf : ∀ corbEntries rirbEntries s', s.device.Leaves (¬OfPlace ·) s'.device →
      s'.device.baseAddress 0x40 0x44 = corb.address.toNat → s'.device.baseAddress 0x50 0x54 = rirb.address.toNat →
      s'.device.ringEntries 0x4e = corbEntries.count → s'.device.ringEntries 0x5e = rirbEntries.count →
      Ensures world n (f corbEntries rirbEntries) t s' Q) :
    Ensures world n (do
      writeAddress Register.corblbase Register.corbubase corb.address
      writeAddress Register.rirblbase Register.rirbubase rirb.address
      let corbEntries ← CommandRings.enlarge Register.corbsize
      let rirbEntries ← CommandRings.enlarge Register.rirbsize
      f corbEntries rirbEntries) t s Q := by
  have hdword : Width.dword.bytes = 4 := rfl
  have hbyte : Width.byte.bytes = 1 := rfl
  have hplace : ∀ {q}, ¬OfPlace q → (q < 0x40 ∨ 0x48 ≤ q) ∧ (q < 0x50 ∨ 0x58 ≤ q) ∧ q ≠ 0x4e ∧ q ≠ 0x5e := fun hq => by
    unfold OfPlace at hq
    omega
  refine (ensures_writeAddress_base (o := 0x40) corb.address rfl rfl (by decide)).andThen ?_
  rintro _ _ s₁ ⟨rfl, hleft₁, hcorb⟩
  refine (ensures_writeAddress_base (o := 0x50) rirb.address rfl rfl (by decide)).andThen ?_
  rintro _ _ s₂ ⟨rfl, hleft₂, hrirb⟩
  have hcalm₂ : s₂.device.pendingStop = none := (hleft₂.stop (by decide)).trans ((hleft₁.stop (by decide)).trans hcalm)
  refine (enlarge_succeeds (.inl rfl) hcalm₂).andThen ?_
  rintro corbEntries _ s₃ ⟨rfl, h₃, hcorbEntries⟩
  have hcalm₃ : s₃.device.pendingStop = none := (h₃.stop (by decide)).trans hcalm₂
  refine (enlarge_succeeds (.inr rfl) hcalm₃).andThen ?_
  rintro rirbEntries _ s₄ ⟨rfl, h₄, hrirbEntries⟩
  change s₂.device.Leaves (· ≠ 0x4e) s₃.device at h₃
  change s₃.device.Leaves (· ≠ 0x5e) s₄.device at h₄
  have hsizes : s₂.device.Leaves (fun q => q ≠ 0x4e ∧ q ≠ 0x5e) s₄.device :=
    (h₃.mono fun q hq => hq.1).trans (h₄.mono fun q hq => hq.2)
  refine hf corbEntries rirbEntries s₄ ?_ ?_ ?_ ?_ hrirbEntries
  · exact ((hleft₁.mono fun q hq => (hplace hq).1).trans (hleft₂.mono fun q hq => (hplace hq).2.1)).trans
      (hsizes.mono fun q hq => (hplace hq).2.2)
  · rw [Device.baseAddress, hsizes.load fun q hq hlt => by omega, hsizes.load fun q hq hlt => by omega,
      hleft₂.load fun q hq hlt => by omega, hleft₂.load fun q hq hlt => by omega]
    exact hcorb
  · rw [Device.baseAddress, hsizes.load fun q hq hlt => by omega, hsizes.load fun q hq hlt => by omega]
    exact hrirb
  · rw [Device.ringEntries, h₄.load fun q hq hlt => by omega]
    exact hcorbEntries

/-- Both rings run, and the controller interrupts for every response. -/
theorem startBoth_succeeds {α : Type} {x : Procedure σ α} {Q : Outcome σ α (Station u)} (hcalm : s.device.pendingStop = none)
    (hx : ∀ s', s.device.Leaves (fun q => q ≠ 0x4c ∧ q ≠ 0x5c ∧ (q < 0x5a ∨ 0x5c ≤ q)) s'.device →
      (s'.device.load .byte 0x4c).getLsbD 1 = true → Ensures world n x t s' Q) :
    Ensures world n (do
      CommandRings.start Register.corbctl
      write16 Register.rintcnt 1
      CommandRings.start Register.rirbctl
      x) t s Q := by
  have hbyte : Width.byte.bytes = 1 := rfl
  have hword : Width.word.bytes = 2 := rfl
  refine (start_succeeds (.inl rfl) hcalm).andThen ?_
  rintro _ _ s₁ ⟨rfl, h₁, hrun⟩
  refine (ensures_write16_inert (by decide) (fun hcontrol => absurd hcontrol (by decide))).andThen ?_
  rintro _ _ s₂ ⟨rfl, h₂⟩
  have hleft₂ : s₁.device.Leaves (fun q => q < 0x5a ∨ 0x5c ≤ q) s₂.device :=
    h₂.leaves (Device.leaves_store fun q hq => by
      rw [show Register.rintcnt.toNat = 0x5a from rfl]
      omega)
  have hcalm₂ : s₂.device.pendingStop = none := (hleft₂.stop (by decide)).trans ((h₁.stop (by decide)).trans hcalm)
  refine (start_succeeds (.inr rfl) hcalm₂).andThen ?_
  rintro _ _ s₃ ⟨rfl, h₃, -⟩
  change s.device.Leaves (· ≠ 0x4c) s₁.device at h₁
  change s₂.device.Leaves (· ≠ 0x5c) s₃.device at h₃
  refine hx s₃ ?_ ?_
  · exact ((h₁.mono fun q hq => hq.1).trans (hleft₂.mono fun q hq => hq.2.2)).trans (h₃.mono fun q hq => hq.2.1)
  · rw [h₃.load fun q hq hlt => by omega, hleft₂.load fun q hq hlt => by omega]
    exact hrun

/-- **Rings that are set up are served**, and lie in memory of their own. -/
theorem setUp_succeeds {poll : PollPolicy} (hcalm : s.device.pendingStop = none)
    (hlimit : 0 < (poll.limit .ringReset).checks n) (hordered : s.device.memory.Ordered)
    (hroom : s.device.memory.next + 2 * Memory.page < 2 ^ 64) :
    Ensures world n (CommandRings.setUp poll) t s (.succeeds fun r t' s' => t' = t ∧ Serving r s'.device ∧
      r.resetLimit = poll.limit .ringReset ∧ r.drainLimit = poll.limit .corbDrain ∧ s.device.Spares BeyondLink s'.device ∧
        s'.device.memory.shape = s.device.memory.shape ++ [(r.corb.host, r.corb.length), (r.rirb.host, r.rirb.length)]) := by
  refine stopBoth_succeeds hcalm hlimit fun s₁ h₁ hhalted => ?_
  refine allocateRings_succeeds (h₁.ordered hordered) (h₁.next ▸ hroom) ?_
  intro corb rirb s₂ hcorb hrirb hcorbLong hrirbLong hshape hordered₂ h₂
  have hcalm₂ : s₂.device.pendingStop = none := (h₂.stop trivial).trans ((h₁.stop ⟨by decide, by decide⟩).trans hcalm)
  refine placeRings_succeeds hcalm₂ ?_
  intro corbEntries rirbEntries s₃ h₃ hcorbBase hrirbBase hcorbEntries hrirbEntries
  refine (ensures_note_rests _).andThen ?_
  rintro _ _ s₄ ⟨rfl, h₄⟩
  have hrest₄ : s₁.device.Spares (¬OfPlace ·) s₄.device :=
    ((h₂.mono fun _ _ => trivial).trans h₃.toSpares).trans (h₄.rests (P := (¬OfPlace ·))).toSpares
  have hcalm₄ : s₄.device.pendingStop = none := h₄.stop.trans ((h₃.stop (by unfold OfPlace; decide)).trans hcalm₂)
  have hhalted₄ : s₄.Halted := hhalted.of_spares hrest₄ (by unfold OfPlace; decide)
  refine (resetPointers_succeeds hcalm₄ hlimit hhalted₄.1).andThen ?_
  rintro _ _ s₅ ⟨rfl, h₅, hreset, hread, hwrite⟩
  refine startBoth_succeeds ((h₅.stop (by decide)).trans hcalm₄) fun s₆ h₆ hrun => ?_
  have hdword : Width.dword.bytes = 4 := rfl
  have hbyte : Width.byte.bytes = 1 := rfl
  -- from the placing on, only pointers and controls have changed
  have hlast : s₃.device.Leaves OfPlace s₆.device := by
    have hpointers : ∀ q, OfPlace q → BeyondPointers q := fun q hq => by
      unfold OfPlace at hq
      unfold BeyondPointers
      omega
    refine (h₄.rests.trans (h₅.mono hpointers)).trans (h₆.mono fun q hq => ?_)
    unfold OfPlace at hq
    omega
  have hload : ∀ {w : Width} {o : Nat}, (∀ q, o ≤ q → q < o + w.bytes → OfPlace q) →
      s₆.device.load w o = s₃.device.load w o := hlast.load
  unfold OfPlace at hload
  have hshape₆ : s₆.device.memory.shape =
      s.device.memory.shape ++ [(corb.host, corb.length), (rirb.host, rirb.length)] := by
    rw [hlast.shape, h₃.shape, hshape, h₁.shape]
  refine ensures_pure.2 ⟨rfl, ?_, rfl, rfl, ?_, hshape₆⟩
  · exact {
      run := hrun
      corbEntries := by
        rw [Device.ringEntries, hload fun q hq hlt => by omega]
        exact hcorbEntries
      rirbEntries := by
        rw [Device.ringEntries, hload fun q hq hlt => by omega]
        exact hrirbEntries
      corbBase := by
        rw [Device.baseAddress, hload fun q hq hlt => by omega, hload fun q hq hlt => by omega]
        exact hcorbBase.trans hcorb
      rirbBase := by
        rw [Device.baseAddress, hload fun q hq hlt => by omega, hload fun q hq hlt => by omega]
        exact hrirbBase.trans hrirb
      ordered := hlast.ordered (h₃.ordered hordered₂)
      corbLive := by
        rw [hshape₆, ← hcorbLong]
        exact List.mem_append_right _ List.mem_cons_self
      rirbLive := by
        rw [hshape₆, ← hrirbLong]
        exact List.mem_append_right _ (List.mem_cons_of_mem _ List.mem_cons_self)
      corbLong := hcorbLong
      rirbLong := hrirbLong
      released := (h₆.corb (by decide)).1.trans hreset
      corbRead := (h₆.corb (by decide)).2.trans hread
      rirbWrite := (h₆.rirb (by decide)).trans hwrite
      write_lt := Nat.lt_of_lt_of_le Nat.two_pos corbEntries.two_le_count
      read_lt := Nat.lt_of_lt_of_le Nat.two_pos rirbEntries.two_le_count }
  · have hbeyond : ∀ q, BeyondLink q → BeyondControls q ∧ ¬OfPlace q ∧ BeyondPointers q ∧ q ≠ 0x4c ∧ q ≠ 0x5c ∧
        (q < 0x5a ∨ 0x5c ≤ q) := fun q hq => by
      unfold BeyondLink at hq
      unfold BeyondControls OfPlace BeyondPointers
      omega
    exact (((h₁.toSpares.mono fun q hq => (hbeyond q hq).1).trans (hrest₄.mono fun q hq => (hbeyond q hq).2.1)).trans
      (h₅.toSpares.mono fun q hq => (hbeyond q hq).2.2.1)).trans (h₆.toSpares.mono fun q hq => (hbeyond q hq).2.2.2)

end Station

end Simulation
end AudioBringup
