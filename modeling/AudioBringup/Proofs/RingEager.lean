import AudioBringup.Proofs.RingDevice
/-!
# Proofs.RingEager — a device that gets round to everything at once

One of the devices of `RingDevice.world`, to be executed: before each call it has done all there was to do, and its
codecs answer every word from the word alone.
-/
namespace AudioBringup
namespace RingDevice

open RingOrders (slots)

/-- The device with its engines and its read pointer the way they were told to be. -/
def obey (d : RingDevice) : RingDevice :=
  { d with
    corbRunning := d.told.corbRun
    rirbRunning := d.told.rirbRun
    corbInReset := d.told.corbReset
    corbRead := if d.told.corbReset then 0 else d.corbRead }

/-- There is a command to fetch, and nothing keeps the device from answering it. -/
def Ready (d : RingDevice) : Prop :=
  d.corbRunning = true ∧ d.rirbRunning = true ∧ d.corbInReset = false ∧ d.corbRead ≠ d.told.corbWrite ∧
    d.outstanding = [] ∧ d.unannounced = none

instance (d : RingDevice) : Decidable d.Ready := by unfold Ready; infer_instance

/-- The device once it has fetched the next command, put the answer down and announced it. -/
def serve (codec : BitVec 32 → BitVec 32) (d : RingDevice) : RingDevice :=
  let slot := (d.corbRead + 1) % slots d.told.corbSize
  let word := load32 d.memory (d.told.corbAt slot)
  let free := (d.rirbWrite + 1) % slots d.told.rirbSize
  { d with
    corbRead := slot
    memory := store32 (store32 d.memory (d.told.rirbAt free) (codec word)) (d.told.rirbAt free + 4) 0
    rirbWrite := free
    fetched := d.fetched ++ [word]
    answered := d.answered ++ [(word, codec word)] }

/-- The device once it has done what there was to do. -/
def catchUp (codec : BitVec 32 → BitVec 32) (d : RingDevice) : RingDevice :=
  if d.obey.Ready then serve codec d.obey else d.obey

/-- What it shows in a register. -/
def shown (d : RingDevice) (o : BitVec 32) : BitVec 32 :=
  if o = Register.corbctl then if d.corbRunning then 2 else 0
  else if o = Register.rirbctl then if d.rirbRunning then 2 else 0
  else if o = Register.corbrp then if d.corbInReset then 0x8000 else BitVec.ofNat 32 d.corbRead
  else if o = Register.rirbwp then BitVec.ofNat 32 d.rirbWrite
  else if o = Register.corbsize then d.told.corbSize.setWidth 32
  else if o = Register.rirbsize then d.told.rirbSize.setWidth 32
  else 0

/-- How it answers a read, as long as its pointers are bytes. -/
def replyRead (d : RingDevice) (o : BitVec 32) : Except Error (BitVec 32) :=
  if d.corbRead < 256 ∧ d.rirbWrite < 256 then .ok (d.shown o) else .error .noTransport

/-- Memory is had at four times its length. -/
def replyAllocate (k : Nat) : Except Error Region :=
  if 4 * k < 1 <<< 64 then .ok ⟨4 * k, BitVec.ofNat 64 (4 * k), k, 0⟩ else .error .outOfResources

/-- How it answers a call. -/
def reply (d : RingDevice) : (c : Call) → c.Answer × RingDevice
  | .read _ o => (d.replyRead o, d)
  | .write _ o v => (.ok (), d.take o v)
  | .allocate k => (replyAllocate k, d)
  | .free _ => (.ok (), d)
  | .load32 p => (load32 d.memory p, d)
  | .store32 p v => ((), { d with memory := store32 d.memory p v })
  | .clear p k => ((), { d with memory := fun q => if p ≤ q ∧ q < p + k then 0 else d.memory q })
  | .load64 _ => ((0 : BitVec 64), d)
  | .store64 .. | .fill .. | .note _ => ((), d)
  | .candidates | .identify _ | .bindExclusive _ | .release | .stall _ | .armTimer _ | .timerExpired | .cancelTimer =>
    (.error .noTransport, d)

/-- Answers a call with everything done before it. -/
def eager (codec : BitVec 32 → BitVec 32) (c : Call) (d : RingDevice) : c.Answer × RingDevice := (catchUp codec d).reply c

theorem obey_steps (d : RingDevice) : Relation.ReflTransGen Step d d.obey := by
  refine .tail (.tail (.single (.obeyCorb d)) (.obeyRirb _)) ?_
  cases h : d.told.corbReset
  · have hs := Step.endReset { d with corbRunning := d.told.corbRun, rirbRunning := d.told.rirbRun } h
    simpa only [obey, h, Bool.false_eq_true, if_false] using hs
  · have hs := Step.resetRead { d with corbRunning := d.told.corbRun, rirbRunning := d.told.rirbRun } h
    simpa only [obey, h, if_true] using hs

theorem serve_steps (codec : BitVec 32 → BitVec 32) {d : RingDevice} (h : d.Ready) :
    Relation.ReflTransGen Step d (serve codec d) := by
  obtain ⟨told, memory, corbRunning, rirbRunning, inReset, corbRead, rirbWrite, outstanding, unannounced, F, A⟩ := d
  obtain ⟨hcorb, hrirb, hreset, hne, hout, hun⟩ := h
  cases hout
  cases hun
  refine .tail (.tail (.single (.fetch _ _ _ hcorb hreset hne rfl rfl)) (.respond _ _ (codec _) 0 hrirb ?_ rfl rfl))
    (.announce _ _ _ [] rfl rfl)
  exact List.cons_ne_nil _ _

theorem catchUp_steps (codec : BitVec 32 → BitVec 32) (d : RingDevice) :
    Relation.ReflTransGen Step d (catchUp codec d) := by
  unfold catchUp
  split
  · rename_i h
    exact d.obey_steps.trans (serve_steps codec h)
  · exact d.obey_steps

theorem shows_shown {d : RingDevice} (o : BitVec 32) (hcorb : d.corbRead < 256) (hrirb : d.rirbWrite < 256) :
    d.Shows o (d.shown o) := by
  constructor <;> rintro rfl
  · cases h : d.corbRunning <;> simp [shown, h]
  · cases h : d.rirbRunning <;> simp [shown, h, Register.corbctl, Register.rirbctl]
  · cases h : d.corbInReset
    · have : (BitVec.ofNat 32 d.corbRead).getLsbD 15 = false := by
        rw [BitVec.getLsbD_ofNat, Nat.testBit_lt_two_pow (Nat.lt_of_lt_of_le hcorb (by decide)), Bool.and_false]
      simpa [shown, h, Register.corbctl, Register.rirbctl, Register.corbrp] using this
    · simp [shown, h, Register.corbctl, Register.rirbctl, Register.corbrp]
  · intro h
    simp [shown, h, Register.corbctl, Register.rirbctl, Register.corbrp]
    omega
  · simp [shown, Register.corbctl, Register.rirbctl, Register.corbrp, Register.rirbwp]
    omega
  · simp [shown, Register.corbctl, Register.rirbctl, Register.corbrp, Register.rirbwp, Register.corbsize]
  · simp [shown, Register.corbctl, Register.rirbctl, Register.corbrp, Register.rirbwp, Register.corbsize, Register.rirbsize]

theorem access_reply {d : RingDevice} (c : Call) (hreach : d.told.reach = id) :
    d.Access c (d.reply c).1 (d.reply c).2 := by
  cases c with
  | read w o =>
    change d.Access (.read w o) (d.replyRead o) d
    unfold replyRead
    split
    · rename_i h
      exact ⟨shows_shown o h.1 h.2, rfl⟩
    · trivial
  | allocate k =>
    change d.Access (.allocate k) (replyAllocate k) d
    unfold replyAllocate
    split
    · rename_i h
      refine ⟨⟨Nat.le_refl k, fun i _ => ?_⟩, rfl⟩
      have hk : (BitVec.ofNat 64 (4 * k)).toNat = 4 * k := by
        rw [BitVec.toNat_ofNat]
        exact Nat.mod_eq_of_lt h
      rw [hreach, hk]
      rfl
    · trivial
  | load32 p => exact ⟨rfl, rfl⟩
  | write | free | store32 | clear | note => rfl
  | _ => trivial

theorem reply_reach (d : RingDevice) (c : Call) : (d.reply c).2.told.reach = d.told.reach := by
  cases c with
  | write w o v =>
    change (d.told.take o v).reach = d.told.reach
    simp only [RingOrders.take, apply_ite RingOrders.reach, ite_self]
  | _ => rfl

theorem catchUp_told (codec : BitVec 32 → BitVec 32) (d : RingDevice) : (catchUp codec d).told = d.told := by
  unfold catchUp
  split <;> rfl

/-- **What the eager device does, a device may do**, where host and device have the same addresses. -/
theorem eager_world (codec : BitVec 32 → BitVec 32) (c : Call) {d : RingDevice} (hreach : d.told.reach = id) :
    world c d (eager codec c d).1 (eager codec c d).2 ∧ (eager codec c d).2.told.reach = id := by
  rw [← catchUp_told codec d] at hreach
  exact ⟨⟨catchUp codec d, catchUp_steps codec d, access_reply c hreach⟩, (reply_reach _ c).trans hreach⟩

end RingDevice
end AudioBringup
