import AudioBringup.Proofs.RingEager
import AudioBringup.Proofs.RingFifo
/-!
# Proofs.RingSetup — from an idle device to a conversation

Setting up stops the command ring, and a stopped ring fetches nothing however its pointers and its memory are changed
(`Resting`).  The pointers are back at 0 before it runs again, so the rings start out in step.
-/
namespace AudioBringup

open Procedure
open RingOrders (slots)

namespace RingOrders

theorem base_of_halves (old address : BitVec 64) :
    Bits.field address 32 32 ++ (old.extractLsb' 32 32 ++ Bits.field address 0 32).extractLsb' 0 32 = address := by
  rw [BitVec.extractLsb'_append_eq_right]
  exact BitVec.extractLsb'_append_extractLsb'_eq_extractLsb' (by decide) |>.trans BitVec.extractLsb'_eq_self

theorem take_corbAddress (t : RingOrders) (address : BitVec 64) :
    (t.take Register.corblbase (Bits.field address 0 32)).take Register.corbubase (Bits.field address 32 32) =
      { t with corbBase := address } :=
  congrArg (fun base => { t with corbBase := base }) (base_of_halves t.corbBase address)

theorem take_rirbAddress (t : RingOrders) (address : BitVec 64) :
    (t.take Register.rirblbase (Bits.field address 0 32)).take Register.rirbubase (Bits.field address 32 32) =
      { t with rirbBase := address } :=
  congrArg (fun base => { t with rirbBase := base }) (base_of_halves t.rirbBase address)

/-- A size register that held `old` once it has been given the largest size it can have. -/
def enlarged (old : BitVec 8) : BitVec 8 :=
  old.extractLsb' 2 6 ++ (((RingSize.mk old).withEntries (RingSize.mk old).largest).raw.setWidth 32).extractLsb' 0 2

theorem code_withEntries (size : RingSize) (e : RingEntries) :
    ((size.withEntries e).raw.setWidth 32).extractLsb' 0 2 = e.code := by
  ext i hi
  simp only [RingSize.withEntries, Bits.withField, BitVec.getElem_extractLsb']
  obtain rfl | rfl : i = 0 ∨ i = 1 := by omega
  · simp
  · simp

/-- A size register has the slots of the size that was last written into it. -/
theorem slots_enlarged (old : BitVec 8) : slots (enlarged old) = (RingSize.mk old).largest.count := by
  generalize he : (RingSize.mk old).largest = e
  have hcode : (enlarged old).toNat % 4 = e.code.toNat := by
    have hlt := e.code.isLt
    rw [enlarged, he, code_withEntries, BitVec.toNat_append, Nat.shiftLeft_eq, Nat.mul_comm,
      ← Nat.two_pow_add_eq_or_of_lt hlt]
    omega
  rw [slots, hcode]
  cases e <;> rfl

end RingOrders

namespace RingDevice

/-- Nothing is under way in a device that has been told `t`: what it fetched is answered, and a command ring that runs
holds nothing to fetch. -/
structure Idle (t : RingOrders) (F : List (BitVec 32)) (A : List (BitVec 32 × BitVec 32)) (d : RingDevice) : Prop where
  told : d.told = t
  outstanding : d.outstanding = []
  unannounced : d.unannounced = none
  fetched : d.fetched = F
  answered : d.answered = A
  inReset : d.corbInReset = true → d.corbRead = 0
  caughtUp : d.corbRunning = true ∨ t.corbRun = true → d.corbRead = t.corbWrite ∧ t.corbReset = false

/-- The device is idle, and its command ring stands still. -/
structure Resting (t : RingOrders) (F : List (BitVec 32)) (A : List (BitVec 32 × BitVec 32)) (d : RingDevice) : Prop
    extends Idle t F A d where
  stopped : d.corbRunning = false
  held : t.corbRun = false

section
variable {t : RingOrders} {F : List (BitVec 32)} {A : List (BitVec 32 × BitVec 32)} {d : RingDevice} {o v : BitVec 32}

theorem Idle.stable : Stable (Idle t F A) := by
  rintro d d' ⟨rfl, hout, hun, hF, hA, hreset, hup⟩ hs
  cases hs with
  | obeyCorb => exact ⟨rfl, hout, hun, hF, hA, hreset, fun h => hup (.inr (or_self_iff.1 h))⟩
  | obeyRirb => exact ⟨rfl, hout, hun, hF, hA, hreset, hup⟩
  | resetRead h => exact ⟨rfl, hout, hun, hF, hA, fun _ => rfl, fun hrun => by rw [(hup hrun).2] at h; cases h⟩
  | endReset h => exact ⟨rfl, hout, hun, hF, hA, fun hin => (by cases hin), hup⟩
  | fetch word slot hrun hin hne => exact absurd (hup (.inl hrun)).1 hne
  | respond p answer extended hrun hne => exact absurd hout hne
  | announce word answer rest hne => rw [hout] at hne; cases hne

theorem Resting.stable : Stable (Resting t F A) := by
  rintro d d' ⟨h, hstopped, hheld⟩ hs
  refine ⟨Idle.stable d d' h hs, ?_, hheld⟩
  cases hs with
  | obeyCorb => rw [h.told, hheld]
  | _ => exact hstopped

/-- An idle device stays idle when its command ring is told to stop. -/
theorem Idle.hold (h : Idle t F A d) (hrun : v.getLsbD 1 = false) :
    Idle { t with corbRun := false } F A (d.take Register.corbctl v) where
  told := by rw [← h.told, ← hrun]; rfl
  outstanding := h.outstanding
  unannounced := h.unannounced
  fetched := h.fetched
  answered := h.answered
  inReset := h.inReset
  caughtUp hr := h.caughtUp (hr.imp_right fun hr => by cases hr)

/-- Whatever the host writes, a ring it has not started rests. -/
theorem Resting.take {u : RingOrders} (h : Resting t F A d) (htake : t.take o v = u) (hrun : u.corbRun = false) :
    Resting u F A (d.take o v) where
  told := by rw [← htake, ← h.told]; rfl
  outstanding := h.outstanding
  unannounced := h.unannounced
  fetched := h.fetched
  answered := h.answered
  inReset := h.inReset
  caughtUp hr := hr.elim (fun hr => by rw [show (d.take o v).corbRunning = _ from h.stopped] at hr; cases hr)
    (fun hr => by rw [hrun] at hr; cases hr)
  stopped := h.stopped
  held := hrun

end

end RingDevice

namespace CommandRings

open RingDevice

section
variable {σ : Type} {n : Nat} {s : σ} {t : RingOrders} {F : List (BitVec 32)} {A : List (BitVec 32 × BitVec 32)}
  {d : RingDevice} {o v : BitVec 32}

/-! ### Stopping -/

theorem withRun_run (b : BitVec 8) (run : Bool) : (((RingControl.mk b).withRun run).raw.setWidth 32).getLsbD 1 = run := by
  rw [RingControl.getLsbD_raw, RingControl.run_withRun]

/-- An idle command ring rests once it has been stopped. -/
theorem stop_corb_rests (limit : WaitLimit) (h : Idle t F A d) :
    Ensures RingDevice.world n (stop Register.corbctl limit) s d (.unlessFails fun _ s' d' =>
      s' = s ∧ Resting { t with corbRun := false } F A d') := by
  refine ensures_bind.2 ((ensures_read8_of Idle.stable h).imp ?_)
  rintro control s d ⟨rfl, h, -⟩
  refine ensures_bind.2 ((ensures_write_of Idle.stable h).imp ?_)
  rintro - s - ⟨rfl, d, h, rfl⟩
  refine ensures_await (f := fun control => !(RingControl.mk control).run) (fun _ _ => ensures_read8_of Idle.stable) ?_
    (h.hold (withRun_run control false))
  rintro shown d h ⟨raw, rfl, hshows⟩ hclear
  refine ⟨h, ?_, rfl⟩
  rw [← hshows.corbRunning rfl]
  simpa [RingControl.run] using hclear

/-- Stopping the response ring leaves the command ring at rest. -/
theorem stop_rirb_rests (limit : WaitLimit) (h : Resting t F A d) :
    Ensures RingDevice.world n (stop Register.rirbctl limit) s d (.unlessFails fun _ s' d' =>
      s' = s ∧ Resting { t with rirbRun := false } F A d') := by
  refine ensures_bind.2 ((ensures_read8_of Resting.stable h).imp ?_)
  rintro control s d ⟨rfl, h, -⟩
  refine ensures_bind.2 ((ensures_write_of Resting.stable h).imp ?_)
  rintro - s - ⟨rfl, d, h, rfl⟩
  have hheld := congrArg (fun run => { t with rirbRun := run }) (withRun_run control false)
  exact ensures_await (f := fun control => !(RingControl.mk control).run) (fun _ _ => ensures_read8_of Resting.stable)
    (fun _ _ h _ _ => h) (h.take (o := Register.rirbctl) hheld h.held)

/-! ### Placing the rings -/

theorem writeAddress_rests {u : RingOrders} {lower upper : BitVec 32} {address : BitVec 64} (h : Resting t F A d)
    (hlower : (t.take lower (Bits.field address 0 32)).corbRun = false)
    (hboth : (t.take lower (Bits.field address 0 32)).take upper (Bits.field address 32 32) = u)
    (hrun : u.corbRun = false) :
    Ensures RingDevice.world n (writeAddress lower upper address) s d (.unlessFails fun _ s' d' =>
      s' = s ∧ Resting u F A d') := by
  refine ensures_bind.2 ((ensures_write_of Resting.stable h).imp ?_)
  rintro - s - ⟨rfl, d, h, rfl⟩
  refine (ensures_write_of Resting.stable (h.take rfl hlower)).imp ?_
  rintro - s - ⟨rfl, d, h, rfl⟩
  exact ⟨rfl, h.take hboth hrun⟩

theorem enlarge_rests {u : RingOrders} {size : BitVec 32} {old : BitVec 8} (h : Resting t F A d)
    (hold : ∀ d v, Resting t F A d → d.Shows size v → v.setWidth 8 = old)
    (htake : t.take size (((RingSize.mk old).withEntries (RingSize.mk old).largest).raw.setWidth 32) = u)
    (hrun : u.corbRun = false) :
    Ensures RingDevice.world n (enlarge size) s d (.unlessFails fun e s' d' =>
      s' = s ∧ e = (RingSize.mk old).largest ∧ Resting u F A d') := by
  refine ensures_bind.2 ((ensures_read8_of Resting.stable h).imp ?_)
  rintro v s d ⟨rfl, h, raw, rfl, hshows⟩
  rw [hold d raw h hshows]
  refine ensures_bind.2 ((ensures_write_of Resting.stable h).imp ?_)
  rintro - s - ⟨rfl, d, h, rfl⟩
  exact ensures_pure.2 ⟨rfl, rfl, h.take htake hrun⟩

/-! ### Resetting the pointers and starting -/

theorem corbReadPointer_reset (raw : BitVec 32) : (CorbReadPointer.mk (raw.setWidth 16)).reset = raw.getLsbD 15 := by
  simp [CorbReadPointer.reset]

/-- A resting ring's read pointer that shows it has been reset goes on showing it for as long as it is told to. -/
theorem inReset_stable (hr : t.corbReset = true) : Stable fun d => Resting t F A d ∧ d.corbInReset = true := by
  rintro d d' ⟨h, hin⟩ hs
  refine ⟨Resting.stable d d' h hs, ?_⟩
  cases hs with
  | resetRead => rfl
  | endReset hend => rw [h.told, hr] at hend; cases hend
  | _ => exact hin

/-- A resting ring's read pointer stays at 0. -/
theorem atZero_stable : Stable fun d => Resting t F A d ∧ d.corbRead = 0 := by
  rintro d d' ⟨h, hread⟩ hs
  refine ⟨Resting.stable d d' h hs, ?_⟩
  cases hs with
  | resetRead => rfl
  | fetch word slot hrun => rw [h.stopped] at hrun; cases hrun
  | _ => exact hread

/-- A resting ring's read pointer that is out of reset stays so for as long as it is not told to reset. -/
theorem outOfReset_stable (hr : t.corbReset = false) :
    Stable fun d => (Resting t F A d ∧ d.corbRead = 0) ∧ d.corbInReset = false := by
  rintro d d' ⟨h, hin⟩ hs
  refine ⟨atZero_stable d d' h hs, ?_⟩
  cases hs with
  | resetRead hreset => rw [h.1.told, hr] at hreset; cases hreset
  | endReset => rfl
  | _ => exact hin

/-- The orders once every pointer has been moved back to 0. -/
def rewound (t : RingOrders) : RingOrders := { t with corbWrite := 0, corbReset := false }

/-- **The handshake leaves every pointer of a resting ring at 0**, and the read pointer out of reset. -/
theorem resetPointers_stands (limit : WaitLimit) (h : Resting t F A d) :
    Ensures RingDevice.world n (resetPointers limit) s d (.unlessFails fun _ s' d' =>
      s' = s ∧ Stands (rewound t) 0 0 [] none F A d') := by
  refine ensures_bind.2 ((ensures_write_of Resting.stable h).imp ?_)
  rintro - s - ⟨rfl, d, h, rfl⟩
  refine ensures_bind.2 ((ensures_write_of Resting.stable (h.take (o := Register.corbwp) rfl h.held)).imp ?_)
  rintro - s - ⟨rfl, d, h, rfl⟩
  -- until the read pointer shows that it has been reset
  refine ensures_bind.2 ((ensures_await (f := fun p => (CorbReadPointer.mk p).reset)
    (Q := fun d => Resting { t with corbWrite := 0, corbReset := true } F A d ∧ d.corbInReset = true)
    (fun _ _ => ensures_read16_of Resting.stable) ?_
    (h.take (o := Register.corbrp) rfl h.held)).imp ?_)
  · rintro p d h ⟨raw, rfl, hshows⟩ hset
    rw [corbReadPointer_reset] at hset
    exact ⟨h, (hshows.corbInReset rfl).symm.trans hset⟩
  rintro - s d ⟨rfl, h⟩
  refine ensures_bind.2 ((ensures_write_of (inReset_stable rfl) h).imp ?_)
  rintro - s - ⟨rfl, d, ⟨h, hin⟩, rfl⟩
  -- until it shows that it is out of reset
  refine ensures_bind.2 ((ensures_await (f := fun p => !(CorbReadPointer.mk p).reset)
    (Q := fun d => (Resting (rewound t) F A d ∧ d.corbRead = 0) ∧ d.corbInReset = false)
    (fun _ _ => ensures_read16_of atZero_stable) ?_ ⟨h.take (o := Register.corbrp) rfl h.held, h.inReset hin⟩).imp ?_)
  · rintro p d h ⟨raw, rfl, hshows⟩ hclear
    rw [corbReadPointer_reset, Bool.not_eq_true'] at hclear
    exact ⟨h, (hshows.corbInReset rfl).symm.trans hclear⟩
  rintro - s d ⟨rfl, h⟩
  refine (ensures_write_of (outOfReset_stable rfl) h).imp ?_
  rintro - s - ⟨rfl, d, ⟨⟨h, hread⟩, hin⟩, rfl⟩
  exact ⟨rfl, h.told, hin, hread, rfl, h.outstanding, h.unannounced, h.fetched, h.answered⟩

theorem start_stands {u : RingOrders} {control : BitVec 32} {i j : Nat} (hr : t.corbReset = false) (hw : t.corbWrite = i)
    (hcontrol : control ≠ Register.rirbwp) (htake : ∀ v : BitVec 32, v.getLsbD 1 = true → t.take control v = u)
    (h : Stands t i j [] none F A d) :
    Ensures RingDevice.world n (start control) s d (.unlessFails fun _ s' d' => s' = s ∧ Stands u i j [] none F A d') := by
  refine ensures_bind.2 ((ensures_read8_of (Stands.stable hr hw) h).imp ?_)
  rintro control s d ⟨rfl, h, -⟩
  refine (ensures_write_of (Stands.stable hr hw) h).imp ?_
  rintro - s - ⟨rfl, d, h, rfl⟩
  exact ⟨rfl, htake _ (withRun_run control true) ▸ h.take hcontrol⟩

/-! ### The whole set-up -/

/-- The orders once two stopped rings have been given their places and their sizes. -/
def placed (t : RingOrders) (corb rirb : Region) : RingOrders where
  reach := t.reach
  corbBase := corb.address
  rirbBase := rirb.address
  corbSize := RingOrders.enlarged t.corbSize
  rirbSize := RingOrders.enlarged t.rirbSize
  corbRun := false
  rirbRun := false
  corbReset := t.corbReset
  corbWrite := t.corbWrite

/-- Two rings in the memory that was had for them are served once the device knows their places and their sizes. -/
theorem served_of_placed {r : CommandRings} {t₀ : RingOrders} (hcorb : t₀.Admits corbLength r.corb)
    (hrirb : t₀.Admits rirbLength r.rirb) (hreach : t.reach = t₀.reach) (hcorbBase : t.corbBase = r.corb.address)
    (hrirbBase : t.rirbBase = r.rirb.address) (hcorbSlots : slots t.corbSize = r.corbEntries.count)
    (hrirbSlots : slots t.rirbSize = r.rirbEntries.count) : Served t r where
  corbSlots := hcorbSlots
  rirbSlots := hrirbSlots
  corbAt i hi := by
    have hlong := hcorb.long
    simp only [corbLength, corbSlot] at hlong
    rw [RingOrders.corbAt, hreach, hcorbBase]
    exact hcorb.reached _ (by omega)
  rirbAt i hi := by
    have hlong := hrirb.long
    simp only [rirbLength, rirbSlot] at hlong
    rw [RingOrders.rirbAt, hreach, hrirbBase]
    exact hrirb.reached _ (by omega)
  corbLong := hcorb.long
  rirbLong := hrirb.long

theorem zero_rests (g : Region) (h : Resting t F A d) :
    Ensures RingDevice.world n g.zero s d (.unlessFails fun _ s' d' => s' = s ∧ Resting t F A d') := by
  refine ensures_request.2 fun _ d' hw => ?_
  obtain ⟨d, h, rfl⟩ := Resting.stable.world h hw
  exact ⟨rfl, ⟨h.told, h.outstanding, h.unannounced, h.fetched, h.answered, h.inReset, h.caughtUp⟩, h.stopped, h.held⟩

/-- **Setting up from an idle device** leaves the rings in step, each as large as its capability lets it be. -/
theorem setUp_inStep (poll : PollPolicy) (h : Idle t F A d) :
    Ensures RingDevice.world n (setUp poll) s d (.unlessFails fun r s' d' =>
      s' = s ∧ r.corbEntries = (RingSize.mk t.corbSize).largest ∧ r.rirbEntries = (RingSize.mk t.rirbSize).largest ∧
        r.writeCursor = 0 ∧ r.readCursor = 0 ∧ ∃ t', InStep t' r F A d') := by
  refine ensures_bind.2 ((stop_corb_rests _ h).imp ?_)
  rintro - s d ⟨rfl, h⟩
  refine ensures_bind.2 ((stop_rirb_rests _ h).imp ?_)
  rintro - s d ⟨rfl, h⟩
  refine ensures_bind.2 ((ensures_allocate_of Resting.stable h).imp ?_)
  rintro corb s d ⟨rfl, h, hcorb⟩
  rw [h.told] at hcorb
  refine ensures_bind.2 (ensures_attempt.2 ((ensures_allocate_of Resting.stable h).mono ?_ ?failed
    (fun _ h => h.elim) (fun _ _ => trivial)))
  case failed =>
    rintro e s d -
    refine ensures_bind.2 (ensures_free.2 ?_)
    rintro (e | u) d' - <;> trivial
  rintro rirb s d ⟨rfl, h, hrirb⟩
  rw [h.told] at hrirb
  -- both rings are told their places and sizes while the command ring rests
  refine ensures_bind.2 ((zero_rests corb h).imp ?_)
  rintro - s d ⟨rfl, h⟩
  refine ensures_bind.2 ((zero_rests rirb h).imp ?_)
  rintro - s d ⟨rfl, h⟩
  refine ensures_bind.2 ((writeAddress_rests h rfl (RingOrders.take_corbAddress _ _) rfl).imp ?_)
  rintro - s d ⟨rfl, h⟩
  refine ensures_bind.2 ((writeAddress_rests h rfl (RingOrders.take_rirbAddress _ _) rfl).imp ?_)
  rintro - s d ⟨rfl, h⟩
  refine ensures_bind.2 ((enlarge_rests (u := { placed t corb rirb with rirbSize := t.rirbSize }) h
    (fun d v h hv => (hv.corbSize rfl).trans (by rw [h.told])) rfl rfl).imp ?_)
  rintro corbEntries s d ⟨rfl, rfl, h⟩
  refine ensures_bind.2 ((enlarge_rests (u := placed t corb rirb) h
    (fun d v h hv => (hv.rirbSize rfl).trans (by rw [h.told])) rfl rfl).imp ?_)
  rintro rirbEntries s d ⟨rfl, rfl, h⟩
  refine ensures_bind.2 ((ensures_note_of Resting.stable h).imp ?_)
  rintro - s d ⟨rfl, h⟩
  refine ensures_bind.2 ((resetPointers_stands _ h).imp ?_)
  rintro - s d ⟨rfl, h⟩
  -- and both run from pointers at 0
  refine ensures_bind.2 ((start_stands (u := { rewound (placed t corb rirb) with corbRun := true }) rfl rfl (by decide)
    (fun v hv => congrArg (fun run => { rewound (placed t corb rirb) with corbRun := run }) hv) h).imp ?_)
  rintro - s d ⟨rfl, h⟩
  refine ensures_bind.2 ((ensures_write_of (Stands.stable rfl rfl) h).imp ?_)
  rintro - s - ⟨rfl, d, h, rfl⟩
  have h := h.take (o := Register.rintcnt) (v := (1 : BitVec 16).setWidth 32) (by decide)
  refine ensures_bind.2 ((start_stands (u := { rewound (placed t corb rirb) with corbRun := true, rirbRun := true }) rfl
    rfl (by decide) (fun v hv => congrArg (fun run => { rewound (placed t corb rirb) with
      corbRun := true, rirbRun := run }) hv) h).imp ?_)
  rintro - s d ⟨rfl, h⟩
  refine ensures_pure.2 ⟨rfl, rfl, rfl, rfl, rfl, _, ?_, h, rfl, rfl, ?_, ?_⟩
  · exact served_of_placed hcorb hrirb rfl rfl rfl (RingOrders.slots_enlarged _) (RingOrders.slots_enlarged _)
  · exact Nat.lt_of_lt_of_le Nat.zero_lt_two (RingEntries.two_le_count _)
  · exact Nat.lt_of_lt_of_le Nat.zero_lt_two (RingEntries.two_le_count _)

/-! ### A conversation from the set-up on -/

/-- Sets the rings up and sends several words through them: their answers, or what failed, and the rings as they are
then. -/
def converse (poll : PollPolicy) (words : List (BitVec 32)) :
    Procedure σ (Except Error (List (BitVec 32)) × CommandRings) := do
  let rings ← setUp poll
  within rings (exchangeAll words)

/-- **The rings are a queue**, for every capability, every codec and every moment the device may choose for what it does.
In a conversation in which no exchange fails the device has fetched the words, each once and in order, every word has
been answered what the device answered it, and both cursors are the number of words, modulo the sizes of the rings, and
where the device's pointers are.  Whatever fails, no access to either ring is outside its memory or off its slots. -/
theorem converse_fifo (poll : PollPolicy) (words : List (BitVec 32)) (h : Idle t F A d) :
    Ensures RingDevice.world n (converse poll words) s d (.unlessFails fun (result, r) s' d' =>
      s' = s ∧ ∀ answers, result = .ok answers →
        d'.fetched = F ++ words ∧ answers.length = words.length ∧ d'.answered = A ++ words.zip answers ∧
        r.corbEntries = (RingSize.mk t.corbSize).largest ∧ r.rirbEntries = (RingSize.mk t.rirbSize).largest ∧
        r.writeCursor = words.length % r.corbEntries.count ∧ d'.corbRead = r.writeCursor ∧
        r.readCursor = words.length % r.rirbEntries.count ∧ d'.rirbWrite = r.readCursor) := by
  refine ensures_bind.2 ((setUp_inStep poll h).imp ?_)
  rintro r s d ⟨rfl, hcorb, hrirb, hwrite, hread, t', hin⟩
  refine ensures_within.2 ((exchangeAll_inStep words hin).mono ?_ ?_ (fun _ h => h) (fun _ _ => trivial))
  · rintro answers r' d' ⟨hlen, rfl, t'', hin⟩
    refine ⟨rfl, fun _ hanswers => ?_⟩
    cases hanswers
    refine ⟨hin.stands.fetched, hlen, hin.stands.answered, hcorb, hrirb, ?_, hin.stands.corbRead, ?_, hin.stands.rirbWrite⟩
    · rw [advancedBy, hwrite, Nat.zero_add]
    · rw [advancedBy, hread, Nat.zero_add]
  · exact fun _ _ _ _ => ⟨rfl, fun _ hanswers => by cases hanswers⟩

end

/-! ### One conversation -/

/-- A device out of reset with two command slots and sixteen response slots, for host and device the same addresses. -/
def freshDevice : RingDevice where
  told := ⟨id, 0, 0, 0x10, 0x20, false, false, false, 0⟩
  memory := fun _ => 0
  corbRunning := false
  rirbRunning := false
  corbInReset := false
  corbRead := 0
  rirbWrite := 0
  outstanding := []
  unannounced := none
  fetched := []
  answered := []

theorem freshDevice_idle : Idle freshDevice.told [] [] freshDevice :=
  ⟨rfl, rfl, rfl, rfl, rfl, fun _ => rfl, fun _ => ⟨rfl, rfl⟩⟩

/-- The answers of a conversation in which no exchange failed. -/
def answersOf : Ending (Except Error (Except Error (List (BitVec 32)) × CommandRings) × Unit) → Option (List (BitVec 32))
  | .result (.ok (.ok answers, _), ()) => some answers
  | _ => none

theorem eq_of_answersOf {answers : List (BitVec 32)} : ∀ {e}, answersOf e = some answers →
    ∃ r, e = .result (.ok (.ok answers, r), ())
  | .result (.ok (.ok _, r), ()), h => ⟨r, by cases h; rfl⟩

/-- Three words go round the command ring. -/
theorem converse_fifo_freshDevice : ∃ r d',
    Procedure.Ends RingDevice.world 1 (converse .unbounded [5, 6, 7]) () freshDevice (.ok (.ok [6, 7, 8], r)) () d' ∧
    d'.fetched = [5, 6, 7] ∧ d'.corbRead = 1 ∧ d'.rirbWrite = 3 := by
  have hends := Program.ends_run (I := fun d => d.told.reach = id) (fun c _ => eager_world (· + 1) c) (w := freshDevice) rfl
    (p := converse .unbounded [5, 6, 7] 1 ())
  have hanswers : answersOf ((converse .unbounded [5, 6, 7] 1 ()).run (eager (· + 1)) freshDevice).1 = some [6, 7, 8] := by
    decide +kernel
  generalize (converse .unbounded _ 1 ()).run (eager (· + 1)) freshDevice = run at hends hanswers
  obtain ⟨e, d'⟩ := run
  obtain ⟨r, rfl⟩ := eq_of_answersOf hanswers
  obtain ⟨-, hall⟩ := Program.ensures_iff_ends.1 (converse_fifo .unbounded _ freshDevice_idle) _ _ hends
  obtain ⟨hfetched, -, -, hcorb, hrirb, hwrite, hcorbRead, hread, hrirbWrite⟩ := hall _ rfl
  refine ⟨r, d', hends, hfetched, ?_, ?_⟩
  · rw [hcorbRead, hwrite, hcorb]; decide
  · rw [hrirbWrite, hread, hrirb]; decide

end CommandRings
end AudioBringup
