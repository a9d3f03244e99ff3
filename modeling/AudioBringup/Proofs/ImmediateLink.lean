import AudioBringup.Controller.ImmediateInterface
import AudioBringup.Proofs.Station
/-!
# Proofs.ImmediateLink — commands through the immediate interface of a simulated controller

A codec that answers has answered by the first look at the status, and one that does not is given up on when the timer
expires.  A controller without the interface reads as if it answered everything with ones.
-/
namespace AudioBringup
namespace Simulation

open Procedure

attribute [local irreducible] LittleEndian.write LittleEndian.read

/-- What a command is answered over a transport; where nothing answers, what a command is taken to be answered that timed
out. -/
def Rig.answers (u : Rig) (kind : TransportKind) : BitVec 32 → BitVec 32 := fun word =>
  match kind with
  | .immediate => if u.immediate then (u.answer? word).getD Response.timedOut else Response.timedOut
  | .rings => (u.answer? word).getD Response.timedOut

/-- Everything but the registers of the immediate interface. -/
def BeyondImmediate (q : Nat) : Prop := q < 0x60 ∨ 0x6a ≤ q

instance : DecidablePred BeyondImmediate := fun _ => inferInstanceAs (Decidable (_ ∨ _))

namespace Device

variable {u : Rig} {d : Device} {w : Width} {o : Nat} {v word response : BitVec 32}

theorem act_absent (habsent : d.immediate = false) (ho : o = 0x60 ∨ o = 0x64 ∨ o = 0x68) : d.act w o v = d := by
  have himmediate : (isImmediate o && !d.immediate) = true := by
    rw [habsent]
    rcases ho with rfl | rfl | rfl <;> rfl
  rw [act, if_neg (by omega), if_neg (by omega), if_neg (by omega), if_neg (by omega), if_neg (by omega), if_neg (by omega),
    if_pos himmediate]

theorem act_status (hpresent : d.immediate = true) : d.act .word 0x68 v =
    if v.getLsbD 0 then
      (if v.getLsbD 1 then d.store .word 0x68 (d.load .word 0x68 &&& ~~~2) else d).sendImmediate
    else if v.getLsbD 1 then d.store .word 0x68 (d.load .word 0x68 &&& ~~~2) else d := by
  rw [act, if_neg (by decide), if_neg (by decide), if_neg (by decide), if_neg (by decide), if_neg (by decide),
    if_neg (by decide), hpresent, Bool.not_true, Bool.and_false, if_neg Bool.false_ne_true, if_pos rfl]

theorem act_output (hpresent : d.immediate = true) : d.act .dword 0x60 v = d.store .dword 0x60 v := by
  rw [act, if_neg (by decide), if_neg (by decide), if_neg (by decide), if_neg (by decide), if_neg (by decide),
    if_neg (by decide), hpresent, Bool.not_true, Bool.and_false, if_neg Bool.false_ne_true, if_neg (by decide),
    if_neg (fun h => absurd h.1 (by decide))]

theorem leaves_store_immediate (ho : 0x60 ≤ o ∧ o + w.bytes ≤ 0x6a) : d.Leaves BeyondImmediate (d.store w o v) :=
  leaves_store fun q hq => by
    unfold BeyondImmediate at hq
    omega

/-- A response is put where it is read, and shown to be there. -/
theorem latch_shows (h : u.Fits d) (response : BitVec 32) : d.Leaves BeyondImmediate (d.latch response) ∧
    (d.latch response).load .dword 0x64 = response ∧ ((d.latch response).load .word 0x68).getLsbD 1 = true ∧
      ((d.latch response).load .word 0x68).getLsbD 0 = false := by
  have hsize := (h.store .dword 0x64 response).size
  unfold latch
  dsimp only
  generalize hstored : d.store .dword 0x64 response = stored at hsize
  have hleaves : d.Leaves BeyondImmediate stored := hstored ▸ leaves_store_immediate (by decide)
  have hresponse : stored.load .dword 0x64 = response := by
    rw [← hstored, load_store (by rw [h.size]; decide), Width.truncate_dword]
  have hstatus : ∀ v, (stored.store .word 0x68 v).load .word 0x68 = Width.word.truncate v := fun v =>
    load_store (by rw [hsize]; decide)
  generalize hv : (stored.load .word 0x68 &&& ~~~1) ||| 2 = v
  have hlatched : ∀ {w : Width} {o : Nat}, ({ stored.store .word 0x68 v with pendingResponse := none } : Device).load w o =
      (stored.store .word 0x68 v).load w o := load_of_registers rfl
  refine ⟨?_, ?_, ?_, ?_⟩
  · exact (hleaves.trans (leaves_store_immediate (by decide))).trans (leaves_of_fields rfl rfl rfl rfl rfl rfl)
  · rw [hlatched, load_store_of_disjoint (by decide), hresponse]
  · rw [hlatched, hstatus, Width.getLsbD_truncate, ← hv, BitVec.getLsbD_or]
    simp [Width.bits, Width.bytes]
  · rw [hlatched, hstatus, Width.getLsbD_truncate, ← hv, BitVec.getLsbD_or, BitVec.getLsbD_and, BitVec.getLsbD_not]
    simp

/-- The codec is asked, and what it answers is there at once. -/
theorem sendImmediate_shows (h : u.Fits d) (hword : d.load .dword 0x60 = word)
    (hvalid : (d.load .word 0x68).getLsbD 1 = false) :
    d.Leaves BeyondImmediate d.sendImmediate ∧
      ((∃ response, u.answer? word = some response ∧ d.sendImmediate.load .dword 0x64 = response ∧
        (d.sendImmediate.load .word 0x68).getLsbD 1 = true ∧ (d.sendImmediate.load .word 0x68).getLsbD 0 = false) ∨
      (u.answer? word = none ∧ (d.sendImmediate.load .word 0x68).getLsbD 1 = false)) := by
  have hfits : u.Fits { d.store .word 0x68 (d.load .word 0x68 ||| 1) with pendingResponse := none } :=
    { h.store .word 0x68 (d.load .word 0x68 ||| 1) with pendingResponse := rfl }
  have hleaves : d.Leaves BeyondImmediate { d.store .word 0x68 (d.load .word 0x68 ||| 1) with pendingResponse := none } :=
    (leaves_store_immediate (by decide)).trans (leaves_of_fields rfl rfl rfl rfl rfl rfl)
  have hbusy : ({ d.store .word 0x68 (d.load .word 0x68 ||| 1) with pendingResponse := none } : Device).registers =
      (d.store .word 0x68 (d.load .word 0x68 ||| 1)).registers := rfl
  unfold sendImmediate
  dsimp only
  generalize { d.store .word 0x68 (d.load .word 0x68 ||| 1) with pendingResponse := none } = busy at hfits hleaves hbusy
  have hasked : busy.load .dword 0x60 = word := by
    rw [load_of_registers hbusy, load_store_of_disjoint (by decide), hword]
  have hstatus : (busy.load .word 0x68).getLsbD 1 = false := by
    rw [load_of_registers hbusy, load_store (by rw [h.size]; decide), Width.getLsbD_truncate, BitVec.getLsbD_or, hvalid]
    simp
  rw [hfits.ask, hasked]
  cases hanswer : u.answer? word with
  | none =>
    dsimp only
    have hload : (busy.observe (.asked word none)).load .word 0x68 = busy.load .word 0x68 := load_of_registers rfl
    exact ⟨hleaves.trans (leaves_of_fields rfl rfl rfl rfl rfl rfl), .inr ⟨rfl, by rw [hload, hstatus]⟩⟩
  | some response =>
    have hobserved : u.Fits (busy.observe (.asked word (some response))) := hfits.observe _
    have hleft : busy.Leaves BeyondImmediate (busy.observe (.asked word (some response))) :=
      leaves_of_fields rfl rfl rfl rfl rfl rfl
    simp only [hobserved.immediateLatency]
    obtain ⟨hlatched, hshown⟩ := latch_shows hobserved response
    exact ⟨(hleaves.trans hleft).trans hlatched, .inl ⟨response, rfl, hshown⟩⟩

/-- What was asked of codecs takes no word into the interface, which took it before. -/
theorem said_sendImmediate (h : u.Fits d) : Station.said .immediate d.sendImmediate.events = Station.said .immediate d.events := by
  have hfits : u.Fits { d.store .word 0x68 (d.load .word 0x68 ||| 1) with pendingResponse := none } :=
    { h.store .word 0x68 (d.load .word 0x68 ||| 1) with pendingResponse := rfl }
  unfold sendImmediate
  dsimp only
  rw [hfits.ask]
  cases u.answer? _ with
  | none => rfl
  | some response =>
    simp only [(hfits.observe _).immediateLatency]
    rfl

end Device

namespace Station

variable {u : Rig} {σ : Type} {n : Nat} {t : σ} {s s₁ s₂ : Station u} {word : BitVec 32}

/-! ### Time -/

/-- Nothing has happened, but for what was seen and for the timer. -/
def Rests (s s' : Station u) : Prop := ∃ timer, ({ s with timer := timer } : Station u).Becomes s.device s'

theorem Becomes.toRests (h : s.Becomes s.device s₁) : s.Rests s₁ := ⟨s.timer, h⟩

theorem Rests.refl : s.Rests s := ⟨s.timer, ⟨_, rfl, fun _ => rfl⟩, rfl⟩

theorem Rests.trans (h₁ : s.Rests s₁) (h₂ : s₁.Rests s₂) : s.Rests s₂ := by
  obtain ⟨-, ⟨events₁, hdevice₁, hsaid₁⟩, -⟩ := h₁
  obtain ⟨timer, ⟨events₂, hdevice₂, hsaid₂⟩, htimer⟩ := h₂
  rw [hdevice₁] at hdevice₂ hsaid₂
  exact ⟨timer, ⟨events₂, hdevice₂, fun kind => (hsaid₂ kind).trans (hsaid₁ kind)⟩, htimer⟩

theorem Rests.leaves {P : Nat → Prop} (h : s.Rests s₁) : s.device.Leaves P s₁.device := by
  obtain ⟨timer, h⟩ := h
  exact h.rests

theorem Rests.shown (h : s.Rests s₁) {w : Width} {o : Nat} : s₁.device.shown w o = s.device.shown w o := by
  obtain ⟨timer, h⟩ := h
  exact h.shown

theorem Rests.sent (h : s.Rests s₁) (kind : TransportKind) : s₁.sent kind = s.sent kind := by
  obtain ⟨timer, h⟩ := h
  exact h.sent kind

theorem ensures_arm {timeout : BitVec 64} : Ensures world n (armTimer timeout) t s (.succeeds fun _ t' s' => t' = t ∧
    s.Rests s' ∧ s'.timer = some u.timerChecks) := by
  refine ensures_armTimer.2 ?_
  rintro _ s' ⟨rfl, hdevice, htimer⟩
  exact ⟨rfl, ⟨some u.timerChecks, ⟨_, hdevice, fun _ => rfl⟩, htimer⟩, htimer⟩

theorem ensures_cancel : Ensures world n cancelTimer t s (.succeeds fun _ t' s' => t' = t ∧ s.Rests s') := by
  refine ensures_cancelTimer.2 ?_
  rintro _ s' ⟨rfl, hdevice, htimer⟩
  exact ⟨rfl, none, ⟨_, hdevice, fun _ => rfl⟩, htimer⟩

/-- A look at the timer: one look fewer is left. -/
theorem ensures_look {k : Nat} (htimer : s.timer = some k) : Ensures world n timerExpired t s (.succeeds fun expired t' s' =>
    t' = t ∧ s.Rests s' ∧ (expired = false → ∃ j < k, s'.timer = some j)) := by
  have hlook : Machine.answer .timerExpired s.machine = (.ok (Countdown.look (some k)).1,
      { s.machine with budget := 0, timer := (Countdown.look (some k)).2 }.observe
        (.timerRead (Countdown.look (some k)).1)) := by
    rw [← htimer]
    rfl
  refine ensures_timerExpired.2 ?_
  rintro _ s' ⟨rfl, hdevice, hleft⟩
  rw [hlook] at hdevice hleft ⊢
  refine ⟨rfl, ⟨(Countdown.look (some k)).2, ⟨_, hdevice, fun _ => rfl⟩, hleft⟩, fun hexpired => ?_⟩
  cases k with
  | zero => cases hexpired
  | succ j => exact ⟨j, Nat.lt_succ_self j, hleft⟩

theorem awaitResponse_succeeds {patience k : Nat} (hcalm : s.device.pendingStop = none) (htimer : s.timer = some k)
    (hk : k < patience) : Ensures world n (ImmediateInterface.awaitResponse patience) t s (.succeeds fun answered t' s' =>
      t' = t ∧ answered = (s.device.shown .word 0x68).getLsbD 1 ∧ s.Rests s') := by
  induction patience generalizing k s with
  | zero => exact absurd hk (Nat.not_lt_zero k)
  | succ patience ih =>
    refine (ensures_read16_calm hcalm (by decide)).andThen ?_
    rintro status _ s₁ ⟨rfl, hstatus, h₁⟩
    have hvalid : (ImmediateStatus.mk status).valid = (s.device.shown .word 0x68).getLsbD 1 := by
      rw [hstatus, ImmediateStatus.valid, BitVec.getLsbD_setWidth]
      rfl
    dsimp only
    rw [hvalid]
    cases hanswered : (s.device.shown .word 0x68).getLsbD 1 with
    | true => exact ensures_pure.2 ⟨rfl, rfl, h₁.toRests⟩
    | false =>
      rw [if_neg Bool.false_ne_true]
      refine (ensures_look (h₁.timer.trans htimer)).andThen ?_
      rintro expired _ s₂ ⟨rfl, h₂, hleft⟩
      cases expired with
      | true => exact ensures_pure.2 ⟨rfl, rfl, h₁.toRests.trans h₂⟩
      | false =>
        obtain ⟨j, hj, hleft⟩ := hleft rfl
        have hcalm₂ : s₂.device.pendingStop = none :=
          ((h₂.leaves (P := fun _ => True)).stop trivial).trans (h₁.stop.trans hcalm)
        refine (ih hcalm₂ hleft (by omega)).of_succeeds ?_
        rintro answered _ s₃ ⟨rfl, hsame, h₃⟩
        refine ⟨rfl, ?_, (h₁.toRests.trans h₂).trans h₃⟩
        rw [hsame, h₂.shown, h₁.shown, hanswered]

theorem await_succeeds {k : Nat} (hcalm : s.device.pendingStop = none) (htimer : s.timer = some k) (hk : k < n) :
    Ensures world n (fun patience => ImmediateInterface.awaitResponse patience patience : Procedure σ Bool) t s
      (.succeeds fun answered t' s' => t' = t ∧ answered = (s.device.shown .word 0x68).getLsbD 1 ∧ s.Rests s') :=
  awaitResponse_succeeds hcalm htimer hk

/-! ### One exchange -/

theorem silent_status {v : BitVec 32} (kind : TransportKind) : word? kind (.wrote .word 0x68 v) = none :=
  if_neg fun h => absurd h.2 (by decide)

/-- Writing the status without the busy bit sends nothing. -/
theorem ensures_write_valid {v : BitVec 16} (hbusy : u.immediate = true → v.getLsbD 0 = false) :
    Ensures world n (write16 Register.icis v) t s (.succeeds fun _ t' s' => t' = t ∧
      s.device.Leaves BeyondImmediate s'.device ∧ s'.sent .immediate = s.sent .immediate ∧
        (u.immediate = true → v.getLsbD 1 = true → (s'.device.load .word 0x68).getLsbD 1 = false)) := by
  refine ensures_write_act.of_succeeds ?_
  rintro _ _ s' ⟨rfl, hdevice, -⟩
  change s'.device = (s.device.observe (.wrote .word 0x68 (Width.word.truncate (v.setWidth 32)))).act .word 0x68
    (Width.word.truncate (v.setWidth 32)) at hdevice
  rw [truncate_setWidth16] at hdevice
  have hfits := s.fits.observe (.wrote .word 0x68 (v.setWidth 32))
  have hsaid : said .immediate (s.device.observe (.wrote .word 0x68 (v.setWidth 32))).events = said .immediate s.device.events :=
    List.filterMap_cons_none (silent_status .immediate)
  have hseen : s.device.Leaves BeyondImmediate (s.device.observe (.wrote .word 0x68 (v.setWidth 32))) :=
    Device.leaves_of_fields rfl rfl rfl rfl rfl rfl
  generalize s.device.observe (.wrote .word 0x68 (v.setWidth 32)) = seen at hdevice hfits hsaid hseen
  refine ⟨rfl, ?_⟩
  unfold sent
  cases hpresent : u.immediate with
  | false =>
    rw [Device.act_absent (hfits.immediate.trans hpresent) (.inr (.inr rfl))] at hdevice
    rw [hdevice]
    exact ⟨hseen, congrArg List.reverse hsaid, fun h => absurd h Bool.false_ne_true⟩
  | true =>
    have hbit : ∀ i < 16, (v.setWidth 32).getLsbD i = v.getLsbD i := fun i hi => by
      rw [BitVec.getLsbD_setWidth, decide_eq_true (by omega), Bool.true_and]
    rw [Device.act_status (hfits.immediate.trans hpresent), hbit 0 (by decide), hbit 1 (by decide), hbusy hpresent,
      if_neg Bool.false_ne_true] at hdevice
    rw [hdevice]
    cases hv : v.getLsbD 1 with
    | false => exact ⟨hseen, congrArg List.reverse hsaid, fun _ h => absurd h Bool.false_ne_true⟩
    | true =>
      rw [if_pos rfl]
      refine ⟨hseen.trans (Device.leaves_store_immediate (by decide)), congrArg List.reverse hsaid, fun _ _ => ?_⟩
      rw [Device.load_store (by rw [hfits.size]; decide), Width.getLsbD_truncate, BitVec.getLsbD_and, BitVec.getLsbD_not]
      simp

theorem ensures_write_output (word : BitVec 32) : Ensures world n (write32 Register.icoi word) t s
    (.succeeds fun _ t' s' => t' = t ∧ s.device.Leaves BeyondImmediate s'.device ∧
      s'.sent .immediate = s.sent .immediate ++ [word] ∧ s'.device.load .word 0x68 = s.device.load .word 0x68 ∧
        (u.immediate = true → s'.device.load .dword 0x60 = word)) := by
  refine ensures_write_act.of_succeeds ?_
  rintro _ _ s' ⟨rfl, hdevice, -⟩
  change s'.device = (s.device.observe (.wrote .dword 0x60 (Width.dword.truncate word))).act .dword 0x60
    (Width.dword.truncate word) at hdevice
  rw [Width.truncate_dword] at hdevice
  have hfits := s.fits.observe (.wrote .dword 0x60 word)
  have hsaid : said .immediate (s.device.observe (.wrote .dword 0x60 word)).events = word :: said .immediate s.device.events := rfl
  have hseen : s.device.Leaves BeyondImmediate (s.device.observe (.wrote .dword 0x60 word)) :=
    Device.leaves_of_fields rfl rfl rfl rfl rfl rfl
  have hload : (s.device.observe (.wrote .dword 0x60 word)).load .word 0x68 = s.device.load .word 0x68 :=
    Device.load_of_registers rfl
  generalize s.device.observe (.wrote .dword 0x60 word) = seen at hdevice hfits hsaid hseen hload
  have hsent : (said .immediate seen.events).reverse = s.sent .immediate ++ [word] := by
    rw [hsaid, List.reverse_cons]
    rfl
  refine ⟨rfl, ?_⟩
  cases hpresent : u.immediate with
  | false =>
    rw [Device.act_absent (hfits.immediate.trans hpresent) (.inl rfl)] at hdevice
    rw [sent, hdevice]
    exact ⟨hseen, hsent, hload, fun h => absurd h Bool.false_ne_true⟩
  | true =>
    rw [Device.act_output (hfits.immediate.trans hpresent)] at hdevice
    rw [sent, hdevice]
    refine ⟨hseen.trans (Device.leaves_store_immediate (by decide)), hsent, ?_, fun _ => ?_⟩
    · rw [Device.load_store_of_disjoint (by decide), hload]
    · rw [Device.load_store (by rw [hfits.size]; decide), Width.truncate_dword]

/-- The command is sent; what is shown after that is its answer, or nothing where no codec answers. -/
theorem ensures_write_busy (hword : u.immediate = true → s.device.load .dword 0x60 = word)
    (hvalid : u.immediate = true → (s.device.load .word 0x68).getLsbD 1 = false) :
    Ensures world n (write16 Register.icis ((ImmediateStatus.mk 0).withBusy true).raw) t s (.succeeds fun _ t' s' => t' = t ∧
      s.device.Leaves BeyondImmediate s'.device ∧ s'.sent .immediate = s.sent .immediate ∧
        if (s'.device.shown .word 0x68).getLsbD 1 then s'.device.shown .dword 0x64 = u.answers .immediate word ∧
          (u.immediate = true → (s'.device.shown .word 0x68).getLsbD 0 = false)
        else u.answers .immediate word = Response.timedOut) := by
  refine ensures_write_act.of_succeeds ?_
  rintro _ _ s' ⟨rfl, hdevice, -⟩
  change s'.device = (s.device.observe (.wrote .word 0x68 1)).act .word 0x68 1 at hdevice
  have hfits := s.fits.observe (.wrote .word 0x68 1)
  have hsaid : said .immediate (s.device.observe (.wrote .word 0x68 1)).events = said .immediate s.device.events :=
    List.filterMap_cons_none (silent_status .immediate)
  have hseen : s.device.Leaves BeyondImmediate (s.device.observe (.wrote .word 0x68 1)) :=
    Device.leaves_of_fields rfl rfl rfl rfl rfl rfl
  have hload : ∀ {w : Width} {o : Nat}, (s.device.observe (.wrote .word 0x68 1)).load w o = s.device.load w o :=
    Device.load_of_registers rfl
  generalize s.device.observe (.wrote .word 0x68 1) = seen at hdevice hfits hsaid hseen hload
  refine ⟨rfl, ?_⟩
  unfold sent Rig.answers
  cases hpresent : u.immediate with
  | false =>
    have habsent : seen.immediate = false := hfits.immediate.trans hpresent
    rw [Device.act_absent habsent (.inr (.inr rfl))] at hdevice
    have hones : ∀ {w : Width} {o : Nat}, o = 0x64 ∨ o = 0x68 → seen.shown w o = 0xffffffff#32 := by
      intro w o ho
      have himmediate : (Device.isImmediate o && !false) = true := by rcases ho with rfl | rfl <;> rfl
      rw [Device.shown, habsent, if_neg (by omega), if_neg (by omega), if_pos himmediate]
    rw [hdevice, hones (.inl rfl), hones (.inr rfl)]
    exact ⟨hseen, congrArg List.reverse hsaid, rfl, fun h => absurd h Bool.false_ne_true⟩
  | true =>
    rw [Device.act_status (hfits.immediate.trans hpresent), if_pos (by decide), if_neg (by decide)] at hdevice
    obtain ⟨hleaves, hshown⟩ := Device.sendImmediate_shows hfits ((hload).trans (hword hpresent))
      ((congrArg (BitVec.getLsbD · 1) hload).trans (hvalid hpresent))
    have hplain : ∀ {w : Width} {o : Nat}, o = 0x64 ∨ o = 0x68 →
        seen.sendImmediate.shown w o = seen.sendImmediate.load w o := by
      intro w o ho
      rw [Device.shown, hfits.sendImmediate.immediate, hpresent, if_neg (by omega), if_neg (by omega), Bool.not_true,
        Bool.and_false, if_neg Bool.false_ne_true]
    rw [hdevice, hplain (.inl rfl), hplain (.inr rfl), Device.said_sendImmediate hfits, hsaid]
    refine ⟨hseen.trans hleaves, rfl, ?_⟩
    rcases hshown with ⟨response, hanswer, hresponse, hset, hidle⟩ | ⟨hanswer, hclear⟩
    · rw [if_pos hset, hresponse, hanswer]
      exact ⟨rfl, fun _ => hidle⟩
    · rw [if_neg (by rw [hclear]; exact Bool.false_ne_true), hanswer]
      rfl

/-- **An exchange through the immediate interface comes back with the answer of the codec**, or as if it had timed out where
there is none. -/
theorem exchange_immediate {timeout : BitVec 64} (hcalm : s.device.pendingStop = none) (hpatient : u.timerChecks < n) :
    Ensures world n (ImmediateInterface.exchange timeout word) t s (.succeeds fun a t' s' => t' = t ∧
      a = u.answers .immediate word ∧ s.device.Leaves BeyondImmediate s'.device ∧
        s'.sent .immediate = s.sent .immediate ++ [word]) := by
  refine (ensures_write_valid fun _ => by decide).andThen ?_
  rintro _ _ s₁ ⟨rfl, h₁, hsent₁, hvalid₁⟩
  refine (ensures_write_output word).andThen ?_
  rintro _ _ s₂ ⟨rfl, h₂, hsent₂, hstatus₂, hword₂⟩
  refine (ensures_write_busy hword₂ fun hpresent => by rw [hstatus₂]; exact hvalid₁ hpresent (by decide)).andThen ?_
  rintro _ _ s₃ ⟨rfl, h₃, hsent₃, hshown⟩
  refine ensures_arm.andThen ?_
  rintro _ _ s₄ ⟨rfl, h₄, htimer⟩
  have hleaves₃ : s.device.Leaves BeyondImmediate s₃.device := (h₁.trans h₂).trans h₃
  have hsent : s₃.sent .immediate = s.sent .immediate ++ [word] := by rw [hsent₃, hsent₂, hsent₁]
  have hcalm₄ : s₄.device.pendingStop = none := ((hleaves₃.trans h₄.leaves).stop (by decide)).trans hcalm
  refine (await_succeeds hcalm₄ htimer hpatient).andThen ?_
  rintro answered _ s₅ ⟨rfl, hanswered, h₅⟩
  refine ensures_cancel.andThen ?_
  rintro _ _ s₆ ⟨rfl, h₆⟩
  have hrests : s₃.Rests s₆ := (h₄.trans h₅).trans h₆
  rw [h₄.shown] at hanswered
  rw [← hanswered] at hshown
  have hcalm₆ : s₆.device.pendingStop = none := ((hleaves₃.trans hrests.leaves).stop (by decide)).trans hcalm
  cases answered with
  | false =>
    rw [if_neg Bool.false_ne_true] at hshown ⊢
    refine (ensures_note_rests _).andThen ?_
    rintro _ _ s₇ ⟨rfl, h₇⟩
    refine ensures_pure.2 ⟨rfl, hshown.symm, hleaves₃.trans (hrests.trans h₇.toRests).leaves, ?_⟩
    rw [(hrests.trans h₇.toRests).sent, hsent]
  | true =>
    rw [if_pos rfl] at hshown ⊢
    refine (ensures_read32_calm hcalm₆ (by decide)).andThen ?_
    rintro response _ s₇ ⟨rfl, hresponse, h₇⟩
    refine (ensures_read16_calm (h₇.stop.trans hcalm₆) (by decide)).andThen ?_
    rintro status _ s₈ ⟨rfl, hstatus, h₈⟩
    have hlast : s₃.Rests s₈ := (hrests.trans h₇.toRests).trans h₈.toRests
    have hidle : u.immediate = true → status.getLsbD 0 = false := fun hpresent => by
      rw [hstatus, BitVec.getLsbD_setWidth, h₇.shown, hrests.shown]
      exact hshown.2 hpresent
    refine (ensures_write_valid hidle).andThen ?_
    rintro _ _ s₉ ⟨rfl, h₉, hsent₉, -⟩
    refine (ensures_note_rests _).andThen ?_
    rintro _ _ s₁₀ ⟨rfl, h₁₀⟩
    refine ensures_pure.2 ⟨rfl, ?_, ((hleaves₃.trans hlast.leaves).trans h₉).trans h₁₀.rests, ?_⟩
    · rw [hresponse, hrests.shown]
      exact hshown.1
    · rw [h₁₀.toRests.sent, hsent₉, hlast.sent, hsent]

end Station
end Simulation
end AudioBringup
