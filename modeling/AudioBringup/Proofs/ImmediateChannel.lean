import AudioBringup.Proofs.Channel
/-!
# Proofs.ImmediateChannel — the immediate interface, before a link of codecs

The device shows the answer when it likes, but not after the host has looked often enough; a timer lasts for so many looks
as its duration says.  Where a timer outlasts the device the immediate interface is a channel.
-/
namespace AudioBringup

open Procedure

/-- A controller with an immediate interface, and the platform beside it. -/
structure ImmediateSide (ρ : Type) where
  /-- what was written to the output register -/
  output : BitVec 32
  /-- the answer to the last word, shown or not -/
  answer : Option (BitVec 32)
  valid : Bool
  sent : List (BitVec 32)
  /-- how often the host has looked since it sent the word -/
  looks : Nat
  /-- how many looks the timer lasts -/
  timer : Nat
  rest : ρ

namespace ImmediateSide

variable {ρ : Type} {link : Link} {P : Platform ρ} {latency n : Nat} {lasts : BitVec 64 → Nat} {σ : Type} {r : σ}
  {s s' : ImmediateSide ρ} {words : List (BitVec 32)} {word answer : BitVec 32}

/-- What writing the status does: sends the word in the output register, or drops the answer that is there. -/
def take (link : Link) (s : ImmediateSide ρ) (v : BitVec 32) : ImmediateSide ρ :=
  if v.getLsbD 0 then
    { s with answer := link.answer? s.sent s.output, valid := false, sent := s.sent ++ [s.output], looks := 0 }
  else if v.getLsbD 1 then { s with answer := none, valid := false }
  else s

/-- What the status may show: the answer is there, or is on its way, or there is none. -/
structure Shows (latency : Nat) (s : ImmediateSide ρ) (v : BitVec 32) : Prop where
  kept : s.valid = true → v.getLsbD 1 = true
  there : v.getLsbD 1 = true → s.answer ≠ none
  inTime : latency ≤ s.looks → s.answer ≠ none → v.getLsbD 1 = true
  busy : v.getLsbD 1 = true → v.getLsbD 0 = false

/-- How a call of the host goes. -/
def world (link : Link) (P : Platform ρ) (latency : Nat) (lasts : BitVec 64 → Nat) : World Call Call.Answer (ImmediateSide ρ)
  | .read w o, s, a, s' =>
    if o = Register.icis then
      ∃ v, a = .ok v ∧ s.Shows latency v ∧ s' = { s with valid := v.getLsbD 1, looks := s.looks + 1 }
    else if Register.OfTransport o then
      (∃ v, a = .ok v ∧ (o = Register.icii → s.valid = true → s.answer = some v)) ∧ s' = s
    else P.read w o s.rest = (a, s'.rest) ∧ s' = { s with rest := s'.rest }
  | .write w o v, s, a, s' =>
    if o = Register.icis then a = .ok () ∧ s' = s.take link v
    else if o = Register.icoi then a = .ok () ∧ s' = { s with output := v }
    else if Register.OfTransport o then a = .ok () ∧ s' = s
    else P.write w o v s.rest = (a, s'.rest) ∧ s' = { s with rest := s'.rest }
  | .armTimer d, s, a, s' => a = .ok () ∧ s' = { s with timer := lasts d }
  | .timerExpired, s, a, s' => (∃ b, a = .ok b ∧ (b = true → s.timer ≤ s.looks)) ∧ s' = s
  | .cancelTimer, s, a, s' => a = .ok () ∧ s' = s
  | c, s, a, s' => P.Answers s.rest c a s'.rest ∧ s' = { s with rest := s'.rest }

/-! ### The calls of an exchange -/

theorem ensures_writeStatus (v : BitVec 16) : Ensures (world link P latency lasts) n (write16 Register.icis v) r s
    (.succeeds fun _ r' s' => r' = r ∧ s' = s.take link (v.setWidth 32)) := by
  refine ensures_write.2 ?_
  intro a s' hw
  simp only [world, if_true] at hw
  obtain ⟨rfl, rfl⟩ := hw
  exact ⟨rfl, rfl⟩

theorem ensures_writeOutput (v : BitVec 32) : Ensures (world link P latency lasts) n (write32 Register.icoi v) r s
    (.succeeds fun _ r' s' => r' = r ∧ s' = { s with output := v }) := by
  have hne : Register.icoi ≠ Register.icis := by decide
  refine ensures_write.2 ?_
  intro a s' hw
  simp only [world, if_neg hne, if_true] at hw
  obtain ⟨rfl, rfl⟩ := hw
  exact ⟨rfl, rfl⟩

theorem ensures_readStatus : Ensures (world link P latency lasts) n (read16 Register.icis) r s
    (.succeeds fun v r' s' => r' = r ∧ ∃ raw : BitVec 32, v = raw.setWidth 16 ∧ s.Shows latency raw ∧
      s' = { s with valid := raw.getLsbD 1, looks := s.looks + 1 }) := by
  refine ensures_bind.2 (ensures_read.2 ?_)
  intro a s' hw
  simp only [world, if_true] at hw
  obtain ⟨v, rfl, hshows, rfl⟩ := hw
  exact ⟨rfl, v, rfl, hshows, rfl⟩

theorem ensures_readAnswer (hvalid : s.valid = true) : Ensures (world link P latency lasts) n (read32 Register.icii) r s
    (.succeeds fun v r' s' => r' = r ∧ s.answer = some v ∧ s' = s) := by
  have hne : Register.icii ≠ Register.icis := by decide
  have ho : Register.OfTransport Register.icii := by decide
  refine ensures_read.2 ?_
  intro a s' hw
  simp only [world, if_neg hne, if_pos ho] at hw
  obtain ⟨⟨v, rfl, hanswer⟩, rfl⟩ := hw
  exact ⟨rfl, hanswer trivial hvalid, rfl⟩

theorem ensures_timer : Ensures (world link P latency lasts) n timerExpired r s
    (.succeeds fun b r' s' => r' = r ∧ (b = true → s.timer ≤ s.looks) ∧ s' = s) := by
  refine Procedure.ensures_timerExpired.2 ?_
  rintro a s' ⟨⟨b, rfl, hb⟩, rfl⟩
  exact ⟨rfl, hb, rfl⟩

/-! ### One exchange -/

/-- The answer to the last word is `answer`, and the timer outlasts the device. -/
structure Awaiting (latency : Nat) (words : List (BitVec 32)) (x : ρ) (answer : BitVec 32) (s : ImmediateSide ρ) : Prop where
  answer : s.answer = some answer
  sent : s.sent = words
  rest : s.rest = x
  timer : latency < s.timer

/-- The answer comes before the timer expires: each round without it is a look, and there are no more than `latency`. -/
theorem awaitResponse_prompt {x : ρ} {patience k : Nat} (hk : k < patience) (hlooks : latency ≤ s.looks + k)
    (h : s.Awaiting latency words x answer) :
    Ensures (world link P latency lasts) n (ImmediateInterface.awaitResponse patience) r s (.succeeds fun answered r' s' =>
      answered = true ∧ r' = r ∧ s'.valid = true ∧ s'.Awaiting latency words x answer) := by
  induction patience generalizing k s r with
  | zero => exact absurd hk (Nat.not_lt_zero k)
  | succ patience ih =>
    have hthere : s.answer ≠ none := by
      rw [h.answer]
      exact Option.some_ne_none answer
    refine ensures_bind.2 (ensures_readStatus.of_succeeds ?_)
    rintro _ _ s₁ ⟨rfl, raw, rfl, hshows, rfl⟩
    have hstatus : (ImmediateStatus.mk (raw.setWidth 16)).valid = raw.getLsbD 1 := by
      simp [ImmediateStatus.valid]
    dsimp only [Outcome.withOk]
    rw [hstatus]
    cases hvalid : raw.getLsbD 1 with
    | true => exact ⟨rfl, rfl, rfl, h.answer, h.sent, h.rest, h.timer⟩
    | false =>
      have hearly : s.looks < latency := by
        refine Nat.lt_of_not_le fun hlate => ?_
        rw [hshows.inTime hlate hthere] at hvalid
        cases hvalid
      refine ensures_bind.2 (ensures_timer.of_succeeds ?_)
      rintro expired _ s₂ ⟨rfl, hexpired, rfl⟩
      cases expired with
      | true =>
        have hlong := h.timer
        have hshort : s.timer ≤ s.looks + 1 := hexpired rfl
        omega
      | false =>
        have hk' : k - 1 < patience := by omega
        have hlooks' : latency ≤ s.looks + 1 + (k - 1) := by omega
        exact ih hk' hlooks' ⟨h.answer, h.sent, h.rest, h.timer⟩

theorem take_clear : s.take link (((ImmediateStatus.mk 0).withValid true).raw.setWidth 32) =
    { s with answer := none, valid := false } := rfl

theorem take_send : s.take link (((ImmediateStatus.mk 0).withBusy true).raw.setWidth 32) =
    { s with answer := link.answer? s.sent s.output, valid := false, sent := s.sent ++ [s.output], looks := 0 } := rfl

/-- Writing a status back that shows the answer drops it. -/
theorem take_back {raw : BitVec 32} (hvalid : raw.getLsbD 1 = true) (hbusy : raw.getLsbD 0 = false) :
    s.take link ((raw.setWidth 16).setWidth 32) = { s with answer := none, valid := false } := by
  have hbit : ∀ i < 16, ((raw.setWidth 16).setWidth 32).getLsbD i = raw.getLsbD i := by
    intro i hi
    rw [BitVec.getLsbD_setWidth, BitVec.getLsbD_setWidth, decide_eq_true (by omega), decide_eq_true hi]
    rfl
  unfold take
  rw [hbit 0 (by decide), hbit 1 (by decide), hbusy, hvalid]
  rfl

/-- **One exchange through an immediate interface** whose timer outlasts the device comes back with what the codecs
answer. -/
theorem exchange_prompt {timeout : BitVec 64} (hn : latency < n) (htimer : latency < lasts timeout)
    (ha : link.answer? s.sent word = some answer) :
    Ensures (world link P latency lasts) n (ImmediateInterface.exchange timeout word) r s (.succeeds fun a r' s' =>
      a = answer ∧ r' = r ∧ s'.sent = s.sent ++ [word] ∧ s'.rest = s.rest) := by
  -- the word is sent
  refine ensures_bind.2 ((ensures_writeStatus _).of_succeeds ?_)
  rintro - _ s₁ ⟨rfl, hs₁⟩
  refine ensures_bind.2 ((ensures_writeOutput word).of_succeeds ?_)
  rintro - _ s₂ ⟨rfl, hs₂⟩
  refine ensures_bind.2 ((ensures_writeStatus _).of_succeeds ?_)
  rintro - r s₃ ⟨rfl, hs₃⟩
  refine ensures_bind.2 (ensures_armTimer.2 ?_)
  rintro _ s₄ ⟨rfl, hs₄⟩
  rw [take_clear] at hs₁
  rw [take_send] at hs₃
  have hawaiting : s₄.Awaiting latency (s.sent ++ [word]) s.rest answer := by
    rw [hs₄, hs₃, hs₂, hs₁]
    exact ⟨ha, rfl, rfl, htimer⟩
  -- until the answer is there
  refine ensures_bind.2 ((awaitResponse_prompt hn (Nat.le_add_left latency s₄.looks) hawaiting).of_succeeds ?_)
  rintro _ _ s₅ ⟨rfl, rfl, hvalid, h⟩
  refine ensures_bind.2 (ensures_cancelTimer.2 ?_)
  rintro _ s₆ ⟨rfl, rfl⟩
  -- it is taken, and dropped
  refine ensures_bind.2 ((ensures_readAnswer hvalid).of_succeeds ?_)
  rintro a _ s₇ ⟨rfl, hanswer, rfl⟩
  refine ensures_bind.2 (ensures_readStatus.of_succeeds ?_)
  rintro _ _ s₈ ⟨rfl, raw, rfl, hshows, hs₈⟩
  have hback := hshows.kept hvalid
  refine ensures_bind.2 ((ensures_writeStatus _).of_succeeds ?_)
  rintro - _ s₉ ⟨rfl, hs₉⟩
  rw [take_back hback (hshows.busy hback)] at hs₉
  refine ensures_bind.2 (ensures_note.2 ?_)
  rintro s₁₀ ⟨hrest, hs₁₀⟩
  obtain rfl := Option.some.inj (hanswer.symm.trans h.answer)
  refine ⟨rfl, rfl, ?_, ?_⟩
  · rw [hs₁₀, hs₉, hs₈]
    exact h.sent
  · rw [hrest, hs₉, hs₈]
    exact h.rest

/-! ### The interface is a channel -/

theorem ofTransport_status : Register.OfTransport Register.icis := by decide

theorem ofTransport_output : Register.OfTransport Register.icoi := by decide

theorem foreign {c : Call} {a : c.Answer} (hc : c.Foreign) (hw : world link P latency lasts c s a s') :
    P.Answers s.rest c a s'.rest ∧ s'.sent = s.sent := by
  have hsent : s' = { s with rest := s'.rest } → s'.sent = s.sent := fun hs' => by rw [hs']
  cases c with
  | read w o =>
    have hicis : o ≠ Register.icis := fun ho => hc (ho ▸ ofTransport_status)
    simp only [world, if_neg hicis, if_neg hc] at hw
    exact ⟨hw.1, hsent hw.2⟩
  | write w o v =>
    have hicis : o ≠ Register.icis := fun ho => hc (ho ▸ ofTransport_status)
    have hicoi : o ≠ Register.icoi := fun ho => hc (ho ▸ ofTransport_output)
    simp only [world, if_neg hicis, if_neg hicoi, if_neg hc] at hw
    exact ⟨hw.1, hsent hw.2⟩
  | allocate | free | note | store32 | store64 | fill => exact ⟨hw.1, hsent hw.2⟩
  | _ => cases hc

/-! ### There are runs -/

/-- What is shown is there. -/
def Sound (s : ImmediateSide ρ) : Prop := s.valid = true → s.answer ≠ none

theorem Sound.take (h : s.Sound) (v : BitVec 32) : (s.take link v).Sound := by
  unfold ImmediateSide.take
  split
  · exact nofun
  · split
    · exact nofun
    · exact h

/-- A device that shows its answer at once, to be executed. -/
def eager (link : Link) (P : Platform ρ) (lasts : BitVec 64 → Nat) : (c : Call) → ImmediateSide ρ → c.Answer × ImmediateSide ρ
  | .read w o, s =>
    if o = Register.icis then
      (.ok (if s.answer.isSome then 2 else 0), { s with valid := s.answer.isSome, looks := s.looks + 1 })
    else if Register.OfTransport o then (.ok (s.answer.getD 0), s)
    else ((P.read w o s.rest).1, { s with rest := (P.read w o s.rest).2 })
  | .write w o v, s =>
    if o = Register.icis then (.ok (), s.take link v)
    else if o = Register.icoi then (.ok (), { s with output := v })
    else if Register.OfTransport o then (.ok (), s)
    else ((P.write w o v s.rest).1, { s with rest := (P.write w o v s.rest).2 })
  | .armTimer d, s => (.ok (), { s with timer := lasts d })
  | .timerExpired, s => (.ok false, s)
  | .cancelTimer, s => (.ok (), s)
  | c, s => ((P.reply s.rest c).1, { s with rest := (P.reply s.rest c).2 })

/-- The status that shows an answer, and nothing else. -/
theorem getLsbD_shown (answer : Option (BitVec 32)) :
    (if answer.isSome then (2 : BitVec 32) else 0).getLsbD 1 = answer.isSome := by
  have hbit : (2 : BitVec 32).getLsbD 1 = true := by decide
  have hzero : (0 : BitVec 32).getLsbD 1 = false := by decide
  cases answer with
  | none => exact hzero
  | some a => exact hbit

theorem Sound.shows (h : s.Sound) : s.Shows latency (if s.answer.isSome then 2 else 0) := by
  have hthere : s.answer.isSome = true ↔ s.answer ≠ none := Option.isSome_iff_ne_none
  refine ⟨fun hv => ?_, fun hv => ?_, fun _ hne => ?_, fun _ => ?_⟩
  · rw [getLsbD_shown]
    exact hthere.2 (h hv)
  · rw [getLsbD_shown] at hv
    exact hthere.1 hv
  · rw [getLsbD_shown]
    exact hthere.2 hne
  · split <;> decide

/-- **What the eager device does, a device may do**, so every program has a run. -/
theorem eager_world (c : Call) (h : s.Sound) : world link P latency lasts c s (eager link P lasts c s).1
    (eager link P lasts c s).2 ∧ (eager link P lasts c s).2.Sound := by
  cases c with
  | read w o =>
    by_cases hicis : o = Register.icis
    · simp only [world, eager, if_pos hicis]
      refine ⟨⟨_, rfl, h.shows, by rw [getLsbD_shown]⟩, fun hsome hnone => ?_⟩
      rw [show s.answer = none from hnone] at hsome
      cases hsome
    · by_cases ho : Register.OfTransport o
      · simp only [world, eager, if_neg hicis, if_pos ho]
        refine ⟨⟨⟨_, rfl, fun _ hvalid => ?_⟩, trivial⟩, h⟩
        obtain ⟨b, hb⟩ := Option.ne_none_iff_exists'.1 (h hvalid)
        rw [hb]
        rfl
      · simp only [world, eager, if_neg hicis, if_neg ho]
        exact ⟨⟨rfl, trivial⟩, h⟩
  | write w o v =>
    by_cases hicis : o = Register.icis
    · simp only [world, eager, if_pos hicis]
      exact ⟨⟨rfl, trivial⟩, h.take v⟩
    · by_cases hicoi : o = Register.icoi
      · simp only [world, eager, if_neg hicis, if_pos hicoi]
        exact ⟨⟨rfl, trivial⟩, h⟩
      · by_cases ho : Register.OfTransport o
        · simp only [world, eager, if_neg hicis, if_neg hicoi, if_pos ho]
          exact ⟨⟨rfl, trivial⟩, h⟩
        · simp only [world, eager, if_neg hicis, if_neg hicoi, if_neg ho]
          exact ⟨⟨rfl, trivial⟩, h⟩
  | armTimer | cancelTimer => exact ⟨⟨rfl, rfl⟩, h⟩
  | timerExpired => exact ⟨⟨⟨false, rfl, nofun⟩, rfl⟩, h⟩
  | _ => exact ⟨⟨P.answers_reply s.rest _, rfl⟩, h⟩

end ImmediateSide

open ImmediateSide in
/-- **An immediate interface is a channel** to the codecs behind it, where its timer outlasts the device. -/
def immediateChannel {ρ : Type} (link : Link) (P : Platform ρ) {latency n : Nat} (lasts : BitVec 64 → Nat)
    (hn : latency < n) : Channel (ImmediateSide.world link P latency lasts) n link P where
  At t words x s := ∃ timeout, t = .immediate timeout ∧ latency < lasts timeout ∧ s.sent = words ∧ s.rest = x
  sent s := s.sent
  sent_eq := by
    rintro t words x s ⟨timeout, -, -, hsent, -⟩
    exact hsent
  exchange := by
    rintro t words x s word answer ⟨timeout, rfl, htimer, rfl, rfl⟩ ha
    refine ensures_bind.2 (ensures_get.2 ((exchange_prompt hn htimer ha).of_succeeds ?_))
    rintro a _ s' ⟨rfl, rfl, hsent, hrest⟩
    exact ⟨rfl, timeout, rfl, htimer, hsent, hrest⟩
  foreign := by
    rintro t words x s c a s' ⟨timeout, rfl, htimer, rfl, rfl⟩ hc hw
    obtain ⟨hP, hsent⟩ := ImmediateSide.foreign hc hw
    exact ⟨s'.rest, hP, timeout, rfl, htimer, hsent, rfl⟩

end AudioBringup
