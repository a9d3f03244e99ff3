import AudioBringup.Proofs.Channel
import AudioBringup.Proofs.RingEager
import AudioBringup.Proofs.RingFifo
/-!
# Proofs.RingChannel — the rings, before a link of codecs

The device works its rings in its own time, but not for ever: once the host has looked at it often enough, it has done
what it can, and what it answers is what its codecs answer.  Rings in step with such a device are a channel.
-/
namespace AudioBringup

open Procedure RingDevice CommandRings
open RingOrders (slots)
open Relation (ReflTransGen)

namespace RingDevice

/-- What the codecs have answered, with an answer that is in memory already. -/
def said (d : RingDevice) : List (BitVec 32 × BitVec 32) :=
  match d.outstanding, d.unannounced with
  | word :: _, some answer => d.answered ++ [(word, answer)]
  | _, _ => d.answered

/-- Every command is fetched and answered. -/
def Done (d : RingDevice) : Prop := d.corbRead = d.told.corbWrite ∧ d.outstanding = []

/-- What can be done is done. -/
def Prompt (link : Link) (d : RingDevice) : Prop := (∃ d', ReflTransGen Step d d' ∧ link.Honest d'.said ∧ d'.Done) → d.Done

end RingDevice

/-- A controller with rings, and the platform beside them. -/
structure RingSide (ρ : Type) where
  device : RingDevice
  /-- how often the host has looked since it moved the write pointer -/
  looks : Nat
  rest : ρ

namespace RingSide

variable {ρ : Type}

/-- How a call of the host goes once the device has done what it does by itself. -/
def Turn (P : Platform ρ) (d : RingDevice) (looks : Nat) (x : ρ) : (c : Call) → c.Answer → RingSide ρ → Prop
  | .read w o, a, s =>
    if Register.OfTransport o then (∃ v, a = .ok v ∧ d.Shows o v) ∧ s = ⟨d, looks + 1, x⟩
    else P.read w o x = (a, s.rest) ∧ s = ⟨d, looks, s.rest⟩
  | .write w o v, a, s =>
    if Register.OfTransport o then a = .ok () ∧ s = ⟨d.take o v, if o = Register.corbwp then 0 else looks, x⟩
    else P.write w o v x = (a, s.rest) ∧ s = ⟨d, looks, s.rest⟩
  | .load32 p, v, s => v = load32 d.memory p ∧ s = ⟨d, looks, x⟩
  | .store32 p v, (), s => s = ⟨{ d with memory := store32 d.memory p v }, looks, x⟩
  | .store64 .., _, s | .fill .., _, s | .clear .., _, s => ∃ m, s = ⟨{ d with memory := m }, looks, x⟩
  | c, a, s => P.Answers x c a s.rest ∧ s = ⟨d, looks, s.rest⟩

/-- The device does what it does by itself, but in time and as its codecs answer, and then a call goes through. -/
def world (link : Link) (P : Platform ρ) (latency : Nat) : World Call Call.Answer (RingSide ρ) := fun c s a s' =>
  ∃ d, ReflTransGen Step s.device d ∧ link.Honest d.said ∧ (latency ≤ s.looks → d.Prompt link) ∧
    Turn P d s.looks s.rest c a s'

end RingSide

section
variable {ρ : Type} {link : Link} {P : Platform ρ} {latency n : Nat} {K : RingDevice → Prop} {s s' : RingSide ρ}
  {r : CommandRings} {x : ρ}

theorem RingSide.turn_of_world {c : Call} {a : c.Answer} (hK : Stable K) (h : K s.device)
    (hw : RingSide.world link P latency c s a s') : ∃ d, K d ∧ link.Honest d.said ∧
      (latency ≤ s.looks → d.Prompt link) ∧ RingSide.Turn P d s.looks s.rest c a s' := by
  obtain ⟨d, hsteps, hrest⟩ := hw
  refine ⟨d, ?_, hrest⟩
  clear hrest
  induction hsteps with
  | refl => exact h
  | tail _ hs ih => exact hK _ _ ih hs

/-! ### The calls of an exchange -/

theorem RingSide.ensures_read16 {o : BitVec 32} (ho : Register.OfTransport o) (hK : Stable K) (h : K s.device) :
    Ensures (RingSide.world link P latency) n (read16 o) r s (.succeeds fun v r' s' => r' = r ∧
      ∃ raw : BitVec 32, v = raw.setWidth 16 ∧ s'.device.Shows o raw ∧ K s'.device ∧ s'.looks = s.looks + 1 ∧
        s'.rest = s.rest ∧ link.Honest s'.device.said ∧ (latency ≤ s.looks → s'.device.Prompt link)) := by
  refine ensures_bind.2 (ensures_read.2 ?_)
  intro a s' hw
  obtain ⟨d, hd, hhonest, hprompt, hturn⟩ := RingSide.turn_of_world hK h hw
  simp only [RingSide.Turn, if_pos ho] at hturn
  obtain ⟨⟨v, rfl, hshows⟩, rfl⟩ := hturn
  exact ⟨rfl, v, rfl, hshows, hd, rfl, rfl, hhonest, hprompt⟩

theorem RingSide.ensures_write {wd : Width} {o v : BitVec 32} (ho : Register.OfTransport o) (hK : Stable K) (h : K s.device) :
    Ensures (RingSide.world link P latency) n (write wd o v) r s (.succeeds fun _ r' s' => r' = r ∧
      ∃ d, K d ∧ s' = ⟨d.take o v, if o = Register.corbwp then 0 else s.looks, s.rest⟩) := by
  refine Procedure.ensures_write.2 ?_
  intro a s' hw
  obtain ⟨d, hd, -, -, hturn⟩ := RingSide.turn_of_world hK h hw
  simp only [RingSide.Turn, if_pos ho] at hturn
  obtain ⟨rfl, rfl⟩ := hturn
  exact ⟨rfl, d, hd, rfl⟩

/-! ### What the device can still do -/

section
variable {t : RingOrders} {i j : Nat} {F : List (BitVec 32)} {A : List (BitVec 32 × BitVec 32)} {word answer : BitVec 32}
  {d : RingDevice}

theorem RingDevice.Stands.said {un : Option (BitVec 32)} (h : Stands t i j [word] un F A d) :
    d.said = A ++ (un.map fun a => (word, a)).toList := by
  unfold RingDevice.said
  rw [h.outstanding, h.unannounced, h.answered]
  cases un with
  | none => exact (List.append_nil A).symm
  | some a => rfl

theorem RingDevice.Stands.said_nil (h : Stands t i j [] none F A d) : d.said = A := by
  unfold RingDevice.said
  rw [h.outstanding, h.answered]

/-- A command that has been fetched can be answered, by a device whose response ring was told to run. -/
theorem CommandRings.Taken.finish (hrun : t.rirbRun = true) (hw : t.corbWrite = (i + 1) % slots t.corbSize) (h : Taken t i j F A word d)
    (hhonest : link.Honest d.said) (ha : link.answer? (A.map (·.1)) word = some answer) :
    ∃ d', ReflTransGen Step d d' ∧ link.Honest d'.said ∧ d'.Done := by
  obtain ⟨un, hd, -⟩ := h
  rw [hd.said] at hhonest
  generalize (i + 1) % slots t.corbSize = i' at hd hw
  obtain ⟨told, memory, corbRunning, rirbRunning, inReset, corbRead, rirbWrite, outstanding, unannounced, fetched, answered⟩ := d
  obtain ⟨rfl, -, rfl, rfl, rfl, rfl, rfl, rfl⟩ := hd
  cases unannounced with
  | some a =>
    -- its answer is in memory, and is announced
    exact ⟨_, .single (.announce _ word a [] rfl rfl), hhonest, hw.symm, rfl⟩
  | none =>
    refine ⟨_, .tail (.tail (.single (.obeyRirb _)) (.respond _ _ answer 0 hrun (List.cons_ne_nil _ _) rfl rfl))
      (.announce _ word answer [] rfl rfl), ?_, hw.symm, rfl⟩
    rw [Option.map_none, Option.toList_none, List.append_nil] at hhonest
    exact hhonest.snoc ha

/-- A command in its slot can be fetched and answered, by a device whose rings were told to run. -/
theorem CommandRings.Queued.finish (hcorb : t.corbRun = true) (hrirb : t.rirbRun = true) (hw : t.corbWrite = (i + 1) % slots t.corbSize)
    (hne : i ≠ t.corbWrite) (h : Queued t i j F A word d) (hhonest : link.Honest d.said)
    (ha : link.answer? (A.map (·.1)) word = some answer) : ∃ d', ReflTransGen Step d d' ∧ link.Honest d'.said ∧ d'.Done := by
  obtain ⟨hd, hm⟩ := h
  have hfetch : ∃ d₁, ReflTransGen Step d d₁ ∧ Stands t ((i + 1) % slots t.corbSize) j [word] none (F ++ [word]) A d₁ := by
    obtain ⟨told, memory, corbRunning, rirbRunning, inReset, corbRead, rirbWrite, outstanding, unannounced, fetched, answered⟩ := d
    obtain ⟨rfl, hreset, rfl, rfl, rfl, rfl, rfl, rfl⟩ := hd
    exact ⟨_, .tail (.single (.obeyCorb _)) (.fetch _ word _ hcorb hreset hne rfl hm.symm), rfl, hreset, rfl, rfl, rfl, rfl, rfl, rfl⟩
  obtain ⟨d₁, hsteps, hd₁⟩ := hfetch
  have hhonest₁ : link.Honest d₁.said := by
    rw [hd₁.said]
    rw [hd.said_nil] at hhonest
    rwa [Option.map_none, Option.toList_none, List.append_nil]
  obtain ⟨d', hsteps', hhonest', hdone⟩ := Taken.finish hrirb hw ⟨none, hd₁, fun _ h => by cases h⟩ hhonest₁ ha
  exact ⟨d', hsteps.trans hsteps', hhonest', hdone⟩

/-- A command that is to be answered `answer`, by a device that was told to run both rings. -/
structure Commanded (link : Link) (t : RingOrders) (i : Nat) (A : List (BitVec 32 × BitVec 32)) (word answer : BitVec 32) :
    Prop where
  corbRun : t.corbRun = true
  rirbRun : t.rirbRun = true
  reset : t.corbReset = false
  write : t.corbWrite = (i + 1) % slots t.corbSize
  moves : (i + 1) % slots t.corbSize ≠ i
  expected : link.answer? (A.map (·.1)) word = some answer

theorem Commanded.late_queued (hc : Commanded link t i A word answer) (h : Queued t i j F A word d)
    (hhonest : link.Honest d.said) : ¬d.Prompt link := by
  intro hprompt
  have hne : i ≠ t.corbWrite := fun he => hc.moves (hc.write.symm.trans he.symm)
  obtain ⟨hread, -⟩ := hprompt (Queued.finish hc.corbRun hc.rirbRun hc.write hne h hhonest hc.expected)
  rw [h.1.corbRead, h.1.told] at hread
  exact hne hread

theorem Commanded.late_taken (hc : Commanded link t i A word answer) (h : Taken t i j F A word d)
    (hhonest : link.Honest d.said) : ¬d.Prompt link := by
  intro hprompt
  obtain ⟨-, hout⟩ := hprompt (Taken.finish hc.rirbRun hc.write h hhonest hc.expected)
  obtain ⟨un, hd, -⟩ := h
  rw [hd.outstanding] at hout
  cases hout

end

/-! ### The waits of an exchange -/

/-- **A wait for what the device does in time** ends with it done: each check that fails is a look, and after `latency`
looks the device would not be prompt. -/
theorem RingSide.ensures_await {site : WaitSite} {limit : WaitLimit} {f : BitVec 16 → Bool} {o : BitVec 32}
    {Before After : RingDevice → Prop} (ho : Register.OfTransport o) (hstable : Stable fun d => Before d ∨ After d)
    (hbefore : ∀ d raw, Before d → d.Shows o raw → f (raw.setWidth 16) = false)
    (hafter : ∀ d raw, After d → d.Shows o raw → f (raw.setWidth 16) = true)
    (hlate : ∀ d, Before d → link.Honest d.said → ¬d.Prompt link) (hlimit : latency < limit.checks n)
    (h : Before s.device ∨ After s.device) :
    Ensures (RingSide.world link P latency) n (waitUntil site limit do return f (← read16 o)) r s
      (.succeeds fun _ r' s' => r' = r ∧ After s'.device ∧ s'.rest = s.rest) := by
  have hstart : latency ≤ s.looks + latency := Nat.le_add_left latency s.looks
  refine ensures_waitUntil_of_lt (fun k r' s' => r' = r ∧ (Before s'.device ∨ After s'.device) ∧ s'.rest = s.rest ∧
    latency ≤ s'.looks + k) ?_ hlimit ⟨rfl, h, rfl, hstart⟩
  rintro k r' s₁ ⟨rfl, h, hrest, hk⟩
  refine ensures_bind.2 ((RingSide.ensures_read16 ho hstable h).of_succeeds ?_)
  rintro _ _ s₂ ⟨rfl, raw, rfl, hshows, hbefore' | hafter', hlooks, hrest', hhonest, hprompt⟩
  · dsimp only [Outcome.withOk]
    rw [hbefore _ _ hbefore' hshows]
    have hearly : s₁.looks < latency :=
      Nat.lt_of_not_le fun hlast => hlate _ hbefore' hhonest (hprompt hlast)
    exact ⟨k - 1, by omega, rfl, .inl hbefore', hrest'.trans hrest, by omega⟩
  · dsimp only [Outcome.withOk]
    rw [hafter _ _ hafter' hshows]
    exact ⟨rfl, hafter', hrest'.trans hrest⟩

section
variable {t : RingOrders} {i j : Nat} {F : List (BitVec 32)} {A : List (BitVec 32 × BitVec 32)} {word answer : BitVec 32}

theorem awaitFetch_prompt {limit : WaitLimit} (hlimit : latency < limit.checks n) (hc : Commanded link t i A word answer)
    (h : Queued t i j F A word s.device) :
    Ensures (RingSide.world link P latency) n (waitUntil .corbDrain limit do
        return (CorbReadPointer.mk (← read16 Register.corbrp)).slot == (i + 1) % slots t.corbSize) r s
      (.succeeds fun _ r' s' => r' = r ∧ (Taken t i j F A word s'.device ∨ Answered t i j F A word s'.device) ∧
        s'.rest = s.rest) := by
  refine RingSide.ensures_await (f := fun v => (CorbReadPointer.mk v).slot == (i + 1) % slots t.corbSize)
    (by decide) (Queued.stable hc.reset hc.write) ?_ ?_
    (fun d hd => hc.late_queued hd) hlimit (.inl h)
  · intro d raw hd hshows
    have hv := hshows.corbRead rfl hd.1.inReset
    rw [beq_eq_false_iff_ne, slot_corbReadPointer, hv, hd.1.corbRead]
    exact hc.moves.symm
  · -- whether it has been answered or not
    have hslot : ∀ {j un out A' d raw}, Stands t ((i + 1) % slots t.corbSize) j out un (F ++ [word]) A' d →
        d.Shows Register.corbrp raw → ((CorbReadPointer.mk (raw.setWidth 16)).slot == (i + 1) % slots t.corbSize) = true := by
      intro j un out A' d raw hd hshows
      have hv := hshows.corbRead rfl hd.inReset
      rw [beq_iff_eq, slot_corbReadPointer, hv, hd.corbRead]
    rintro d raw (⟨un, hd, -⟩ | ⟨a, hd, -⟩) hshows
    · exact hslot hd hshows
    · exact hslot hd hshows

theorem awaitResponse_prompt {limit : WaitLimit} (hlimit : latency < limit.checks n) (hc : Commanded link t i A word answer)
    (hj : (j + 1) % slots t.rirbSize ≠ j)
    (h : Taken t i j F A word s.device ∨ Answered t i j F A word s.device) :
    Ensures (RingSide.world link P latency) n (waitUntil .rirbResponse limit do
        return (RirbWritePointer.mk (← read16 Register.rirbwp)).slot != j) r s
      (.succeeds fun _ r' s' => r' = r ∧ Answered t i j F A word s'.device ∧ s'.rest = s.rest) := by
  refine RingSide.ensures_await (f := fun v => (RirbWritePointer.mk v).slot != j)
    (by decide) (Taken.stable hc.reset hc.write) ?_ ?_ (fun d hd => hc.late_taken hd) hlimit h
  · rintro d raw ⟨un, hd, -⟩ hshows
    have hv := hshows.rirbWrite rfl
    rw [bne_eq_false_iff_eq, slot_rirbWritePointer, hv, hd.rirbWrite]
  · rintro d raw ⟨a, hd, -⟩ hshows
    have hv := hshows.rirbWrite rfl
    rw [bne_iff_ne, slot_rirbWritePointer, hv, hd.rirbWrite]
    exact hj

end

/-! ### One exchange -/

section
variable {t : RingOrders} {F : List (BitVec 32)} {A : List (BitVec 32 × BitVec 32)} {word answer : BitVec 32}

theorem takeAnswer_prompt (word : BitVec 32) (h : InStep t r F A s.device)
    (hm : load32 s.device.memory (r.rirb.host + r.readCursor * rirbSlot) = answer) :
    Ensures (RingSide.world link P latency) n (do
        let response ← r.rirb.load32 (r.readCursor * rirbSlot)
        write8 Register.rirbsts statusClear
        note (.answered .rings word response)
        return response) r s (.succeeds fun a r' s' => a = answer ∧ r' = r ∧ InStep t r F A s'.device ∧
          link.Honest s'.device.said ∧ s'.rest = s.rest) := by
  have hj := Nat.lt_of_lt_of_le h.rirb_lt r.rirbEntries.count_le
  have hlong := h.served.rirbLong
  simp only [rirbLength, rirbSlot] at hlong
  rw [ensures_bind, ensures_load32 (by simp only [rirbSlot]; omega) (by simp only [rirbSlot]; omega)]
  intro v s₁ hload
  obtain ⟨d, ⟨h, hm⟩, -, -, rfl, rfl⟩ := RingSide.turn_of_world
    (InStep.stableWith (P := fun m => load32 m _ = answer)) ⟨h, hm⟩ hload
  refine ensures_bind.2 ((RingSide.ensures_write (by decide) InStep.stable h).of_succeeds ?_)
  rintro - _ _ ⟨rfl, d, h, rfl⟩
  refine ensures_bind.2 (ensures_note.2 fun s₂ hnote => ?_)
  obtain ⟨d', h', hhonest, -, hrest, hs₂⟩ := RingSide.turn_of_world InStep.stable h hnote
  refine ⟨hm, rfl, ?_, ?_, hrest⟩
  · rw [hs₂]
    exact h'
  · rw [hs₂]
    exact hhonest

/-- **One exchange through rings in step with a prompt device** comes back with what the codecs answer. -/
theorem exchange_prompt (h : InStep t r F A s.device) (hcorb : t.corbRun = true) (hrirb : t.rirbRun = true)
    (hlimit : latency < r.drainLimit.checks n) (ha : link.answer? (A.map (·.1)) word = some answer) :
    Ensures (RingSide.world link P latency) n (CommandRings.exchange word) r s (.succeeds fun a r' s' => a = answer ∧
      r' = r.advanceWrite.advanceRead ∧ InStep (advanceOrders t r) r' (F ++ [word]) (A ++ [(word, answer)]) s'.device ∧
        s'.rest = s.rest) := by
  have hi := advanceWrite_lt r
  have hcount := r.corbEntries.count_le
  have hlong := h.served.corbLong
  simp only [corbLength, corbSlot] at hlong
  have hslot : (r.writeCursor + 1) % slots (advanceOrders t r).corbSize = r.advanceWrite.writeCursor := h.served.slot_eq
  have hmoves : (r.writeCursor + 1) % slots (advanceOrders t r).corbSize ≠ r.writeCursor := by
    rw [hslot]
    exact succ_mod_ne r.corbEntries.two_le_count h.corb_lt
  have hmoves' : (r.readCursor + 1) % slots (advanceOrders t r).rirbSize ≠ r.readCursor := by
    rw [show slots (advanceOrders t r).rirbSize = r.rirbEntries.count from h.served.rirbSlots]
    exact succ_mod_ne r.rirbEntries.two_le_count h.rirb_lt
  have hc : Commanded link (advanceOrders t r) r.writeCursor A word answer :=
    ⟨hcorb, hrirb, h.reset, hslot.symm, hmoves, ha⟩
  have hserved := h.served
  have hreset := h.reset
  refine ensures_bind.2 (ensures_modify.2 (ensures_bind.2 (ensures_get.2 (ensures_bind.2 ?_))))
  rw [ensures_store32 (by change _ ≤ r.corb.length; simp only [corbSlot]; omega) (by simp [corbSlot])]
  -- the command goes into its slot
  intro s₁ hstore
  obtain ⟨d, h, -, -, hs₁⟩ := RingSide.turn_of_world InStep.stable h hstore
  have hstored : InStep t r F A s₁.device ∧
      load32 s₁.device.memory (r.corb.host + r.advanceWrite.writeCursor * corbSlot) = word := by
    rw [hs₁]
    exact ⟨h.store _, load32_store32 d.memory _ word⟩
  have hrest₁ : s₁.rest = s.rest := by rw [hs₁]
  -- the write pointer goes on it
  refine ensures_bind.2 ((RingSide.ensures_write (by decide)
    (InStep.stableWith (P := fun m => load32 m (r.corb.host + r.advanceWrite.writeCursor * corbSlot) = word))
    hstored).of_succeeds ?_)
  rintro - _ _ ⟨rfl, d₂, ⟨h, hm⟩, rfl⟩
  have hq := h.queued hm
  -- until the command has been fetched
  have hfetch := awaitFetch_prompt (P := P) (r := r.advanceWrite)
    (s := ⟨d₂.take Register.corbwp ((BitVec.ofNat 16 r.advanceWrite.writeCursor).setWidth 32), 0, s₁.rest⟩) hlimit hc hq
  rw [hslot] at hfetch
  refine ensures_bind.2 (hfetch.of_succeeds ?_)
  rintro - _ s₃ ⟨rfl, htaken, hrest₃⟩
  -- until its answer has been announced
  refine ensures_bind.2 ((awaitResponse_prompt hlimit hc hmoves' htaken).of_succeeds ?_)
  rintro - _ s₄ ⟨rfl, hanswered, hrest₄⟩
  obtain ⟨a, hin, hm⟩ := hanswered.inStep hserved hreset
  refine ensures_bind.2 (ensures_modify.2 (ensures_bind.2 (ensures_get.2 ((takeAnswer_prompt word hin hm).of_succeeds ?_))))
  rintro _ _ s₅ ⟨rfl, rfl, hin, hhonest, hrest₅⟩
  -- what was announced is what the codecs answer
  rw [hin.stands.said_nil] at hhonest
  obtain rfl := Option.some.inj (hhonest.last.symm.trans ha)
  exact ⟨rfl, rfl, hin, hrest₅.trans (hrest₄.trans (hrest₃.trans hrest₁))⟩

end

/-! ### The rings are a channel -/

/-- The rings are in step with a device whose engines were told to run, and every word so far has been answered. -/
structure RingSide.Ready (link : Link) (latency n : Nat) (words : List (BitVec 32)) (r : CommandRings) (s : RingSide ρ) :
    Prop where
  limit : latency < r.drainLimit.checks n
  inStep : ∃ t A, InStep t r words A s.device ∧ A.map (·.1) = words ∧ t.corbRun = true ∧ t.rirbRun = true

theorem RingSide.Ready.foreign {words : List (BitVec 32)} {c : Call} {a : c.Answer} (h : s.Ready link latency n words r)
    (hc : c.Foreign) (hw : RingSide.world link P latency c s a s') :
    P.Answers s.rest c a s'.rest ∧ s'.Ready link latency n words r := by
  obtain ⟨t, A, hin, hrest⟩ := h.inStep
  obtain ⟨d, hin, -, -, hturn⟩ := RingSide.turn_of_world InStep.stable hin hw
  have hready : ∀ m looks (x : ρ), (RingSide.mk { d with memory := m } looks x).Ready link latency n words r :=
    fun m _ _ => ⟨h.limit, t, A, hin.store m, hrest⟩
  cases c with
  | read wd o =>
    simp only [RingSide.Turn, if_neg hc] at hturn
    rw [hturn.2]
    exact ⟨hturn.1, hready d.memory _ _⟩
  | write wd o v =>
    simp only [RingSide.Turn, if_neg hc] at hturn
    rw [hturn.2]
    exact ⟨hturn.1, hready d.memory _ _⟩
  | allocate k | free g | note m =>
    obtain ⟨hP, hs'⟩ := hturn
    rw [hs']
    exact ⟨hP, hready d.memory _ _⟩
  | store32 p v =>
    obtain rfl : s' = _ := hturn
    exact ⟨rfl, hready _ _ _⟩
  | store64 p v | fill p data =>
    obtain ⟨m, rfl⟩ := hturn
    exact ⟨rfl, hready m _ _⟩
  | _ => cases hc

/-- **Rings in step are a channel** to the codecs behind their device. -/
def ringChannel (link : Link) (P : Platform ρ) (latency n : Nat) : Channel (RingSide.world link P latency) n link P where
  At t words x s := ∃ r, t = .rings r ∧ s.Ready link latency n words r ∧ s.rest = x
  sent s := s.device.fetched
  sent_eq := by
    rintro t words x s ⟨r, -, ⟨-, t, A, hin, -⟩, -⟩
    exact hin.stands.fetched
  exchange := by
    rintro t words x s word answer ⟨r, rfl, ⟨hlimit, t, A, hin, rfl, hcorb, hrirb⟩, rfl⟩ ha
    refine ensures_bind.2 (ensures_get.2 (ensures_on.2 ((exchange_prompt hin hcorb hrirb hlimit ha).of_succeeds ?_)))
    rintro a r' s' ⟨rfl, rfl, hin, hrest⟩
    refine ⟨rfl, r.advanceWrite.advanceRead, rfl, ⟨hlimit, _, _, hin, ?_, hcorb, hrirb⟩, hrest⟩
    rw [List.map_append]
    rfl
  foreign := by
    rintro t words x s c a s' ⟨r, rfl, hready, rfl⟩ hc hw
    obtain ⟨hP, hready⟩ := hready.foreign hc hw
    exact ⟨s'.rest, hP, r, rfl, hready, rfl⟩

/-! ### There are runs -/

/-- The pointers are bytes, and the codecs have been honest. -/
structure RingSide.Sound (link : Link) (s : RingSide ρ) : Prop where
  corbRead : s.device.corbRead < 256
  rirbWrite : s.device.rirbWrite < 256
  honest : link.Honest s.device.said

theorem slots_bounds (size : BitVec 8) : 0 < slots size ∧ slots size ≤ 256 := by
  unfold RingOrders.slots
  split <;> decide

theorem pointers_stable : Stable fun d => d.corbRead < 256 ∧ d.rirbWrite < 256 := by
  have hmod : ∀ k size, k % slots size < 256 := fun k size =>
    Nat.lt_of_lt_of_le (Nat.mod_lt k (slots_bounds size).1) (slots_bounds size).2
  rintro d d' h hs
  cases hs with
  | obeyCorb | obeyRirb | endReset | respond => exact h
  | resetRead => exact ⟨Nat.zero_lt_succ 255, h.2⟩
  | fetch word slot hrun hreset hne hslot hword => exact ⟨hslot ▸ hmod _ _, h.2⟩
  | announce => exact ⟨h.1, hmod _ _⟩

theorem RingSide.exists_turn {d : RingDevice} (hread : d.corbRead < 256) (hwrite : d.rirbWrite < 256)
    (hhonest : link.Honest d.said) (looks : Nat) (x : ρ) (c : Call) :
    ∃ a s, RingSide.Turn P d looks x c a s ∧ s.Sound link := by
  obtain ⟨a, x', hP⟩ : ∃ a x', P.Answers x c a x' := ⟨_, _, P.answers_reply x c⟩
  have hsound : ∀ m looks (x : ρ), (RingSide.mk { d with memory := m } looks x).Sound link := fun _ _ _ =>
    ⟨hread, hwrite, hhonest⟩
  cases c with
  | read w o =>
    by_cases ho : Register.OfTransport o
    · refine ⟨.ok (d.shown o), ⟨d, looks + 1, x⟩, ?_, hsound d.memory _ _⟩
      simp only [RingSide.Turn, if_pos ho]
      exact ⟨⟨_, rfl, shows_shown o hread hwrite⟩, trivial⟩
    · refine ⟨a, ⟨d, looks, x'⟩, ?_, hsound d.memory _ _⟩
      simp only [RingSide.Turn, if_neg ho]
      exact ⟨hP, trivial⟩
  | write w o v =>
    by_cases ho : Register.OfTransport o
    · refine ⟨.ok (), ⟨d.take o v, if o = Register.corbwp then 0 else looks, x⟩, ?_, hread, ?_, hhonest⟩
      · simp only [RingSide.Turn, if_pos ho]
        exact ⟨rfl, trivial⟩
      · change (if _ then 0 else d.rirbWrite) < 256
        split
        · decide
        · exact hwrite
    · refine ⟨a, ⟨d, looks, x'⟩, ?_, hsound d.memory _ _⟩
      simp only [RingSide.Turn, if_neg ho]
      exact ⟨hP, trivial⟩
  | load32 p => exact ⟨_, ⟨d, looks, x⟩, ⟨rfl, rfl⟩, hsound d.memory _ _⟩
  | store32 p v => exact ⟨(), _, rfl, hsound _ looks x⟩
  | store64 | fill | clear => exact ⟨(), _, ⟨d.memory, rfl⟩, hsound d.memory looks x⟩
  | _ => exact ⟨a, ⟨d, looks, x'⟩, ⟨hP, rfl⟩, hsound d.memory _ _⟩

/-- **Every program has a run**: a device that does at once what it can is prompt. -/
theorem RingSide.exists_answer {s : RingSide ρ} (h : s.Sound link) (c : Call) :
    ∃ a s', RingSide.world link P latency c s a s' ∧ s'.Sound link := by
  by_cases hdone : ∃ d, ReflTransGen Step s.device d ∧ link.Honest d.said ∧ d.Done
  · obtain ⟨d, hsteps, hhonest, hd⟩ := hdone
    obtain ⟨hread, hwrite⟩ : d.corbRead < 256 ∧ d.rirbWrite < 256 := by
      clear hhonest hd
      induction hsteps with
      | refl => exact ⟨h.corbRead, h.rirbWrite⟩
      | tail _ hs ih => exact pointers_stable _ _ ih hs
    obtain ⟨a, s', hturn, hsound⟩ := RingSide.exists_turn hread hwrite hhonest s.looks s.rest c
    exact ⟨a, s', ⟨d, hsteps, hhonest, fun _ _ => hd, hturn⟩, hsound⟩
  · obtain ⟨a, s', hturn, hsound⟩ := RingSide.exists_turn h.corbRead h.rirbWrite h.honest s.looks s.rest c
    exact ⟨a, s', ⟨s.device, .refl, h.honest, fun _ hex => absurd hex hdone, hturn⟩, hsound⟩

end
end AudioBringup
