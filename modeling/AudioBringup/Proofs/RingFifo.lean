import AudioBringup.Controller.CommandRings
import AudioBringup.Proofs.RingDevice
/-!
# Proofs.RingFifo — the rings are a queue, whenever the device gets round to it

`InStep` ties the host's cursors to the device's pointers between two exchanges.  One exchange takes it through three
conditions on the device, each of which the device can only leave for the next (`Queued`, `Taken`, `Answered`); the two
waits of an exchange end when the device has left the first and the second.
-/
namespace AudioBringup

open Procedure RingDevice
open RingOrders (slots)

theorem succ_mod_ne {i m : Nat} (hm : 2 ≤ m) (hi : i < m) : (i + 1) % m ≠ i := by
  by_cases h : i + 1 < m
  · rw [Nat.mod_eq_of_lt h]; omega
  · rw [show i + 1 = m by omega, Nat.mod_self]; omega

namespace RingEntries

theorem two_le_count (e : RingEntries) : 2 ≤ e.count := by cases e <;> decide

theorem count_le (e : RingEntries) : e.count ≤ 256 := by cases e <;> decide

end RingEntries

namespace CommandRings

/-- The device works the rings that the host holds: each has the same slots for both, apart from the other ring's, and
lies where it says. -/
structure Served (t : RingOrders) (r : CommandRings) : Prop where
  corbSlots : slots t.corbSize = r.corbEntries.count
  rirbSlots : slots t.rirbSize = r.rirbEntries.count
  corbAt : ∀ i < 256, t.corbAt i = r.corb.host + i * corbSlot
  rirbAt : ∀ i < 256, t.rirbAt i = r.rirb.host + i * rirbSlot
  corbLong : corbLength ≤ r.corb.length
  rirbLong : rirbLength ≤ r.rirb.length

/-- **The host and the device are in step**: nothing is outstanding, both cursors are where the device's pointers are,
and `F` has been fetched and `A` answered so far. -/
structure InStep (t : RingOrders) (r : CommandRings) (F : List (BitVec 32)) (A : List (BitVec 32 × BitVec 32))
    (d : RingDevice) : Prop where
  served : Served t r
  stands : Stands t r.writeCursor r.readCursor [] none F A d
  reset : t.corbReset = false
  write : t.corbWrite = r.writeCursor
  corb_lt : r.writeCursor < r.corbEntries.count
  rirb_lt : r.readCursor < r.rirbEntries.count

/-! ### One command on its way -/

section
variable {t : RingOrders} {i j : Nat} {F : List (BitVec 32)} {A : List (BitVec 32 × BitVec 32)} {word : BitVec 32}
  {d d' : RingDevice}

/-- The command is in its slot, and the device has not fetched it. -/
def Queued (t : RingOrders) (i j : Nat) (F : List (BitVec 32)) (A : List (BitVec 32 × BitVec 32)) (word : BitVec 32)
    (d : RingDevice) : Prop :=
  Stands t i j [] none F A d ∧ load32 d.memory (t.corbAt ((i + 1) % slots t.corbSize)) = word

/-- The device has fetched the command and not announced an answer; one may be in its slot already. -/
def Taken (t : RingOrders) (i j : Nat) (F : List (BitVec 32)) (A : List (BitVec 32 × BitVec 32)) (word : BitVec 32)
    (d : RingDevice) : Prop :=
  ∃ un, Stands t ((i + 1) % slots t.corbSize) j [word] un (F ++ [word]) A d ∧
    ∀ answer ∈ un, load32 d.memory (t.rirbAt ((j + 1) % slots t.rirbSize)) = answer

/-- The device has announced an answer, which is in its slot. -/
def Answered (t : RingOrders) (i j : Nat) (F : List (BitVec 32)) (A : List (BitVec 32 × BitVec 32)) (word : BitVec 32)
    (d : RingDevice) : Prop :=
  ∃ answer, Stands t ((i + 1) % slots t.corbSize) ((j + 1) % slots t.rirbSize) [] none (F ++ [word])
    (A ++ [(word, answer)]) d ∧ load32 d.memory (t.rirbAt ((j + 1) % slots t.rirbSize)) = answer

theorem Queued.step (hr : t.corbReset = false) (h : Queued t i j F A word d) (hs : Step d d') :
    Queued t i j F A word d' ∨ Taken t i j F A word d' := by
  obtain ⟨hd, hm⟩ := h
  rcases hd.step hr hs with ⟨h', hm'⟩ | ⟨-, w, hw, h', hm'⟩ | ⟨hne, -⟩ | ⟨_, _, _, hout, -⟩
  · exact .inl ⟨h', hm' ▸ hm⟩
  · rw [hm] at hw
    subst hw
    exact .inr ⟨none, h', fun _ h => by cases h⟩
  · exact absurd rfl hne
  · cases hout

theorem Taken.step (hr : t.corbReset = false) (hw : t.corbWrite = (i + 1) % slots t.corbSize)
    (h : Taken t i j F A word d) (hs : Step d d') : Taken t i j F A word d' ∨ Answered t i j F A word d' := by
  obtain ⟨un, hd, hm⟩ := h
  rcases hd.step hr hs with ⟨h', hm'⟩ | ⟨hne, -⟩ | ⟨-, rfl, answer, extended, h', hm'⟩ | ⟨w, answer, _, hout, rfl, h', hm'⟩
  · exact .inl ⟨un, h', hm' ▸ hm⟩
  · exact absurd hw.symm hne
  · refine .inl ⟨some answer, h', fun a ha => ?_⟩
    cases ha
    rw [hm', load32_store32_of_disjoint _ _ (.inl (Nat.le_refl _)), load32_store32]
  · cases hout
    exact .inr ⟨answer, h', by rw [hm']; exact hm answer rfl⟩

theorem Answered.stable (hr : t.corbReset = false) (hw : t.corbWrite = (i + 1) % slots t.corbSize) :
    Stable (Answered t i j F A word) := by
  rintro d d' ⟨answer, h⟩ hs
  exact ⟨answer, Stands.stableWith (P := fun m => load32 m _ = answer) hr hw d d' h hs⟩

/-- From the fetch on. -/
theorem Taken.stable (hr : t.corbReset = false) (hw : t.corbWrite = (i + 1) % slots t.corbSize) :
    Stable fun d => Taken t i j F A word d ∨ Answered t i j F A word d := by
  rintro d d' (h | h) hs
  · exact h.step hr hw hs
  · exact .inr (Answered.stable hr hw d d' h hs)

/-- From the moment the command is in its slot. -/
theorem Queued.stable (hr : t.corbReset = false) (hw : t.corbWrite = (i + 1) % slots t.corbSize) :
    Stable fun d => Queued t i j F A word d ∨ Taken t i j F A word d ∨ Answered t i j F A word d := by
  rintro d d' (h | h) hs
  · exact (h.step hr hs).imp_right .inl
  · exact .inr (Taken.stable hr hw d d' h hs)

end

/-! ### One exchange -/

theorem slot_corbReadPointer (v : BitVec 32) : (CorbReadPointer.mk (v.setWidth 16)).slot = v.toNat % 256 := by
  simp only [CorbReadPointer.slot, Bits.field, BitVec.extractLsb'_toNat, BitVec.toNat_setWidth, Nat.shiftRight_zero]
  omega

theorem slot_rirbWritePointer (v : BitVec 32) : (RirbWritePointer.mk (v.setWidth 16)).slot = v.toNat % 256 :=
  slot_corbReadPointer v

section
variable {σ : Type} {t : RingOrders} {i j n : Nat} {F : List (BitVec 32)} {A : List (BitVec 32 × BitVec 32)}
  {word : BitVec 32} {d : RingDevice} {s : σ}

/-- The wait for the command's slot ends with the command fetched. -/
theorem awaitFetch_taken (limit : WaitLimit) (hr : t.corbReset = false) (hw : t.corbWrite = (i + 1) % slots t.corbSize)
    (hne : (i + 1) % slots t.corbSize ≠ i) (h : Queued t i j F A word d) :
    Ensures RingDevice.world n (waitUntil .corbDrain limit do
        return (CorbReadPointer.mk (← read16 Register.corbrp)).slot == (i + 1) % slots t.corbSize) s d
      (.unlessFails fun _ s' d' => s' = s ∧ (Taken t i j F A word d' ∨ Answered t i j F A word d')) := by
  refine ensures_await (f := fun v => (CorbReadPointer.mk v).slot == _)
    (fun _ _ => ensures_read16_of (Queued.stable hr hw)) ?_ (.inl h)
  rintro v d (hq | hd) ⟨raw, rfl, hshows⟩ heq
  · -- the command is still in its slot: the read pointer has not moved
    have hv := hshows.corbRead rfl hq.1.inReset
    rw [hq.1.corbRead] at hv
    rw [beq_iff_eq, slot_corbReadPointer, hv] at heq
    exact absurd heq.symm hne
  · exact hd

/-- The wait for a response ends with an answer announced. -/
theorem awaitResponse_answered (limit : WaitLimit) (hr : t.corbReset = false) (hw : t.corbWrite = (i + 1) % slots t.corbSize)
    (h : Taken t i j F A word d ∨ Answered t i j F A word d) :
    Ensures RingDevice.world n (waitUntil .rirbResponse limit do
        return (RirbWritePointer.mk (← read16 Register.rirbwp)).slot != j) s d
      (.unlessFails fun _ s' d' => s' = s ∧ Answered t i j F A word d') := by
  refine ensures_await (f := fun v => (RirbWritePointer.mk v).slot != j)
    (fun _ _ => ensures_read16_of (Taken.stable hr hw)) ?_ h
  rintro v d (ht | hd) ⟨raw, rfl, hshows⟩ hne
  · -- nothing has been announced: the write pointer has not moved
    have hv := hshows.rirbWrite rfl
    rw [ht.choose_spec.1.rirbWrite] at hv
    rw [bne_iff_ne, slot_rirbWritePointer, hv] at hne
    exact absurd rfl hne
  · exact hd

end

section
variable {t : RingOrders} {r : CommandRings} {F : List (BitVec 32)} {A : List (BitVec 32 × BitVec 32)}
  {word answer : BitVec 32} {d : RingDevice} {n : Nat}

theorem InStep.stableWith {P : (Nat → Byte) → Prop} : Stable fun d => InStep t r F A d ∧ P d.memory := by
  rintro d d' ⟨h, hp⟩ hs
  obtain ⟨h', hp'⟩ := Stands.stableWith h.reset h.write d d' ⟨h.stands, hp⟩ hs
  exact ⟨⟨h.served, h', h.reset, h.write, h.corb_lt, h.rirb_lt⟩, hp'⟩

theorem InStep.stable : Stable (InStep t r F A) := fun d d' h hs =>
  (InStep.stableWith (P := fun _ => True) d d' ⟨h, trivial⟩ hs).1

/-- Whatever the host puts into memory leaves them in step. -/
theorem InStep.store (h : InStep t r F A d) (m : Nat → Byte) : InStep t r F A { d with memory := m } :=
  ⟨h.served, ⟨h.stands.1, h.stands.2, h.stands.3, h.stands.4, h.stands.5, h.stands.6, h.stands.7, h.stands.8⟩, h.reset,
    h.write, h.corb_lt, h.rirb_lt⟩

theorem advanceWrite_lt (r : CommandRings) : r.advanceWrite.writeCursor < r.corbEntries.count :=
  Nat.mod_lt _ (Nat.lt_of_lt_of_le Nat.zero_lt_two r.corbEntries.two_le_count)

theorem advanceRead_lt (r : CommandRings) : r.advanceRead.readCursor < r.rirbEntries.count :=
  Nat.mod_lt _ (Nat.lt_of_lt_of_le Nat.zero_lt_two r.rirbEntries.two_le_count)

theorem Served.slot_eq (h : Served t r) : (r.writeCursor + 1) % slots t.corbSize = r.advanceWrite.writeCursor := by
  rw [h.corbSlots]; rfl

/-- The orders once the write pointer has been moved on to the next command slot. -/
def advanceOrders (t : RingOrders) (r : CommandRings) : RingOrders := { t with corbWrite := r.advanceWrite.writeCursor }

/-- The command is queued once it is in the next slot and the write pointer on that slot. -/
theorem InStep.queued (h : InStep t r F A d)
    (hm : load32 d.memory (r.corb.host + r.advanceWrite.writeCursor * corbSlot) = word) :
    Queued (advanceOrders t r) r.writeCursor r.readCursor F A word
      (d.take Register.corbwp ((BitVec.ofNat 16 r.advanceWrite.writeCursor).setWidth 32)) := by
  have hi : r.advanceWrite.writeCursor < 256 := Nat.lt_of_lt_of_le (advanceWrite_lt r) r.corbEntries.count_le
  have hv : ((BitVec.ofNat 16 r.advanceWrite.writeCursor).setWidth 32).toNat % 256 = r.advanceWrite.writeCursor := by
    simp only [BitVec.toNat_setWidth, BitVec.toNat_ofNat]; omega
  obtain ⟨rfl, h1, h2, h3, h4, h5, h6, h7⟩ := h.stands
  refine ⟨⟨?_, h1, h2, h3, h4, h5, h6, h7⟩, ?_⟩
  · exact congrArg (fun slot => { d.told with corbWrite := slot }) hv
  · change load32 d.memory (d.told.corbAt ((r.writeCursor + 1) % slots d.told.corbSize)) = word
    rw [h.served.slot_eq, h.served.corbAt _ hi, hm]

/-- The cursors catch up with a device that has announced its answer. -/
theorem Answered.inStep (h : Served t r) (hr : t.corbReset = false)
    (ha : Answered (advanceOrders t r) r.writeCursor r.readCursor F A word d) :
    ∃ answer, InStep (advanceOrders t r) r.advanceWrite.advanceRead (F ++ [word]) (A ++ [(word, answer)]) d ∧
      load32 d.memory (r.rirb.host + r.advanceRead.readCursor * rirbSlot) = answer := by
  have hj : r.advanceRead.readCursor < 256 := Nat.lt_of_lt_of_le (advanceRead_lt r) r.rirbEntries.count_le
  have hslot : (r.readCursor + 1) % slots t.rirbSize = r.advanceRead.readCursor := by rw [h.rirbSlots]; rfl
  obtain ⟨answer, hd, hm⟩ := ha
  change Stands _ ((r.writeCursor + 1) % slots t.corbSize) ((r.readCursor + 1) % slots t.rirbSize) _ _ _ _ _ at hd
  change load32 d.memory (t.rirbAt ((r.readCursor + 1) % slots t.rirbSize)) = answer at hm
  rw [h.slot_eq, hslot] at hd
  rw [hslot, h.rirbAt _ hj] at hm
  exact ⟨answer, ⟨⟨h.corbSlots, h.rirbSlots, h.corbAt, h.rirbAt, h.corbLong, h.rirbLong⟩, hd, hr, rfl, advanceWrite_lt r,
    advanceRead_lt r⟩, hm⟩

/-- Taking the answer from its slot leaves rings in step as they are. -/
theorem takeAnswer_inStep (word : BitVec 32) (h : InStep t r F A d)
    (hm : load32 d.memory (r.rirb.host + r.readCursor * rirbSlot) = answer) :
    Ensures RingDevice.world n (do
        let response ← r.rirb.load32 (r.readCursor * rirbSlot)
        write8 Register.rirbsts statusClear
        note (.answered .rings word response)
        return response) r d (.unlessFails fun a r' d' => a = answer ∧ r' = r ∧ InStep t r F A d') := by
  have hj := Nat.lt_of_lt_of_le h.rirb_lt r.rirbEntries.count_le
  have hlong := h.served.rirbLong
  simp only [rirbLength, rirbSlot] at hlong
  rw [ensures_bind, ensures_load32 (by simp only [rirbSlot]; omega) (by simp only [rirbSlot]; omega)]
  intro v d₁ hload
  obtain ⟨d, ⟨h, hm⟩, rfl, rfl⟩ := (InStep.stableWith (P := fun m => load32 m _ = answer)).world ⟨h, hm⟩ hload
  refine ensures_bind.2 ((ensures_write_of InStep.stable h).imp ?_)
  rintro - s - ⟨rfl, d, h, rfl⟩
  refine ensures_bind.2 ((ensures_note_of InStep.stable h).imp ?_)
  rintro - s d' ⟨rfl, h⟩
  exact ⟨hm, rfl, h⟩

/-- **One exchange through rings in step** answers what the device answered, and leaves them in step. -/
theorem exchange_inStep (word : BitVec 32) (h : InStep t r F A d) :
    Ensures RingDevice.world n (exchange word) r d (.unlessFails fun answer r' d' =>
      r' = r.advanceWrite.advanceRead ∧ InStep (advanceOrders t r) r' (F ++ [word]) (A ++ [(word, answer)]) d') := by
  have hi := advanceWrite_lt r
  have hcount := r.corbEntries.count_le
  have hlong := h.served.corbLong
  simp only [corbLength, corbSlot] at hlong
  refine ensures_bind.2 (ensures_modify.2 (ensures_bind.2 (ensures_get.2 (ensures_bind.2 ?_))))
  rw [ensures_store32 (by change _ ≤ r.corb.length; simp only [corbSlot]; omega) (by simp [corbSlot])]
  -- the command goes into its slot
  intro d₁ hstore
  obtain ⟨d, h, rfl⟩ := InStep.stable.world h hstore
  -- the write pointer goes on it
  refine ensures_bind.2 ((ensures_write_of
    (InStep.stableWith (P := fun m => load32 m (r.corb.host + r.advanceWrite.writeCursor * corbSlot) = word))
    ⟨h.store (store32 d.memory _ word), load32_store32 d.memory _ word⟩).imp ?_)
  rintro - s - ⟨rfl, d₂, ⟨h, hm⟩, rfl⟩
  have hq := h.queued hm
  -- until the command has been fetched
  have hslot : (r.writeCursor + 1) % slots (advanceOrders t r).corbSize = r.advanceWrite.writeCursor := h.served.slot_eq
  have hne : (r.writeCursor + 1) % slots (advanceOrders t r).corbSize ≠ r.writeCursor := by
    rw [hslot]; exact succ_mod_ne r.corbEntries.two_le_count h.corb_lt
  have hfetch := awaitFetch_taken (t := advanceOrders t r) (n := n) (s := r.advanceWrite) r.drainLimit h.reset hslot.symm hne hq
  rw [hslot] at hfetch
  refine ensures_bind.2 (hfetch.imp ?_)
  rintro - s d₃ ⟨rfl, htaken⟩
  -- until its answer has been announced
  refine ensures_bind.2 ((awaitResponse_answered (t := advanceOrders t r) r.drainLimit h.reset hslot.symm
    htaken).imp ?_)
  rintro - s d₄ ⟨rfl, hanswered⟩
  obtain ⟨answer, hin, hm⟩ := hanswered.inStep h.served h.reset
  refine ensures_bind.2 (ensures_modify.2 (ensures_bind.2 (ensures_get.2 ((takeAnswer_inStep word hin hm).imp ?_))))
  rintro a r' d' ⟨rfl, rfl, hin⟩
  exact ⟨rfl, hin⟩

/-! ### A conversation -/

/-- Sends several words, one after the other; their answers in order. -/
def exchangeAll : List (BitVec 32) → Procedure CommandRings (List (BitVec 32))
  | [] => return []
  | word :: rest => do
    let answer ← exchange word
    let answers ← exchangeAll rest
    return answer :: answers

/-- The rings `count` commands and responses later. -/
def advancedBy (r : CommandRings) (count : Nat) : CommandRings :=
  { r with
    writeCursor := (r.writeCursor + count) % r.corbEntries.count
    readCursor := (r.readCursor + count) % r.rirbEntries.count }

theorem advancedBy_succ (r : CommandRings) (count : Nat) :
    r.advanceWrite.advanceRead.advancedBy count = r.advancedBy (count + 1) := by
  simp only [advancedBy, advanceRead, advanceWrite, Nat.mod_add_mod, Nat.add_assoc, Nat.add_comm 1 count]

theorem InStep.advancedBy_zero (h : InStep t r F A d) : r.advancedBy 0 = r := by
  simp only [advancedBy, Nat.add_zero, Nat.mod_eq_of_lt h.corb_lt, Nat.mod_eq_of_lt h.rirb_lt]

/-- **A run of exchanges through rings in step** answers every word what the device answered it, and leaves them in
step. -/
theorem exchangeAll_inStep : ∀ (words : List (BitVec 32)) {t : RingOrders} {r : CommandRings} {F : List (BitVec 32)}
    {A : List (BitVec 32 × BitVec 32)} {d : RingDevice}, InStep t r F A d →
    Ensures RingDevice.world n (exchangeAll words) r d (.unlessFails fun answers r' d' =>
      answers.length = words.length ∧ r' = r.advancedBy words.length ∧
        ∃ t', InStep t' r' (F ++ words) (A ++ words.zip answers) d')
  | [], t, r, F, A, d, h => by
    refine ensures_pure.2 ⟨rfl, h.advancedBy_zero.symm, t, ?_⟩
    rwa [List.zip_nil_left, List.append_nil, List.append_nil]
  | word :: rest, t, r, F, A, d, h => by
    refine ensures_bind.2 ((exchange_inStep word h).imp ?_)
    rintro answer r₁ d₁ ⟨rfl, h₁⟩
    refine ensures_bind.2 ((exchangeAll_inStep rest h₁).imp ?_)
    rintro answers r' d' ⟨hlen, rfl, t', h'⟩
    refine ensures_pure.2 ⟨congrArg (· + 1) hlen, advancedBy_succ r rest.length, t', ?_⟩
    rwa [List.append_assoc, List.append_assoc] at h'

end

end CommandRings
end AudioBringup
