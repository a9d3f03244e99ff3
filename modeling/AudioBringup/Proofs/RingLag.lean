import AudioBringup.Proofs.Light
import AudioBringup.Proofs.RingEager
/-!
# Proofs.RingLag — rings after an exchange that failed

The write cursor moves before anything can fail, the read cursor only once a response is there.  An exchange that fails in
between leaves the host one response behind, and nothing ever catches up: from then on every exchange hands out the response
to an earlier word (`attemptEach_trails`).  Words and responses are counted without wrapping, and lie in the slots that their
numbers have modulo the sizes of the rings.
-/
namespace AudioBringup

open Procedure RingDevice
open RingOrders (slots)

namespace RingDevice

/-- How a call may go where one that fails has its effect or none. -/
def Settles (d : RingDevice) : (c : Call) → c.Answer → RingDevice → Prop
  | .read _ _, .error _, d' => d' = d
  | .write _ o v, .error _, d' => d' = d ∨ d' = d.take o v
  | c, a, d' => d.Access c a d'

/-- The device does what it does by itself, and then a call goes through or fails; what was answered stays answered. -/
def brittle : World Call Call.Answer RingDevice := fun c d a d' =>
  ∃ d₁, Relation.ReflTransGen Step d d₁ ∧ d₁.Settles c a d' ∧ d₁.answered <+: d'.answered

theorem Stable.brittle {P : RingDevice → Prop} (hP : Stable P) {c : Call} {d d' : RingDevice} {a : c.Answer} (h : P d)
    (hw : brittle c d a d') : ∃ d₁, P d₁ ∧ d₁.Settles c a d' := by
  obtain ⟨d₁, hsteps, ha, hanswered⟩ := hw
  refine ⟨d₁, ?_, ha⟩
  clear ha hanswered
  induction hsteps with
  | refl => exact h
  | tail _ hs ih => exact hP _ _ ih hs

section
variable {σ : Type} {n : Nat} {s : σ} {d : RingDevice} {P Q : RingDevice → Prop} {wd : Width} {o v : BitVec 32}

theorem ensures_read16_brittle (hP : Stable P) (h : P d) : Ensures brittle n (read16 o) s d
    (.unlessStuck (fun v s' d' => s' = s ∧ P d' ∧ ∃ raw : BitVec 32, v = raw.setWidth 16 ∧ d'.Shows o raw)
      fun s' d' => s' = s ∧ P d') := by
  refine ensures_bind.2 (ensures_read.2 ?_)
  rintro (e | v) d' hw
  · obtain ⟨d₁, h, rfl⟩ := hP.brittle h hw
    exact ⟨rfl, h⟩
  · obtain ⟨d₁, h, hshows, rfl⟩ := hP.brittle h hw
    exact ⟨rfl, h, v, rfl, hshows⟩

theorem ensures_write_brittle (hP : Stable P) (h : P d) (hQ : ∀ d, P d → Q (d.take o v)) :
    Ensures brittle n (write wd o v) s d (.unlessStuck (fun _ s' d' => s' = s ∧ Q d') fun s' d' => s' = s ∧ (P d' ∨ Q d')) := by
  refine ensures_write.2 ?_
  rintro (e | u) d' hw
  · obtain ⟨d₁, h, rfl | rfl⟩ := hP.brittle h hw
    · exact ⟨rfl, .inl h⟩
    · exact ⟨rfl, .inr (hQ d₁ h)⟩
  · obtain ⟨d₁, h, rfl⟩ := hP.brittle h hw
    exact ⟨rfl, hQ d₁ h⟩

theorem ensures_write_kept (hP : Stable P) (h : P d) (hQ : ∀ d, P d → P (d.take o v)) :
    Ensures brittle n (write wd o v) s d (.unlessStuck (fun _ s' d' => s' = s ∧ P d') fun s' d' => s' = s ∧ P d') :=
  (ensures_write_brittle hP h hQ).weaken (fun _ _ _ => id) fun _ _ ⟨hs, h⟩ => ⟨hs, or_self_iff.1 h⟩

/-- A wait for what a register shows ends with `Q`, if what it waits for shows `Q`; and with `P` if it is given up. -/
theorem ensures_await_brittle {site : WaitSite} {limit : WaitLimit} {f : BitVec 16 → Bool} (hP : Stable P)
    (hQ : ∀ raw d, P d → d.Shows o raw → f (raw.setWidth 16) = true → Q d) (h : P d) :
    Ensures brittle n (waitUntil site limit do return f (← read16 o)) s d
      (.unlessStuck (fun _ s' d' => s' = s ∧ Q d') fun s' d' => s' = s ∧ P d') := by
  refine ensures_waitUntil (fun s' d => s' = s ∧ P d) ?_ ?_ (fun _ _ _ => trivial) ⟨rfl, h⟩
  · rintro s' d ⟨rfl, h⟩
    refine ensures_bind.2 ((ensures_read16_brittle hP h).mono ?_ (fun _ _ _ => id) (fun _ => id) fun _ => id)
    rintro _ s d' ⟨rfl, hp, raw, rfl, hshows⟩
    change if f (raw.setWidth 16) = true then s = s ∧ Q d' else s = s ∧ P d'
    split
    · rename_i hf
      exact ⟨rfl, hQ raw d' hp hshows hf⟩
    · exact ⟨rfl, hp⟩
  · rintro k s' d d' ⟨rfl, h⟩ hw
    obtain ⟨d₁, h, rfl⟩ := hP.brittle h hw
    exact ⟨rfl, h⟩

end

theorem Step.answered {d d' : RingDevice} (hs : Step d d') : d.answered <+: d'.answered := by
  cases hs with
  | announce => exact List.prefix_append _ _
  | _ => exact List.prefix_rfl

theorem answered_brittle {c : Call} {d d' : RingDevice} {a : c.Answer} (hw : brittle c d a d') : d.answered <+: d'.answered := by
  obtain ⟨d₁, hsteps, -, hanswered⟩ := hw
  refine List.IsPrefix.trans ?_ hanswered
  clear hanswered
  induction hsteps with
  | refl => exact List.prefix_rfl
  | tail _ hs ih => exact ih.trans hs.answered

end RingDevice

/-! ### Numbers and slots -/

/-- The slots of a ring, and which of them has the number 0. -/
structure Numbering where
  size : Nat
  first : Nat

namespace Numbering

/-- The slot of a number. -/
def slot (x : Numbering) (p : Nat) : Nat := (x.first + p) % x.size

variable {x : Numbering} {p q : Nat}

theorem slot_succ : (x.slot p + 1) % x.size = x.slot (p + 1) := by
  rw [slot, slot, Nat.mod_add_mod, Nat.add_assoc]

/-- Numbers less than a round apart are in different slots. -/
theorem slot_ne (hlt : p < q) (hround : q < p + x.size) : x.slot p ≠ x.slot q := by
  intro h
  have hle := Nat.le_of_dvd (by omega) (Nat.dvd_of_mod_eq_zero (Nat.sub_mod_eq_zero_of_mod_eq h.symm))
  omega

/-- Any number may be in any slot. -/
theorem exists_slot {size slot : Nat} (hlt : slot < size) (p : Nat) : ∃ x : Numbering, x.size = size ∧ x.slot p = slot := by
  refine ⟨⟨size, slot + (size - 1) * p⟩, rfl, ?_⟩
  have hround : slot + (size - 1) * p + p = slot + size * p := by
    obtain ⟨k, rfl⟩ : ∃ k, size = k + 1 := ⟨size - 1, by omega⟩
    rw [Nat.add_sub_cancel, Nat.add_mul, Nat.one_mul, Nat.add_assoc]
  rw [Numbering.slot, hround, Nat.add_mul_mod_self_left, Nat.mod_eq_of_lt hlt]

theorem slot_lt (hpos : 0 < x.size) : x.slot p < x.size := Nat.mod_lt _ hpos

end Numbering

namespace CommandRings

/-! ### A device that lags behind -/

/-- The two rings are in different memory. -/
def Apart (r : CommandRings) : Prop := r.corb.host + corbLength ≤ r.rirb.host ∨ r.rirb.host + rirbLength ≤ r.corb.host

/-- What `told` words that the device was told of, of those that were placed, and `taken` answers mean for its orders. -/
structure Under (t : RingOrders) (r : CommandRings) (x y : Numbering) (placed : List (BitVec 32)) (told taken : Nat) :
    Prop where
  served : Served t r
  apart : Apart r
  reset : t.corbReset = false
  corbSize : x.size = r.corbEntries.count
  rirbSize : y.size = r.rirbEntries.count
  write : t.corbWrite = x.slot told
  told_le : told ≤ placed.length
  corbRoom : placed.length < taken + x.size
  rirbRoom : placed.length < taken + y.size

/-- **Where a device is that lags behind**: it has fetched the first of the words, and answered the first of those.  Every
word it has not fetched is in its slot, and so is every answer that was not taken. -/
structure Lagging (t : RingOrders) (x y : Numbering) (placed : List (BitVec 32)) (told taken : Nat) (d : RingDevice) :
    Prop where
  orders : d.told = t
  inReset : d.corbInReset = false
  corbRead : d.corbRead = x.slot d.fetched.length
  rirbWrite : d.rirbWrite = y.slot d.answered.length
  fetched : d.fetched <+: placed
  fetched_le : d.fetched.length ≤ told
  queue : d.fetched = d.answered.map (·.1) ++ d.outstanding
  taken_le : taken ≤ d.answered.length
  words : ∀ p word, d.fetched.length ≤ p → placed[p]? = some word →
    load32 d.memory (t.corbAt (x.slot (p + 1))) = word
  answers : ∀ q e, taken ≤ q → d.answered[q]? = some e → load32 d.memory (t.rirbAt (y.slot (q + 1))) = e.2
  pending : ∀ a ∈ d.unannounced, load32 d.memory (t.rirbAt (y.slot (d.answered.length + 1))) = a

section
variable {t : RingOrders} {r : CommandRings} {x y : Numbering} {placed : List (BitVec 32)} {told taken : Nat}
  {d d' : RingDevice}

theorem prefix_snoc {α : Type} {l l' : List α} {a : α} (h : l <+: l') (ha : l'[l.length]? = some a) : l ++ [a] <+: l' := by
  obtain ⟨rest, rfl⟩ := h
  rw [List.getElem?_append_right (Nat.le_refl _), Nat.sub_self] at ha
  cases rest with
  | nil => cases ha
  | cons b rest =>
    cases ha
    exact ⟨rest, List.append_assoc _ _ _⟩

theorem getElem?_of_prefix {α : Type} {l l' : List α} {a : α} {i : Nat} (h : l <+: l') (ha : l[i]? = some a) :
    l'[i]? = some a := by
  obtain ⟨rest, rfl⟩ := h
  rw [List.getElem?_append_left (List.getElem?_eq_some_iff.1 ha).1, ha]

theorem Under.corbSlot_lt (hu : Under t r x y placed told taken) (p : Nat) : x.slot p < 256 :=
  Nat.lt_of_lt_of_le (Numbering.slot_lt (hu.corbSize ▸ Nat.lt_of_lt_of_le Nat.zero_lt_two r.corbEntries.two_le_count))
    (hu.corbSize ▸ r.corbEntries.count_le)

theorem Under.rirbSlot_lt (hu : Under t r x y placed told taken) (p : Nat) : y.slot p < 256 :=
  Nat.lt_of_lt_of_le (Numbering.slot_lt (hu.rirbSize ▸ Nat.lt_of_lt_of_le Nat.zero_lt_two r.rirbEntries.two_le_count))
    (hu.rirbSize ▸ r.rirbEntries.count_le)

/-- No slot of one ring touches one of the other. -/
theorem Under.slots_apart (hu : Under t r x y placed told taken) (p q : Nat) :
    t.corbAt (x.slot p) + 4 ≤ t.rirbAt (y.slot q) ∨ t.rirbAt (y.slot q) + 8 ≤ t.corbAt (x.slot p) := by
  have hp := hu.corbSlot_lt p
  have hq := hu.rirbSlot_lt q
  have hapart := hu.apart
  rw [hu.served.corbAt _ hp, hu.served.rirbAt _ hq]
  simp only [Apart, corbLength, rirbLength, corbSlot, rirbSlot] at hapart ⊢
  omega

theorem Under.corbSlots_apart (hu : Under t r x y placed told taken) {p q : Nat} (hlt : p < q) (hround : q < p + x.size) :
    t.corbAt (x.slot p) + 4 ≤ t.corbAt (x.slot q) ∨ t.corbAt (x.slot q) + 4 ≤ t.corbAt (x.slot p) := by
  have hne := Numbering.slot_ne hlt hround
  rw [hu.served.corbAt _ (hu.corbSlot_lt p), hu.served.corbAt _ (hu.corbSlot_lt q)]
  simp only [corbSlot]
  omega

theorem Under.rirbSlots_apart (hu : Under t r x y placed told taken) {p q : Nat} (hlt : p < q) (hround : q < p + y.size) :
    t.rirbAt (y.slot p) + 8 ≤ t.rirbAt (y.slot q) ∨ t.rirbAt (y.slot q) + 8 ≤ t.rirbAt (y.slot p) := by
  have hne := Numbering.slot_ne hlt hround
  rw [hu.served.rirbAt _ (hu.rirbSlot_lt p), hu.served.rirbAt _ (hu.rirbSlot_lt q)]
  simp only [rirbSlot]
  omega

theorem load32_answer (m : Nat → Byte) (p : Nat) (answer extended : BitVec 32) :
    load32 (store32 (store32 m p answer) (p + 4) extended) p = answer := by
  rw [load32_store32_of_disjoint _ _ (.inl (Nat.le_refl _)), load32_store32]

theorem load32_answer_of_apart (m : Nat → Byte) (answer extended : BitVec 32) {p q : Nat} (h : q + 4 ≤ p ∨ p + 8 ≤ q) :
    load32 (store32 (store32 m p answer) (p + 4) extended) q = load32 m q := by
  rw [load32_store32_of_disjoint _ _ (by omega), load32_store32_of_disjoint _ _ (by omega)]

/-- **Whatever the device does by itself, it goes on lagging behind.** -/
theorem Lagging.step (hu : Under t r x y placed told taken) (h : Lagging t x y placed told taken d) (hs : Step d d') :
    Lagging t x y placed told taken d' := by
  have hlen := congrArg List.length h.queue
  rw [List.length_append, List.length_map] at hlen
  have htold := hu.told_le
  have hfetched := h.fetched_le
  have htaken := h.taken_le
  cases hs with
  | obeyCorb | obeyRirb => exact { h with }
  | resetRead hreset =>
    rw [h.orders, hu.reset] at hreset
    cases hreset
  | endReset => exact { h with inReset := rfl }
  | fetch word slot hrun hreset hne hslot hword =>
    rw [h.orders, hu.served.corbSlots, ← hu.corbSize, h.corbRead, Numbering.slot_succ] at hslot
    rw [h.orders, hu.write, h.corbRead] at hne
    have hlt : d.fetched.length < told := Nat.lt_of_le_of_ne hfetched fun heq => hne (congrArg x.slot heq)
    have hplaced : placed[d.fetched.length]? = some word := by
      have hthere := List.getElem?_eq_getElem (Nat.lt_of_lt_of_le hlt htold)
      rw [hthere, hword, hslot, h.orders, h.words _ _ (Nat.le_refl _) hthere]
    refine { h with corbRead := ?_, fetched := prefix_snoc h.fetched hplaced, fetched_le := ?_, queue := ?_, words := ?_ }
    · rw [hslot, List.length_append, List.length_singleton]
    · rw [List.length_append, List.length_singleton]
      exact hlt
    · rw [h.queue, List.append_assoc]
    · intro p w hp
      rw [List.length_append, List.length_singleton] at hp
      exact h.words p w (Nat.le_of_succ_le hp)
  | respond p answer extended hrun hout hnone hp =>
    have hsome := List.length_pos_iff.2 hout
    have hroom := hu.rirbRoom
    rw [h.orders, hu.served.rirbSlots, ← hu.rirbSize, h.rirbWrite, Numbering.slot_succ] at hp
    subst hp
    refine { h with words := ?_, answers := ?_, pending := ?_ }
    · intro p word hp hword
      rw [load32_answer_of_apart _ _ _ (hu.slots_apart _ _)]
      exact h.words p word hp hword
    · intro q e hq he
      have hlt : q < d.answered.length := (List.getElem?_eq_some_iff.1 he).1
      have hapart := hu.rirbSlots_apart (Nat.add_lt_add_right hlt 1) (by omega)
      rw [load32_answer_of_apart _ _ _ (by omega)]
      exact h.answers q e hq he
    · intro a ha
      cases ha
      exact load32_answer _ _ _ _
  | announce word answer rest hout hsome =>
    refine { h with rirbWrite := ?_, queue := ?_, taken_le := ?_, answers := ?_, pending := nofun }
    · rw [h.orders, hu.served.rirbSlots, ← hu.rirbSize, h.rirbWrite, Numbering.slot_succ, List.length_append,
        List.length_singleton]
    · rw [h.queue, hout, List.map_append, List.append_assoc]
      rfl
    · rw [List.length_append]
      exact Nat.le_add_right_of_le htaken
    · intro q e hq he
      rcases Nat.lt_or_ge q d.answered.length with hlt | hge
      · rw [List.getElem?_append_left hlt] at he
        exact h.answers q e hq he
      · rw [List.getElem?_append_right hge, List.getElem?_singleton] at he
        split at he
        · rename_i hq
          obtain rfl : q = d.answered.length := by omega
          cases he
          exact h.pending answer hsome
        · cases he

theorem Lagging.stable (hu : Under t r x y placed told taken) : Stable (Lagging t x y placed told taken) :=
  fun _ _ h hs => h.step hu hs

/-- What holds of the answers so far holds on. -/
theorem Lagging.stableWith (hu : Under t r x y placed told taken) {P : List (BitVec 32 × BitVec 32) → Prop}
    (hP : ∀ l l', l <+: l' → P l → P l') : Stable fun d => Lagging t x y placed told taken d ∧ P d.answered :=
  fun _ _ h hs => ⟨h.1.step hu hs, hP _ _ hs.answered h.2⟩

/-! ### What the host does to it -/

/-- Only where the rings lie and how large they are matters. -/
theorem Under.move (hu : Under t r x y placed told taken) (write read : Nat) :
    Under t { r with writeCursor := write, readCursor := read } x y placed told taken :=
  { hu with served := { hu.served with } }

theorem Under.place (hu : Under t r x y placed told taken) (word : BitVec 32) (hcorb : placed.length + 1 < taken + x.size)
    (hrirb : placed.length + 1 < taken + y.size) : Under t r x y (placed ++ [word]) told taken :=
  have hlen : (placed ++ [word]).length = placed.length + 1 := List.length_append
  { hu with told_le := hlen ▸ Nat.le_succ_of_le hu.told_le, corbRoom := hlen ▸ hcorb, rirbRoom := hlen ▸ hrirb }

theorem Under.tell (hu : Under t r x y placed told taken) {k : Nat} (hk : placed.length = k) :
    Under { t with corbWrite := x.slot k } r x y placed k taken :=
  { hu with served := { hu.served with }, write := rfl, told_le := Nat.le_of_eq hk.symm }

theorem Under.take (hu : Under t r x y placed told taken) : Under t r x y placed told (taken + 1) :=
  { hu with corbRoom := by have := hu.corbRoom; omega, rirbRoom := by have := hu.rirbRoom; omega }

/-- A word goes into the slot after the last one. -/
theorem Lagging.place (hu : Under t r x y placed told taken) (h : Lagging t x y placed told taken d) (word : BitVec 32) :
    Lagging t x y (placed ++ [word]) told taken
      { d with memory := store32 d.memory (t.corbAt (x.slot (placed.length + 1))) word } := by
  have hlen := congrArg List.length h.queue
  rw [List.length_append, List.length_map] at hlen
  have htaken := h.taken_le
  have hroom := hu.corbRoom
  refine { h with fetched := h.fetched.trans (List.prefix_append _ _), words := ?_, answers := ?_, pending := ?_ }
  · intro p w hp hw
    change d.fetched.length ≤ p at hp
    rcases Nat.lt_or_ge p placed.length with hlt | hge
    · rw [List.getElem?_append_left hlt] at hw
      rw [load32_store32_of_disjoint _ _ (hu.corbSlots_apart (Nat.add_lt_add_right hlt 1) (by omega))]
      exact h.words p w hp hw
    · rw [List.getElem?_append_right hge, List.getElem?_singleton] at hw
      split at hw
      · obtain rfl : p = placed.length := by omega
        cases hw
        exact load32_store32 _ _ _
      · cases hw
  · intro q e hq he
    have hapart := hu.slots_apart (placed.length + 1) (q + 1)
    rw [load32_store32_of_disjoint _ _ (by omega)]
    exact h.answers q e hq he
  · intro a ha
    have hapart := hu.slots_apart (placed.length + 1) (d.answered.length + 1)
    exact (load32_store32_of_disjoint d.memory word (p := t.rirbAt (y.slot (d.answered.length + 1))) (by omega)).trans
      (h.pending a ha)

/-- The device is told of all the words. -/
theorem Lagging.tell (hu : Under t r x y placed told taken) (h : Lagging t x y placed told taken d) {k : Nat}
    (hk : placed.length = k) : Lagging { t with corbWrite := x.slot k } x y placed k taken
      (d.take Register.corbwp ((BitVec.ofNat 16 (x.slot k)).setWidth 32)) := by
  have hlt := hu.corbSlot_lt k
  have hv : ((BitVec.ofNat 16 (x.slot k)).setWidth 32).toNat % 256 = x.slot k := by
    simp only [BitVec.toNat_setWidth, BitVec.toNat_ofNat]
    omega
  obtain ⟨rfl, h1, h2, h3, h4, h5, h6, h7, h8, h9, h10⟩ := h
  exact ⟨congrArg (fun slot => { d.told with corbWrite := slot }) hv, h1, h2, h3, h4,
    hk ▸ Nat.le_trans h5 hu.told_le, h6, h7, h8, h9, h10⟩

theorem Lagging.acknowledge (h : Lagging t x y placed told taken d) (v : BitVec 32) :
    Lagging t x y placed told taken (d.take Register.rirbsts v) := by
  obtain ⟨rfl, h1, h2, h3, h4, h5, h6, h7, h8, h9, h10⟩ := h
  exact ⟨rfl, h1, h2, h3, h4, h5, h6, h7, h8, h9, h10⟩

theorem Lagging.take (h : Lagging t x y placed told taken d) (hlt : taken < d.answered.length) :
    Lagging t x y placed told (taken + 1) d :=
  { h with taken_le := hlt, answers := fun q e hq => h.answers q e (Nat.le_of_succ_le hq) }

/-- The next answer to be taken is to the next of the words. -/
theorem Lagging.next (h : Lagging t x y placed told taken d) (hlt : taken < d.answered.length) :
    ∃ e, placed[taken]? = some e.1 ∧ d.answered[taken]? = some e := by
  have he := List.getElem?_eq_getElem hlt
  refine ⟨d.answered[taken], ?_, he⟩
  have hfetched : d.fetched[taken]? = some d.answered[taken].1 := by
    rw [h.queue, List.getElem?_append_left (by rwa [List.length_map]), List.getElem?_map, he]
    rfl
  exact getElem?_of_prefix h.fetched hfetched

end

/-! ### One exchange -/

/-- Between two exchanges: these words were placed, so many answers were taken, and the difference is less than `size`,
which either ring has the slots for. -/
def Lags (size : Nat) (r : CommandRings) (placed : List (BitVec 32)) (taken : Nat) (d : RingDevice) : Prop :=
  ∃ t x y told, Under t r x y placed told taken ∧ Lagging t x y placed told taken d ∧ size ≤ x.size ∧ size ≤ y.size ∧
    r.writeCursor = x.slot placed.length ∧ r.readCursor = y.slot taken

/-- What an exchange that failed may leave. -/
def Slips (size : Nat) (placed : List (BitVec 32)) (taken : Nat) (r : CommandRings) (d : RingDevice) : Prop :=
  ∃ taken', (taken' = taken ∨ taken' = taken + 1) ∧ Lags size r placed taken' d

section
variable {t : RingOrders} {r : CommandRings} {x y : Numbering} {placed : List (BitVec 32)} {told taken size n : Nat}
  {d : RingDevice} {word : BitVec 32}

/-- The wait for a response ends with one that was not taken. -/
theorem awaitResponse_brittle (limit : WaitLimit) (hu : Under t r x y placed told taken)
    (h : Lagging t x y placed told taken d) {σ : Type} {s : σ} :
    Ensures brittle n (waitUntil .rirbResponse limit do
        return (RirbWritePointer.mk (← read16 Register.rirbwp)).slot != y.slot taken) s d
      (.unlessStuck (fun _ s' d' => s' = s ∧ Lagging t x y placed told taken d' ∧ taken < d'.answered.length)
        fun s' d' => s' = s ∧ Lagging t x y placed told taken d') := by
  refine ensures_await_brittle (f := fun v => (RirbWritePointer.mk v).slot != y.slot taken) (Lagging.stable hu) ?_ h
  intro raw d h hshows hne
  rw [bne_iff_ne, slot_rirbWritePointer, hshows.rirbWrite rfl, h.rirbWrite] at hne
  exact ⟨h, Nat.lt_of_le_of_ne h.taken_le fun heq => hne (congrArg y.slot heq.symm)⟩

/-- Taking the first answer that was not taken yet. -/
theorem takeAnswer_lags (word : BitVec 32) (hu : Under t r x y placed told taken) (h : Lagging t x y placed told taken d)
    (hlt : taken < d.answered.length) (hread : r.readCursor = y.slot (taken + 1)) :
    Ensures brittle n (do
        let response ← r.rirb.load32 (r.readCursor * rirbSlot)
        write8 Register.rirbsts statusClear
        note (.answered .rings word response)
        return response) r d
      (.unlessStuck (fun a r' d' => r' = r ∧ Lagging t x y placed told (taken + 1) d' ∧
        ∃ w, placed[taken]? = some w ∧ d'.answered[taken]? = some (w, a))
        fun r' d' => r' = r ∧ Lagging t x y placed told (taken + 1) d') := by
  have hj := hu.rirbSlot_lt (taken + 1)
  have hlong := hu.served.rirbLong
  simp only [rirbLength, rirbSlot] at hlong
  rw [hread, ensures_bind, ensures_load32 (by simp only [rirbSlot]; omega) (by simp only [rirbSlot]; omega)]
  intro v d₁ hload
  have hanswered := Lagging.stableWith hu (P := fun l => taken < l.length) fun _ _ hl hlt => Nat.lt_of_lt_of_le hlt hl.length_le
  obtain ⟨d, ⟨h, hlt⟩, rfl, rfl⟩ := hanswered.brittle ⟨h, hlt⟩ hload
  obtain ⟨⟨w, a⟩, hw, he⟩ := h.next hlt
  have ha := h.answers taken _ (Nat.le_refl _) he
  rw [hu.served.rirbAt _ hj] at ha
  rw [ha]
  -- it stays the answer to that word
  have hkept := Lagging.stableWith hu.take (P := fun l => l[taken]? = some (w, a)) fun _ _ hl hw =>
    getElem?_of_prefix hl hw
  refine Ensures.orFailThen ((ensures_write_kept hkept ⟨h.take hlt, he⟩ fun d h => ⟨h.1.acknowledge _, h.2⟩).weaken
    (fun _ _ _ => id) fun _ _ h => ⟨h.1, h.2.1⟩) ?_
  rintro - s d ⟨rfl, h⟩
  refine ensures_bind.2 (ensures_note.2 fun d' hw' => ?_)
  obtain ⟨d, ⟨h, he⟩, rfl⟩ := hkept.brittle h hw'
  exact ⟨rfl, h, w, hw, he⟩

/-- **One exchange** places its word behind all that were placed, and hands out the answer to the first whose answer was not
taken yet. -/
theorem exchange_lags (word : BitVec 32) (h : Lags size r placed taken d) (hroom : placed.length + 1 < taken + size) :
    Ensures brittle n (exchange word) r d (.unlessStuck (fun a r' d' => Lags size r' (placed ++ [word]) (taken + 1) d' ∧
      ∃ w, (placed ++ [word])[taken]? = some w ∧ d'.answered[taken]? = some (w, a)) (Slips size (placed ++ [word]) taken)) := by
  obtain ⟨t, x, y, told, hu, h, hx, hy, hwrite, hread⟩ := h
  have hslot : r.advanceWrite.writeCursor = x.slot (placed.length + 1) := by
    rw [advanceWrite, hwrite, ← hu.corbSize, Numbering.slot_succ]
  have hi := hu.corbSlot_lt (placed.length + 1)
  have hlong := hu.served.corbLong
  simp only [corbLength, corbSlot] at hlong
  refine ensures_bind.2 (ensures_modify.2 (ensures_bind.2 (ensures_get.2 (ensures_bind.2 ?_))))
  rw [hslot, ensures_store32 (by change _ ≤ r.corb.length; simp only [corbSlot]; omega) (by simp [corbSlot])]
  -- the word goes into its slot
  intro d₁ hstore
  obtain ⟨d, h, rfl⟩ := (Lagging.stable hu).brittle h hstore
  have hplaced := h.place hu word
  rw [hu.served.corbAt _ hi] at hplaced
  have hu := (hu.place word (by omega) (by omega)).move r.advanceWrite.writeCursor r.readCursor
  have hlen : (placed ++ [word]).length = placed.length + 1 := List.length_append
  -- the device is told of it
  have hfailed : ∀ {t told s' d'}, Under t r.advanceWrite x y (placed ++ [word]) told taken →
      s' = r.advanceWrite ∧ Lagging t x y (placed ++ [word]) told taken d' → Slips size (placed ++ [word]) taken s' d' := by
    rintro t told _ d' hu ⟨rfl, h⟩
    exact ⟨taken, .inl rfl, t, x, y, told, hu, h, hx, hy, hlen ▸ hslot, hread⟩
  refine Ensures.orFailThen ((ensures_write_brittle (Lagging.stable hu) hplaced fun d h => h.tell hu hlen).weaken
    (fun _ _ _ => id) ?_) ?_
  · rintro _ d' ⟨hs, h | h⟩
    · exact hfailed hu ⟨hs, h⟩
    · exact hfailed (hu.tell hlen) ⟨hs, h⟩
  have hu := hu.tell hlen
  rintro - _ d ⟨rfl, h⟩
  -- until it has been fetched
  refine Ensures.orFailThen ((ensures_await_brittle (f := fun v => (CorbReadPointer.mk v).slot == x.slot (placed.length + 1))
    (Lagging.stable hu) (fun _ _ h _ _ => h) h).weaken (fun _ _ _ => id) fun _ _ => hfailed hu) ?_
  rintro - _ d ⟨rfl, h⟩
  -- until there is a response
  have hawait := (awaitResponse_brittle (n := n) (s := r.advanceWrite) r.drainLimit hu h).weaken (fun _ _ _ => id)
    fun _ _ => hfailed hu
  rw [← hread] at hawait
  refine Ensures.orFailThen hawait ?_
  rintro - _ d ⟨rfl, h, hlt⟩
  refine ensures_bind.2 (ensures_modify.2 (ensures_bind.2 (ensures_get.2 ?_)))
  have hnext : r.advanceWrite.advanceRead.readCursor = y.slot (taken + 1) := by
    rw [← Numbering.slot_succ, hu.rirbSize, ← hread]
    rfl
  have hu := hu.move r.advanceWrite.writeCursor r.advanceRead.readCursor
  refine (takeAnswer_lags (r := r.advanceWrite.advanceRead) word hu h hlt hnext).weaken ?_ ?_
  · rintro a _ d' ⟨rfl, h, hw⟩
    exact ⟨⟨_, x, y, _, hu.take, h, hx, hy, hlen ▸ hslot, hnext⟩, hw⟩
  · rintro _ d' ⟨rfl, h⟩
    exact ⟨taken + 1, .inr rfl, _, x, y, _, hu.take, h, hx, hy, hlen ▸ hslot, hnext⟩

end

/-! ### One exchange after the other -/

/-- Where the host is: the words it placed, the number of answers it took, and the answers the device gave. -/
structure Progress where
  placed : List (BitVec 32)
  taken : Nat
  answered : List (BitVec 32 × BitVec 32)

/-- How many responses the host is behind. -/
def Progress.lag (p : Progress) : Nat := p.placed.length - p.taken

/-- Where it is once it has placed a word, and taken the next answer or missed it. -/
def Progress.next (p : Progress) (word : BitVec 32) (took : Bool) (answered : List (BitVec 32 × BitVec 32)) : Progress :=
  ⟨p.placed ++ [word], p.taken + took.toNat, answered⟩

/-- Only the answers that were missed add up. -/
theorem Progress.lag_next {p : Progress} (hle : p.taken ≤ p.placed.length) (word : BitVec 32) (took : Bool)
    (answered : List (BitVec 32 × BitVec 32)) : (p.next word took answered).lag = p.lag + (!took).toNat := by
  have hlen : (p.placed ++ [word]).length = p.placed.length + 1 := List.length_append
  simp only [Progress.lag, Progress.next, hlen]
  cases took <;> simp only [Bool.toNat_true, Bool.toNat_false, Bool.not_true, Bool.not_false] <;> omega

theorem Progress.taken_next {p : Progress} (hle : p.taken ≤ p.placed.length) (word : BitVec 32) (took : Bool)
    (answered : List (BitVec 32 × BitVec 32)) : (p.next word took answered).taken ≤ (p.next word took answered).placed.length := by
  have htook := took.toNat_le
  simp only [Progress.next, List.length_append, List.length_singleton]
  omega

/-- What an exchange of `word` comes to, where the rings have room for what the host is behind: it hands out the answer to the
word that is as many places before its own, and if it fails, then the host may be one more behind. -/
def Trails (size : Nat) (p : Progress) (word : BitVec 32) (r : Except Error (BitVec 32)) (p' : Progress) : Prop :=
  p'.placed = p.placed ++ [word] ∧ p.answered <+: p'.answered ∧ match r with
    | .ok a => p'.lag = p.lag ∧ (p.lag + 1 < size →
      ∃ w, p'.placed[p.placed.length - p.lag]? = some w ∧ p'.answered[p.placed.length - p.lag]? = some (w, a))
    | .error _ => p'.lag = p.lag ∨ p'.lag = p.lag + 1

/-- The rings and the device are where the host is, as long as there is room for another word. -/
structure Reached (size : Nat) (p : Progress) (r : CommandRings) (d : RingDevice) : Prop where
  roomy : r.Roomy
  taken_le : p.taken ≤ p.placed.length
  answered : p.answered <+: d.answered
  lags : p.lag + 1 < size → Lags size r p.placed p.taken d ∧ d.answered = p.answered

section
variable {size n : Nat} {p : Progress} {r : CommandRings} {d : RingDevice}

/-- An exchange that may overrun the rings. -/
theorem exchange_overruns (word : BitVec 32) (h : Reached size p r d) : Ensures brittle n (exchange word) r d
    (throughout fun r' d' => r'.Roomy ∧ p.answered <+: d'.answered) := by
  have hkeeps := CommandRings.exchange_keeps (W := brittle) (K := fun d => p.answered <+: d.answered)
    (fun _ _ _ _ _ hw hd => hd.trans (answered_brittle hw)) word n r d ⟨rfl, h.roomy⟩ h.answered
  exact hkeeps.mono (fun _ _ _ h => ⟨h.1.2, h.2⟩) (fun _ _ _ h => ⟨h.1.2, h.2⟩) (fun _ => id) fun _ => id

/-- Where an exchange leaves the rings, if there was room for its word. -/
theorem Reached.next {took : Bool} {word : BitVec 32} {r' : CommandRings} {d' : RingDevice} (h : Reached size p r d)
    (hroomy : r'.Roomy) (hlags : p.lag + 1 < size → Lags size r' (p.placed ++ [word]) (p.taken + took.toNat) d') :
    Reached size (p.next word took d'.answered) r' d' := by
  refine ⟨hroomy, Progress.taken_next h.taken_le word took _, List.prefix_rfl, fun hroom => ⟨hlags ?_, rfl⟩⟩
  rw [Progress.lag_next h.taken_le] at hroom
  omega

theorem exchange_trails (word : BitVec 32) (h : Reached size p r d) : Ensures brittle n (exchange word) r d
    ⟨fun a r' d' => ∃ p', Reached size p' r' d' ∧ Trails size p word (.ok a) p',
      fun e r' d' => ∃ p', Reached size p' r' d' ∧ Trails size p word (.error e) p', fun _ => False, fun _ => True⟩ := by
  have hlag := Progress.lag_next h.taken_le word
  by_cases hroom : p.lag + 1 < size
  · have hsub : p.placed.length - p.lag = p.taken := Nat.sub_sub_self h.taken_le
    have hroom' : p.placed.length + 1 < p.taken + size := by
      unfold Progress.lag at hroom
      omega
    refine ((exchange_overruns word h).and (exchange_lags word (h.lags hroom).1 hroom')).mono ?_ ?_ (fun _ h => h.1)
      fun _ _ => trivial
    · rintro a r' d' ⟨⟨hroomy, hanswered⟩, hlags, hown⟩
      refine ⟨p.next word true d'.answered, h.next hroomy fun _ => hlags, rfl, hanswered, hlag true _, fun _ => ?_⟩
      rwa [hsub]
    · rintro e r' d' ⟨⟨hroomy, hanswered⟩, taken', rfl | rfl, hlags⟩
      · exact ⟨p.next word false d'.answered, h.next hroomy fun _ => hlags, rfl, hanswered, .inr (hlag false _)⟩
      · exact ⟨p.next word true d'.answered, h.next hroomy fun _ => hlags, rfl, hanswered, .inl (hlag true _)⟩
  · -- nothing is said of what was handed out any more
    refine (exchange_overruns word h).mono ?_ ?_ (fun _ => id) fun _ => id
    · rintro a r' d' ⟨hroomy, hanswered⟩
      exact ⟨p.next word true d'.answered, h.next hroomy fun h => absurd h hroom, rfl, hanswered, hlag true _,
        fun h => absurd h hroom⟩
    · rintro e r' d' ⟨hroomy, hanswered⟩
      exact ⟨p.next word true d'.answered, h.next hroomy fun h => absurd h hroom, rfl, hanswered, .inl (hlag true _)⟩

/-- Rings in step are not behind. -/
theorem InStep.reached {t : RingOrders} {A : List (BitVec 32 × BitVec 32)} (h : InStep t r (A.map (·.1)) A d)
    (hapart : Apart r) :
    Reached (min r.corbEntries.count r.rirbEntries.count) ⟨A.map (·.1), A.length, A⟩ r d := by
  obtain ⟨x, hx, hwrite⟩ := Numbering.exists_slot h.corb_lt A.length
  obtain ⟨y, hy, hread⟩ := Numbering.exists_slot h.rirb_lt A.length
  have hlen : (A.map (·.1)).length = A.length := List.length_map _
  have hanswered := h.stands.answered
  have hfetched := h.stands.fetched
  have hcorb := r.corbEntries.two_le_count
  have hrirb := r.rirbEntries.two_le_count
  have hu : Under t r x y (A.map (·.1)) A.length A.length :=
    ⟨h.served, hapart, h.reset, hx, hy, h.write.trans hwrite.symm, Nat.le_of_eq hlen.symm, by omega, by omega⟩
  refine ⟨⟨h.served.corbLong, h.served.rirbLong, h.corb_lt, h.rirb_lt⟩, Nat.le_of_eq hlen.symm, hanswered ▸ List.prefix_rfl,
    fun _ => ⟨⟨t, x, y, A.length, hu, ?_, hx ▸ Nat.min_le_left _ _, hy ▸ Nat.min_le_right _ _, hlen.symm ▸ hwrite.symm,
      hread.symm⟩, hanswered⟩⟩
  refine ⟨h.stands.told, h.stands.inReset, ?_, ?_, hfetched ▸ List.prefix_rfl, ?_, ?_, Nat.le_of_eq (congrArg _ hanswered.symm),
    ?_, ?_, ?_⟩
  · rw [h.stands.corbRead, hfetched, hlen, hwrite]
  · rw [h.stands.rirbWrite, hanswered, hread]
  · exact Nat.le_of_eq (by rw [hfetched, hlen])
  · rw [hfetched, hanswered, h.stands.outstanding, List.append_nil]
  · intro p word hp hword
    rw [hfetched] at hp
    rw [List.getElem?_eq_none hp] at hword
    cases hword
  · intro q e hq he
    rw [hanswered, List.getElem?_eq_none hq] at he
    cases he
  · rw [h.stands.unannounced]
    exact nofun

end

/-- **The host never catches up**: where rings start out in step, however the device takes its time and whatever fails, an
exchange hands out the answer to the word that is as many places before its own as responses were left behind by exchanges
that failed; its own, therefore, if none was.  This goes on for as long as the rings have room for what was left behind. -/
theorem attemptEach_trails {t : RingOrders} {r : CommandRings} {A : List (BitVec 32 × BitVec 32)} {d : RingDevice} {n : Nat}
    (h : InStep t r (A.map (·.1)) A d) (hapart : Apart r) (words : List (BitVec 32)) :
    Ensures brittle n (attemptEach exchange words) r d (.unlessStuck (fun exchanged _ d' => exchanged.map (·.1) = words ∧
      ∃ p', p'.answered <+: d'.answered ∧ Successively (Trails (min r.corbEntries.count r.rirbEntries.count))
        ⟨A.map (·.1), A.length, A⟩ exchanged p') fun _ _ => False) := by
  refine (ensures_attemptEach (Reached _) (Trails _) (fun word _ _ _ => exchange_trails word) words (h.reached hapart)).weaken
    ?_ fun _ _ => id
  rintro exchanged r' d' ⟨hwords, p', h, hexchanged⟩
  exact ⟨hwords, p', h.answered, hexchanged⟩

/-! ### A device that stalls once -/

/-- Two rings of 256 slots, one behind the other, and waits of three checks. -/
def newRings : CommandRings where
  corb := ⟨0, 0, 1024, 0⟩
  rirb := ⟨1024, 1024, 2048, 0⟩
  corbEntries := .twoFiftySix
  rirbEntries := .twoFiftySix
  writeCursor := 0
  readCursor := 0
  resetLimit := .unbounded
  drainLimit := .iterations 3

/-- The device behind them. -/
def newDevice : RingDevice where
  told := ⟨id, 0, 1024, 2, 2, true, true, false, 0⟩
  memory := fun _ => 0
  corbRunning := true
  rirbRunning := true
  corbInReset := false
  corbRead := 0
  rirbWrite := 0
  outstanding := []
  unannounced := none
  fetched := []
  answered := []

theorem newDevice_inStep : InStep newDevice.told newRings [] [] newDevice where
  served := ⟨rfl, rfl, fun _ _ => rfl, fun _ _ => rfl, by decide, by decide⟩
  stands := ⟨rfl, rfl, rfl, rfl, rfl, rfl, rfl, rfl⟩
  reset := rfl
  write := rfl
  corb_lt := by decide
  rirb_lt := by decide

theorem newRings_apart : Apart newRings := .inl (by decide)

theorem attemptEach_trails_newDevice : InStep newDevice.told newRings [] [] newDevice ∧ Apart newRings ∧
    Ensures brittle 1 (attemptEach exchange [5, 6]) newRings newDevice (.unlessStuck (fun exchanged _ d' =>
      exchanged.map (·.1) = [5, 6] ∧ ∃ p', p'.answered <+: d'.answered ∧
        Successively (Trails (min newRings.corbEntries.count newRings.rirbEntries.count)) ⟨[], 0, []⟩ exchanged p')
        fun _ _ => False) :=
  ⟨newDevice_inStep, newRings_apart, attemptEach_trails (A := []) newDevice_inStep newRings_apart [5, 6]⟩

/-- A device that fetches nothing while it has been told of one word, and gets round to everything at once otherwise. -/
def stalling (codec : BitVec 32 → BitVec 32) (c : Call) (d : RingDevice) : c.Answer × RingDevice :=
  if d.told.corbWrite = 1 then d.reply c else eager codec c d

theorem settles_reply {d : RingDevice} (c : Call) (hreach : d.told.reach = id) :
    d.Settles c (d.reply c).1 (d.reply c).2 ∧ (d.reply c).2.answered = d.answered := by
  have haccess := access_reply c hreach
  cases c with
  | read w o =>
    refine ⟨?_, rfl⟩
    change d.Access (.read w o) (d.replyRead o) d at haccess
    change d.Settles (.read w o) (d.replyRead o) d
    generalize d.replyRead o = answer at haccess ⊢
    cases answer with
    | error e => rfl
    | ok v => exact haccess
  | write | allocate | free | load32 | store32 | clear | note => exact ⟨haccess, rfl⟩
  | _ => exact ⟨trivial, rfl⟩

/-- What that device does, a device may do. -/
theorem brittle_stalling (codec : BitVec 32 → BitVec 32) (c : Call) {d : RingDevice} (hreach : d.told.reach = id) :
    brittle c d (stalling codec c d).1 (stalling codec c d).2 ∧ (stalling codec c d).2.told.reach = id := by
  have hreply : ∀ {d₁}, Relation.ReflTransGen Step d d₁ → d₁.told.reach = id →
      brittle c d (d₁.reply c).1 (d₁.reply c).2 ∧ (d₁.reply c).2.told.reach = id := by
    intro d₁ hsteps hreach
    obtain ⟨hsettles, hanswered⟩ := settles_reply c hreach
    exact ⟨⟨d₁, hsteps, hsettles, hanswered ▸ List.prefix_rfl⟩, (reply_reach d₁ c).trans hreach⟩
  unfold stalling
  split
  · exact hreply .refl hreach
  · exact hreply (catchUp_steps codec d) (catchUp_told codec d ▸ hreach)

/-- The second word was handed out 6, which the first was answered. -/
def behind : Ending (Except Error (List (BitVec 32 × Except Error (BitVec 32))) × CommandRings) × RingDevice → Bool
  | (.result (.ok exchanged, _), d) =>
    exchanged.any (fun e => e.1 = 6 && e.2.toOption = some 6) && d.answered = [(5, 6), (6, 7)]
  | _ => false

/-- **An exchange that failed puts the host behind**: where the device fetches the first of two words only once it is told of
the second, the second exchange hands out the answer to the first. -/
theorem attemptEach_falls_behind : ¬∀ (words : List (BitVec 32)) (t : RingOrders) (r : CommandRings)
    (A : List (BitVec 32 × BitVec 32)) (d : RingDevice), InStep t r (A.map (·.1)) A d → Apart r →
    Ensures brittle 1 (attemptEach exchange words) r d (.unlessStuck (fun exchanged _ d' =>
      ∀ word a, (word, .ok a) ∈ exchanged → (word, a) ∈ d'.answered) fun _ _ => False) := by
  intro hown
  have hends := Program.ends_run (I := fun d => d.told.reach = id) (fun c _ => brittle_stalling (· + 1) c)
    (p := attemptEach exchange [5, 6] 1 newRings) (w := newDevice) rfl
  have hbehind : behind ((attemptEach exchange [5, 6] 1 newRings).run (stalling (· + 1)) newDevice) = true := by
    decide +kernel
  have hexchanged := Program.ensures_iff_ends.1 (hown [5, 6] _ _ [] _ newDevice_inStep newRings_apart) _ _ hends
  generalize (attemptEach exchange [5, 6] 1 newRings).run (stalling (· + 1)) newDevice = ended at hbehind hexchanged
  obtain ⟨⟨e | exchanged, r⟩ | cause | _, d⟩ := ended
  · cases hbehind
  · obtain ⟨hsecond, hanswered⟩ := Bool.and_eq_true_iff.1 hbehind
    obtain ⟨⟨word, result⟩, hmem, hsecond⟩ := List.any_eq_true.1 hsecond
    obtain ⟨hword, hresult⟩ := Bool.and_eq_true_iff.1 hsecond
    obtain rfl : word = 6 := of_decide_eq_true hword
    have hresult : result.toOption = some 6 := of_decide_eq_true hresult
    have hanswered : d.answered = [(5, 6), (6, 7)] := of_decide_eq_true hanswered
    cases result with
    | error e => cases hresult
    | ok a =>
      cases hresult
      have hown := hexchanged 6 6 hmem
      rw [hanswered] at hown
      exact absurd hown (by decide)
  · cases hbehind
  · cases hbehind

end CommandRings
end AudioBringup
