import Mathlib.Logic.Relation
import AudioBringup.Proofs.Ensures
import AudioBringup.Register
/-!
# Proofs.RingDevice — a controller that works its rings in its own time

The device fetches commands, answers them and obeys what it was told by steps of its own (`RingDevice.Step`).  Any
number of them goes before each call of the host, in any order (`RingDevice.world`).  What a codec answers is left open:
each answer is noted down as it is given, next to the command it is for.
-/
namespace AudioBringup

/-- The number in the four bytes from `p` on. -/
def load32 (m : Nat → Byte) (p : Nat) : BitVec 32 := m (p + 3) ++ m (p + 2) ++ m (p + 1) ++ m p

/-- The bytes with a number in the four of them from `p` on. -/
def store32 (m : Nat → Byte) (p : Nat) (v : BitVec 32) : Nat → Byte := fun q =>
  if p ≤ q ∧ q < p + 4 then v.extractLsb' (8 * (q - p)) 8 else m q

theorem load32_store32 (m : Nat → Byte) (p : Nat) (v : BitVec 32) : load32 (store32 m p v) p = v := by
  have h1 : p + 1 - p = 1 := by omega
  have h2 : p + 2 - p = 2 := by omega
  have h3 : p + 3 - p = 3 := by omega
  simp only [load32, store32, Nat.le_add_right, Nat.le_refl, Nat.add_lt_add_iff_left, Nat.lt_add_right_iff_pos, true_and,
    Nat.sub_self, h1, h2, h3, Nat.reduceLT, if_true, Nat.reduceMul]
  rw [BitVec.extractLsb'_append_extractLsb'_eq_extractLsb' (by decide),
    BitVec.extractLsb'_append_extractLsb'_eq_extractLsb' (by decide),
    BitVec.extractLsb'_append_extractLsb'_eq_extractLsb' (by decide)]
  exact BitVec.extractLsb'_eq_self

theorem load32_store32_of_disjoint (m : Nat → Byte) (v : BitVec 32) {p q : Nat} (h : p + 4 ≤ q ∨ q + 4 ≤ p) :
    load32 (store32 m q v) p = load32 m p := by
  unfold load32 store32
  rw [if_neg (by omega), if_neg (by omega), if_neg (by omega), if_neg (by omega)]

/-- What only the host changes. -/
structure RingOrders where
  /-- the host address behind a device address -/
  reach : Nat → Nat
  corbBase : BitVec 64
  rirbBase : BitVec 64
  corbSize : BitVec 8
  rirbSize : BitVec 8
  corbRun : Bool
  rirbRun : Bool
  corbReset : Bool
  corbWrite : Nat

namespace RingOrders

/-- How many slots a ring has by its size register. -/
def slots (size : BitVec 8) : Nat :=
  match size.toNat % 4 with
  | 0 => 2
  | 1 => 16
  | _ => 256

/-- Where the host finds a slot of the command ring. -/
def corbAt (t : RingOrders) (slot : Nat) : Nat := t.reach (t.corbBase.toNat + slot * 4)

/-- Where the host finds a slot of the response ring. -/
def rirbAt (t : RingOrders) (slot : Nat) : Nat := t.reach (t.rirbBase.toNat + slot * 8)

/-- A region an allocation of `k` bytes may be answered by: long enough, and reached by the device where it says. -/
structure Admits (t : RingOrders) (k : Nat) (g : Region) : Prop where
  long : k ≤ g.length
  reached : ∀ i < g.length, t.reach (g.address.toNat + i) = g.host + i

/-- What a register write changes. -/
def take (t : RingOrders) (o v : BitVec 32) : RingOrders :=
  if o = Register.corblbase then { t with corbBase := t.corbBase.extractLsb' 32 32 ++ v }
  else if o = Register.corbubase then { t with corbBase := v ++ t.corbBase.extractLsb' 0 32 }
  else if o = Register.rirblbase then { t with rirbBase := t.rirbBase.extractLsb' 32 32 ++ v }
  else if o = Register.rirbubase then { t with rirbBase := v ++ t.rirbBase.extractLsb' 0 32 }
  else if o = Register.corbsize then { t with corbSize := t.corbSize.extractLsb' 2 6 ++ v.extractLsb' 0 2 }
  else if o = Register.rirbsize then { t with rirbSize := t.rirbSize.extractLsb' 2 6 ++ v.extractLsb' 0 2 }
  else if o = Register.corbctl then { t with corbRun := v.getLsbD 1 }
  else if o = Register.rirbctl then { t with rirbRun := v.getLsbD 1 }
  else if o = Register.corbrp then { t with corbReset := v.getLsbD 15 }
  else if o = Register.corbwp then { t with corbWrite := v.toNat % 256 }
  else t

end RingOrders

/-- A device with two rings. -/
structure RingDevice where
  told : RingOrders
  memory : Nat → Byte
  corbRunning : Bool
  rirbRunning : Bool
  /-- the read pointer shows that it has been reset -/
  corbInReset : Bool
  corbRead : Nat
  rirbWrite : Nat
  /-- commands fetched and not answered yet, in order -/
  outstanding : List (BitVec 32)
  /-- an answer to the first of them that is in memory, with the write pointer still before it -/
  unannounced : Option (BitVec 32)
  /-- every command fetched so far -/
  fetched : List (BitVec 32)
  /-- every command answered so far, with its answer -/
  answered : List (BitVec 32 × BitVec 32)

namespace RingDevice

open Procedure
open RingOrders (slots)

/-- What the device does by itself. -/
inductive Step : RingDevice → RingDevice → Prop
  | obeyCorb (d : RingDevice) : Step d { d with corbRunning := d.told.corbRun }
  | obeyRirb (d : RingDevice) : Step d { d with rirbRunning := d.told.rirbRun }
  | resetRead (d : RingDevice) (h : d.told.corbReset = true) : Step d { d with corbInReset := true, corbRead := 0 }
  | endReset (d : RingDevice) (h : d.told.corbReset = false) : Step d { d with corbInReset := false }
  /-- takes the command in the slot after the read pointer -/
  | fetch (d : RingDevice) (word : BitVec 32) (slot : Nat) (hrun : d.corbRunning = true)
      (hreset : d.corbInReset = false) (hne : d.corbRead ≠ d.told.corbWrite)
      (hslot : slot = (d.corbRead + 1) % slots d.told.corbSize) (hword : word = load32 d.memory (d.told.corbAt slot)) :
      Step d { d with
        corbRead := slot, outstanding := d.outstanding ++ [word], fetched := d.fetched ++ [word] }
  /-- puts the answer to the first outstanding command, with its extension, in the slot after the write pointer -/
  | respond (d : RingDevice) (p : Nat) (answer extended : BitVec 32) (hrun : d.rirbRunning = true)
      (hout : d.outstanding ≠ []) (hnone : d.unannounced = none)
      (hp : p = d.told.rirbAt ((d.rirbWrite + 1) % slots d.told.rirbSize)) :
      Step d { d with
        memory := store32 (store32 d.memory p answer) (p + 4) extended
        unannounced := some answer }
  /-- moves the write pointer on to the answer in memory -/
  | announce (d : RingDevice) (word answer : BitVec 32) (rest : List (BitVec 32)) (hout : d.outstanding = word :: rest)
      (hsome : d.unannounced = some answer) :
      Step d { d with
        rirbWrite := (d.rirbWrite + 1) % slots d.told.rirbSize, outstanding := rest, unannounced := none
        answered := d.answered ++ [(word, answer)] }

/-- What a register read may show. -/
structure Shows (d : RingDevice) (o v : BitVec 32) : Prop where
  corbRunning : o = Register.corbctl → v.getLsbD 1 = d.corbRunning
  rirbRunning : o = Register.rirbctl → v.getLsbD 1 = d.rirbRunning
  corbInReset : o = Register.corbrp → v.getLsbD 15 = d.corbInReset
  corbRead : o = Register.corbrp → d.corbInReset = false → v.toNat % 256 = d.corbRead
  rirbWrite : o = Register.rirbwp → v.toNat % 256 = d.rirbWrite
  corbSize : o = Register.corbsize → v.setWidth 8 = d.told.corbSize
  rirbSize : o = Register.rirbsize → v.setWidth 8 = d.told.rirbSize

/-- The device after a register write: the response ring's write pointer is reset at once, everything else is an order. -/
def take (d : RingDevice) (o v : BitVec 32) : RingDevice :=
  { d with
    told := d.told.take o v
    rirbWrite := if o = Register.rirbwp ∧ v.getLsbD 15 = true then 0 else d.rirbWrite }

/-- How a call of the host may go.  Nothing is said of the device after a call that failed. -/
def Access (d : RingDevice) : (c : Call) → c.Answer → RingDevice → Prop
  | .read _ o, .ok v, d' => d.Shows o v ∧ d' = d
  | .write _ o v, .ok (), d' => d' = d.take o v
  | .allocate k, .ok g, d' => d.told.Admits k g ∧ d' = d
  | .free _, .ok (), d' => d' = d
  | .load32 p, v, d' => v = load32 d.memory p ∧ d' = d
  | .store32 p v, (), d' => d' = { d with memory := store32 d.memory p v }
  | .clear p k, (), d' => d' = { d with memory := fun q => if p ≤ q ∧ q < p + k then 0 else d.memory q }
  | .note _, (), d' => d' = d
  | _, _, _ => True

/-- The device does what it does by itself, and then a call goes through. -/
def world : World Call Call.Answer RingDevice := fun c d a d' => ∃ d₁, Relation.ReflTransGen Step d d₁ ∧ d₁.Access c a d'

/-- A condition that nothing the device does by itself can break. -/
def Stable (P : RingDevice → Prop) : Prop := ∀ d d', P d → Step d d' → P d'

theorem Stable.world {P : RingDevice → Prop} (hP : Stable P) {c : Call} {d d' : RingDevice} {a : c.Answer} (h : P d)
    (hw : world c d a d') : ∃ d₁, P d₁ ∧ d₁.Access c a d' := by
  obtain ⟨d₁, hsteps, ha⟩ := hw
  refine ⟨d₁, ?_, ha⟩
  clear ha
  induction hsteps with
  | refl => exact h
  | tail _ hs ih => exact hP _ _ ih hs

/-! ### What a call finds and leaves, from what holds whatever the device does before it -/

section
variable {σ : Type} {n : Nat} {s : σ} {d : RingDevice} {P Q : RingDevice → Prop} {wd : Width} {o v : BitVec 32}

theorem ensures_read_of (hP : Stable P) (h : P d) :
    Ensures world n (read wd o) s d (.unlessFails fun v s' d' => s' = s ∧ P d' ∧ d'.Shows o v) := by
  refine ensures_read.2 ?_
  rintro (e | v) d' hw
  · trivial
  obtain ⟨d₁, h, hshows, rfl⟩ := hP.world h hw
  exact ⟨rfl, h, hshows⟩

theorem ensures_read8_of (hP : Stable P) (h : P d) : Ensures world n (read8 o) s d
    (.unlessFails fun v s' d' => s' = s ∧ P d' ∧ ∃ raw : BitVec 32, v = raw.setWidth 8 ∧ d'.Shows o raw) :=
  ensures_bind.2 ((ensures_read_of hP h).imp fun v _ _ ⟨hs, hp, hshows⟩ => ⟨hs, hp, v, rfl, hshows⟩)

theorem ensures_read16_of (hP : Stable P) (h : P d) : Ensures world n (read16 o) s d
    (.unlessFails fun v s' d' => s' = s ∧ P d' ∧ ∃ raw : BitVec 32, v = raw.setWidth 16 ∧ d'.Shows o raw) :=
  ensures_bind.2 ((ensures_read_of hP h).imp fun v _ _ ⟨hs, hp, hshows⟩ => ⟨hs, hp, v, rfl, hshows⟩)

theorem ensures_write_of (hP : Stable P) (h : P d) :
    Ensures world n (write wd o v) s d (.unlessFails fun _ s' d' => s' = s ∧ ∃ d₁, P d₁ ∧ d' = d₁.take o v) := by
  refine ensures_write.2 ?_
  rintro (e | u) d' hw
  · trivial
  obtain ⟨d₁, h, rfl⟩ := hP.world h hw
  exact ⟨rfl, d₁, h, rfl⟩

theorem ensures_note_of {m : Notice} (hP : Stable P) (h : P d) :
    Ensures world n (note m) s d (.unlessFails fun _ s' d' => s' = s ∧ P d') := by
  refine ensures_note.2 fun d' hw => ?_
  obtain ⟨d₁, h, rfl⟩ := hP.world h hw
  exact ⟨rfl, h⟩

theorem ensures_allocate_of {k : Nat} (hP : Stable P) (h : P d) : Ensures world n (allocate k) s d
    (.unlessFails fun g s' d' => s' = s ∧ P d' ∧ d'.told.Admits k g) := by
  refine ensures_allocate.2 ?_
  rintro (e | g) d' hw
  · trivial
  obtain ⟨d₁, h, hg, rfl⟩ := hP.world h hw
  exact ⟨rfl, h, hg⟩

/-- A wait for what a register shows ends with `Q`, if what it waits for shows `Q`. -/
theorem ensures_await {α : Type} {site : WaitSite} {limit : WaitLimit} {x : Procedure σ α} {f : α → Bool}
    {shown : α → RingDevice → Prop}
    (hx : ∀ s d, P d → Ensures world n x s d (.unlessFails fun a s' d' => s' = s ∧ P d' ∧ shown a d'))
    (hQ : ∀ a d, P d → shown a d → f a = true → Q d) (h : P d) :
    Ensures world n (waitUntil site limit do return f (← x)) s d (.unlessFails fun _ s' d' => s' = s ∧ Q d') := by
  refine ensures_waitUntil (fun s' d => s' = s ∧ P d) ?_ (fun _ _ _ _ _ _ => trivial) (fun _ _ _ => trivial) ⟨rfl, h⟩
  rintro s' d ⟨rfl, h⟩
  refine ensures_bind.2 ((hx s' d h).imp ?_)
  rintro a s d' ⟨rfl, hp, hshown⟩
  refine ensures_pure.2 ?_
  cases ha : f a
  · exact ⟨rfl, hp⟩
  · exact ⟨rfl, hQ a d' hp hshown ha⟩

end

/-! ### Where the device stands -/

/-- Everything about the device but its memory and which of its engines run, the command ring's read pointer being out
of reset. -/
structure Stands (t : RingOrders) (corbRead rirbWrite : Nat) (outstanding : List (BitVec 32))
    (unannounced : Option (BitVec 32)) (fetched : List (BitVec 32)) (answered : List (BitVec 32 × BitVec 32))
    (d : RingDevice) : Prop where
  told : d.told = t
  inReset : d.corbInReset = false
  corbRead : d.corbRead = corbRead
  rirbWrite : d.rirbWrite = rirbWrite
  outstanding : d.outstanding = outstanding
  unannounced : d.unannounced = unannounced
  fetched : d.fetched = fetched
  answered : d.answered = answered

section
variable {t : RingOrders} {i j : Nat} {out : List (BitVec 32)} {un : Option (BitVec 32)} {F : List (BitVec 32)}
  {A : List (BitVec 32 × BitVec 32)} {d d' : RingDevice}

/-- **What a device can do from where it stands**: obey, fetch, put an answer down, or announce it. -/
theorem Stands.step (h : Stands t i j out un F A d) (hr : t.corbReset = false) (hs : Step d d') :
    (Stands t i j out un F A d' ∧ d'.memory = d.memory) ∨
    (i ≠ t.corbWrite ∧ ∃ word, word = load32 d.memory (t.corbAt ((i + 1) % slots t.corbSize)) ∧
      Stands t ((i + 1) % slots t.corbSize) j (out ++ [word]) un (F ++ [word]) A d' ∧ d'.memory = d.memory) ∨
    (out ≠ [] ∧ un = none ∧ ∃ answer extended, Stands t i j out (some answer) F A d' ∧
      d'.memory = store32 (store32 d.memory (t.rirbAt ((j + 1) % slots t.rirbSize)) answer)
        (t.rirbAt ((j + 1) % slots t.rirbSize) + 4) extended) ∨
    (∃ word answer rest, out = word :: rest ∧ un = some answer ∧
      Stands t i ((j + 1) % slots t.rirbSize) rest none F (A ++ [(word, answer)]) d' ∧ d'.memory = d.memory) := by
  obtain ⟨rfl, hreset, rfl, rfl, rfl, rfl, rfl, rfl⟩ := h
  cases hs with
  | obeyCorb | obeyRirb => exact .inl ⟨⟨rfl, hreset, rfl, rfl, rfl, rfl, rfl, rfl⟩, rfl⟩
  | resetRead h => rw [hr] at h; cases h
  | endReset h => exact .inl ⟨⟨rfl, rfl, rfl, rfl, rfl, rfl, rfl, rfl⟩, rfl⟩
  | fetch word slot hrun hreset hne hslot hword =>
    subst hslot
    exact .inr (.inl ⟨hne, word, hword, ⟨rfl, hreset, rfl, rfl, rfl, rfl, rfl, rfl⟩, rfl⟩)
  | respond p answer extended hrun hout hnone hp =>
    subst hp
    exact .inr (.inr (.inl ⟨hout, hnone, answer, extended, ⟨rfl, hreset, rfl, rfl, rfl, rfl, rfl, rfl⟩, rfl⟩))
  | announce word answer rest hout hsome =>
    exact .inr (.inr (.inr ⟨word, answer, rest, hout, hsome, ⟨rfl, hreset, rfl, rfl, rfl, rfl, rfl, rfl⟩, rfl⟩))

/-- A device that has nothing to fetch and nothing to answer stays where it stands, with what it has in memory. -/
theorem Stands.stableWith {P : (Nat → Byte) → Prop} (hr : t.corbReset = false) (hw : t.corbWrite = i) :
    Stable fun d => Stands t i j [] none F A d ∧ P d.memory := by
  rintro d d' ⟨h, hp⟩ hs
  rcases h.step hr hs with ⟨h', hm⟩ | ⟨hne, -⟩ | ⟨hne, -⟩ | ⟨_, _, _, hout, -⟩
  · exact ⟨h', hm ▸ hp⟩
  · exact absurd hw.symm hne
  · exact absurd rfl hne
  · cases hout

theorem Stands.stable (hr : t.corbReset = false) (hw : t.corbWrite = i) : Stable (Stands t i j [] none F A) :=
  fun d d' h hs => (Stands.stableWith (P := fun _ => True) hr hw d d' ⟨h, trivial⟩ hs).1

theorem Stands.take {o v : BitVec 32} (h : Stands t i j out un F A d) (ho : o ≠ Register.rirbwp) :
    Stands (t.take o v) i j out un F A (d.take o v) where
  told := by rw [← h.told]; rfl
  inReset := h.inReset
  corbRead := h.corbRead
  rirbWrite := (if_neg fun hc => ho hc.1).trans h.rirbWrite
  outstanding := h.outstanding
  unannounced := h.unannounced
  fetched := h.fetched
  answered := h.answered

end

end RingDevice
end AudioBringup
