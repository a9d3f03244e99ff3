import Mathlib.Algebra.Ring.Nat
import Mathlib.Data.List.Pairwise
import AudioBringup.Playback.Streams
import AudioBringup.Proofs.Keeps
import AudioBringup.Proofs.RingDevice
/-!
# Proofs.Arena — memory that is had and given back, and registers as they were written

The allocator may answer with any region that keeps clear of those that are live (`Arena.Grants`); what is in it is left
open.  A register holds what was last written to it, whatever it reads as, and a write that fails may have got through or
not.  Every call may fail.
-/
namespace AudioBringup

/-! ### Bytes at every place -/

/-- The bytes with the low `count` bytes of `v` from `p` on. -/
def storeLow {n : Nat} (m : Nat → Byte) (p count : Nat) (v : BitVec n) : Nat → Byte := fun q =>
  if p ≤ q ∧ q < p + count then v.extractLsb' (8 * (q - p)) 8 else m q

/-- The bytes with `data` from `p` on. -/
def storeAll (m : Nat → Byte) (p : Nat) (data : Array Byte) : Nat → Byte := fun q =>
  if p ≤ q ∧ q < p + data.size then data.getD (q - p) 0 else m q

/-- The bytes with `count` zeros from `p` on. -/
def storeZeros (m : Nat → Byte) (p count : Nat) : Nat → Byte := fun q => if p ≤ q ∧ q < p + count then 0 else m q

/-- The number in the two bytes from `p` on. -/
def load16 (m : Nat → Byte) (p : Nat) : BitVec 16 := m (p + 1) ++ m p

/-- The number in the eight bytes from `p` on. -/
def load64 (m : Nat → Byte) (p : Nat) : BitVec 64 := load32 m (p + 4) ++ load32 m p

section
variable {m m' : Nat → Byte} {p q k count : Nat} {data : Array Byte}

theorem storeLow_of_disjoint {n : Nat} {v : BitVec n} (h : q < p ∨ p + count ≤ q) : storeLow m p count v q = m q := by
  unfold storeLow
  rw [if_neg (by omega)]

theorem storeAll_of_disjoint (h : q < p ∨ p + data.size ≤ q) : storeAll m p data q = m q := by
  unfold storeAll
  rw [if_neg (by omega)]

theorem storeAll_at (hk : k < data.size) : storeAll m p data (p + k) = data[k] := by
  unfold storeAll
  rw [if_pos (by omega), Nat.add_sub_cancel_left, Array.getD_eq_getD_getElem?, Array.getElem?_eq_getElem hk]
  rfl

theorem storeZeros_at (hk : k < count) : storeZeros m p count (p + k) = 0 := by
  unfold storeZeros
  rw [if_pos (by omega)]

theorem storeZeros_of_disjoint (h : q < p ∨ p + count ≤ q) : storeZeros m p count q = m q := by
  unfold storeZeros
  rw [if_neg (by omega)]

theorem load16_congr (h : ∀ i < 2, m' (p + i) = m (p + i)) : load16 m' p = load16 m p := by
  have h0 := h 0 (by decide)
  unfold load16
  rw [h 1 (by decide), show m' p = m p from h0]

theorem load32_congr (h : ∀ i < 4, m' (p + i) = m (p + i)) : load32 m' p = load32 m p := by
  have h0 := h 0 (by decide)
  unfold load32
  rw [h 3 (by decide), h 2 (by decide), h 1 (by decide), show m' p = m p from h0]

theorem load64_congr (h : ∀ i < 8, m' (p + i) = m (p + i)) : load64 m' p = load64 m p := by
  unfold load64
  rw [load32_congr fun i hi => h i (by omega), load32_congr fun i hi => ?_]
  rw [Nat.add_assoc]
  exact h (4 + i) (by omega)

theorem load16_storeLow {n : Nat} (v : BitVec n) (hk : k + 2 ≤ count) :
    load16 (storeLow m p count v) (p + k) = v.extractLsb' (8 * k) 16 := by
  unfold load16 storeLow
  rw [if_pos (by omega), if_pos (by omega), show p + k + 1 - p = k + 1 by omega, show p + k - p = k by omega,
    BitVec.extractLsb'_append_extractLsb'_eq_extractLsb' (by omega)]

theorem load32_storeLow {n : Nat} (v : BitVec n) (hk : k + 4 ≤ count) :
    load32 (storeLow m p count v) (p + k) = v.extractLsb' (8 * k) 32 := by
  unfold load32 storeLow
  rw [if_pos (by omega), if_pos (by omega), if_pos (by omega), if_pos (by omega), show p + k + 3 - p = k + 3 by omega,
    show p + k + 2 - p = k + 2 by omega, show p + k + 1 - p = k + 1 by omega, show p + k - p = k by omega,
    BitVec.extractLsb'_append_extractLsb'_eq_extractLsb' (by omega),
    BitVec.extractLsb'_append_extractLsb'_eq_extractLsb' (by omega),
    BitVec.extractLsb'_append_extractLsb'_eq_extractLsb' (by omega)]

theorem load64_storeLow (v : BitVec 64) : load64 (storeLow m p 8 v) p = v := by
  have hlow : load32 (storeLow m p 8 v) (p + 0) = v.extractLsb' 0 32 := load32_storeLow v (by decide)
  have hhigh : load32 (storeLow m p 8 v) (p + 4) = v.extractLsb' 32 32 := load32_storeLow v (by decide)
  unfold load64
  rw [hhigh, show load32 (storeLow m p 8 v) p = _ from hlow, BitVec.extractLsb'_append_extractLsb'_eq_extractLsb' (by decide)]
  exact BitVec.extractLsb'_eq_self

end

/-! ### The arena -/

/-- What the driver and the device share. -/
structure Arena where
  /-- what the host finds at each place -/
  memory : Nat → Byte
  /-- every region that was had and not given back -/
  live : List Region
  /-- each byte of the registers as it was written last -/
  written : Nat → Byte

/-- Two regions share neither a place of the host nor one of the device. -/
def Region.Apart (g g' : Region) : Prop :=
  (g.host + g.length ≤ g'.host ∨ g'.host + g'.length ≤ g.host) ∧
    (g.address.toNat + g.length ≤ g'.address.toNat ∨ g'.address.toNat + g'.length ≤ g.address.toNat)

/-- A region lies where the hardware wants it, and does not run past the end of its addresses. -/
def Region.Placed (g : Region) : Prop := g.address.toNat % 128 = 0 ∧ g.address.toNat + g.length ≤ 2 ^ 64

namespace Arena

/-- The allocator has kept its word so far. -/
structure Lawful (w : Arena) : Prop where
  apart : w.live.Pairwise Region.Apart
  placed : ∀ g ∈ w.live, g.Placed

/-- A region that `k` bytes may be had in. -/
structure Grants (w : Arena) (k : Nat) (g : Region) : Prop where
  long : k ≤ g.length
  placed : g.Placed
  apart : ∀ g' ∈ w.live, g.Apart g'

instance (g g' : Region) : Decidable (g.Apart g') := inferInstanceAs (Decidable (_ ∧ _))

instance (g : Region) : Decidable g.Placed := inferInstanceAs (Decidable (_ ∧ _))

instance (w : Arena) (k : Nat) (g : Region) : Decidable (w.Grants k g) :=
  decidable_of_iff (k ≤ g.length ∧ g.Placed ∧ ∀ g' ∈ w.live, g.Apart g')
    ⟨fun h => ⟨h.1, h.2.1, h.2.2⟩, fun h => ⟨h.long, h.placed, h.apart⟩⟩

/-- The memories agree wherever `w` has a region. -/
def Retains (w w' : Arena) : Prop := ∀ g ∈ w.live, ∀ i < g.length, w'.memory (g.host + i) = w.memory (g.host + i)

/-- What a call may be answered by, and what it leaves. -/
def world : World Call Call.Answer Arena
  | .allocate k, w, .ok g, w' => w.Grants k g ∧ w'.live = g :: w.live ∧ w'.written = w.written ∧ w.Retains w'
  | .free g, w, .ok _, w' => w' = { w with live := w.live.erase g }
  | .free g, w, .error _, w' => w' = w ∨ w' = { w with live := w.live.erase g }
  | .write wd o v, w, .ok _, w' => w' = { w with written := storeLow w.written o.toNat wd.bytes v }
  | .write wd o _, w, .error _, w' => ∃ v : BitVec 32, w' = { w with written := storeLow w.written o.toNat wd.bytes v }
  | .store32 p v, w, _, w' => w' = { w with memory := storeLow w.memory p 4 v }
  | .store64 p v, w, _, w' => w' = { w with memory := storeLow w.memory p 8 v }
  | .fill p data, w, _, w' => w' = { w with memory := storeAll w.memory p data }
  | .clear p count, w, _, w' => w' = { w with memory := storeZeros w.memory p count }
  | _, w, _, w' => w' = w

/-- What the device finds at an address, if a live region is there. -/
def device (w : Arena) (address : Nat) : Option Byte :=
  (w.live.find? fun g => g.address.toNat ≤ address ∧ address < g.address.toNat + g.length).map fun g =>
    w.memory (g.host + (address - g.address.toNat))

/-- What the device finds in `count` places from an address on. -/
def fetch (w : Arena) (address count : Nat) : List (Option Byte) := (List.range count).map fun i => w.device (address + i)

end Arena

theorem Region.Apart.symm {g g' : Region} (h : g.Apart g') : g'.Apart g := ⟨h.1.symm, h.2.symm⟩

instance : Std.Symm Region.Apart := ⟨fun _ _ => Region.Apart.symm⟩

namespace Arena

variable {w w' w₀ w₁ w₂ : Arena} {g g' : Region} {held held' scratch : List Region} {c : Call} {k : Nat}

theorem Lawful.device_at (hw : w.Lawful) (hg : g ∈ w.live) (hk : k < g.length) :
    w.device (g.address.toNat + k) = some (w.memory (g.host + k)) := by
  have hfound : ∃ g', w.live.find? (fun g' => g'.address.toNat ≤ g.address.toNat + k ∧
      g.address.toNat + k < g'.address.toNat + g'.length) = some g' := by
    rw [← Option.isSome_iff_exists, List.find?_isSome]
    exact ⟨g, hg, decide_eq_true ⟨Nat.le_add_right _ _, Nat.add_lt_add_left hk _⟩⟩
  obtain ⟨g', hg'⟩ := hfound
  have hholds : g'.address.toNat ≤ g.address.toNat + k ∧ g.address.toNat + k < g'.address.toNat + g'.length := by
    simpa using List.find?_some hg'
  have hsame : g' = g := by
    by_contra hne
    have hapart := hw.apart.forall (List.mem_of_find?_eq_some hg') hg hne
    rcases hapart.2 with h | h <;> omega
  unfold device
  rw [hg', hsame, Option.map_some, Nat.add_sub_cancel_left]

/-! ### What is held -/

/-- The regions are live, each of them for itself. -/
def Holds (w : Arena) (held : List Region) : Prop := ∃ rest, w.live.Perm (held ++ rest)

theorem Holds.mem (h : w.Holds held) (hg : g ∈ held) : g ∈ w.live := by
  obtain ⟨rest, hperm⟩ := h
  exact hperm.mem_iff.2 (List.mem_append_left _ hg)

theorem Holds.perm (hp : held.Perm held') (h : w.Holds held) : w.Holds held' := by
  obtain ⟨rest, hperm⟩ := h
  exact ⟨rest, hperm.trans (hp.append_right rest)⟩

theorem Holds.drop (h : w.Holds (g :: held)) : w.Holds held := by
  obtain ⟨rest, hperm⟩ := h
  exact ⟨g :: rest, hperm.trans List.perm_middle.symm⟩

theorem Holds.apart (hw : w.Lawful) (h : w.Holds held) : held.Pairwise Region.Apart := by
  obtain ⟨rest, hperm⟩ := h
  have hall := (hperm.pairwise_iff fun h => Region.Apart.symm h).1 hw.apart
  exact (List.pairwise_append.1 hall).1

/-! ### Having memory and giving it back -/

theorem Lawful.allocate (hw : w.Lawful) (hg : w.Grants k g) (hlive : w'.live = g :: w.live) : w'.Lawful := by
  constructor
  · rw [hlive]
    exact List.pairwise_cons.2 ⟨hg.apart, hw.apart⟩
  · rw [hlive]
    exact List.forall_mem_cons.2 ⟨hg.placed, hw.placed⟩

theorem Holds.allocate (h : w.Holds held) (hlive : w'.live = g :: w.live) : w'.Holds (g :: held) := by
  obtain ⟨rest, hperm⟩ := h
  refine ⟨rest, ?_⟩
  rw [hlive]
  exact hperm.cons g

theorem Lawful.free (hw : w.Lawful) : Lawful { w with live := w.live.erase g } where
  apart := hw.apart.sublist List.erase_sublist
  placed g' hg' := hw.placed g' (List.mem_of_mem_erase hg')

theorem Holds.free (h : w.Holds (g :: held)) : Holds { w with live := w.live.erase g } held := by
  obtain ⟨rest, hperm⟩ := h
  refine ⟨rest, (hperm.erase g).trans ?_⟩
  rw [List.cons_append, List.erase_cons_head]

/-! ### What is left alone -/

/-- A byte of a stream descriptor that says what is played: none of its control. -/
def Describing (o : Nat) : Prop := 128 ≤ o ∧ 4 ≤ o % 32

/-- The same regions are live, and memory outside of `scratch` and the stream descriptors say what they said. -/
structure Undisturbed (scratch : List Region) (w w' : Arena) : Prop where
  live : w'.live = w.live
  written : ∀ o, Describing o → w'.written o = w.written o
  memory : ∀ p, (∀ g ∈ scratch, p < g.host ∨ g.host + g.length ≤ p) → w'.memory p = w.memory p

theorem Undisturbed.refl : w.Undisturbed scratch w := ⟨rfl, fun _ _ => rfl, fun _ _ => rfl⟩

theorem Undisturbed.trans (h₁ : w₀.Undisturbed scratch w₁) (h₂ : w₁.Undisturbed scratch w₂) :
    w₀.Undisturbed scratch w₂ where
  live := h₂.live.trans h₁.live
  written o ho := (h₂.written o ho).trans (h₁.written o ho)
  memory p hp := (h₂.memory p hp).trans (h₁.memory p hp)

theorem Undisturbed.lawful (h : w.Undisturbed scratch w') (hw : w.Lawful) : w'.Lawful := by
  constructor
  · rw [h.live]
    exact hw.apart
  · rw [h.live]
    exact hw.placed

theorem Undisturbed.holds (h : w.Undisturbed scratch w') (hheld : w.Holds held) : w'.Holds held := by
  unfold Holds
  rw [h.live]
  exact hheld

/-- A region apart from the scratch memory is left as it is. -/
theorem Undisturbed.retains (h : w.Undisturbed scratch w') (hg : ∀ s ∈ scratch, s.Apart g) (hk : k < g.length) :
    w'.memory (g.host + k) = w.memory (g.host + k) := by
  refine h.memory _ fun s hs => ?_
  rcases (hg s hs).1 with hapart | hapart <;> omega

/-- A call that disturbs nothing but the scratch memory and the registers that describe no stream. -/
def Light (scratch : List Region) : Call → Prop
  | .allocate _ | .free _ | .store64 .. | .fill .. | .clear .. => False
  | .write wd o _ => ∀ i < wd.bytes, ¬Describing (o.toNat + i)
  | .store32 p _ => ∃ g ∈ scratch, g.host ≤ p ∧ p + 4 ≤ g.host + g.length
  | _ => True

theorem undisturbed_write {wd : Width} {o v : BitVec 32} (hc : Light scratch (.write wd o v)) (v' : BitVec 32) :
    w.Undisturbed scratch { w with written := storeLow w.written o.toNat wd.bytes v' } := by
  refine ⟨rfl, fun p hp => ?_, fun _ _ => rfl⟩
  refine storeLow_of_disjoint ?_
  by_contra hin
  refine hc (p - o.toNat) (by omega) ?_
  rw [show o.toNat + (p - o.toNat) = p by omega]
  exact hp

theorem undisturbed_of_light (hc : Light scratch c) {a : c.Answer} (hw : world c w a w') : w.Undisturbed scratch w' := by
  cases c with
  | allocate | free | store64 | fill | clear => exact hc.elim
  | write wd o v =>
    cases a with
    | ok _ =>
      obtain rfl := hw
      exact undisturbed_write hc v
    | error e =>
      obtain ⟨v', rfl⟩ := hw
      exact undisturbed_write hc v'
  | store32 p v =>
    obtain rfl := hw
    obtain ⟨g, hg, hlow, hhigh⟩ := hc
    refine ⟨rfl, fun _ _ => rfl, fun q hq => storeLow_of_disjoint ?_⟩
    rcases hq g hg with hq | hq <;> omega
  | _ =>
    obtain rfl := hw
    exact .refl

theorem closed_of_light (hc : Light scratch c) : Procedure.Closed world (w₀.Undisturbed scratch) c :=
  fun _ _ _ hanswer hw => hw.trans (undisturbed_of_light hc hanswer)

end Arena
end AudioBringup
