import AudioBringup.Proofs.MemoryBytes
import AudioBringup.Region.Access
import AudioBringup.Simulation.Machine
/-!
# Proofs.RegionMemory — a region is a row of bytes

One access to a region that lies inside a block is refused, or changes the bytes it is to and no others (`byte_change`).
After any number of accesses each byte of the region is what the latest of them left there (`Region.held`), and is read as
that.
-/
namespace AudioBringup

/-! ### One access -/

namespace Region

open Simulation (Machine Memory)

/-- What the host does to a region. -/
inductive Access
  | load32 (offset : Nat)
  | load64 (offset : Nat)
  | store32 (offset : Nat) (value : BitVec 32)
  | store64 (offset : Nat) (value : BitVec 64)
  | fill (offset : Nat) (data : Array Byte)
  | zero

namespace Access

/-- What an access is answered by. -/
def Answer : Access → Type
  | .load32 _ => BitVec 32
  | .load64 _ => BitVec 64
  | .store32 .. | .store64 .. | .fill .. | .zero => Unit

/-- The access as it is made to a region. -/
def perform {σ : Type} (r : Region) : (c : Access) → Procedure σ c.Answer
  | .load32 o => r.load32 o
  | .load64 o => r.load64 o
  | .store32 o v => r.store32 o v
  | .store64 o v => r.store64 o v
  | .fill o data => r.fill o data
  | .zero => r.zero

/-- Where in its region an access begins. -/
def offset : Access → Nat
  | .load32 o | .load64 o | .store32 o _ | .store64 o _ | .fill o _ => o
  | .zero => 0

/-- How many bytes an access is to, of a region that is so long. -/
def size (length : Nat) : Access → Nat
  | .load32 _ | .store32 .. => 4
  | .load64 _ | .store64 .. => 8
  | .fill _ data => data.size
  | .zero => length

/-- What an access has to begin at a multiple of. -/
def unit : Access → Nat
  | .load32 _ | .store32 .. => 4
  | .load64 _ | .store64 .. => 8
  | .fill .. | .zero => 1

/-- How a region that is so long refuses an access: for its bounds first. -/
def refusal? (length : Nat) (c : Access) : Option Misuse :=
  if length < c.offset + c.size length then some .outOfBounds
  else if c.offset % c.unit ≠ 0 then some .misaligned
  else none

/-- The byte an access leaves at each of the places it is to, if it changes them. -/
def data? : Access → Nat → Option Byte
  | .store32 _ v, k => some (v.extractLsb' (8 * k) 8)
  | .store64 _ v, k => some (v.extractLsb' (8 * k) 8)
  | .fill _ data, k => data[k]?
  | .zero, _ => some 0
  | .load32 _, _ | .load64 _, _ => none

/-- What an access reads from the bytes of its region. -/
def answer (bytes : Nat → Byte) : (c : Access) → c.Answer
  | .load32 o => AudioBringup.load32 bytes o
  | .load64 o => AudioBringup.load64 bytes o
  | .store32 .. | .store64 .. | .fill .. | .zero => ()

/-- What an access makes of the memory behind its region. -/
def change (r : Region) : Access → Memory → Memory
  | .load32 _ | .load64 _ => id
  | .store32 o v => (·.store (r.host + o) 4 v.toNat)
  | .store64 o v => (·.store (r.host + o) 8 v.toNat)
  | .fill o data => (·.fill (r.host + o) data)
  | .zero => (·.clear r.host r.length)

variable {length i : Nat} {r : Region} {m : Machine} {c : Access} {cause : Misuse}

theorem refusal?_outOfBounds : c.refusal? length = some .outOfBounds ↔ length < c.offset + c.size length := by
  unfold refusal?
  split_ifs with hbounds halign <;> simp [hbounds]

theorem refusal?_misaligned :
    c.refusal? length = some .misaligned ↔ c.offset + c.size length ≤ length ∧ c.offset % c.unit ≠ 0 := by
  unfold refusal?
  split_ifs with hbounds halign
  · simp [Nat.not_le.2 hbounds]
  · simp [halign, Nat.le_of_not_lt hbounds]
  · simp [halign]

theorem refusal?_none : c.refusal? length = none ↔ c.offset + c.size length ≤ length ∧ c.offset % c.unit = 0 := by
  unfold refusal?
  split_ifs with hbounds halign
  · simp [Nat.not_le.2 hbounds]
  · simp [halign]
  · simp [Nat.le_of_not_lt hbounds, not_not.1 halign]

/-- What has to be in line is refused, or done where its bytes are. -/
theorem run_locate {α : Type} {o size : Nat} (x : Nat → Procedure Unit α) :
    m.run () (match r.locate o size with
      | .ok host => x host
      | .error cause => Procedure.misuse cause) =
      if r.length < o + size then (.misused .outOfBounds, m)
      else if o % size ≠ 0 then (.misused .misaligned, m)
      else m.run () (x (r.host + o)) := by
  unfold locate
  split_ifs <;> rfl

theorem run_located {α : Type} {o size : Nat} (x : Nat → Procedure Unit α) (hbounds : o + size ≤ r.length)
    (haligned : o % size = 0) :
    m.run () (match r.locate o size with
      | .ok host => x host
      | .error cause => Procedure.misuse cause) = m.run () (x (r.host + o)) := by
  rw [run_locate, if_neg (Nat.not_lt.2 hbounds), if_neg (not_not.2 haligned)]

theorem run_fill {o : Nat} {data : Array Byte} : m.run () (r.fill o data) =
    if r.length < o + data.size then (.misused .outOfBounds, m)
    else (.result (.ok (), ()), m.remember (·.fill (r.host + o) data)) := by
  by_cases hbounds : r.length < o + data.size
  · have hfill : r.fill o data = (Procedure.misuse .outOfBounds : Procedure Unit Unit) := if_pos hbounds
    rw [hfill, if_pos hbounds]
    rfl
  · have hfill : (r.fill o data : Procedure Unit Unit) = Procedure.request (Call.fill (r.host + o) data) := if_neg hbounds
    rw [hfill, if_neg hbounds]
    rfl

/-- **An access that is refused** has no effect. -/
theorem run_refused (h : c.refusal? r.length = some cause) : m.run () (c.perform r) = (.misused cause, m) := by
  unfold refusal? at h
  split_ifs at h with hbounds haligned
  · obtain rfl := Option.some.inj h
    cases c with
    | load32 | load64 | store32 | store64 => exact (run_locate _).trans (if_pos hbounds)
    | fill => exact run_fill.trans (if_pos hbounds)
    | zero => exact absurd hbounds (by simp [offset, size])
  · obtain rfl := Option.some.inj h
    cases c with
    | load32 | load64 | store32 | store64 => exact (run_locate _).trans ((if_neg hbounds).trans (if_pos haligned))
    | fill o data => exact absurd (Nat.mod_one o) haligned
    | zero => exact absurd rfl haligned

/-- **An access that is not refused** reads what is there, and changes nothing but the memory behind its region. -/
theorem run_admitted (hbacked : m.device.memory.Backs r) (h : c.refusal? r.length = none) : m.run () (c.perform r) =
    (.result (.ok (c.answer fun i => m.device.memory.byte (r.host + i)), ()), m.remember (c.change r)) := by
  obtain ⟨hbounds, haligned⟩ := refusal?_none.1 h
  obtain ⟨a, n, hlive, hlow, hhigh⟩ := hbacked.live
  have hlast : r.host + c.offset + c.size r.length ≤ a + n := by omega
  -- loads are the only accesses whose answer depends on the memory being there
  cases c with
  | load32 o =>
    have hword := hbacked.ordered.load32_at (p := r.host + o) hlive (by omega) hlast
    exact (run_located _ hbounds haligned).trans (congrArg (fun v => (Ending.result (Except.ok v, ()), m)) hword)
  | load64 o =>
    have hword := hbacked.ordered.load64_at (p := r.host + o) hlive (by omega) hlast
    exact (run_located _ hbounds haligned).trans (congrArg (fun v => (Ending.result (Except.ok v, ()), m)) hword)
  | store32 | store64 => exact run_located _ hbounds haligned
  | fill => exact run_fill.trans (if_neg (Nat.not_lt.2 hbounds))
  | zero => rfl

/-! ### What an access changes -/

variable {w : Memory}

@[simp] theorem shape_change : (c.change r w).shape = w.shape := by
  cases c with
  | load32 | load64 => rfl
  | store32 | store64 => exact Memory.shape_store _
  | fill => exact Memory.shape_fill _
  | zero => exact Memory.shape_clear _

@[simp] theorem next_change : (c.change r w).next = w.next := by
  cases c <;> rfl

/-- **An access changes the bytes it is to**, each of them to the byte it leaves there, and no others. -/
theorem byte_change (hbacked : w.Backs r) (hbounds : c.offset + c.size r.length ≤ r.length) (q : Nat) :
    (c.change r w).byte q = if r.host + c.offset ≤ q ∧ q < r.host + c.offset + c.size r.length
      then (c.data? (q - (r.host + c.offset))).getD (w.byte q) else w.byte q := by
  obtain ⟨a, n, hlive, hlow, hhigh⟩ := hbacked.live
  have hfirst : a ≤ r.host + c.offset := by omega
  have hlast : r.host + c.offset + c.size r.length ≤ a + n := by omega
  cases c with
  | load32 | load64 => exact (ite_self _).symm
  | store32 o v | store64 o v =>
    refine (hbacked.ordered.byte_store hlive hfirst hlast v.toNat).trans ?_
    rw [← extractLsb'_eq_ofNat]
    rfl
  | fill o data =>
    -- a place that is filled is one of the data, so neither filler is ever read
    refine (hbacked.ordered.byte_fill hlive hfirst hlast).trans (ite_congr rfl (fun hq => ?_) fun _ => rfl)
    have hlt : q < r.host + (Access.fill o data).offset + data.size := hq.2
    have hin : q - (r.host + (Access.fill o data).offset) < data.size := by omega
    rw [data?, Array.getElem?_eq_getElem hin, Option.getD_some, Array.getD_eq_getD_getElem?, Array.getElem?_eq_getElem hin,
      Option.getD_some]
  | zero => exact hbacked.ordered.byte_clear hlive hfirst hlast

end Access

/-! ### Any number of them -/

/-- The machine after some accesses to a region, the latest of them first. -/
def after (r : Region) (m : Machine) : List Access → Machine
  | [] => m
  | c :: earlier => ((after r m earlier).run () (c.perform r)).2

/-- What an access leaves in a byte of a region that is so long: nothing if it is refused, or to other bytes. -/
def Access.puts? (length : Nat) (c : Access) (i : Nat) : Option Byte :=
  if c.refusal? length = none ∧ c.offset ≤ i ∧ i < c.offset + c.size length then c.data? (i - c.offset) else none

/-- What the latest of some accesses that left something in a byte of a region left there; what was there before all of
them, if none did. -/
def held (length : Nat) (init : Nat → Byte) (accesses : List Access) (i : Nat) : Byte :=
  (accesses.findSome? fun c => c.puts? length i).getD (init i)

theorem held_cons {length : Nat} {init : Nat → Byte} {c : Access} {earlier : List Access} {i : Nat} :
    held length init (c :: earlier) i = (c.puts? length i).getD (held length init earlier i) := by
  rw [held, List.findSome?_cons, held]
  cases c.puts? length i <;> rfl

/-- From one machine to another, nothing has changed but bytes of a region. -/
structure Within (r : Region) (m m' : Machine) : Prop where
  rest : m' = m.remember fun _ => m'.device.memory
  shape : m'.device.memory.shape = m.device.memory.shape
  next : m'.device.memory.next = m.device.memory.next
  outside : ∀ q, q < r.host ∨ r.host + r.length ≤ q → m'.device.memory.byte q = m.device.memory.byte q

variable {r : Region} {m m₁ m₂ : Machine} {c : Access}

theorem Within.refl : Within r m m := ⟨rfl, rfl, rfl, fun _ _ => rfl⟩

theorem Within.trans (h₁ : Within r m m₁) (h₂ : Within r m₁ m₂) : Within r m m₂ where
  rest := by
    rw [h₂.rest, h₁.rest]
    rfl
  shape := h₂.shape.trans h₁.shape
  next := h₂.next.trans h₁.next
  outside q hq := (h₂.outside q hq).trans (h₁.outside q hq)

theorem Within.backs (h : Within r m m₁) (hbacked : m.device.memory.Backs r) : m₁.device.memory.Backs r :=
  hbacked.of_shape h.shape h.next

theorem within_admitted (hbacked : m.device.memory.Backs r) (hbounds : c.offset + c.size r.length ≤ r.length) :
    Within r m (m.remember (c.change r)) where
  rest := rfl
  shape := Access.shape_change
  next := Access.next_change
  outside q hq := (Access.byte_change hbacked hbounds q).trans (if_neg (by omega))

/-- **One access** changes nothing but bytes of its region, and those to what it leaves in them. -/
theorem run_access (hbacked : m.device.memory.Backs r) (c : Access) : Within r m (m.run () (c.perform r)).2 ∧
    ∀ i, (m.run () (c.perform r)).2.device.memory.byte (r.host + i) =
      (c.puts? r.length i).getD (m.device.memory.byte (r.host + i)) := by
  cases hrefusal : c.refusal? r.length with
  | some cause =>
    rw [Access.run_refused hrefusal]
    refine ⟨.refl, fun i => ?_⟩
    rw [Access.puts?, hrefusal, if_neg fun h => nomatch h.1]
    rfl
  | none =>
    obtain ⟨hbounds, -⟩ := Access.refusal?_none.1 hrefusal
    rw [Access.run_admitted hbacked hrefusal]
    refine ⟨within_admitted hbacked hbounds, fun i => (Access.byte_change hbacked hbounds _).trans ?_⟩
    have hplace : r.host + i - (r.host + c.offset) = i - c.offset := by omega
    rw [Access.puts?, hplace]
    by_cases hin : c.offset ≤ i ∧ i < c.offset + c.size r.length
    · rw [if_pos (by omega), if_pos ⟨hrefusal, hin⟩]
    · rw [if_neg (by omega), if_neg fun h => hin h.2]
      rfl

/-- **Any number of accesses** change nothing but bytes of their region, and those to what the latest of them left. -/
theorem run_accesses (hbacked : m.device.memory.Backs r) : ∀ accesses : List Access, Within r m (after r m accesses) ∧
    ∀ i, (after r m accesses).device.memory.byte (r.host + i) =
      held r.length (fun i => m.device.memory.byte (r.host + i)) accesses i
  | [] => ⟨.refl, fun _ => rfl⟩
  | c :: earlier => by
    obtain ⟨hwithin, hbytes⟩ := run_accesses hbacked earlier
    obtain ⟨hstep, hput⟩ := run_access (hwithin.backs hbacked) c
    refine ⟨hwithin.trans hstep, fun i => (hput i).trans ?_⟩
    rw [hbytes, held_cons]

/-- An access stops for just what its region refuses it for. -/
theorem run_misused_iff {cause : Misuse} (hbacked : m.device.memory.Backs r) :
    (m.run () (c.perform r)).1 = .misused cause ↔ c.refusal? r.length = some cause := by
  cases hrefusal : c.refusal? r.length with
  | some cause' => rw [Access.run_refused hrefusal, Ending.misused.injEq, Option.some.injEq]
  | none =>
    rw [Access.run_admitted hbacked hrefusal]
    constructor <;> intro h <;> cases h

theorem run_load32 {o : Nat} (hbacked : m.device.memory.Backs r) (hbounds : o + 4 ≤ r.length) (haligned : o % 4 = 0) :
    m.run () (r.load32 o) =
      (.result (.ok (AudioBringup.load32 (fun i => m.device.memory.byte (r.host + i)) o), ()), m) :=
  Access.run_admitted (c := .load32 o) hbacked (Access.refusal?_none.2 ⟨hbounds, haligned⟩)

theorem run_load64 {o : Nat} (hbacked : m.device.memory.Backs r) (hbounds : o + 8 ≤ r.length) (haligned : o % 8 = 0) :
    m.run () (r.load64 o) =
      (.result (.ok (AudioBringup.load64 (fun i => m.device.memory.byte (r.host + i)) o), ()), m) :=
  Access.run_admitted (c := .load64 o) hbacked (Access.refusal?_none.2 ⟨hbounds, haligned⟩)

/-- Where everything was set to zero last, there is nothing but zeros. -/
theorem held_zero {length : Nat} {init : Nat → Byte} {earlier : List Access} {i : Nat} (hi : i < length) :
    held length init (.zero :: earlier) i = 0 := by
  have hadmitted : Access.refusal? length .zero = none := Access.refusal?_none.2 ⟨Nat.le_of_eq (Nat.zero_add _), rfl⟩
  have hin : Access.zero.offset ≤ i ∧ i < Access.zero.offset + Access.zero.size length := ⟨Nat.zero_le i, by
    rw [Access.offset, Access.size, Nat.zero_add]
    exact hi⟩
  rw [held_cons, Access.puts?, if_pos ⟨hadmitted, hin⟩]
  rfl

/-- **A region is a row of bytes between its bounds**, whatever was done to it before.

An access is refused if it runs past the end, and else if it is out of line, and has no effect then.  One that is not refused
is answered by what the latest accesses left, lowest byte first, and changes the bytes it is to and nothing else.  Eight bytes
are read as the low four of them and the high four are, and once the region was cleared every read finds zero. -/
theorem accesses_remembered (m : Machine) (r : Region) (hbacked : m.device.memory.Backs r) (accesses : List Access) :
    let now := after r m accesses
    let bytes := held r.length (fun i => m.device.memory.byte (r.host + i)) accesses
    Within r m now ∧ (∀ i, now.device.memory.byte (r.host + i) = bytes i) ∧
    (∀ c : Access,
      let ended := now.run () (c.perform r)
      (ended.1 = .misused .outOfBounds ↔ r.length < c.offset + c.size r.length) ∧
      (ended.1 = .misused .misaligned ↔ c.offset + c.size r.length ≤ r.length ∧ c.offset % c.unit ≠ 0) ∧
      (∀ cause, ended.1 = .misused cause → ended.2 = now) ∧
      (c.offset + c.size r.length ≤ r.length → c.offset % c.unit = 0 →
        ended.1 = .result (.ok (c.answer bytes), ()) ∧ Within r now ended.2 ∧
        ∀ q, ended.2.device.memory.byte q = if r.host + c.offset ≤ q ∧ q < r.host + c.offset + c.size r.length
          then (c.data? (q - (r.host + c.offset))).getD (now.device.memory.byte q) else now.device.memory.byte q)) ∧
    (∀ o, o + 8 ≤ r.length → o % 8 = 0 → ∃ (v : BitVec 64) (low high : BitVec 32),
      now.run () (r.load64 o) = (.result (.ok v, ()), now) ∧ now.run () (r.load32 o) = (.result (.ok low, ()), now) ∧
      now.run () (r.load32 (o + 4)) = (.result (.ok high, ()), now) ∧ v.toNat = low.toNat + 2 ^ 32 * high.toNat) ∧
    ∀ o,
      let cleared := (now.run () r.zero).2
      (o + 4 ≤ r.length → o % 4 = 0 → cleared.run () (r.load32 o) = (.result (.ok 0, ()), cleared)) ∧
      (o + 8 ≤ r.length → o % 8 = 0 → cleared.run () (r.load64 o) = (.result (.ok 0, ()), cleared)) := by
  intro now bytes
  obtain ⟨hwithin, hbytes⟩ := run_accesses hbacked accesses
  obtain ⟨hwithin', hbytes'⟩ := run_accesses hbacked (.zero :: accesses)
  have hnow := hwithin.backs hbacked
  have hcleared := hwithin'.backs hbacked
  have hview : (fun i => now.device.memory.byte (r.host + i)) = bytes := funext hbytes
  have hzero (i : Nat) (hi : i < r.length) := (hbytes' i).trans (held_zero hi)
  refine ⟨hwithin, hbytes, fun c => ⟨?_, ?_, fun cause h => ?_, fun hbounds haligned => ?_⟩, fun o hbounds haligned => ?_,
    fun o => ⟨fun hbounds haligned => ?_, fun hbounds haligned => ?_⟩⟩
  · exact (run_misused_iff hnow).trans Access.refusal?_outOfBounds
  · exact (run_misused_iff hnow).trans Access.refusal?_misaligned
  · rw [Access.run_refused ((run_misused_iff hnow).1 h)]
  · rw [Access.run_admitted hnow (Access.refusal?_none.2 ⟨hbounds, haligned⟩), hview]
    exact ⟨rfl, within_admitted hnow hbounds, Access.byte_change hnow hbounds⟩
  · exact ⟨_, _, _, run_load64 hnow hbounds haligned, run_load32 hnow (by omega) (by omega),
      run_load32 hnow (by omega) (by omega), toNat_load64⟩
  · refine (run_load32 hcleared hbounds haligned).trans ?_
    rw [load32_zeros fun i hi => hzero (o + i) (by omega)]
    rfl
  · refine (run_load64 hcleared hbounds haligned).trans ?_
    rw [load64_zeros fun i hi => hzero (o + i) (by omega)]
    rfl

/-- A machine whose whole memory is one block of 13 bytes. -/
def smallMachine : Machine := { device := { registers := #[], memory := (({} : Memory).allocate 13).2 } }

/-- A word, then three bytes across its upper end, in a region that is no whole number of words: a read finds the latest of
both, and what runs past the end or is out of line is refused. -/
theorem accesses_remembered_overlapping :
    let r : Region := ⟨0x100000000, 0, 13, 0⟩
    let now := after r smallMachine [.fill 6 #[1, 2, 3], .store32 4 0xdeadbeef, .zero]
    (now.run () (r.load64 0)).1 = .result (.ok (0x0201beef00000000 : BitVec 64), ()) ∧
      (now.run () (r.load32 8)).1 = .result (.ok (3 : BitVec 32), ()) ∧
      (now.run () (r.store32 10 1)).1 = .misused .outOfBounds ∧ (now.run () (r.load32 6)).1 = .misused .misaligned := by
  intro r now
  have hordered : ({} : Memory).Ordered := ⟨List.Pairwise.nil, fun _ h => nomatch h⟩
  obtain ⟨-, -, haccess, -⟩ := accesses_remembered smallMachine r (hordered.backs_allocate 13 0 0)
    [.fill 6 #[1, 2, 3], .store32 4 0xdeadbeef, .zero]
  have hboth : AudioBringup.load64 (held 13 (fun i => smallMachine.device.memory.byte (0x100000000 + i))
      [.fill 6 #[1, 2, 3], .store32 4 0xdeadbeef, .zero]) 0 = 0x0201beef00000000 := by decide
  have hlast : AudioBringup.load32 (held 13 (fun i => smallMachine.device.memory.byte (0x100000000 + i))
      [.fill 6 #[1, 2, 3], .store32 4 0xdeadbeef, .zero]) 8 = 3 := by decide
  exact ⟨((haccess (.load64 0)).2.2.2 (by decide) (by decide)).1.trans
      (congrArg (fun v => Ending.result (Except.ok v, ())) hboth),
    ((haccess (.load32 8)).2.2.2 (by decide) (by decide)).1.trans
      (congrArg (fun v => Ending.result (Except.ok v, ())) hlast),
    (haccess (.store32 10 1)).1.2 (by decide), (haccess (.load32 6)).2.1.2 (by decide)⟩

end Region
end AudioBringup
