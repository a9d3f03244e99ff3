import AudioBringup.Proofs.Keeps
import AudioBringup.Proofs.Rig
/-!
# Proofs.Station — what each call does to a controller without faults

Every call succeeds.  Most registers hold what is stored in them and show it again; reading one changes nothing but what was
seen.  What a step leaves alone is said by `Spares`, for its registers, and by `Leaves`, for the blocks of memory as well.
-/
namespace AudioBringup
namespace Simulation

/-! ### What a device leaves alone -/

namespace Device

variable {P P' : Nat → Prop} {d d₁ d₂ : Device} {w : Width} {o q : Nat} {v : BitVec 32}

/-- The registers at some offsets are as they were, those with a life of their own included: the places in the rings, and
a stream that is being stopped. -/
structure Spares (P : Nat → Prop) (d d' : Device) : Prop where
  cell : ∀ q, P q → d'.cell q = d.cell q
  corb : P 0x4a → d'.corbReset = d.corbReset ∧ d'.corbRead = d.corbRead
  rirb : P 0x58 → d'.rirbWrite = d.rirbWrite
  stop : P 0x80 → d'.pendingStop = d.pendingStop

/-- So are they, and no block came or went. -/
structure Leaves (P : Nat → Prop) (d d' : Device) : Prop extends Spares P d d' where
  shape : d'.memory.shape = d.memory.shape
  next : d'.memory.next = d.memory.next

theorem Spares.refl : d.Spares P d := ⟨fun _ _ => rfl, fun _ => ⟨rfl, rfl⟩, fun _ => rfl, fun _ => rfl⟩

theorem Spares.trans (h₁ : d.Spares P d₁) (h₂ : d₁.Spares P d₂) : d.Spares P d₂ where
  cell q hq := (h₂.cell q hq).trans (h₁.cell q hq)
  corb h := ⟨(h₂.corb h).1.trans (h₁.corb h).1, (h₂.corb h).2.trans (h₁.corb h).2⟩
  rirb h := (h₂.rirb h).trans (h₁.rirb h)
  stop h := (h₂.stop h).trans (h₁.stop h)

theorem Spares.mono (hP : ∀ q, P' q → P q) (h : d.Spares P d₁) : d.Spares P' d₁ :=
  ⟨fun q hq => h.cell q (hP q hq), fun hq => h.corb (hP _ hq), fun hq => h.rirb (hP _ hq), fun hq => h.stop (hP _ hq)⟩

theorem Spares.load (h : d.Spares P d₁) (ho : ∀ q, o ≤ q → q < o + w.bytes → P q) : d₁.load w o = d.load w o :=
  load_congr fun q hq hlt => h.cell q (ho q hq hlt)

theorem Leaves.refl : d.Leaves P d := ⟨.refl, rfl, rfl⟩

/-- A device that differs in nothing of the kind. -/
theorem leaves_of_fields (hregisters : d₁.registers = d.registers) (hmemory : d₁.memory = d.memory)
    (hreset : d₁.corbReset = d.corbReset) (hcorb : d₁.corbRead = d.corbRead) (hrirb : d₁.rirbWrite = d.rirbWrite)
    (hstop : d₁.pendingStop = d.pendingStop) : d.Leaves P d₁ :=
  ⟨⟨fun _ _ => cell_of_registers hregisters, fun _ => ⟨hreset, hcorb⟩, fun _ => hrirb, fun _ => hstop⟩,
    congrArg Memory.shape hmemory, congrArg Memory.next hmemory⟩

theorem Leaves.trans (h₁ : d.Leaves P d₁) (h₂ : d₁.Leaves P d₂) : d.Leaves P d₂ :=
  ⟨h₁.toSpares.trans h₂.toSpares, h₂.shape.trans h₁.shape, h₂.next.trans h₁.next⟩

theorem Leaves.mono (hP : ∀ q, P' q → P q) (h : d.Leaves P d₁) : d.Leaves P' d₁ := ⟨h.toSpares.mono hP, h.shape, h.next⟩

theorem Leaves.ordered (h : d.Leaves P d₁) (hd : d.memory.Ordered) : d₁.memory.Ordered := hd.of_shape h.shape h.next

theorem leaves_store (ho : ∀ q, P q → q < o ∨ o + w.bytes ≤ q) : d.Leaves P (d.store w o v) :=
  ⟨⟨fun q hq => cell_store_of_disjoint (ho q hq), fun _ => ⟨rfl, rfl⟩, fun _ => rfl, fun _ => rfl⟩, rfl, rfl⟩

/-! ### Registers that hold what is stored in them -/

/-- What a register shows. -/
def shown (d : Device) (w : Width) (o : Nat) : BitVec 32 :=
  if o = 0x4a then (if d.corbReset then 0x8000#32 else BitVec.ofNat 32 d.corbRead)
  else if o = 0x58 then BitVec.ofNat 32 d.rirbWrite
  else if isImmediate o && !d.immediate then 0xffffffff#32
  else d.load w o

/-- Nothing happens when the register is read or written. -/
def Inert (o : Nat) : Prop := o ∉ [0x08, 0x0e, 0x48, 0x4a, 0x4e, 0x58, 0x5d, 0x5e, 0x60, 0x64, 0x68]

instance (o : Nat) : Decidable (Inert o) := inferInstanceAs (Decidable (o ∉ _))

theorem shown_of_inert (ho : Inert o) : d.shown w o = d.load w o := by
  simp only [Inert, List.mem_cons, List.not_mem_nil, or_false, not_or] at ho
  obtain ⟨-, -, -, hcorb, -, hrirb, -, -, h60, h64, h68⟩ := ho
  have himmediate : isImmediate o = false := by simp [isImmediate, h60, h64, h68]
  rw [shown, if_neg hcorb, if_neg hrirb, himmediate, Bool.false_and, if_neg Bool.false_ne_true]

/-- Reading changes nothing but what was seen, unless something is on its way. -/
theorem read_calm {u : Rig} (h : u.Fits d) (hstop : d.pendingStop = none) (ho : o ≠ 0x08) :
    d.read w o = (w.truncate (d.shown w o), { d with events := .read w o (w.truncate (d.shown w o)) :: d.events }) := by
  have hsettle : d.settle o = d := by
    rw [settle, if_neg ho, h.pendingResponse, hstop]
    split <;> rfl
  have happly : ∀ {value : BitVec 32}, Override.applyAll o value d.overrides = (value, d.overrides) := by
    intro value
    rw [h.overrides]
    rfl
  have hvalue : (if o = 0x4a then ((if d.corbReset then 0x8000#32 else BitVec.ofNat 32 d.corbRead), d)
      else if o = 0x58 then (BitVec.ofNat 32 d.rirbWrite, d)
      else if isImmediate o && !d.immediate then (0xffffffff#32, d)
      else (d.load w o, d)) = (d.shown w o, d) := by
    unfold shown
    split
    · rfl
    · split
      · rfl
      · split <;> rfl
  unfold read
  rw [hsettle]
  dsimp only
  rw [hvalue, happly]

theorem act_inert (ho : Inert o)
    (hstop : w = .word → isStreamControl o = true → (d.load .word o).getLsbD 1 = true → v.getLsbD 1 = true) :
    d.act w o v = d.store w o v := by
  simp only [Inert, List.mem_cons, List.not_mem_nil, or_false, not_or] at ho
  obtain ⟨h08, h0e, h48, h4a, h4e, h58, h5d, h5e, h60, h64, h68⟩ := ho
  have himmediate : isImmediate o = false := by simp [isImmediate, h60, h64, h68]
  have hrunning : ¬(w = .word ∧ isStreamControl o = true ∧ (d.load .word o).getLsbD 1 = true ∧ (!v.getLsbD 1) = true) := by
    rintro ⟨hw, hcontrol, hrun, hv⟩
    rw [hstop hw hcontrol hrun] at hv
    cases hv
  rw [act, if_neg h08, if_neg (by simp [h0e, h5d]), if_neg h4a, if_neg h58, if_neg h48, if_neg (by simp [h4e, h5e]),
    himmediate, Bool.false_and, if_neg Bool.false_ne_true, if_neg h68, if_neg hrunning]

end Device

/-! ### The controller and its timer -/

/-- A controller built like a rig, some calls after it was switched on. -/
structure Station (u : Rig) where
  device : Device
  fits : u.Fits device
  timer : Countdown := none

namespace Station

open Procedure

variable {u : Rig} {σ : Type} {n : Nat} {t : σ} {s s' s₁ s₂ : Station u} {d : Device} {w : Width} {o v : BitVec 32}

/-- The machine, always with another check to spend. -/
def machine (s : Station u) : Machine :=
  { device := s.device, timer := s.timer, timerChecks := u.timerChecks, budget := 1 }

/-- Calls are answered as the machine answers them.  Nothing is said of calls to the bus, which it does not answer. -/
def world : World Call Call.Answer (Station u) := fun c s a s' =>
  match c with
  | .candidates | .identify _ | .bindExclusive _ | .release => True
  | c => a = (Machine.answer c s.machine).1 ∧ s'.device = (Machine.answer c s.machine).2.device ∧
    s'.timer = (Machine.answer c s.machine).2.timer

/-- The word that an event shows a transport to take: the rings when the controller asks a codec, the immediate interface
when it is written. -/
def word? (kind : TransportKind) : Event → Option (BitVec 32)
  | .asked word _ => if kind = .rings then some word else none
  | .wrote _ o word => if kind = .immediate ∧ o = 0x60 then some word else none
  | _ => none

/-- The words that a transport took, the latest first. -/
def said (kind : TransportKind) (events : List Event) : List (BitVec 32) := events.filterMap (word? kind)

/-- Every word that a transport took so far. -/
def sent (kind : TransportKind) (s : Station u) : List (BitVec 32) := (said kind s.device.events).reverse

/-- The device has become `d`, but for what was seen that takes no word anywhere. -/
structure Becomes (s : Station u) (d : Device) (s' : Station u) : Prop where
  device : ∃ events, s'.device = { d with events := events } ∧ ∀ kind, said kind events = said kind d.events
  timer : s'.timer = s.timer

namespace Becomes

variable {P : Nat → Prop}

theorem leaves (h : s.Becomes d s') (hd : s.device.Leaves P d) : s.device.Leaves P s'.device := by
  obtain ⟨events, heq, -⟩ := h.device
  rw [heq]
  exact hd.trans (Device.leaves_of_fields rfl rfl rfl rfl rfl rfl)

theorem spares (h : s.Becomes d s') (hd : s.device.Spares P d) : s.device.Spares P s'.device := by
  obtain ⟨events, heq, -⟩ := h.device
  rw [heq]
  have hseen : d.Leaves P { d with events := events } := Device.leaves_of_fields rfl rfl rfl rfl rfl rfl
  exact hd.trans hseen.toSpares

theorem rests (h : s.Becomes s.device s') : s.device.Leaves P s'.device := h.leaves .refl

theorem load (h : s.Becomes d s') {w : Width} {o : Nat} : s'.device.load w o = d.load w o := by
  obtain ⟨events, heq, -⟩ := h.device
  rw [heq]
  rfl

theorem shown (h : s.Becomes d s') {w : Width} {o : Nat} : s'.device.shown w o = d.shown w o := by
  obtain ⟨events, heq, -⟩ := h.device
  rw [heq]
  rfl

theorem memory (h : s.Becomes d s') : s'.device.memory = d.memory := by
  obtain ⟨events, heq, -⟩ := h.device
  rw [heq]

theorem stop (h : s.Becomes d s') : s'.device.pendingStop = d.pendingStop := by
  obtain ⟨events, heq, -⟩ := h.device
  rw [heq]

/-- Two stores, one after the other. -/
theorem store (h₁ : s.Becomes d s₁) {w : Width} {o : Nat} {v : BitVec 32} (h₂ : s₁.Becomes (s₁.device.store w o v) s₂) :
    s.Becomes (d.store w o v) s₂ := by
  obtain ⟨events₁, heq₁, hsaid₁⟩ := h₁.device
  obtain ⟨events₂, heq₂, hsaid₂⟩ := h₂.device
  rw [heq₁] at heq₂ hsaid₂
  exact ⟨⟨events₂, heq₂, fun kind => (hsaid₂ kind).trans (hsaid₁ kind)⟩, h₂.timer.trans h₁.timer⟩

theorem sent (h : s.Becomes d s') (kind : TransportKind) : s'.sent kind = (said kind d.events).reverse := by
  obtain ⟨events, heq, hsaid⟩ := h.device
  rw [Station.sent, heq]
  exact congrArg List.reverse (hsaid kind)

end Becomes

/-! ### One rule per call -/

theorem ensures_read_act : Ensures world n (read w o) t s (.succeeds fun a t' s' => t' = t ∧
    a = (s.device.read w o.toNat).1 ∧ s'.device = (s.device.read w o.toNat).2 ∧ s'.timer = s.timer) := by
  refine ensures_read.2 ?_
  rintro _ s' ⟨rfl, hdevice, htimer⟩
  exact ⟨rfl, rfl, hdevice, htimer⟩

theorem ensures_read_calm (hstop : s.device.pendingStop = none) (ho : o.toNat ≠ 0x08) :
    Ensures world n (read w o) t s (.succeeds fun a t' s' => t' = t ∧ a = w.truncate (s.device.shown w o.toNat) ∧
      s.Becomes s.device s') := by
  refine ensures_read_act.of_succeeds ?_
  rintro _ _ s' ⟨rfl, rfl, hdevice, htimer⟩
  rw [Device.read_calm s.fits hstop ho] at hdevice ⊢
  exact ⟨rfl, rfl, ⟨_, hdevice, fun _ => rfl⟩, htimer⟩

theorem ensures_write_act : Ensures world n (write w o v) t s (.succeeds fun _ t' s' => t' = t ∧
    s'.device = s.device.write w o.toNat v ∧ s'.timer = s.timer) := by
  refine ensures_write.2 ?_
  rintro _ s' ⟨rfl, hdevice, htimer⟩
  exact ⟨rfl, hdevice, htimer⟩

theorem ensures_write_inert (ho : Device.Inert o.toNat) (hstop : w = .word → Device.isStreamControl o.toNat = true →
      (s.device.load .word o.toNat).getLsbD 1 = true → v.getLsbD 1 = true) :
    Ensures world n (write w o v) t s (.succeeds fun _ t' s' => t' = t ∧
      s.Becomes (s.device.store w o.toNat (w.truncate v)) s') := by
  refine ensures_write_act.of_succeeds ?_
  rintro _ t' s' ⟨rfl, hdevice, htimer⟩
  have hsilent : ∀ kind, word? kind (.wrote w o.toNat (w.truncate v)) = none := fun kind => by
    have hne : o.toNat ≠ 0x60 := fun h => absurd ho (by rw [h]; decide)
    exact if_neg fun h => hne h.2
  refine ⟨rfl, ⟨.wrote w o.toNat (w.truncate v) :: s.device.events, hdevice.trans ?_, fun kind =>
    List.filterMap_cons_none (hsilent kind)⟩, htimer⟩
  have hstop' : w = .word → Device.isStreamControl o.toNat = true →
      ((s.device.observe (.wrote w o.toNat (w.truncate v))).load .word o.toNat).getLsbD 1 = true →
        (w.truncate v).getLsbD 1 = true := by
    intro hw hcontrol hrun
    rw [Width.getLsbD_truncate, hstop hw hcontrol hrun, hw]
    rfl
  rw [Device.write, Device.act_inert ho hstop']
  rfl

/-! ### Registers by width -/

theorem truncate_setWidth8 (v : BitVec 8) : Width.byte.truncate (v.setWidth 32) = v.setWidth 32 := by
  have hv := v.isLt
  apply BitVec.eq_of_toNat_eq
  rw [Width.toNat_truncate, BitVec.toNat_setWidth]
  simp only [Width.bytes]
  omega

theorem truncate_setWidth16 (v : BitVec 16) : Width.word.truncate (v.setWidth 32) = v.setWidth 32 := by
  have hv := v.isLt
  apply BitVec.eq_of_toNat_eq
  rw [Width.toNat_truncate, BitVec.toNat_setWidth]
  simp only [Width.bytes]
  omega

theorem ensures_read8_calm (hstop : s.device.pendingStop = none) (ho : o.toNat ≠ 0x08) :
    Ensures world n (read8 o) t s (.succeeds fun a t' s' => t' = t ∧ a = (s.device.shown .byte o.toNat).setWidth 8 ∧
      s.Becomes s.device s') := by
  refine (ensures_read_calm hstop ho).andThen ?_
  rintro _ _ s' ⟨rfl, rfl, h⟩
  exact ⟨rfl, Width.setWidth_truncate_byte _, h⟩

theorem ensures_read16_calm (hstop : s.device.pendingStop = none) (ho : o.toNat ≠ 0x08) :
    Ensures world n (read16 o) t s (.succeeds fun a t' s' => t' = t ∧ a = (s.device.shown .word o.toNat).setWidth 16 ∧
      s.Becomes s.device s') := by
  refine (ensures_read_calm hstop ho).andThen ?_
  rintro _ _ s' ⟨rfl, rfl, h⟩
  exact ⟨rfl, Width.setWidth_truncate_word _, h⟩

theorem ensures_read32_calm (hstop : s.device.pendingStop = none) (ho : o.toNat ≠ 0x08) :
    Ensures world n (read32 o) t s (.succeeds fun a t' s' => t' = t ∧ a = s.device.shown .dword o.toNat ∧
      s.Becomes s.device s') := by
  refine (ensures_read_calm hstop ho).of_succeeds ?_
  rintro _ _ s' ⟨rfl, rfl, h⟩
  exact ⟨rfl, Width.truncate_dword _, h⟩

theorem ensures_write8_inert {v : BitVec 8} (ho : Device.Inert o.toNat) :
    Ensures world n (write8 o v) t s (.succeeds fun _ t' s' => t' = t ∧
      s.Becomes (s.device.store .byte o.toNat (v.setWidth 32)) s') := by
  have h := ensures_write_inert (u := u) (n := n) (t := t) (s := s) (w := .byte) (v := v.setWidth 32) ho (by rintro ⟨⟩)
  rwa [truncate_setWidth8] at h

theorem ensures_write16_inert {v : BitVec 16} (ho : Device.Inert o.toNat) (hstop : Device.isStreamControl o.toNat = true →
      (s.device.load .word o.toNat).getLsbD 1 = true → v.getLsbD 1 = true) :
    Ensures world n (write16 o v) t s (.succeeds fun _ t' s' => t' = t ∧
      s.Becomes (s.device.store .word o.toNat (v.setWidth 32)) s') := by
  have hrun : Width.word = .word → Device.isStreamControl o.toNat = true →
      (s.device.load .word o.toNat).getLsbD 1 = true → (v.setWidth 32).getLsbD 1 = true := by
    intro _ hcontrol hrun
    rw [BitVec.getLsbD_setWidth, hstop hcontrol hrun]
    rfl
  have h := ensures_write_inert (n := n) (t := t) ho hrun
  rwa [truncate_setWidth16] at h

theorem ensures_write32_inert (ho : Device.Inert o.toNat) : Ensures world n (write32 o v) t s (.succeeds fun _ t' s' =>
    t' = t ∧ s.Becomes (s.device.store .dword o.toNat v) s') := by
  have h := ensures_write_inert (u := u) (n := n) (t := t) (s := s) (w := .dword) (v := v) ho (by rintro ⟨⟩)
  rwa [Width.truncate_dword] at h

theorem ensures_writeAddress_inert {lower upper : BitVec 32} (address : BitVec 64) (hlower : Device.Inert lower.toNat)
    (hupper : Device.Inert upper.toNat) : Ensures world n (writeAddress lower upper address) t s (.succeeds fun _ t' s' =>
      t' = t ∧ s.Becomes ((s.device.store .dword lower.toNat (Bits.field address 0 32)).store .dword upper.toNat
        (Bits.field address 32 32)) s') := by
  refine (ensures_write32_inert hlower).andThen ?_
  rintro _ _ s₁ ⟨rfl, h₁⟩
  refine (ensures_write32_inert hupper).of_succeeds ?_
  rintro _ _ s₂ ⟨rfl, h₂⟩
  exact ⟨rfl, h₁.store h₂⟩

/-- A wait that is over at the first look. -/
theorem ensures_poll {α : Type} {x : Procedure σ α} {a : α} {f : α → Bool} {site : WaitSite} {limit : WaitLimit}
    (hlimit : 0 < limit.checks n)
    (hx : Ensures world n x t s (.succeeds fun a' t' s' => t' = t ∧ a' = a ∧ s.Becomes s.device s')) (ha : f a = true) :
    Ensures world n (waitUntil site limit do return f (← x)) t s (.succeeds fun _ t' s' =>
      t' = t ∧ s.Becomes s.device s') := by
  refine ensures_waitUntil_of_check hlimit (hx.andThen ?_)
  rintro _ _ s' ⟨rfl, rfl, h⟩
  exact ensures_pure.2 ⟨ha, rfl, h⟩

/-! ### Memory and time -/

theorem ensures_allocate_block (k : Nat) : Ensures world n (allocate k) t s (.succeeds fun g t' s' => t' = t ∧
    g = ⟨s.device.memory.next, BitVec.ofNat 64 s.device.memory.next, k, s.device.memory.next⟩ ∧
    s.Becomes { s.device with memory := (s.device.memory.allocate k).2 } s') := by
  refine ensures_allocate.2 ?_
  rintro _ s' ⟨rfl, hdevice, htimer⟩
  exact ⟨rfl, rfl, ⟨_, hdevice, fun _ => rfl⟩, htimer⟩

theorem ensures_free_block (g : Region) : Ensures world n (free g) t s (.succeeds fun _ t' s' => t' = t ∧
    s.Becomes { s.device with memory := s.device.memory.free g.host } s') := by
  refine ensures_free.2 ?_
  rintro _ s' ⟨rfl, hdevice, htimer⟩
  exact ⟨rfl, ⟨_, hdevice, fun _ => rfl⟩, htimer⟩

theorem ensures_stall_rests (k : Nat) : Ensures world n (stall k) t s (.succeeds fun _ t' s' => t' = t ∧
    s.Becomes s.device s') := by
  refine ensures_stall.2 ?_
  rintro _ s' ⟨rfl, hdevice, htimer⟩
  exact ⟨rfl, ⟨_, hdevice, fun _ => rfl⟩, htimer⟩

theorem becomes_note {m : Notice} {a : Unit} (h : world (.note m) s a s') : s.Becomes s.device s' :=
  ⟨⟨s.device.events, h.2.1, fun _ => rfl⟩, h.2.2⟩

theorem ensures_note_rests (m : Notice) : Ensures world n (note m) t s (.succeeds fun _ t' s' => t' = t ∧
    s.Becomes s.device s') :=
  ensures_note.2 fun _ h => ⟨rfl, becomes_note h⟩

section
variable {g : Region} {offset : Nat}

theorem ensures_store32_block (hlong : offset + 4 ≤ g.length) (haligned : offset % 4 = 0) :
    Ensures world n (g.store32 offset v) t s (.succeeds fun _ t' s' => t' = t ∧
      s.Becomes { s.device with memory := s.device.memory.store (g.host + offset) 4 v.toNat } s') :=
  (ensures_store32 hlong haligned).2 fun _ h => ⟨rfl, ⟨s.device.events, h.2.1, fun _ => rfl⟩, h.2.2⟩

theorem ensures_store64_block {v : BitVec 64} (hlong : offset + 8 ≤ g.length) (haligned : offset % 8 = 0) :
    Ensures world n (g.store64 offset v) t s (.succeeds fun _ t' s' => t' = t ∧
      s.Becomes { s.device with memory := s.device.memory.store (g.host + offset) 8 v.toNat } s') :=
  (ensures_store64 hlong haligned).2 fun _ h => ⟨rfl, ⟨s.device.events, h.2.1, fun _ => rfl⟩, h.2.2⟩

theorem ensures_load32_block (hlong : offset + 4 ≤ g.length) (haligned : offset % 4 = 0) :
    Ensures world n (g.load32 offset) t s (.succeeds fun a t' s' => t' = t ∧
      a = BitVec.ofNat 32 ((s.device.memory.load? (g.host + offset) 4).getD 0) ∧ s.Becomes s.device s') :=
  (ensures_load32 hlong haligned).2 fun _ _ h => ⟨rfl, h.1, ⟨s.device.events, h.2.1, fun _ => rfl⟩, h.2.2⟩

theorem ensures_zero_block (g : Region) : Ensures world n g.zero t s (.succeeds fun _ t' s' => t' = t ∧
    s.Becomes { s.device with memory := s.device.memory.clear g.host g.length } s') :=
  fun _ _ h => ⟨rfl, ⟨s.device.events, h.2.1, fun _ => rfl⟩, h.2.2⟩

theorem ensures_fill_block {data : Array Byte} (hlong : offset + data.size ≤ g.length) :
    Ensures world n (g.fill offset data) t s (.succeeds fun _ t' s' => t' = t ∧
      s.Becomes { s.device with memory := s.device.memory.fill (g.host + offset) data } s') :=
  (ensures_fill hlong).2 fun _ h => ⟨rfl, ⟨s.device.events, h.2.1, fun _ => rfl⟩, h.2.2⟩

end

end Station
end Simulation
end AudioBringup
