import AudioBringup.Proofs.ImmediateLink
import AudioBringup.Proofs.PowerOn
import AudioBringup.Proofs.RingLink
import AudioBringup.Proofs.Routine
import AudioBringup.Proofs.Survey
/-!
# Proofs.Link — a transport of a simulated controller

Whichever transport is chosen comes up, and carries commands to codecs and their answers back without touching any register
but its own (`courier`).  Once it is taken down, neither ring runs and its memory is given back.
-/
namespace AudioBringup
namespace Simulation

open Procedure

namespace Rig

variable (u : Rig)

/-- The transport that a preference comes to. -/
def kind : TransportPreference → TransportKind
  | .immediate => .immediate
  | .rings => .rings
  | .auto => if u.immediate then .immediate else .rings

/-- The words a transport can be relied on for: over the rings, those that are answered. -/
def Carries (kind : TransportKind) (word : BitVec 32) : Prop := kind = .rings → (u.answer? word).isSome = true

end Rig

namespace Station

variable {u : Rig} {σ : Type} {n : Nat} {s s' : Station u} {poll : PollPolicy} {transport : Transport} {c : Controller}
  {P : Nat → Prop}

/-- A transport can be taken down. -/
def Closable (poll : PollPolicy) : Transport → Station u → Prop
  | .immediate _, s => s.Halted
  | .rings r, _ => r.resetLimit = poll.limit .ringReset

/-- A transport can be used. -/
def Linked (poll : PollPolicy) : Transport → Station u → Prop
  | .immediate _, s => s.Halted
  | .rings r, s => Serving r s.device ∧ r.resetLimit = poll.limit .ringReset ∧ r.drainLimit = poll.limit .corbDrain

theorem Linked.closable (h : s.Linked poll transport) : s.Closable poll transport :=
  match transport, h with
  | .immediate _, h => h
  | .rings _, h => h.2.1

theorem Closable.of_spares (h : s.Closable poll transport) (hd : s.device.Spares OnLink s'.device) : s'.Closable poll transport :=
  match transport, h with
  | .immediate _, h => Halted.of_spares h hd (by decide)
  | .rings _, h => h

/-- Whoever does not touch the link, nor takes memory back, does not disturb a transport. -/
theorem Linked.of_spares (h : s.Linked poll transport) (hd : s.device.Spares OnLink s'.device)
    (hordered : s.device.memory.Ordered → s'.device.memory.Ordered) (hshape : s.device.memory.shape ⊆ s'.device.memory.shape) :
    s'.Linked poll transport :=
  match transport, h with
  | .immediate _, h => Halted.of_spares h hd (by decide)
  | .rings _, ⟨h, hlimits⟩ => ⟨h.of_spares (hd.mono fun q hq => by
      unfold OfRings at hq
      unfold OnLink
      omega) (hordered h.ordered) hshape, hlimits⟩

theorem Linked.of_leaves (h : s.Linked poll transport) (hd : s.device.Leaves OnLink s'.device) : s'.Linked poll transport :=
  h.of_spares hd.toSpares hd.ordered fun _ hp => hd.shape ▸ hp

/-! ### Commands -/

/-- **A transport that is up is a courier**: whatever it carries is answered, and everything beyond the link is left as it
was at first. -/
def courier (poll : PollPolicy) (first : Transport) (d : Device) (hcalm : d.pendingStop = none) (htimer : u.timerChecks < n)
    (hdrain : 0 < (poll.limit .corbDrain).checks n) :
    Courier (world (u := u)) n (u.answers first.kind) (u.Carries first.kind) where
  Ready transport s := transport.kind = first.kind ∧ transport.held = first.held ∧ s.Linked poll transport ∧
    d.Leaves BeyondLink s.device
  sent := sent first.kind
  exchange {transport s} word := by
    rintro hword ⟨hkind, hheld, hlinked, hleaves⟩
    have hcalm : s.device.pendingStop = none := (hleaves.stop (by decide)).trans hcalm
    rw [← hkind, ← hheld]
    cases transport with
    | immediate timeout =>
      refine (exchange_immediate hcalm htimer).of_succeeds ?_
      rintro _ _ s' ⟨rfl, rfl, h, hsent⟩
      exact ⟨rfl, ⟨rfl, rfl, Halted.of_spares hlinked h.toSpares (by decide), hleaves.trans (h.mono fun q hq => by
        unfold BeyondLink at hq
        unfold BeyondImmediate
        omega)⟩, hsent⟩
    | rings r =>
      obtain ⟨hserving, hreset, hlimit⟩ := hlinked
      obtain ⟨response, hresponse⟩ := Option.isSome_iff_exists.1 (hword hkind.symm)
      refine ensures_get_bind.2 ?_
      dsimp only
      refine ensures_on.2 ((exchange_serving hserving hcalm (hlimit ▸ hdrain) hresponse).of_succeeds ?_)
      rintro _ _ s' ⟨rfl, rfl, hserving', h, hsent⟩
      refine ⟨?_, ⟨rfl, rfl, ⟨hserving', hreset, hlimit⟩, hleaves.trans h⟩, hsent⟩
      simp only [Rig.answers, Transport.kind, hresponse, Option.getD_some]
  note := by
    rintro transport s m s' ⟨hkind, hheld, hlinked, hleaves⟩ hw
    have h := becomes_note hw
    exact ⟨⟨hkind, hheld, hlinked.of_leaves h.rests, hleaves.trans h.rests⟩, h.sent first.kind⟩

/-- The controller is as it was but for its transport, of which only the cursors have moved. -/
def Ready (c₀ : Controller) (first : Transport) (c : Controller) (s : Station u) : Prop :=
  ∃ transport, c = { c₀ with transport := some transport } ∧ transport.kind = first.kind ∧ transport.held = first.held ∧
    s.Linked c₀.config.poll transport

theorem Ready.of_spares {c₀ : Controller} {first : Transport} (h : s.Ready c₀ first c) (hd : s.device.Spares OnLink s'.device)
    (hordered : s.device.memory.Ordered → s'.device.memory.Ordered) (hshape : s.device.memory.shape ⊆ s'.device.memory.shape) :
    s'.Ready c₀ first c := by
  obtain ⟨transport, hc, hkind, hheld, hlinked⟩ := h
  exact ⟨transport, hc, hkind, hheld, hlinked.of_spares hd hordered hshape⟩

theorem Ready.of_leaves {c₀ : Controller} {first : Transport} (h : s.Ready c₀ first c) (hd : s.device.Leaves OnLink s'.device) :
    s'.Ready c₀ first c :=
  h.of_spares hd.toSpares hd.ordered fun _ hp => hd.shape ▸ hp

section
variable {c₀ : Controller} {first : Transport} {words : List (BitVec 32)} {hcalm : s.device.pendingStop = none}
  {htimer : u.timerChecks < n} {hdrain : 0 < (c₀.config.poll.limit .corbDrain).checks n}

theorem Ready.at (h : s.Ready c₀ first c) :
    (courier c₀.config.poll first s.device hcalm htimer hdrain).At c₀ (s.sent first.kind) c s := by
  obtain ⟨transport, hc, hkind, hheld, hlinked⟩ := h
  exact ⟨transport, hc, ⟨hkind, hheld, hlinked, .refl⟩, rfl⟩

theorem Ready.of_at (h : (courier c₀.config.poll first s.device hcalm htimer hdrain).At c₀ words c s') :
    s'.Ready c₀ first c ∧ s.device.Leaves BeyondLink s'.device := by
  obtain ⟨transport, hc, ⟨hkind, hheld, hlinked, hleaves⟩, -⟩ := h
  exact ⟨⟨transport, hc, hkind, hheld, hlinked⟩, hleaves⟩

end

/-! ### Up and down -/

theorem Awake.halted (h : s.Awake) : s.Halted := by
  have hstopped : ∀ o, o = 0x4c ∨ o = 0x5c → (s.device.load .byte o).getLsbD 1 = false := fun o ho => by
    have hzero : s.device.load .byte o = 0 := Device.load_eq_zero fun q hq hlt => by
      have hbyte : Width.byte.bytes = 1 := rfl
      have hsize : Device.fileSize = 4096 := rfl
      exact h.blank q (by omega) (by omega)
    rw [hzero]
    rfl
  exact ⟨hstopped 0x4c (.inl rfl), hstopped 0x5c (.inr rfl)⟩

theorem choose_succeeds {t : σ} (hawake : s.Awake) (preference : TransportPreference) :
    Ensures world n (Transport.choose preference) t s (.succeeds fun kind t' s' => t' = t ∧ kind = u.kind preference ∧
      s.Rests s') := by
  cases preference with
  | immediate => exact ensures_pure.2 ⟨rfl, rfl, .refl⟩
  | rings => exact ensures_pure.2 ⟨rfl, rfl, .refl⟩
  | auto =>
    refine (ensures_read16_calm hawake.calm (by decide)).andThen ?_
    rintro icis _ s₁ ⟨rfl, hicis, h₁⟩
    refine (ensures_note_rests _).andThen ?_
    rintro _ _ s₂ ⟨rfl, h₂⟩
    refine ensures_pure.2 ⟨rfl, ?_, h₁.toRests.trans h₂.toRests⟩
    · have hzero : s.device.load .word 0x68 = 0 := Device.load_eq_zero fun q hq hlt => by
        have hword : Width.word.bytes = 2 := rfl
        have hsize : Device.fileSize = 4096 := rfl
        exact hawake.blank q (.inl (by omega)) (by omega)
      have himmediate := s.fits.immediate
      unfold Rig.kind
      cases hpresent : u.immediate with
      | false =>
        have hones : s.device.shown .word Register.icis.toNat = 0xffffffff#32 := by
          rw [Device.shown, if_neg (by decide), if_neg (by decide), himmediate, hpresent]
          rfl
        rw [hicis, hones]
        rfl
      | true =>
        have hzeros : s.device.shown .word Register.icis.toNat = 0 := by
          rw [Device.shown, if_neg (by decide), if_neg (by decide), himmediate, hpresent, Bool.not_true, Bool.and_false,
            if_neg Bool.false_ne_true]
          exact hzero
        rw [hicis, hzeros]
        rfl

theorem establishTransport_succeeds (hawake : s.Awake) (hlimit : 0 < (c.config.poll.limit .ringReset).checks n)
    (hroom : u.base + 2 * Memory.page < 2 ^ 64) : Ensures world n Controller.establishTransport c s
      (.succeeds fun kind c' s' => ∃ transport, c' = { c with transport := some transport } ∧ transport.kind = kind ∧
        kind = u.kind c.config.transport ∧ s'.Linked c.config.poll transport ∧ s.device.Spares BeyondLink s'.device ∧
          s'.device.memory.Ordered ∧ s'.device.memory.shape = transport.held.map fun h => (h.2.host, h.2.length)) := by
  have hordered : s.device.memory.Ordered := by
    refine ⟨?_, ?_⟩ <;> simp [hawake.shape]
  refine ensures_get_bind.2 ?_
  have hestablish : Ensures world n (Transport.establish c.config) c s (.succeeds fun transport c' s' => c' = c ∧
      transport.kind = u.kind c.config.transport ∧ s'.Linked c.config.poll transport ∧ s.device.Spares BeyondLink s'.device ∧
        s'.device.memory.Ordered ∧ s'.device.memory.shape = transport.held.map fun h => (h.2.host, h.2.length)) := by
    refine (choose_succeeds hawake c.config.transport).andThen ?_
    rintro kind c s₁ ⟨rfl, hkind, h₁⟩
    refine (ensures_note_rests _).andThen ?_
    rintro _ c s₂ ⟨rfl, h₂⟩
    have hrests := h₁.trans h₂.toRests
    have hordered₂ : s₂.device.memory.Ordered := (hrests.leaves (P := BeyondLink)).ordered hordered
    have hshape₂ : s₂.device.memory.shape = [] := (hrests.leaves (P := BeyondLink)).shape.trans hawake.shape
    have hnext₂ : s₂.device.memory.next = u.base := (hrests.leaves (P := BeyondLink)).next.trans hawake.next
    have hcalm₂ : s₂.device.pendingStop = none := ((hrests.leaves (P := fun _ => True)).stop trivial).trans hawake.calm
    cases kind with
    | immediate =>
      exact ensures_pure.2 ⟨rfl, hkind, hawake.halted.of_spares (P := fun _ => True) hrests.leaves.toSpares ⟨trivial, trivial⟩,
        hrests.leaves.toSpares, hordered₂, hshape₂⟩
    | rings =>
      refine (setUp_succeeds hcalm₂ hlimit hordered₂ (by rw [hnext₂]; exact hroom)).andThen ?_
      rintro r c s₃ ⟨rfl, hserving, hreset, hdrain, hspares, hshape⟩
      refine ensures_pure.2 ⟨rfl, hkind, ⟨hserving, hreset, hdrain⟩, hrests.leaves.toSpares.trans hspares, hserving.ordered, ?_⟩
      rw [hshape, hshape₂]
      rfl
  refine hestablish.andThen ?_
  rintro transport c s₁ ⟨rfl, hkind, h⟩
  exact ensures_modify_bind.2 (ensures_pure.2 ⟨transport, rfl, rfl, hkind, h⟩)

/-- **A transport that is taken down has stopped**, and nothing of it is left. -/
theorem tearDownTransport_succeeds (htransport : c.transport = some transport) (h : s.Closable c.config.poll transport)
    (hcalm : s.device.pendingStop = none) (hlimit : 0 < (c.config.poll.limit .ringReset).checks n) :
    Ensures world n Controller.tearDownTransport c s (.succeeds fun _ _ s' => s.device.Spares BeyondLink s'.device ∧
      s'.Halted ∧ s'.device.memory.shape = s.device.memory.shape.filter (·.1 ∉ transport.held.map (·.2.host))) := by
  refine ensures_get_bind.2 ?_
  rw [htransport]
  refine ensures_modify_bind.2 ?_
  refine (ensures_note_rests _).andThen ?_
  rintro _ _ s₁ ⟨rfl, h₁⟩
  have hcalm₁ : s₁.device.pendingStop = none := h₁.stop.trans hcalm
  have hrests : s.device.Leaves (fun _ => True) s₁.device := h₁.rests
  cases transport with
  | immediate timeout =>
    refine ensures_pure.2 ⟨h₁.rests.toSpares, Halted.of_spares h hrests.toSpares ⟨trivial, trivial⟩, ?_⟩
    rw [hrests.shape]
    exact (List.filter_eq_self.2 fun _ _ => by simp [Transport.held]).symm
  | rings r =>
    change r.resetLimit = _ at h
    refine (tearDown_succeeds hcalm₁ (h ▸ hlimit)).of_succeeds ?_
    rintro _ _ s₂ ⟨rfl, hspares, hhalted, hshape⟩
    refine ⟨h₁.rests.toSpares.trans hspares, hhalted, ?_⟩
    rw [hshape, hrests.shape, List.filter_filter]
    refine List.filter_congr fun p _ => ?_
    simp only [Transport.held, List.map_cons, List.map_nil, List.mem_cons, List.not_mem_nil, or_false, not_or, bne,
      Bool.decide_and, decide_not, Bool.and_comm]
    rfl

end Station
end Simulation
end AudioBringup
