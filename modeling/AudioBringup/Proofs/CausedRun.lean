import AudioBringup.Proofs.BoundedRun
import AudioBringup.Proofs.Cause
import AudioBringup.Proofs.Expansion
import AudioBringup.Proofs.FirstFailure
import AudioBringup.Proofs.Light
import AudioBringup.Proofs.StreamMemory
/-!
# Proofs.CausedRun — which errors a run ends with, and why

Each step accounts for the errors it can end with.  A wait is given up after the checks its configured limit lets it make;
the walk overflows once a codec has had all its visits and another node is due; a stream is missing where the controller
has too few; and a waveform is turned down before any memory is had for it.  Commands always have a transport to go
through.  So every error of a run says what happened, and no controller is found where there is none
(`run_ends_because`).
-/
namespace AudioBringup

open Procedure

/-! ### What is known of the state -/

/-- The rings wait as they are to, and have room. -/
structure CommandRings.Equipped (j : Job) (r : CommandRings) : Prop where
  follows : r.Follows j.config.poll
  roomy : j.ample → r.Roomy

def Transport.Equipped (j : Job) : Transport → Prop
  | .immediate _ => True
  | .rings r => r.Equipped j

/-- The controller is the configured one, and its transport is equipped if there is one. -/
def Controller.Equipped (j : Job) (c : Controller) : Prop := c.config = j.config ∧ ∀ t, c.transport = some t → t.Equipped j

/-- As far as it has come: the codecs it knows of reported in, and there is a transport. -/
structure Controller.Primed (j : Job) (b : History) (scanned established : Prop) (c : Controller) : Prop where
  equipped : c.Equipped j
  reported : scanned → ∀ codec ∈ c.codecAddresses, b.Present codec
  connected : established → c.transport ≠ none

variable {σ α : Type} {j : Job} {b d : History} {n : Nat} {I : σ → Prop} {P : Prop}

/-! ### The transports -/

namespace CommandRings

theorem stop_accountable {control : BitVec 32} (hcontrol : control = Register.corbctl ∨ control = Register.rirbctl) :
    Accountable j b I (stop control (j.config.poll.limit .ringReset)) fun _ => True := by
  refine (accountable_read8 _).andThen fun r => (accountable_write _ _ _).seq ?_
  exact accountable_wait (.ringStopped hcontrol) looks_read8

theorem start_accountable (control : BitVec 32) : Accountable j b I (start control) fun _ => True :=
  (accountable_read8 _).andThen fun _ => accountable_write _ _ _

theorem resetPointers_accountable : Accountable j b I (resetPointers (j.config.poll.limit .ringReset)) fun _ => True := by
  refine (accountable_write _ _ _).seq ((accountable_write _ _ _).seq ?_)
  refine (accountable_wait .pointerReset looks_read16).seq ((accountable_write _ _ _).seq ?_)
  exact (accountable_wait .pointerLetGo looks_read16).seq (accountable_write _ _ _)

theorem enlarge_accountable (size : BitVec 32) : Accountable j b I (enlarge size) fun _ => True :=
  (accountable_read8 _).andThen fun _ => (accountable_write _ _ _).seq (accountable_pure trivial)

theorem setUp_accountable : Accountable j b I (setUp j.config.poll) (Equipped j) := by
  refine (stop_accountable (.inl rfl)).seq ((stop_accountable (.inr rfl)).seq ?_)
  refine (accountable_allocate _).bind fun corb hcorb => ?_
  refine accountable_attempt_allocate (fun rirb hrirb => ?_) fun e b he hmet => ?_
  · refine (accountable_zero _).seq ((accountable_zero _).seq ?_)
    refine (accountable_writeAddress _ _ _).seq ((accountable_writeAddress _ _ _).seq ?_)
    refine (enlarge_accountable _).andThen fun corbEntries => (enlarge_accountable _).andThen fun rirbEntries => ?_
    refine (accountable_note _).seq (resetPointers_accountable.seq ((start_accountable _).seq ?_))
    refine (accountable_write _ _ _).seq ((start_accountable _).seq (accountable_pure ⟨⟨rfl, rfl⟩, fun hample => ?_⟩))
    exact ⟨Nat.le_of_eq (hcorb hample).symm, Nat.le_of_eq (hrirb hample).symm, corbEntries.count_pos, rirbEntries.count_pos⟩
  · exact (accountable_free _).seq (accountable_fail fun _ hh => Job.because_of_met he (hmet.mono hh))

theorem tearDown_accountable {r : CommandRings} (hr : r.Equipped j) : Accountable j b I r.tearDown fun _ => True := by
  unfold tearDown
  rw [hr.follows.1]
  refine (stop_accountable (.inl rfl)).seq ((stop_accountable (.inr rfl)).seq ?_)
  exact resetPointers_accountable.seq ((accountable_free _).seq (accountable_free _))

theorem exchange_accountable (word : BitVec 32) : Accountable j b (Equipped j) (exchange word) fun _ => True := by
  refine (accountable_modify fun r hr => ⟨hr.follows, fun hample => (hr.roomy hample).advanceWrite⟩).seq ?_
  refine accountable_get_bind fun r hr => ?_
  have hslot : j.ample → r.writeCursor * corbSlot + 4 ≤ r.corb.length ∧ r.writeCursor * corbSlot % 4 = 0 := fun hample => by
    have hroomy := hr.roomy hample
    have hcount := r.corbEntries.count_le
    have hwrite := hroomy.write
    have hcorb := hroomy.corb
    simp only [corbSlot, corbLength] at hcorb ⊢
    omega
  rw [hr.follows.2]
  refine (accountable_store32 hslot).seq ((accountable_write _ _ _).seq ?_)
  refine (accountable_wait (.fetched r.writeCursor) looks_read16).seq ?_
  -- one limit is configured for both waits
  refine Accountable.seq (accountable_wait (WaitSite.Look.answered r.readCursor) looks_read16) ?_
  refine (accountable_modify fun r hr => ⟨hr.follows, fun hample => (hr.roomy hample).advanceRead⟩).seq ?_
  refine accountable_get_bind fun r hr => ?_
  have hslot : j.ample → r.readCursor * rirbSlot + 4 ≤ r.rirb.length ∧ r.readCursor * rirbSlot % 4 = 0 := fun hample => by
    have hroomy := hr.roomy hample
    have hcount := r.rirbEntries.count_le
    have hread := hroomy.read
    have hrirb := hroomy.rirb
    simp only [rirbSlot, rirbLength] at hrirb ⊢
    omega
  refine (accountable_load32 hslot).andThen fun response => (accountable_write _ _ _).seq ?_
  exact (accountable_note _).seq (accountable_pure trivial)

end CommandRings

namespace ImmediateInterface

theorem awaitResponse_accountable : ∀ patience, Accountable j b I (awaitResponse patience) fun _ => True
  | 0 => fun _ _ _ _ _ => trivial
  | patience + 1 => by
    refine (accountable_read16 _).andThen fun status => accountable_ite (fun _ => accountable_pure trivial) fun _ => ?_
    refine Accountable.andThen (accountable_call fun _ => rfl) fun expired => ?_
    exact accountable_ite (fun _ => accountable_pure trivial) fun _ => awaitResponse_accountable patience

theorem exchange_accountable (timeout : BitVec 64) (word : BitVec 32) :
    Accountable j b I (exchange timeout word) fun _ => True := by
  refine (accountable_write _ _ _).seq ((accountable_write _ _ _).seq ((accountable_write _ _ _).seq ?_))
  refine Accountable.seq (accountable_call fun _ => rfl) ?_
  refine Accountable.andThen (fun n => awaitResponse_accountable n n) fun answered => ?_
  refine Accountable.seq (accountable_call fun _ => rfl) (accountable_ite (fun _ => ?_) fun _ => ?_)
  · refine (accountable_read _ _).andThen fun response => (accountable_read16 _).andThen fun status => ?_
    exact (accountable_write _ _ _).seq ((accountable_note _).seq (accountable_pure trivial))
  · exact (accountable_note _).seq (accountable_pure trivial)

end ImmediateInterface

namespace Transport

theorem exchange_accountable (word : BitVec 32) : Accountable j b (Equipped j) (exchange word) fun _ => True := by
  refine accountable_get_bind fun t ht => ?_
  cases t with
  | immediate timeout => exact ImmediateInterface.exchange_accountable timeout word
  | rings r => exact accountable_on (CommandRings.exchange_accountable word) ht fun _ _ _ hr => hr

theorem choose_accountable (preference : TransportPreference) : Accountable j b I (choose preference) fun _ => True := by
  cases preference with
  | immediate => exact accountable_pure trivial
  | rings => exact accountable_pure trivial
  | auto => exact (accountable_read16 _).andThen fun _ => (accountable_note _).seq (accountable_pure trivial)

theorem establish_accountable : Accountable j b I (establish j.config) (Equipped j) := by
  refine (choose_accountable _).andThen fun kind => (accountable_note _).seq ?_
  cases kind with
  | immediate => exact accountable_pure trivial
  | rings => exact CommandRings.setUp_accountable.bind fun r hr => accountable_pure (a := Transport.rings r) hr

theorem tearDown_accountable {t : Transport} (ht : t.Equipped j) : Accountable j b I t.tearDown fun _ => True := by
  cases t with
  | immediate _ => exact accountable_pure trivial
  | rings r => exact CommandRings.tearDown_accountable ht

end Transport

/-! ### The controller and its codecs -/

namespace Controller

theorem reset_accountable : Accountable j b (Equipped j) reset fun _ => True := by
  refine (accountable_read _ _).andThen fun control => (accountable_write _ _ _).seq (accountable_get_bind fun c hc => ?_)
  rw [hc.1]
  exact (accountable_wait .outOfReset looks_read32).seq (accountable_note _)

theorem waitForCodecs_accountable : Accountable j b (Equipped j) waitForCodecs fun _ => True :=
  accountable_get_bind fun _ _ => accountable_stall _

theorem suppressInterrupts_accountable {I : Controller → Prop} : Accountable j b I suppressInterrupts fun _ => True :=
  (accountable_write _ _ _).seq (accountable_write _ _ _)

theorem present_of_mem {c : Controller} {v : BitVec 32} {h : History} {codec : BitVec 8}
    (hc : c.presentCodecs = (StateChangeStatus.mk (v.setWidth 16)).codecs) (hmem : codec ∈ c.codecAddresses)
    (hv : ⟨.read .word Register.statests, .ok v⟩ ∈ h) : h.Present codec := by
  simp only [codecAddresses, List.mem_map, List.mem_filter, List.mem_range, hc] at hmem
  obtain ⟨k, ⟨hk, hbit⟩, rfl⟩ := hmem
  have hcodec : (BitVec.ofNat 8 k).toNat = k := Nat.mod_eq_of_lt (Nat.lt_trans hk (by decide))
  exact ⟨hcodec.symm ▸ hk, v, hv, hcodec.symm ▸ hbit⟩

/-- The codecs that are known from now on reported in. -/
theorem scanCodecs_owing {c : Controller} {h : History} (hc : c.Equipped j) (hh : b <:+ h) :
    Ensures j.world n scanCodecs c h (owing j b (Equipped j) fun _ c h => c.Primed j h True False ∧ b <:+ h) := by
  refine owing_bind (P := fun status c' h' => c'.Equipped j ∧ b <:+ h' ∧ ∀ c : Controller,
    c.presentCodecs = (StateChangeStatus.mk status).codecs → ∀ codec ∈ c.codecAddresses, h'.Present codec) ?_ ?_
  · refine ensures_bind.2 (ensures_read.2 ?_)
    rintro (e | v) _ ⟨rfl, hforeign, -⟩
    · exact ⟨Job.because_of_failed hforeign rfl, hc, History.suffix_call hh⟩
    · exact ⟨hc, History.suffix_call hh, fun _ hc _ hmem => present_of_mem hc hmem List.mem_cons_self⟩
  rintro status c h ⟨hc, hh, hpresent⟩
  refine owing_bind (owing_weaken hh (fun _ => id) (accountable_write _ _ _ n c h hc List.suffix_rfl)) ?_
  rintro _ c' h' ⟨-, hc', hh'⟩
  refine ensures_modify_bind.2 (ensures_bind.2 (ensures_note.2 ?_))
  rintro _ ⟨rfl, -⟩
  have hlater := History.suffix_call (c := .note (.codecsReported (StateChangeStatus.mk status).codecs)) (a := ()) hh'
  exact ⟨⟨hc', fun _ codec hmem => (hpresent _ rfl codec hmem).mono hlater, False.elim⟩, hh.trans hlater⟩

/-- From now on there is a transport. -/
theorem establishTransport_owing {c : Controller} {h : History} (hc : c.Primed j d P False) (hh : b <:+ h) :
    Ensures j.world n establishTransport c h
      (owing j b (Primed j d P False) fun _ c h => c.Primed j d P True ∧ b <:+ h) := by
  refine ensures_get_bind.2 ?_
  rw [hc.equipped.1]
  refine owing_bind (Transport.establish_accountable n c h hc hh) ?_
  rintro t c' h' ⟨ht, hc', hh'⟩
  exact ⟨⟨⟨hc'.equipped.1, fun _ h => Option.some.inj h ▸ ht⟩, hc'.reported, fun _ => nofun⟩, hh'⟩

theorem command_accountable (cmd : Command) : Accountable j b (Primed j d P True) (command cmd) fun _ => True := by
  refine accountable_get_bind fun c hc => ?_
  cases ht : c.transport with
  | none => exact absurd ht (hc.connected trivial)
  | some t =>
    have hsent : Accountable j b (Primed j d P True)
        (on t (fun t (c : Controller) => { c with transport := some t }) (Transport.exchange cmd.encode)) fun _ => True :=
      accountable_on (Transport.exchange_accountable _) (hc.equipped.2 t ht) fun c t hc ht =>
        ⟨⟨hc.equipped.1, fun _ h => Option.some.inj h ▸ ht⟩, hc.reported, fun _ => nofun⟩
    exact accountable_when (accountable_note _) hsent

theorem tearDownTransport_accountable : Accountable j b (Equipped j) tearDownTransport fun _ => True := by
  refine accountable_get_bind fun c hc => ?_
  cases ht : c.transport with
  | none => exact accountable_pure trivial
  | some t =>
    refine (accountable_modify fun c hc => ⟨hc.1, nofun⟩).seq ((accountable_note _).seq ?_)
    exact Transport.tearDown_accountable (hc.2 t ht)

end Controller

namespace Node

theorem read_accountable (addr : NodeAddr) (vendorId : BitVec 32) :
    Accountable j b (Controller.Primed j d P True) (read addr vendorId) fun _ => True := by
  unfold read
  iterate 15 refine (Controller.command_accountable _).andThen fun _ => ?_
  exact accountable_pure trivial

theorem sendIf_accountable {wanted : Bool} {m : Notice} {cmd : Command} {rest : Procedure Controller Unit}
    (hrest : Accountable j b (Controller.Primed j d P True) rest fun _ => True) :
    Accountable j b (Controller.Primed j d P True) (if wanted then (do
      note m
      let _ ← Controller.command cmd
      rest) else rest) fun _ => True := by
  refine accountable_ite (fun _ => ?_) fun _ => hrest
  exact (accountable_note _).seq ((Controller.command_accountable _).andThen fun _ => hrest)

theorem configure_accountable (addr : NodeAddr) (node : Node) :
    Accountable j b (Controller.Primed j d P True) (configure addr node) fun _ => True :=
  sendIf_accountable (sendIf_accountable (sendIf_accountable (accountable_pure trivial)))

end Node

namespace Codec

theorem visit_accountable (codec id : BitVec 8) :
    Accountable j b (Controller.Primed j d P True) (visit codec id) fun _ => True := by
  refine (Controller.command_accountable _).andThen fun vendorId => accountable_ite (fun _ => ?_) fun _ => ?_
  · exact (accountable_note _).seq (accountable_pure trivial)
  · refine (Node.read_accountable _ _).andThen fun node => (accountable_note _).seq ?_
    exact (Node.configure_accountable _ _).seq (accountable_pure trivial)

/-- **The walk overflows only once its visits are used up** and another node is due. -/
theorem walkBelow_owing {codec : BitVec 8} (hcodec : b.Present codec) : ∀ {allowance visits : Nat}
    {pending : List (BitVec 8)} {found : NodeTable} {c : Controller} {h : History}, h.Pending codec pending visits →
    visits + allowance = j.config.maxWalkVisits → c.Primed j d P True → b <:+ h →
    Ensures j.world n (walkBelow codec allowance pending found) c h
      (owing j b (Controller.Primed j d P True) fun _ c h => True ∧ c.Primed j d P True ∧ b <:+ h)
  | 0, _, [], _, _, _, _, _, hc, hh | _ + 1, _, [], _, _, _, _, _, hc, hh => ⟨trivial, hc, hh⟩
  | 0, visits, id :: pending, _, _, h, hpending, hvisits, hc, hh => by
    obtain rfl : visits = j.config.maxWalkVisits := hvisits
    exact ⟨⟨hcodec.mono hh, id, pending, hpending⟩, hc, hh⟩
  | allowance + 1, visits, id :: pending, found, c, h, hpending, hvisits, hc, hh => by
    refine owing_bind_ends (visit_accountable codec id n c h hc hh) ?_
    rintro (_ | node) c' h' hvisited ⟨-, hc', hh'⟩
    · exact walkBelow_owing hcodec (hpending.absent hvisited) (by omega) hc' hh'
    · exact walkBelow_owing hcodec (hpending.found hvisited) (by omega) hc' hh'

theorem walk_accountable {address : BitVec 8} (haddress : b.Present address) :
    Accountable j b (Controller.Primed j d P True) (walk address) fun _ => True := by
  refine (Controller.command_accountable _).andThen fun vendorId => accountable_ite (fun _ => ?_) fun hthere => ?_
  · exact (accountable_note _).seq (accountable_pure trivial)
  refine (accountable_note _).seq fun n c h hc hh => ?_
  refine owing_bind_ends (Node.read_accountable _ _ n c h hc hh) ?_
  rintro root c₁ h₁ hread ⟨-, hc₁, hh₁⟩
  refine owing_bind (owing_weaken hh₁ (fun _ => id) (Node.configure_accountable _ _ n c₁ h₁ hc₁ List.suffix_rfl)) ?_
  rintro _ c₂ h₂ ⟨-, hc₂, hh₂⟩
  refine ensures_get_bind.2 ?_
  rw [hc₂.equipped.1]
  have hroot : History.Pending address root.children 0 h₂ := by
    simp only [Bool.or_eq_true, beq_iff_eq, not_or] at hthere
    exact .root hthere hread hh₂
  refine owing_bind (walkBelow_owing haddress hroot (Nat.zero_add _) hc₂ (hh₁.trans hh₂)) ?_
  rintro nodes c₃ h₃ ⟨-, hc₃, hh₃⟩
  exact ((accountable_note _).seq (accountable_pure trivial)) n c₃ h₃ hc₃ hh₃

theorem walkAll_accountable : ∀ {addresses : List (BitVec 8)}, (∀ a ∈ addresses, b.Present a) →
    Accountable j b (Controller.Primed j d P True) (walkAll addresses) fun _ => True
  | [], _ => accountable_pure trivial
  | _ :: _, h => by
    obtain ⟨haddress, hrest⟩ := List.forall_mem_cons.1 h
    refine (walk_accountable haddress).andThen fun codec => (walkAll_accountable hrest).andThen fun codecs => ?_
    exact accountable_pure trivial

end Codec

theorem Topology.walk_accountable : Accountable j b (Controller.Primed j b True True) Topology.walk fun _ => True :=
  accountable_get_bind fun _ hc =>
    (Codec.walkAll_accountable (hc.reported trivial)).andThen fun _ => accountable_pure trivial

/-! ### The streams -/

namespace Streams

/-- The buffer lists of the output engines are as long as lists are. -/
def Roomy (j : Job) (s : Streams) : Prop := j.ample → ∀ e ∈ s.output, e.list.length = BufferList.length

theorem allocateEngines_accountable (streamClass : StreamClass) : ∀ index descriptor count,
    Accountable j b I (allocateEngines streamClass index descriptor count) fun engines =>
      engines.length = count ∧ (j.ample → ∀ e ∈ engines, e.list.length = BufferList.length)
  | _, _, 0 => accountable_pure ⟨rfl, fun _ => nofun⟩
  | index, descriptor, count + 1 => by
    refine (accountable_allocate _).bind fun list hlist => (accountable_zero _).seq ?_
    refine (allocateEngines_accountable streamClass _ _ count).bind ?_
    rintro rest ⟨hcount, hrest⟩
    refine accountable_pure ⟨congrArg (· + 1) hcount, fun hample => ?_⟩
    exact List.forall_mem_cons.2 ⟨hlist hample, hrest hample⟩

/-- The output engines are as many as the controller said it has. -/
theorem allocate_owing {I : Controller → Prop} {c : Controller} {h : History} (hc : I c) (hh : b <:+ h) :
    Ensures j.world n allocate c h (owing j b I fun s c h => (h.Unsampled ∧ h.Offered s.output.length ∧ s.Roomy j) ∧
      I c ∧ b <:+ h) := by
  refine owing_bind (P := fun caps c h => h.Offered caps.outputStreams ∧ I c ∧ b <:+ h) ?_ ?_
  · refine ensures_bind.2 (ensures_bind.2 (ensures_read.2 ?_))
    rintro (e | v) _ ⟨rfl, hforeign, -⟩
    · exact ⟨Job.because_of_failed hforeign rfl, hc, History.suffix_call hh⟩
    · exact ⟨⟨v, List.mem_cons_self, rfl⟩, hc, History.suffix_call hh⟩
  rintro caps c₁ h₁ ⟨hoffered, hc₁, hh₁⟩
  refine owing_weaken hh₁ (fun _ => id) ((accountable_note _).followed hc₁ List.suffix_rfl fun _ c h _ hc hh => ?_)
  refine (allocateEngines_accountable .input _ _ _).followed hc hh fun input c h _ hc hh => ?_
  refine (allocateEngines_accountable .output _ _ _).followed hc hh fun output c h houtput hc hh => ?_
  refine (allocateEngines_accountable .bidirectional _ _ _).followed hc hh fun bidirectional c h _ hc hh => ?_
  refine (accountable_allocate _).followed hc hh fun positions c h _ hc hh => ?_
  refine (accountable_zero _).followed hc hh fun _ c h _ hc hh => ?_
  refine (accountable_writeAddress _ _ _).followed hc hh fun _ c h _ hc hh => ?_
  refine ensures_bind.2 (ensures_note.2 ?_)
  rintro _ ⟨rfl, -⟩
  have hlater := History.suffix_call (c := .note (.positionsPlaced positions.address)) (a := ()) hh
  refine ⟨⟨⟨[], _, h, rfl, nofun⟩, ?_, houtput.2⟩, hc, hh₁.trans hlater⟩
  dsimp only
  rw [houtput.1]
  exact hoffered.mono hlater

theorem resetEngine_accountable (descriptor : Nat) : Accountable j b I
    (resetEngine (Register.stream descriptor) (j.config.poll.limit .streamReset)) fun _ => True := by
  refine (accountable_read16 _).andThen fun _ => (accountable_write _ _ _).seq ?_
  refine (accountable_wait (.streamReset descriptor) looks_read16).seq ?_
  refine (accountable_read16 _).andThen fun _ => (accountable_write _ _ _).seq ?_
  exact accountable_wait (.streamLetGo descriptor) looks_read16

theorem writePieces_accountable {list : Region} (hlist : j.ample → list.length = BufferList.length) : ∀ {index pieces},
    index + pieces.length ≤ BufferList.maxPieces → Accountable j b I (writePieces list index pieces) fun _ => True
  | _, [], _ => accountable_pure trivial
  | index, piece :: rest, hfits => by
    have hfield : ∀ k size, k + size ≤ BufferList.recordLength → size = 4 ∨ size = 8 → k % size = 0 → j.ample →
        index * BufferList.recordLength + k + size ≤ list.length ∧ (index * BufferList.recordLength + k) % size = 0 := by
      intro k size hk hsize haligned hample
      rw [hlist hample]
      simp only [List.length_cons, BufferList.length, BufferList.maxPieces, BufferList.recordLength] at hfits hk ⊢
      rcases hsize with rfl | rfl <;> omega
    refine (accountable_store64 (hfield 0 8 (by decide) (.inr rfl) (by decide))).seq ?_
    refine (accountable_store32 (hfield 8 4 (by decide) (.inl rfl) (by decide))).seq ?_
    refine (accountable_store32 (hfield 12 4 (by decide) (.inl rfl) (by decide))).seq ?_
    refine writePieces_accountable hlist ?_
    simp only [List.length_cons] at hfits
    omega

theorem formatConverters_accountable : ∀ converters,
    Accountable j b (Controller.Primed j d P True) (formatConverters converters) fun _ => True
  | [] => accountable_pure trivial
  | _ :: rest => by
    refine accountable_get_bind fun _ _ => (accountable_note _).seq ?_
    refine (Controller.command_accountable _).andThen fun _ => (Controller.command_accountable _).andThen fun _ => ?_
    exact formatConverters_accountable rest

theorem because_of_shape {e : Error} {h : History} (hu : h.Unsampled) :
    BufferList.checkShape j.waveform.size j.config.bdlEntries = .error e → j.Because h e := by
  intro hshape
  have hform := hshape
  unfold BufferList.checkShape at hform
  split at hform
  · cases hform
    exact ⟨hshape, hu⟩
  · split at hform
    · cases hform
      exact ⟨hshape, hu⟩
    · cases hform

/-- A waveform of the wrong shape is turned down before any memory is had for it. -/
theorem allocateSample_owing {s : σ} {h : History} (hs : I s) (hh : b <:+ h) (hu : h.Unsampled) :
    Ensures j.world n (allocateSample j.waveform j.config.bdlEntries) s h
      (owing j b I fun r s h => r.2.length ≤ BufferList.maxPieces ∧ I s ∧ b <:+ h) := by
  unfold allocateSample
  cases hshape : BufferList.checkShape j.waveform.size j.config.bdlEntries with
  | error e => exact ⟨because_of_shape hu hshape, hs, hh⟩
  | ok u =>
    refine (accountable_allocate _).followed hs hh fun sample s h hsample hs hh => ?_
    rw [BufferList.split_of_ok sample.address hshape]
    have hfits : j.ample → 0 + j.waveform.size ≤ sample.length := fun hample => by
      rw [hsample hample, Nat.zero_add]
    refine (accountable_fill hfits).followed hs hh fun _ s h _ hs hh => ⟨?_, hs, hh⟩
    rw [List.length_map, List.length_range]
    exact (BufferList.checkShape_ok.1 hshape).2.1

theorem onController_accountable {I : Controller → Prop} {K : Streams → Prop} {R : α → Prop} {p : Procedure Controller α}
    (hp : Accountable j b I p R) : Accountable j b (fun t => I t.1 ∧ K t.2) (onController p) R :=
  accountable_get_bind fun _ ht => accountable_on hp ht.1 fun _ _ ht hc => ⟨hc, ht.2⟩

/-- The controller has a transport, and the output engines are these. -/
def Lined (j : Job) (d : History) (P : Prop) (output : List StreamEngine) (t : Controller × Streams) : Prop :=
  t.1.Primed j d P True ∧ t.2.output = output

/-- The waveform is turned down, or an engine is pointed at it and the converters at the engine. -/
theorem load_owing {topology : Topology} {engine : StreamEngine} {output : List StreamEngine} {t : Controller × Streams}
    {h : History} (hengine : output[j.config.outputStream]? = some engine)
    (hlist : j.ample → engine.list.length = BufferList.length) (ht : Lined j d P output t) (hh : b <:+ h)
    (hu : History.Unsampled h) :
    Ensures j.world n (load j.config engine j.waveform topology.audioOutputs) t h
      (owing j b (fun t => t.1.Primed j d P True) fun _ t h =>
        t.2.programmedEngine ≠ none ∧ t.1.Primed j d P True ∧ b <:+ h) := by
  refine owing_weaken List.suffix_rfl (fun _ (h : Lined j d P output _) => h.1) (owing_bind (allocateSample_owing ht hh hu) ?_)
  rintro ⟨sample, pieces⟩ t h ⟨hpieces, ht, hh⟩
  refine (writePieces_accountable hlist (by rwa [Nat.zero_add])).followed ht hh fun _ t h _ ht hh => ?_
  refine (accountable_write _ _ _).followed ht hh fun _ t h _ ht hh => ?_
  refine (accountable_write _ _ _).followed ht hh fun _ t h _ ht hh => ?_
  refine (accountable_writeAddress _ _ _).followed ht hh fun _ t h _ ht hh => ?_
  refine (accountable_write _ _ _).followed ht hh fun _ t h _ ht hh => ?_
  refine (accountable_note _).followed ht hh fun _ t h _ ht hh => ensures_modify_bind.2 ?_
  obtain ⟨c, s⟩ := t
  obtain ⟨hc, rfl⟩ := ht
  have hformatted := onController_accountable (K := fun s' => s'.output = s.output ∧ s'.programmed =
    some j.config.outputStream) (formatConverters_accountable (j := j) (b := b) (d := d) (P := P) topology.audioOutputs)
    n (c, { s with sample := some sample, programmed := some j.config.outputStream }) h ⟨hc, rfl, rfl⟩ hh
  refine owing_bind (owing_weaken List.suffix_rfl (fun _ h => ⟨h.1, h.2.1⟩) hformatted) ?_
  rintro _ ⟨c, s'⟩ h ⟨-, ⟨hc, houtput, hprogrammed⟩, hh⟩
  refine ⟨?_, hc, hh⟩
  unfold programmedEngine
  dsimp only at houtput hprogrammed ⊢
  rw [hprogrammed, houtput, Option.bind_some, hengine]
  exact nofun

/-- The engine that was programmed is there. -/
theorem program_owing {topology : Topology} {c : Controller} {s : Streams} {h : History} (hc : c.Primed j d P True)
    (hh : b <:+ h) (hs : h.Unsampled ∧ h.Offered s.output.length ∧ s.Roomy j) :
    Ensures j.world n (program topology j.waveform) (c, s) h (owing j b (fun t => t.1.Primed j d P True) fun _ t h =>
      t.2.programmedEngine ≠ none ∧ t.1.Primed j d P True ∧ b <:+ h) := by
  obtain ⟨hu, hoffered, hroomy⟩ := hs
  refine ensures_get_bind.2 ?_
  dsimp only
  rw [hc.equipped.1]
  cases hengine : s.output[j.config.outputStream]? with
  | none => exact ⟨⟨rfl, List.getElem?_eq_none_iff.1 hengine, hoffered⟩, hc, hh⟩
  | some engine =>
    have hlist := fun hample => hroomy hample engine (List.mem_of_getElem? hengine)
    -- nothing is allocated until the waveform is looked at
    refine owing_bind ((resetEngine_accountable engine.descriptor).keeping resetEngine_plain History.Unsampled.stable hc hh hu)
      ?_
    rintro _ ⟨c', s'⟩ h ⟨⟨-, hc, hh⟩, hsame, hu⟩
    cases hsame
    refine ensures_modify_bind.2 ?_
    cases s.sample with
    | none => exact load_owing hengine hlist ⟨hc, rfl⟩ hh hu
    | some old =>
      refine ensures_bind.2 (ensures_free.2 ?_)
      rintro (e | _) _ ⟨rfl, hforeign, -⟩
      · exact ⟨Job.because_of_failed hforeign rfl, hc, History.suffix_call hh⟩
      · exact load_owing hengine hlist ⟨hc, rfl⟩ (History.suffix_call hh) (hu.call nofun)

theorem start_accountable {I : Controller → Prop} {s : Streams} (hs : s.programmedEngine ≠ none) :
    Accountable j b I s.start fun _ => True := by
  refine accountable_get_bind fun c hc => ?_
  cases hengine : s.programmedEngine with
  | none => exact absurd hengine hs
  | some engine =>
    refine (accountable_read16 _).andThen fun low => (accountable_read8 _).andThen fun high => ?_
    refine (accountable_write _ _ _).seq ((accountable_read _ _).andThen fun sync => ?_)
    refine accountable_when (accountable_write _ _ _) ((accountable_write _ _ _).seq ?_)
    exact accountable_when (accountable_write _ _ _) (accountable_note _)

theorem stopEngine_accountable (engine : StreamEngine) :
    Accountable j b I (stopEngine engine (j.config.poll.limit .streamReset)) fun _ => True := by
  refine (accountable_read16 _).andThen fun _ => (accountable_write _ _ _).seq ?_
  exact (accountable_wait (.streamStopped engine.descriptor) looks_read16).seq (accountable_note _)

theorem freeAll_accountable : ∀ regions : List Region, Accountable j b I (freeAll regions) fun _ => True
  | [] => accountable_pure trivial
  | _ :: rest => (accountable_free _).seq (freeAll_accountable rest)

theorem release_accountable {s : Streams} : Accountable j b (Controller.Equipped j) s.release fun _ => True := by
  have hback : Accountable j b (Controller.Equipped j) (do
      writeAddress Register.dplbase Register.dpubase 0
      freeAll s.regions) fun _ => True := (accountable_writeAddress _ _ _).seq (freeAll_accountable _)
  unfold release
  cases s.programmedEngine with
  | none => exact hback
  | some engine =>
    refine accountable_get_bind fun c hc => ?_
    rw [hc.1]
    exact (stopEngine_accountable engine).seq hback

end Streams

/-! ### Discovery -/

namespace History

theorem Settled.mono {h h' : History} (hs : h.Settled) (hh : h <:+ h') : h'.Settled := by
  rcases hs with ⟨e, he⟩ | ⟨all, c, r, hall, hc, hr, hi⟩
  · exact .inl ⟨e, (hh.sublist.filterMap _).subset he⟩
  · exact .inr ⟨all, c, r, (hh.sublist.filterMap _).subset hall, hc, (hh.sublist.filterMap _).subset hr, hi⟩

theorem Settled.not_noneFound {h : History} (hs : h.Settled) : ¬h.NoneFound := by
  rintro ⟨found, hlisted, hidentified, hnone⟩
  rcases hs with ⟨e, he⟩ | ⟨_, c, r, -, -, hr, hi⟩
  · simp [hlisted] at he
  · have hmem : (c, r) ∈ found.map fun f => (f.1, .ok f.2) := by
      rw [← hidentified]
      exact List.mem_reverse.2 hr
    obtain ⟨f, hf, heq⟩ := List.mem_map.1 hmem
    have hcontroller := hi f.2 (Prod.ext_iff.1 heq).2.symm
    rw [hnone f hf] at hcontroller
    cases hcontroller

end History

namespace Pci

/-- Discovery fails for want of a controller, or for a reason of the bus's. -/
def discovered {α : Type} : Outcome σ α History where
  ok _ _ h := h.Settled
  error e _ h := e = .noController ∧ h.NoneFound ∨ (¬e.Own ∧ h.Met e) ∧ h.Settled
  misused _ := False
  stuck _ := False

theorem firstController_discovers {s : σ} : ∀ {rest : List Candidate} (found : List (Candidate × Identity)) {h : History},
    h.listings = [.ok (found.map (·.1) ++ rest)] → h.identified.reverse = found.map (fun f => (f.1, .ok f.2)) →
    (∀ f ∈ found, f.2.isController = false) → Ensures j.world n (firstController rest) s h discovered
  | [], found, _, hlisted, hidentified, hnone =>
    .inl ⟨rfl, found, by rwa [List.append_nil] at hlisted, hidentified, hnone⟩
  | candidate :: rest, found, h, hlisted, hidentified, hnone => by
    have hnamed : .ok (found.map (·.1) ++ candidate :: rest) ∈ h.listings := by
      rw [hlisted]
      exact List.mem_singleton.2 rfl
    have hcandidate : candidate ∈ found.map (·.1) ++ candidate :: rest := List.mem_append_right _ List.mem_cons_self
    refine ensures_bind.2 (ensures_identify.2 ?_)
    rintro (e | identity) _ ⟨rfl, hforeign, -⟩
    · exact .inr ⟨⟨hforeign e rfl, _, List.mem_cons_self, rfl⟩,
        .inr ⟨_, candidate, _, hnamed, hcandidate, List.mem_cons_self, nofun⟩⟩
    refine ensures_bind.2 (ensures_note.2 ?_)
    rintro _ ⟨rfl, -⟩
    split
    · rename_i hcontroller
      refine ensures_bind.2 (ensures_note.2 ?_)
      rintro _ ⟨rfl, -⟩
      exact .inr ⟨_, candidate, .ok identity, hnamed, hcandidate, List.mem_cons_self, by rintro _ ⟨⟩; exact hcontroller⟩
    · rename_i hcontroller
      refine firstController_discovers (found ++ [(candidate, identity)]) ?_ ?_ ?_
      · rw [List.map_append, List.append_assoc]
        exact hlisted
      · change ((candidate, .ok identity) :: h.identified).reverse = _
        rw [List.reverse_cons, hidentified, List.map_append]
        rfl
      · refine List.forall_mem_append.2 ⟨hnone, List.forall_mem_singleton.2 ?_⟩
        exact Bool.eq_false_iff.2 hcontroller

theorem discover_discovers {s : σ} : Ensures j.world n discover s [] discovered := by
  refine ensures_bind.2 (ensures_candidates.2 ?_)
  rintro (e | all) _ ⟨rfl, hforeign, -⟩
  · exact .inr ⟨⟨hforeign e rfl, _, List.mem_cons_self, rfl⟩, .inl ⟨e, List.mem_cons_self⟩⟩
  refine ensures_bind.2 (ensures_note.2 ?_)
  rintro _ ⟨rfl, -⟩
  exact firstController_discovers [] rfl rfl nofun

end Pci

/-! ### The run -/

namespace Bringup

variable {identity : Pci.Identity} {I : Controller → Prop} {R : α → Prop}

theorem onController_owing {p : Procedure Controller α} {K : α → Controller → History → Prop} {s : Bringup} {h : History}
    (hp : Ensures j.world n p s.controller h (owing j b I K)) :
    Ensures j.world n (onController p) s h (owing j b (fun s => I s.controller) fun a s h => K a s.controller h) :=
  ensures_get_bind.2 (ensures_on.2 (hp.mono (fun _ _ _ => id) (fun _ _ _ => id) (fun _ => id) fun _ => id))

theorem onController_accountable {p : Procedure Controller α} (hp : Accountable j b I p R) :
    Accountable j b (fun s => I s.controller) (onController p) R := fun n s h hs hh => onController_owing (hp n s.controller h hs hh)

/-- The streams that are left have an engine that is programmed. -/
theorem onStreams_owing {x : Procedure (Controller × Streams) α} {streams : Streams} {s : Bringup} {h : History}
    (hx : Ensures j.world n x (s.controller, streams) h (owing j b (fun t => I t.1) fun _ t h =>
      t.2.programmedEngine ≠ none ∧ I t.1 ∧ b <:+ h)) :
    Ensures j.world n (onStreams streams do return (← x, (← get).2)) s h (owing j b (fun s => I s.controller) fun r s h =>
      r.2.programmedEngine ≠ none ∧ I s.controller ∧ b <:+ h) :=
  ensures_get_bind.2 (ensures_on.2 (ensures_bind.2 (hx.mono (fun _ _ _ => id) (fun _ _ _ => id) (fun _ => id) fun _ => id)))

theorem play_accountable : Accountable j b (fun s => s.controller.Equipped j) (play identity j.waveform) fun _ => True := by
  intro n s h hs hh
  refine (onController_accountable Controller.reset_accountable).followed hs hh fun _ s h _ hs hh => ?_
  refine (onController_accountable Controller.waitForCodecs_accountable).followed hs hh fun _ s h _ hs hh => ?_
  refine owing_bind (onController_owing (Controller.scanCodecs_owing hs hh)) ?_
  rintro codecs s d ⟨hs, hd⟩
  refine owing_weaken (K := fun s => s.controller.Primed j d True False) hd (fun _ hs => hs.equipped) ?_
  refine (onController_accountable Controller.suppressInterrupts_accountable).followed hs List.suffix_rfl
    fun _ s h _ hs hh => ?_
  refine owing_bind (onController_owing (Controller.establishTransport_owing hs hh)) ?_
  rintro transport s h ⟨hs, hh⟩
  refine owing_weaken (K := fun s => s.controller.Primed j d True True) List.suffix_rfl
    (fun _ hs => ⟨hs.equipped, hs.reported, False.elim⟩) ?_
  refine owing_bind (onController_owing (Streams.allocate_owing hs hh)) ?_
  rintro streams s h ⟨⟨hu, hoffered, hroomy⟩, hs, hh⟩
  refine ensures_modify_bind.2 ?_
  have hstable : History.Stable Call.Routine fun h => h.Unsampled ∧ h.Offered streams.output.length :=
    (History.Unsampled.stable.mono fun _ => Call.Routine.plain).and fun _ _ _ _ ho => ho.mono (List.suffix_cons _ _)
  refine owing_bind (onController_owing (Topology.walk_accountable.keeping Topology.walk_routine hstable hs hh
    ⟨hu, hoffered⟩)) ?_
  rintro topology s h ⟨⟨-, hs, hh⟩, -, hu, hoffered⟩
  refine ensures_bind.2 (ensures_note.2 ?_)
  rintro _ ⟨rfl, -⟩
  refine owing_bind (onStreams_owing (Streams.program_owing hs (History.suffix_call hh)
    ⟨hu.call nofun, hoffered.mono (List.suffix_cons _ _), hroomy⟩)) ?_
  rintro ⟨outputs, streams⟩ s h ⟨hprogrammed, hs, hh⟩
  refine (onController_accountable (Streams.start_accountable hprogrammed)).followed hs hh fun _ s h _ hs hh => ?_
  refine ensures_get_bind.2 ?_
  refine Ensures.mono (accountable_when (I := fun s => s.controller.Primed j d True True) (R := fun _ => True)
    (accountable_stall _) (accountable_pure trivial) n s h hs hh) ?_ (fun _ _ _ => id) (fun _ => id) fun _ => id
  rintro _ s h ⟨-, hs, hh⟩
  exact ⟨trivial, hs.equipped, hd.trans hh⟩

theorem playThrough_accountable :
    Accountable j b (fun s => s.controller.Equipped j) (playThrough identity j.waveform) fun _ => True := by
  have hdown : ∀ summary, Accountable j b (fun s => s.controller.Equipped j) (do
      onController Controller.tearDownTransport
      return summary) fun _ : Summary => True := fun summary =>
    (onController_accountable Controller.tearDownTransport_accountable).seq (accountable_pure trivial)
  refine play_accountable.andThen fun summary => accountable_get_bind fun s _ => ?_
  cases s.streams with
  | none => exact hdown summary
  | some streams =>
    refine Accountable.seq (R := fun _ => True) (accountable_modify fun _ hs => hs) ?_
    exact (onController_accountable Streams.release_accountable).seq (hdown summary)

theorem tolerate_accountable {x : Procedure Bringup Unit} {notice : Error → Notice} {I : Bringup → Prop}
    (hx : Accountable j b I x fun _ => True) : Accountable j b I (tolerate x notice) fun _ => True :=
  accountable_attempt hx fun r => match r with
    | .ok () => accountable_pure trivial
    | .error e => accountable_note (notice e)

theorem abandon_accountable : Accountable j b (fun s => s.controller.Equipped j) abandon fun _ => True := by
  have hlet : Accountable j b (fun s => s.controller.Equipped j) (do
      tolerate (onController Controller.tearDownTransport) .transportNotTornDown
      tolerate Procedure.release .controllerNotReleased) fun _ => True :=
    (tolerate_accountable (onController_accountable Controller.tearDownTransport_accountable)).seq
      (tolerate_accountable (accountable_call fun _ => rfl))
  refine accountable_get_bind fun s _ => ?_
  cases s.streams with
  | none => exact hlet
  | some streams => exact (tolerate_accountable (onController_accountable Streams.release_accountable)).seq hlet

/-- What the run comes to after `b`: an error had its reason when the cleanup began. -/
def ended (j : Job) (b : History) : Outcome σ α History where
  ok _ _ _ := True
  error e _ h := Reported (fun e h => j.Because h e ∧ b <:+ h) e h
  misused _ := ¬j.ample
  stuck _ := True

theorem ended_complete {summary : Summary} {t : σ} {h : History} (hh : b <:+ h) : Ensures j.world n (do
    Procedure.release
    note .completed
    return summary) t h (ended j b) := by
  refine ensures_bind.2 (ensures_release.2 ?_)
  rintro (e | ⟨⟩) _ ⟨rfl, hforeign, -⟩
  · exact .atOnce ⟨Job.because_of_failed hforeign rfl, History.suffix_call hh⟩
  · exact fun _ _ _ => trivial

/-- Whatever the cleanup comes to, its calls come on top. -/
theorem ended_abandon {e : Error} {s : Bringup} {t : σ} {h : History} (he : j.Because h e) (hs : s.controller.Equipped j)
    (hh : b <:+ h) : Ensures j.world n (do
      note (.failed e)
      let _ ← within s abandon
      fail e : Procedure σ α) t h (ended j b) := by
  refine ensures_bind.2 (ensures_note.2 ?_)
  rintro _ ⟨rfl, -⟩
  refine ensures_bind.2 (ensures_within.2 ((abandon_accountable n s _ hs List.suffix_rfl).mono ?_ ?_ (fun _ => id)
    fun _ => id))
  · rintro _ _ _ ⟨-, -, undoing, rfl⟩
    exact .cleaned undoing ⟨he, hh⟩
  · rintro _ _ _ ⟨-, -, undoing, rfl⟩
    exact .cleaned undoing ⟨he, hh⟩

section
variable {up up' : Error → History → Prop} {e : Error} {h : History}

theorem Reported.mono (hup : ∀ h, up e h → up' e h) : Reported up e h → Reported up' e h
  | .atOnce came => .atOnce (hup _ came)
  | .cleaned undoing came => .cleaned undoing (hup _ came)

theorem Reported.came : Reported up e h → ∃ h', h' <:+ h ∧ up e h'
  | .atOnce came => ⟨_, List.suffix_rfl, came⟩
  | .cleaned undoing came => ⟨_, (List.suffix_cons _ _).trans (List.suffix_append undoing _), came⟩

/-- Some errors have no reason that could have happened. -/
theorem Reported.never (hreported : Reported (fun e h => j.Because h e) e h) :
    e ≠ .noTransport ∧ (j.config.poll = .unbounded → ∀ site, e ≠ .waitTimedOut site) := by
  obtain ⟨h', -, hbecause⟩ := hreported.came
  constructor
  · rintro rfl
    exact hbecause
  · rintro hpoll site rfl
    obtain ⟨checks, hlimit, -⟩ := hbecause
    rw [hpoll] at hlimit
    cases site <;> cases hlimit

end

/-- Every error that is reported has its reason, and that there is no controller is reported where none was found; at every
other ending there is a reason not to report it. -/
theorem run_accounted (j : Job) {t : σ} : Ensures j.world n (run j.config j.waveform) t []
    ⟨fun _ _ h => h.Settled,
      fun e _ h => (e = .noController ∧ h.NoneFound ∨ e ≠ .noController ∧ h.Settled) ∧
        Reported (fun e h => j.Because h e) e h,
      fun h => h.Settled ∧ ¬j.ample, History.Settled⟩ := by
  refine ensures_bind.2 (Pci.discover_discovers.mono ?_ ?_ (fun _ => False.elim) fun _ => False.elim)
  · rintro ⟨candidate, identity⟩ t b hsettled
    refine Program.Ensures.mono (Program.Ensures.and (Q := (ended j b).holds) ?_
      (Job.ensures_of_recording Program.ensures_grown)) ?_
    · refine ensures_bind.2 (ensures_bindExclusive.2 ?_)
      rintro (e | ⟨⟩) _ ⟨rfl, hforeign, -⟩
      · exact .atOnce ⟨Job.because_of_failed hforeign rfl, List.suffix_cons _ _⟩
      refine ensures_bind.2 (ensures_within.2 ((playThrough_accountable n _ _ ⟨rfl, fun _ h => by cases h⟩
        (List.suffix_cons _ _)).mono ?_ ?_ (fun _ => id) fun _ => id))
      · exact fun _ _ _ hplayed => ended_complete hplayed.2.2
      · exact fun _ _ _ hfailed => ended_abandon hfailed.1 hfailed.2.1 hfailed.2.2
    · rintro (⟨e | summary, t⟩ | m | _) h ⟨hends, later, rfl⟩
      all_goals have hlater := hsettled.mono (List.suffix_append later b)
      · refine ⟨.inr ⟨?_, hlater⟩, Reported.mono (fun _ => And.left) hends⟩
        rintro rfl
        obtain ⟨h, -, hnone, hh⟩ := Reported.came hends
        exact (hsettled.mono hh).not_noneFound hnone
      · exact hlater
      · exact ⟨hlater, hends⟩
      · exact hlater
  · rintro e t h (⟨rfl, hnone⟩ | ⟨⟨hforeign, hmet⟩, hsettled⟩)
    · exact ⟨.inl ⟨rfl, hnone⟩, .atOnce hnone⟩
    · refine ⟨.inr ⟨?_, hsettled⟩, .atOnce (Job.because_of_met hforeign hmet)⟩
      rintro rfl
      exact absurd trivial hforeign

/-- **Which errors a run ends with, and why**: on every platform that fails only with errors of its own kind, every error
that is reported says what had happened when the cleanup began.  No controller is reported if and only if the bus named its
candidates and each of them said it is none; at every other ending the bus had been asked as well, and would not name its
candidates, or one of those it named would not say who it is, or is a controller.  A missing transport is never reported, and
a wait without a limit is never given up.  Nothing is misused if memory is as long as was asked for. -/
theorem run_ends_because (j : Job) {t : σ} : Ensures j.world n (run j.config j.waveform) t []
    ⟨fun _ _ h => h.Settled ∧ ¬h.NoneFound,
      fun e _ h => (e = .noController ↔ h.NoneFound) ∧ (e ≠ .noController → h.Settled) ∧ e ≠ .noTransport ∧
        (j.config.poll = .unbounded → ∀ site, e ≠ .waitTimedOut site) ∧ Reported (fun e h => j.Because h e) e h,
      fun h => h.Settled ∧ ¬h.NoneFound ∧ ¬j.ample, fun h => h.Settled ∧ ¬h.NoneFound⟩ := by
  refine (run_accounted j).mono ?_ ?_ ?_ ?_
  · exact fun _ _ _ hsettled => ⟨hsettled, hsettled.not_noneFound⟩
  · rintro e _ h ⟨⟨rfl, hnone⟩ | ⟨hother, hsettled⟩, hreported⟩
    · exact ⟨iff_of_true rfl hnone, fun hother => absurd rfl hother, hreported.never.1, hreported.never.2, hreported⟩
    · exact ⟨iff_of_false hother hsettled.not_noneFound, fun _ => hsettled, hreported.never.1, hreported.never.2, hreported⟩
  · exact fun _ ⟨hsettled, hample⟩ => ⟨hsettled, hsettled.not_noneFound, hample⟩
  · exact fun _ hsettled => ⟨hsettled, hsettled.not_noneFound⟩

end Bringup
end AudioBringup
