import AudioBringup.Proofs.Candid
import AudioBringup.Proofs.StreamCalls
/-!
# Proofs.FirstFailure — a failed run reports the first failure it met

Every step of the bring-up is candid, and so is everything from binding the controller to taking the transport down
(`playThrough_candid`).  What a run does after a failure is its cleanup, which can fail as well but has no say in what is
reported (`run_reports_first`).
-/
namespace AudioBringup

open Procedure History

/-! ### The transports -/

section
variable {σ : Type}

namespace ImmediateInterface

theorem awaitResponse_candid : ∀ patience, Candid Call.OffBus (awaitResponse patience : Procedure σ Bool)
  | 0 => fun _ _ _ hs => ⟨hs, .refl⟩
  | patience + 1 => by
    refine candid_bind (candid_read16 trivial) fun status => candid_ite (candid_pure _) ?_
    exact candid_bind (candid_ask trivial fun _ => rfl) fun _ => candid_ite (candid_pure _) (awaitResponse_candid patience)

theorem exchange_candid (timeout : BitVec 64) (word : BitVec 32) :
    Candid Call.OffBus (exchange timeout word : Procedure σ _) := by
  refine candid_bind (candid_write trivial) fun _ => candid_bind (candid_write trivial) fun _ => ?_
  refine candid_bind (candid_write trivial) fun _ => candid_bind (candid_ask trivial fun _ => rfl) fun _ => ?_
  refine candid_bind (fun n => awaitResponse_candid n n) fun answered => ?_
  refine candid_bind (candid_ask trivial fun _ => rfl) fun _ => candid_ite ?_ ?_
  · refine candid_bind (candid_read trivial) fun response => candid_bind (candid_read16 trivial) fun status => ?_
    exact candid_bind (candid_write trivial) fun _ => candid_bind (candid_note trivial) fun _ => candid_pure _
  · exact candid_bind (candid_note trivial) fun _ => candid_pure _

end ImmediateInterface

namespace CommandRings

theorem stop_candid (control : BitVec 32) (limit : WaitLimit) : Candid Call.OffBus (stop control limit : Procedure σ _) := by
  refine candid_bind (candid_read8 trivial) fun _ => candid_bind (candid_write trivial) fun _ => ?_
  exact candid_waitUntil (candid_bind (candid_read8 trivial) fun _ => candid_pure _) fun _ => trivial

theorem start_candid (control : BitVec 32) : Candid Call.OffBus (start control : Procedure σ _) :=
  candid_bind (candid_read8 trivial) fun _ => candid_write trivial

theorem resetPointers_candid (limit : WaitLimit) : Candid Call.OffBus (resetPointers limit : Procedure σ _) := by
  refine candid_bind (candid_write trivial) fun _ => candid_bind (candid_write trivial) fun _ => ?_
  refine candid_bind (candid_waitUntil (candid_look16 trivial) fun _ => trivial) fun _ => ?_
  refine candid_bind (candid_write trivial) fun _ => ?_
  exact candid_bind (candid_waitUntil (candid_look16 trivial) fun _ => trivial) fun _ => candid_write trivial

theorem enlarge_candid (size : BitVec 32) : Candid Call.OffBus (enlarge size : Procedure σ _) :=
  candid_bind (candid_read8 trivial) fun _ => candid_bind (candid_write trivial) fun _ => candid_pure _

/-- The memory of both rings: the only place where a failure is held back until something else is done. -/
theorem candid_allocateRings {α : Type} {f : Region → Region → Procedure σ α}
    (hf : ∀ corb rirb, Candid Call.OffBus (f corb rirb)) : Candid Call.OffBus (do
      let corb ← allocate corbLength
      match ← attempt (allocate rirbLength) with
      | .error e =>
        free corb
        fail e
      | .ok rirb => f corb rirb) := by
  intro n s h hs
  refine ensures_bind.2 (ensures_allocate.2 ?_)
  rintro (e | corb) _ rfl
  · exact ⟨.inl (.answered rfl hs), .call trivial .refl⟩
  refine ensures_bind.2 (ensures_attempt.2 (ensures_allocate.2 ?_))
  rintro (e | rirb) _ rfl
  · refine ensures_bind.2 (ensures_free.2 ?_)
    rintro (e' | ⟨⟩) _ rfl
    · exact ⟨.inr ⟨e, corb, h, hs, rfl⟩, .call trivial (.call trivial (.call trivial .refl))⟩
    · exact ⟨.inl (.undone hs), .call trivial (.call trivial (.call trivial .refl))⟩
  · exact (hf corb rirb).on_top ⟨(hs.cons rfl).cons rfl, .call trivial (.call trivial .refl)⟩

theorem setUp_candid (poll : PollPolicy) : Candid Call.OffBus (setUp poll : Procedure σ _) := by
  refine candid_bind (stop_candid _ _) fun _ => candid_bind (stop_candid _ _) fun _ => ?_
  refine candid_allocateRings fun corb rirb => candid_bind (candid_zero _) fun _ => candid_bind (candid_zero _) fun _ => ?_
  refine candid_bind (candid_writeAddress fun _ _ => trivial) fun _ => ?_
  refine candid_bind (candid_writeAddress fun _ _ => trivial) fun _ => ?_
  refine candid_bind (enlarge_candid _) fun _ => candid_bind (enlarge_candid _) fun _ => ?_
  refine candid_bind (candid_note trivial) fun _ => candid_bind (resetPointers_candid _) fun _ => ?_
  refine candid_bind (start_candid _) fun _ => candid_bind (candid_write trivial) fun _ => ?_
  exact candid_bind (start_candid _) fun _ => candid_pure _

theorem exchange_candid (word : BitVec 32) : Candid Call.OffBus (exchange word) := by
  refine candid_bind (candid_modify _) fun _ => candid_bind candid_get fun rings => ?_
  refine candid_bind (candid_store32 _ _ _) fun _ => candid_bind (candid_write trivial) fun _ => ?_
  refine candid_bind (candid_waitUntil (candid_look16 trivial) fun _ => trivial) fun _ => ?_
  refine candid_bind (candid_waitUntil (candid_look16 trivial) fun _ => trivial) fun _ => ?_
  refine candid_bind (candid_modify _) fun _ => candid_bind candid_get fun rings => ?_
  refine candid_bind (candid_load32 _ _) fun _ => candid_bind (candid_write trivial) fun _ => ?_
  exact candid_bind (candid_note trivial) fun _ => candid_pure _

theorem tearDown_candid (r : CommandRings) : Candid Call.OffBus (r.tearDown : Procedure σ _) := by
  refine candid_bind (stop_candid _ _) fun _ => candid_bind (stop_candid _ _) fun _ => ?_
  refine candid_bind (resetPointers_candid _) fun _ => ?_
  exact candid_bind (candid_free trivial) fun _ => candid_free trivial

end CommandRings

namespace Transport

theorem establish_candid (config : Config) : Candid Call.OffBus (establish config : Procedure σ _) := by
  have hchoose : Candid Call.OffBus (choose config.transport : Procedure σ _) := by
    cases config.transport with
    | immediate => exact candid_pure _
    | rings => exact candid_pure _
    | auto =>
      exact candid_bind (candid_read16 trivial) fun _ => candid_bind (candid_note trivial) fun _ => candid_pure _
  refine candid_bind hchoose fun kind => candid_bind (candid_note trivial) fun _ => ?_
  cases kind with
  | immediate => exact candid_pure _
  | rings => exact candid_bind (CommandRings.setUp_candid _) fun _ => candid_pure _

theorem exchange_candid (word : BitVec 32) : Candid Call.OffBus (exchange word) := by
  refine candid_bind candid_get fun t => ?_
  cases t with
  | immediate timeout => exact ImmediateInterface.exchange_candid timeout word
  | rings r => exact candid_on (CommandRings.exchange_candid word)

theorem tearDown_candid : ∀ t : Transport, Candid Call.OffBus (t.tearDown : Procedure σ _)
  | .immediate _ => candid_pure _
  | .rings r => r.tearDown_candid

end Transport
end

/-! ### The controller and its codecs -/

namespace Controller

theorem reset_candid : Candid Call.OffBus reset := by
  refine candid_bind (candid_read trivial) fun _ => candid_bind (candid_write trivial) fun _ => ?_
  refine candid_bind candid_get fun c => ?_
  refine candid_bind (candid_waitUntil (candid_bind (candid_read trivial) fun _ => candid_pure _) fun _ => trivial) fun _ => ?_
  exact candid_note trivial

theorem waitForCodecs_candid : Candid Call.OffBus waitForCodecs := candid_bind candid_get fun _ => candid_stall trivial

theorem scanCodecs_candid : Candid Call.OffBus scanCodecs := by
  refine candid_bind (candid_read16 trivial) fun _ => candid_bind (candid_write trivial) fun _ => ?_
  exact candid_bind (candid_modify _) fun _ => candid_bind (candid_note trivial) fun _ => candid_pure _

theorem suppressInterrupts_candid : Candid Call.OffBus suppressInterrupts :=
  candid_bind (candid_write trivial) fun _ => candid_write trivial

theorem establishTransport_candid : Candid Call.OffBus establishTransport :=
  candid_bind candid_get fun _ => candid_bind (Transport.establish_candid _) fun _ => candid_bind (candid_modify _) fun _ =>
    candid_pure _

theorem command_candid (c : Command) : Candid Call.OffBus (command c) := by
  refine candid_bind candid_get fun s => ?_
  cases s.transport with
  | none => exact candid_fail trivial
  | some t =>
    have hsent : Candid Call.OffBus (on t (fun t (s : Controller) => { s with transport := some t })
      (Transport.exchange c.encode)) := candid_on (Transport.exchange_candid _)
    exact candid_ite (candid_bind (candid_note trivial) fun _ => hsent) hsent

theorem tearDownTransport_candid : Candid Call.OffBus tearDownTransport := by
  refine candid_bind candid_get fun s => ?_
  cases s.transport with
  | none => exact candid_pure _
  | some t =>
    exact candid_bind (candid_modify _) fun _ => candid_bind (candid_note trivial) fun _ => t.tearDown_candid

end Controller

namespace Node

theorem read_candid (addr : NodeAddr) (vendorId : BitVec 32) : Candid Call.OffBus (read addr vendorId) := by
  unfold read
  iterate 15 refine candid_bind (Controller.command_candid _) fun _ => ?_
  exact candid_pure _

/-- A command that is announced and sent only where it is wanted, and nothing made of its answer. -/
theorem sendIf_candid {wanted : Bool} {m : Notice} {cmd : Command} {rest : Procedure Controller Unit}
    (hrest : Candid Call.OffBus rest) : Candid Call.OffBus (if wanted then (do
      note m
      let _ ← Controller.command cmd
      rest) else rest) :=
  candid_ite (candid_bind (candid_note trivial) fun _ => candid_bind (Controller.command_candid cmd) fun _ => hrest) hrest

theorem configure_candid (addr : NodeAddr) (node : Node) : Candid Call.OffBus (configure addr node) :=
  sendIf_candid (sendIf_candid (sendIf_candid (candid_pure _)))

end Node

namespace Codec

theorem visit_candid (codec id : BitVec 8) : Candid Call.OffBus (visit codec id) := by
  refine candid_bind (Controller.command_candid _) fun vendorId => candid_ite ?_ ?_
  · exact candid_bind (candid_note trivial) fun _ => candid_pure _
  · refine candid_bind (Node.read_candid _ _) fun node => candid_bind (candid_note trivial) fun _ => ?_
    exact candid_bind (Node.configure_candid _ _) fun _ => candid_pure _

theorem walkBelow_candid (codec : BitVec 8) : ∀ allowance pending found,
    Candid Call.OffBus (walkBelow codec allowance pending found)
  | 0, [], _ | _ + 1, [], _ => candid_pure _
  | 0, _ :: _, _ => candid_fail trivial
  | allowance + 1, id :: pending, found => by
    refine candid_bind (visit_candid codec id) fun node => ?_
    cases node with
    | none => exact walkBelow_candid codec allowance pending found
    | some node => exact walkBelow_candid codec allowance _ _

theorem walk_candid (address : BitVec 8) : Candid Call.OffBus (walk address) := by
  refine candid_bind (Controller.command_candid _) fun vendorId => candid_ite ?_ ?_
  · exact candid_bind (candid_note trivial) fun _ => candid_pure _
  · refine candid_bind (candid_note trivial) fun _ => candid_bind (Node.read_candid _ _) fun root => ?_
    refine candid_bind (Node.configure_candid _ _) fun _ => candid_bind candid_get fun c => ?_
    refine candid_bind (walkBelow_candid _ _ _ _) fun nodes => ?_
    exact candid_bind (candid_note trivial) fun _ => candid_pure _

theorem walkAll_candid : ∀ addresses, Candid Call.OffBus (walkAll addresses)
  | [] => candid_pure _
  | address :: rest =>
    candid_bind (walk_candid address) fun _ => candid_bind (walkAll_candid rest) fun _ => candid_pure _

end Codec

theorem Topology.walk_candid : Candid Call.OffBus Topology.walk :=
  candid_bind candid_get fun _ => candid_bind (Codec.walkAll_candid _) fun _ => candid_pure _

/-! ### The streams -/

namespace Streams

variable {σ : Type}

theorem allocateEngines_candid (streamClass : StreamClass) : ∀ index descriptor count,
    Candid Call.OffBus (allocateEngines streamClass index descriptor count : Procedure σ _)
  | _, _, 0 => candid_pure _
  | index, descriptor, count + 1 => by
    refine candid_bind (candid_allocate trivial) fun list => candid_bind (candid_zero _) fun _ => ?_
    exact candid_bind (allocateEngines_candid streamClass _ _ count) fun _ => candid_pure _

theorem allocate_candid : Candid Call.OffBus allocate := by
  refine candid_bind (candid_look16 trivial) fun caps => candid_bind (candid_note trivial) fun _ => ?_
  refine candid_bind (allocateEngines_candid _ _ _ _) fun _ => candid_bind (allocateEngines_candid _ _ _ _) fun _ => ?_
  refine candid_bind (allocateEngines_candid _ _ _ _) fun _ => candid_bind (candid_allocate trivial) fun _ => ?_
  refine candid_bind (candid_zero _) fun _ => candid_bind (candid_writeAddress fun _ _ => trivial) fun _ => ?_
  exact candid_bind (candid_note trivial) fun _ => candid_pure _

theorem resetEngine_candid (base : BitVec 32) (limit : WaitLimit) :
    Candid Call.OffBus (resetEngine base limit : Procedure σ _) := by
  refine candid_bind (candid_read16 trivial) fun _ => candid_bind (candid_write trivial) fun _ => ?_
  refine candid_bind (candid_waitUntil (candid_look16 trivial) fun _ => trivial) fun _ => ?_
  refine candid_bind (candid_read16 trivial) fun _ => candid_bind (candid_write trivial) fun _ => ?_
  exact candid_waitUntil (candid_look16 trivial) fun _ => trivial

theorem writePieces_candid (list : Region) : ∀ index pieces,
    Candid Call.OffBus (writePieces list index pieces : Procedure σ _)
  | _, [] => candid_pure _
  | index, _ :: rest => by
    refine candid_bind (candid_store64 _ _ _) fun _ => candid_bind (candid_store32 _ _ _) fun _ => ?_
    exact candid_bind (candid_store32 _ _ _) fun _ => writePieces_candid list _ rest

theorem formatConverters_candid : ∀ converters, Candid Call.OffBus (formatConverters converters)
  | [] => candid_pure _
  | _ :: rest => by
    refine candid_bind candid_get fun _ => candid_bind (candid_note trivial) fun _ => ?_
    refine candid_bind (Controller.command_candid _) fun _ => candid_bind (Controller.command_candid _) fun _ => ?_
    exact formatConverters_candid rest

theorem own_of_checkShape {length parts : Nat} {e : Error} (h : BufferList.checkShape length parts = .error e) : e.Own := by
  unfold BufferList.checkShape at h
  split at h
  · cases h
    trivial
  · split at h
    · cases h
      trivial
    · cases h

/-- A shape that was admitted is split: the sample is never given back here. -/
theorem allocateSample_candid (waveform : Array Byte) (parts : Nat) :
    Candid Call.OffBus (allocateSample waveform parts : Procedure σ _) := by
  unfold allocateSample
  cases hshape : BufferList.checkShape waveform.size parts with
  | error e => exact candid_fail (own_of_checkShape hshape)
  | ok u =>
    refine candid_bind (candid_allocate trivial) fun sample => ?_
    rw [BufferList.split_of_ok sample.address hshape]
    exact candid_bind (candid_fill _ _ _) fun _ => candid_pure _

theorem dropSample_candid (earlier : Option Region) : Candid Call.OffBus (dropSample earlier : Procedure σ _) := by
  cases earlier with
  | none => exact candid_pure _
  | some g => exact candid_free trivial

theorem load_candid (config : Config) (engine : StreamEngine) (waveform : Array Byte) (converters : List NodeAddr) :
    Candid Call.OffBus (load config engine waveform converters) := by
  refine candid_bind (allocateSample_candid _ _) fun sample => ?_
  refine candid_bind (writePieces_candid _ _ _) fun _ => candid_bind (candid_write trivial) fun _ => ?_
  refine candid_bind (candid_write trivial) fun _ => candid_bind (candid_writeAddress fun _ _ => trivial) fun _ => ?_
  refine candid_bind (candid_write trivial) fun _ => candid_bind (candid_note trivial) fun _ => ?_
  refine candid_bind (candid_modify _) fun _ => ?_
  exact candid_bind (candid_bind candid_get fun _ => candid_on (formatConverters_candid _)) fun _ => candid_pure _

theorem program_candid (topology : Topology) (waveform : Array Byte) : Candid Call.OffBus (program topology waveform) := by
  rw [program_eq]
  refine candid_bind candid_get fun t => ?_
  obtain ⟨controller, streams⟩ := t
  dsimp only
  cases streams.output[controller.config.outputStream]? with
  | none => exact candid_fail trivial
  | some engine =>
    refine candid_bind (resetEngine_candid _ _) fun _ => candid_bind (candid_modify _) fun _ => ?_
    exact candid_bind (dropSample_candid _) fun _ => load_candid _ _ _ _

theorem start_candid (streams : Streams) : Candid Call.OffBus streams.start := by
  refine candid_bind candid_get fun c => ?_
  cases streams.programmedEngine with
  | none => exact candid_fail trivial
  | some engine =>
    refine candid_bind (candid_read16 trivial) fun _ => candid_bind (candid_read8 trivial) fun _ => ?_
    refine candid_bind (candid_write trivial) fun _ => candid_bind (candid_read trivial) fun _ => ?_
    refine candid_when (candid_write trivial) (candid_bind (candid_write trivial) fun _ => ?_)
    exact candid_when (candid_write trivial) (candid_note trivial)

theorem stopEngine_candid (engine : StreamEngine) (limit : WaitLimit) :
    Candid Call.OffBus (stopEngine engine limit : Procedure σ _) := by
  refine candid_bind (candid_read16 trivial) fun _ => candid_bind (candid_write trivial) fun _ => ?_
  exact candid_bind (candid_waitUntil (candid_look16 trivial) fun _ => trivial) fun _ => candid_note trivial

theorem freeAll_candid : ∀ regions, Candid Call.OffBus (freeAll regions : Procedure σ _)
  | [] => candid_pure _
  | _ :: rest => candid_bind (candid_free trivial) fun _ => freeAll_candid rest

theorem release_candid (streams : Streams) : Candid Call.OffBus streams.release := by
  unfold release
  cases streams.programmedEngine
  case' some engine => refine candid_bind candid_get fun _ => candid_bind (stopEngine_candid _ _) fun _ => ?_
  all_goals exact candid_bind (candid_writeAddress fun _ _ => trivial) fun _ => freeAll_candid _

end Streams

/-! ### The run -/

namespace Pci

theorem firstController_candid {σ : Type} : ∀ candidates,
    Candid (fun _ => True) (firstController candidates : Procedure σ _)
  | [] => candid_fail trivial
  | _ :: rest => by
    refine candid_bind (candid_ask trivial fun _ => rfl) fun identity => candid_bind (candid_note trivial) fun _ => ?_
    exact candid_ite (candid_bind (candid_note trivial) fun _ => candid_pure _) (firstController_candid rest)

theorem discover_candid {σ : Type} : Candid (fun _ => True) (discover : Procedure σ _) :=
  candid_bind (candid_ask trivial fun _ => rfl) fun _ => candid_bind (candid_note trivial) fun _ => firstController_candid _

end Pci

namespace Bringup

variable {σ α : Type} {n : Nat} {config : Config} {waveform : Array Byte} {identity : Pci.Identity}

theorem onController_candid {x : Procedure Controller α} (hx : Candid Call.OffBus x) :
    Candid Call.OffBus (onController x) := candid_bind candid_get fun _ => candid_on hx

theorem play_candid : Candid Call.OffBus (play identity waveform) := by
  refine candid_bind (onController_candid Controller.reset_candid) fun _ => ?_
  refine candid_bind (onController_candid Controller.waitForCodecs_candid) fun _ => ?_
  refine candid_bind (onController_candid Controller.scanCodecs_candid) fun codecs => ?_
  refine candid_bind (onController_candid Controller.suppressInterrupts_candid) fun _ => ?_
  refine candid_bind (onController_candid Controller.establishTransport_candid) fun transport => ?_
  refine candid_bind (onController_candid Streams.allocate_candid) fun streams => candid_bind (candid_modify _) fun _ => ?_
  refine candid_bind (onController_candid Topology.walk_candid) fun topology => candid_bind (candid_note trivial) fun _ => ?_
  refine candid_bind (candid_bind candid_get fun _ => candid_on (candid_bind (Streams.program_candid _ _) fun _ =>
    candid_bind candid_get fun _ => candid_pure _)) fun programmed => ?_
  refine candid_bind (onController_candid (Streams.start_candid _)) fun _ => candid_bind candid_get fun _ => ?_
  exact candid_when (candid_stall trivial) (candid_pure _)

theorem playThrough_candid : Candid Call.OffBus (playThrough identity waveform) := by
  refine candid_bind play_candid fun summary => candid_bind candid_get fun b => ?_
  cases b.streams
  case' some streams =>
    refine candid_bind (candid_modify _) fun _ => candid_bind (onController_candid (Streams.release_candid streams)) fun _ => ?_
  all_goals exact candid_bind (onController_candid Controller.tearDownTransport_candid) fun _ => candid_pure _

/-- `e` was reported: it had come up in a way, and nothing but the cleanup was done after that. -/
inductive Reported (up : Error → History → Prop) (e : Error) : History → Prop
  | atOnce {h : History} (came : up e h) : Reported up e h
  | cleaned {h : History} (undoing : History) (came : up e h) : Reported up e (undoing ++ ⟨.note (.failed e), ()⟩ :: h)

/-- **A run that fails reports the first failure it met**, whatever the platform answers and whatever of the cleanup fails
after that: when the cleanup began it was the latest to come up, and no call before it had failed.  Only where the response
ring gets no memory and that of the command ring cannot be given back, the second failure is reported.  A run that does not
fail met no failure at all. -/
theorem run_reports_first {t : σ} : Ensures recording n (run config waveform) t []
    ⟨fun _ _ h => h.Smooth, fun e _ h => Reported (fun e h => h.FirstFailure e ∨ h.Masked e) e h, fun _ => True,
      fun _ => True⟩ := by
  refine ensures_bind.2 ((Pci.discover_candid n t [] smooth_nil).mono ?_ (fun _ _ _ hh => .atOnce hh.1) (fun _ _ => trivial)
    fun _ _ => trivial)
  rintro ⟨candidate, identity⟩ _ h ⟨hs, -⟩
  refine ensures_bind.2 (ensures_bindExclusive.2 ?_)
  rintro (e | ⟨⟩) _ rfl
  · exact .atOnce (.inl (.answered rfl hs))
  refine ensures_bind.2 (ensures_within.2 ((playThrough_candid n _ _ (hs.cons rfl)).mono ?_ ?_ (fun _ _ => trivial)
    fun _ _ => trivial))
  · rintro summary _ h ⟨hs, -⟩
    refine ensures_bind.2 (ensures_release.2 ?_)
    rintro (e | ⟨⟩) _ rfl
    · exact .atOnce (.inl (.answered rfl hs))
    · refine ensures_bind.2 (ensures_note.2 ?_)
      rintro _ rfl
      exact (hs.cons rfl).cons rfl
  · rintro e b h ⟨hh, -⟩
    refine ensures_bind.2 (ensures_note.2 ?_)
    rintro _ rfl
    -- whatever the cleanup comes to, its calls come on top
    refine ensures_bind.2 (ensures_within.2 (Program.ensures_grown.mono ?_))
    rintro (⟨e' | ⟨⟩, b'⟩ | m | _) _ ⟨undoing, rfl⟩
    · exact .cleaned undoing hh
    · exact .cleaned undoing hh
    · trivial
    · trivial

/-! ### A failure that takes the place of the first -/

/-- What is reported as the first failure, and came from a call, is the first of all failures. -/
theorem Reported.first {e : Error} (he : ¬e.Own) : ∀ {h : History}, Reported FirstFailure e h → h.failures.getLast? = some e
  | _, .atOnce came => by rw [came.first he]; rfl
  | _, .cleaned (h := h) undoing came => by
    have hfailures : failures (undoing ++ ⟨.note (.failed e), ()⟩ :: h) = undoing.failures ++ h.failures :=
      List.filterMap_append
    rw [hfailures, came.first he, List.getLast?_concat]

/-- Answers of a platform whose registers all read 1, that has memory once only and takes none back. -/
def scant : (c : Call) → History → c.Answer
  | .candidates, _ => .ok [.slot 0]
  | .identify _, _ => .ok { vendor := 0x8086, device := 0x2668, classCode := 4, subclass := 3 }
  | .read .., _ => .ok 1
  | .allocate length, h => if h.allocated.isEmpty then .ok ⟨0, 0, length, 0⟩ else .error .outOfResources
  | .free _, _ => .error (.deviceIo "free" 7)
  | .timerExpired, _ => .ok true
  | .bindExclusive _, _ | .release, _ | .write .., _ | .stall _, _ | .armTimer _, _ | .cancelTimer, _ => .ok ()
  | .load32 _, _ => (0 : BitVec 32)
  | .load64 _, _ => (0 : BitVec 64)
  | .store32 .., _ | .store64 .., _ | .fill .., _ | .clear .., _ | .note _, _ => ()

/-- A call to that platform. -/
def askScant (c : Call) (h : History) : c.Answer × History := (scant c h, ⟨c, scant c h⟩ :: h)

/-- The run reported what came of giving memory back, though another failure had been the first. -/
def masked : Ending (Except Error Summary × Unit) × History → Bool
  | (.result (.error e, _), h) => e = .deviceIo "free" 7 && h.failures.getLast? = some .outOfResources
  | _ => false

/-- **A failure to give memory back takes the place of the failure to get some**: where there is memory for one ring only
and it is not taken back, the run does not report the first failure. -/
theorem run_masks_failure : ¬Ensures recording 1 (run { transport := .rings } #[]) () []
    ⟨fun _ _ _ => True, fun e _ h => Reported FirstFailure e h, fun _ => True, fun _ => True⟩ := by
  intro hfirst
  have hscant : ∀ c h, True → recording c h (askScant c h).1 (askScant c h).2 ∧ True := fun _ _ _ => ⟨rfl, trivial⟩
  have hends := Program.ends_run (I := fun _ => True) hscant
    (p := run { transport := .rings } #[] 1 ()) (w := []) trivial
  have hreported := Program.ensures_iff_ends.1 hfirst _ _ hends
  have hmasked : masked ((run { transport := .rings } #[] 1 ()).run askScant []) = true := by decide +kernel
  generalize (run { transport := .rings } #[] 1 ()).run askScant [] = ended at hreported hmasked
  obtain ⟨⟨e | summary, _⟩ | cause | _, h⟩ := ended
  · obtain ⟨he, hlast⟩ := Bool.and_eq_true_iff.1 hmasked
    obtain rfl := of_decide_eq_true he
    rw [hreported.first id] at hlast
    exact absurd hlast (by decide)
  · cases hmasked
  · cases hmasked
  · cases hmasked

end Bringup
end AudioBringup
