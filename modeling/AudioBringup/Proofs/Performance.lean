import AudioBringup.Bringup
import AudioBringup.Proofs.Census
import AudioBringup.Proofs.Orchestra
/-!
# Proofs.Performance — a whole performance on a simulated controller

On a rig that suits what is to be played, every step from the reset to the last memory that is given back succeeds.
-/
namespace AudioBringup
namespace Simulation

open Procedure

namespace Rig

/-- Codecs that are walked: they reported in, at an address a codec can have. -/
def Reports (u : Rig) (codec : BitVec 8) : Prop :=
  codec.toNat < Controller.maxCodecs ∧ u.stateChanges.getLsbD codec.toNat = true

/-- What commands are answered over the transport that is chosen. -/
def replies (u : Rig) (config : Config) : Replies := u.answers (u.kind config.transport)

/-- The controller once the codecs of a rig have been scanned. -/
def scanned (u : Rig) (config : Config) : Controller :=
  { config, presentCodecs := (StateChangeStatus.mk u.stateChanges).codecs }

theorem getLsbD_codecs (r : StateChangeStatus) (i : Nat) : r.codecs.getLsbD i = (decide (i < 15) && r.raw.getLsbD i) := by
  rw [StateChangeStatus.codecs, BitVec.getLsbD_setWidth, Bits.field, BitVec.getLsbD_extractLsb', Nat.zero_add]
  by_cases hi : i < 15
  · simp [hi, Nat.lt_trans hi (by decide : 15 < 16)]
  · simp [hi]

theorem mem_codecAddresses_scanned (u : Rig) (config : Config) (codec : BitVec 8) :
    codec ∈ (u.scanned config).codecAddresses ↔ u.Reports codec := by
  rw [Controller.mem_codecAddresses, scanned, getLsbD_codecs]
  simp only [Bool.and_eq_true, decide_eq_true_eq, Reports, Controller.maxCodecs]
  exact ⟨fun h => ⟨h.1, h.2.2⟩, fun h => ⟨h.1, h.1, h.2⟩⟩

/-- A rig that a waveform can be played on. -/
structure Suits (u : Rig) (config : Config) (waveform : Array Byte) : Prop where
  output : config.outputStream < (GlobalCaps.mk u.capabilities).outputStreams
  pieces : 1 ≤ config.bdlEntries ∧ config.bdlEntries ≤ 256
  long : 128 * config.bdlEntries ≤ waveform.size
  short : waveform.size ≤ 2 ^ 32 - 1
  /-- no wait is given up before the rig is ready -/
  limits : ∀ site checks, config.poll.limit site = .iterations checks → u.resetLatency < checks ∧ u.stopLatency < checks
  /-- every codec is a finite tree, small enough to be walked -/
  trees : ∀ codec, u.Reports codec → (u.replies config).Answers codec →
    ∃ visits, (u.replies config).Unfolds codec ((u.replies config).roots codec) visits ∧ visits.length ≤ config.maxWalkVisits
  /-- over the rings, no codec leaves a command unanswered -/
  answered : u.kind config.transport = .rings → ∀ cmd : Command, u.Reports cmd.codec → (u.answer? cmd.encode).isSome = true
  /-- the memory of the rings has addresses of 64 bits -/
  room : u.base + 2 * Memory.page < 2 ^ 64

/-- A run is followed for longer than the rig takes. -/
structure Outlasted (u : Rig) (n : Nat) : Prop where
  reset : u.resetLatency < n
  stop : u.stopLatency < n
  timer : u.timerChecks < n

variable {u : Rig} {config : Config} {waveform : Array Byte} {n : Nat}

theorem Suits.checks (h : u.Suits config waveform) (hn : u.Outlasted n) (site : WaitSite) :
    u.resetLatency < (config.poll.limit site).checks n ∧ u.stopLatency < (config.poll.limit site).checks n := by
  cases hlimit : config.poll.limit site with
  | unbounded => exact ⟨hn.reset, hn.stop⟩
  | iterations checks =>
    obtain ⟨hreset, hstop⟩ := h.limits site checks hlimit
    exact ⟨Nat.lt_of_lt_of_le hreset (Nat.le_max_left _ _), Nat.lt_of_lt_of_le hstop (Nat.le_max_left _ _)⟩

theorem Suits.checks_pos (h : u.Suits config waveform) (hn : u.Outlasted n) (site : WaitSite) :
    0 < (config.poll.limit site).checks n := Nat.zero_lt_of_lt (h.checks hn site).1

theorem Suits.shape (h : u.Suits config waveform) : BufferList.checkShape waveform.size config.bdlEntries = .ok () := by
  obtain ⟨hfew, hmany⟩ := h.pieces
  have hlong := h.long
  have hshort := h.short
  refine BufferList.checkShape_ok.2 ⟨by omega, hmany, by omega, ?_⟩
  rw [BufferList.minLength, BufferList.alignment]
  omega

/-- The descriptor that is played through. -/
def descriptor (u : Rig) (config : Config) : Nat := (GlobalCaps.mk u.capabilities).inputStreams + config.outputStream

theorem Suits.descriptor_lt (h : u.Suits config waveform) : u.descriptor config < 64 := by
  have hinput : (GlobalCaps.mk u.capabilities).inputStreams < 16 := BitVec.isLt _
  have houtput : (GlobalCaps.mk u.capabilities).outputStreams < 16 := BitVec.isLt _
  have hstream := h.output
  rw [descriptor]
  omega

/-- Everything a summary is to tell. -/
structure Told (u : Rig) (config : Config) (identity : Pci.Identity) (summary : Summary) : Prop where
  identity : summary.identity = identity
  codecs : ∀ i, summary.codecs.getLsbD i = (decide (i < 15) && u.stateChanges.getLsbD i)
  transport : summary.transport = u.kind config.transport
  found : ∃ found : List NodeAddr, found.Pairwise NodeAddr.Before ∧
    (∀ addr, addr ∈ found ↔ u.Reports addr.codec ∧ (u.replies config).Found addr) ∧ summary.nodes = found.length ∧
    summary.outputs = found.filter fun addr => ((u.replies config).nodeAt addr.codec addr.node).isAudioOutput
  stream : summary.streamDescriptor = u.descriptor config

end Rig

namespace Station

variable {u : Rig} {α : Type} {n : Nat} {s : Station u} {c : Controller} {config : Config} {waveform : Array Byte}
  {identity : Pci.Identity}

theorem ensures_onController {streams : Option Streams} {x : Procedure Controller α} {P : α → Controller → Station u → Prop}
    (h : Ensures world n x c s (.succeeds P)) : Ensures world n (Bringup.onController x) ⟨c, streams⟩ s
      (.succeeds fun a b s' => ∃ c', b = ⟨c', streams⟩ ∧ P a c' s') :=
  ensures_get_bind.2 (ensures_on.2 (h.of_succeeds fun _ c' _ h => ⟨c', rfl, h⟩))

theorem ensures_onStreams {streams : Streams} {before : Option Streams} {x : Procedure (Controller × Streams) α}
    {P : α → Controller × Streams → Station u → Prop} (h : Ensures world n x (c, streams) s (.succeeds P)) :
    Ensures world n (Bringup.onStreams streams x) ⟨c, before⟩ s
      (.succeeds fun a b s' => ∃ c' streams', b = ⟨c', some streams'⟩ ∧ P a (c', streams') s') :=
  ensures_get_bind.2 (ensures_on.2 (h.of_succeeds fun _ t _ h => ⟨t.1, t.2, rfl, h⟩))

/-- From switching on to where commands can be sent. -/
theorem awaken_succeeds {f : BitVec 16 → Procedure Bringup α} {Q : Outcome Bringup α (Station u)} {streams : Option Streams}
    (hs : u.device.Leaves (fun _ => True) s.device)
    (hlimit : u.resetLatency < (c.config.poll.limit .controllerReset).checks n)
    (hf : ∀ s', s'.Awake → Ensures world n (f (StateChangeStatus.mk u.stateChanges).codecs)
      ⟨{ c with presentCodecs := (StateChangeStatus.mk u.stateChanges).codecs }, streams⟩ s' Q) :
    Ensures world n (do
      Bringup.onController Controller.reset
      Bringup.onController Controller.waitForCodecs
      let codecs ← Bringup.onController Controller.scanCodecs
      Bringup.onController Controller.suppressInterrupts
      f codecs) ⟨c, streams⟩ s Q := by
  refine (ensures_onController (reset_succeeds hlimit)).andThen ?_
  rintro _ _ s₁ ⟨c, rfl, rfl, h₁⟩
  refine (ensures_onController (ensures_get_bind.2 (ensures_stall_rests _))).andThen ?_
  rintro _ _ s₂ ⟨c, rfl, rfl, h₂⟩
  have hbeyond : ∀ q, BeyondGlobal q → BeyondControl q := fun q hq => by
    unfold BeyondGlobal at hq
    unfold BeyondControl
    omega
  have hcontrol₂ : u.device.Leaves BeyondControl s₂.device := ((hs.mono fun _ _ => trivial).trans h₁).trans h₂.rests
  have hcalm₂ : s₂.device.pendingStop = none := hcontrol₂.stop (.inr (by decide))
  have hchanges₂ : (s₂.device.load .word 0x0e).setWidth 16 = u.stateChanges := by
    rw [hcontrol₂.load fun q hq _ => .inr (Nat.le_trans (by decide) hq), Rig.load_stateChanges]
  refine (ensures_onController (scanCodecs_succeeds hcalm₂ hchanges₂)).andThen ?_
  rintro _ _ s₃ ⟨_, rfl, rfl, rfl, h₃⟩
  refine (ensures_onController suppressInterrupts_succeeds).andThen ?_
  rintro _ _ s₄ ⟨_, rfl, rfl, h₄⟩
  exact hf s₄ (Awake.of_device (((hcontrol₂.mono hbeyond).trans h₃).trans h₄))

/-- Everything is there to play through engine `e`, and all memory in use is the streams' and the transport's. -/
structure Equipped (c₀ : Controller) (first : Transport) (streams : Streams) (e : StreamEngine) (c : Controller)
    (s : Station u) : Prop where
  ready : s.Ready c₀ first c
  engine : streams.output[c₀.config.outputStream]? = some e
  low : e.descriptor < 64
  list : e.list.length = BufferList.length
  sample : streams.sample = none
  idle : s.Idle e.descriptor
  memory : ∀ p ∈ s.device.memory.shape, p.1 ∈ first.held.map (·.2.host) ∨ p.1 ∈ streams.regions.map (·.host)

/-- The stream runs, and all memory in use is the streams' and the transport's. -/
structure Playing (c₀ : Controller) (first : Transport) (k : Nat) (b : Bringup) (s : Station u) : Prop where
  ready : s.Ready c₀ first b.controller
  streams : ∃ streams e, b.streams = some streams ∧ streams.programmedEngine = some e ∧ e.descriptor = k ∧
    ∀ p ∈ s.device.memory.shape, p.1 ∈ first.held.map (·.2.host) ∨ p.1 ∈ streams.regions.map (·.host)
  going : s.Going k

theorem Awake.idle {k : Nat} (h : s.Awake) (hk : k < 64) : s.Idle k := by
  refine ⟨h.calm, ?_⟩
  have hzero : s.control k = 0 := Device.load_eq_zero fun q hq hlt => by
    have hword : Width.word.bytes = 2 := rfl
    have hsize : Device.fileSize = 4096 := rfl
    exact h.blank q (.inl (by omega)) (by omega)
  rw [hzero]
  rfl

theorem reaches_of_suits (h : u.Suits config waveform) {codec : BitVec 8} (hcodec : u.Reports codec) :
    Reaches (u.Carries (u.kind config.transport)) codec := by
  rintro cmd rfl hrings
  exact h.answered hrings cmd hcodec

theorem Equipped.after {c₀ c' : Controller} {first : Transport} {streams : Streams} {e : StreamEngine} {s' : Station u}
    (h : s.Equipped c₀ first streams e c) (hready : s'.Ready c₀ first c') (hs : s.device.Leaves BeyondLink s'.device) :
    s'.Equipped c₀ first streams e c' where
  ready := hready
  engine := h.engine
  low := h.low
  list := h.list
  sample := h.sample
  idle := h.idle.of_spares hs.toSpares ⟨by decide, .inr (by omega), .inr (by omega)⟩
  memory := hs.shape ▸ h.memory

/-- The engine of a configured stream is there, and stands at the descriptor behind those of the inputs. -/
theorem Stocked.engine {streams : Streams} (h : Stocked ⟨u.capabilities⟩ streams)
    (houtput : config.outputStream < (GlobalCaps.mk u.capabilities).outputStreams) :
    ∃ e, streams.output[config.outputStream]? = some e ∧ e.descriptor = u.descriptor config ∧
      e.list.length = BufferList.length := by
  have hengine := List.getElem?_eq_getElem (h.length ▸ houtput : config.outputStream < streams.output.length)
  exact ⟨_, hengine, h.aligned _ _ hengine⟩

/-- From where commands can be sent to where everything is there to play. -/
theorem equip_succeeds {c₀ : Controller} {f : TransportKind → Streams → Procedure Bringup α} {Q : Outcome Bringup α (Station u)}
    (h : u.Suits c₀.config waveform) (hn : u.Outlasted n) (hawake : s.Awake)
    (hf : ∀ first streams e s', first.kind = u.kind c₀.config.transport → e.descriptor = u.descriptor c₀.config →
      s'.Equipped c₀ first streams e { c₀ with transport := some first } →
        Ensures world n (f first.kind streams) ⟨{ c₀ with transport := some first }, some streams⟩ s' Q) :
    Ensures world n (do
      let transport ← Bringup.onController Controller.establishTransport
      let streams ← Bringup.onController Streams.allocate
      modify fun b : Bringup => { b with streams := some streams }
      f transport streams) ⟨c₀, none⟩ s Q := by
  refine (ensures_onController (establishTransport_succeeds hawake (h.checks_pos hn _) h.room)).andThen ?_
  rintro kind _ s₁ ⟨_, rfl, first, rfl, rfl, hkind, hlinked, h₁, hordered₁, hshape₁⟩
  have hk := h.descriptor_lt
  have hidle₁ : s₁.Idle (u.descriptor c₀.config) :=
    (hawake.idle hk).of_spares h₁ ⟨by decide, .inr (by omega), .inr (by omega)⟩
  have hcaps₁ : (s₁.device.load .word 0x00).setWidth 16 = u.capabilities := by
    rw [h₁.load fun q _ hlt => .inl (Nat.lt_trans hlt (by decide)), hawake.capabilities]
  refine (ensures_onController (allocate_succeeds hcaps₁ hidle₁.calm)).andThen ?_
  rintro streams _ s₂ ⟨_, rfl, rfl, hstocked, h₂, hordered₂, blocks, hshape₂, hwithin⟩
  refine ensures_modify_bind.2 ?_
  obtain ⟨e, he, hdescriptor, hlist⟩ := hstocked.engine h.output
  refine hf first streams e s₂ hkind hdescriptor ⟨⟨first, rfl, rfl, rfl, hlinked.of_spares (h₂.mono fun q hq => ?_)
    hordered₂ ?_⟩, he, hdescriptor ▸ hk, hlist, hstocked.sample, ?_, fun p hp => ?_⟩
  · unfold OnLink at hq
    exact .inl hq.2
  · rw [hshape₂]
    exact List.subset_append_left _ _
  · rw [hdescriptor]
    exact hidle₁.of_spares h₂ ⟨by decide, .inr (by omega), .inr (by omega)⟩
  · rw [hshape₂, hshape₁, List.mem_append, List.mem_map] at hp
    refine hp.imp ?_ (hwithin p)
    rintro ⟨g, hg, rfl⟩
    exact List.mem_map_of_mem hg

/-- The walk finds all there is, and takes nothing of what is there to play. -/
theorem walk_succeeds {first : Transport} {streams : Streams} {before : Option Streams} {e : StreamEngine}
    (h : u.Suits config waveform) (hn : u.Outlasted n) (hkind : first.kind = u.kind config.transport)
    (hequipped : s.Equipped (u.scanned config) first streams e c) :
    Ensures world n (Bringup.onController Topology.walk) ⟨c, before⟩ s (.succeeds fun topology b s' => ∃ c', b = ⟨c', before⟩ ∧
      topology.Surveys (u.replies config) (u.scanned config).codecAddresses ∧
        s'.Equipped (u.scanned config) first streams e c') := by
  have hreports : ∀ codec ∈ (u.scanned config).codecAddresses, u.Reports codec := fun codec =>
    (u.mem_codecAddresses_scanned config codec).1
  have hreaches : ∀ codec ∈ (u.scanned config).codecAddresses, Reaches (u.Carries first.kind) codec := fun codec hcodec =>
    hkind ▸ reaches_of_suits h (hreports codec hcodec)
  have htrees : ∀ codec ∈ (u.scanned config).codecAddresses, Replies.Answers (u.answers first.kind) codec →
      ∃ visits, Replies.Unfolds (u.answers first.kind) codec (Replies.roots (u.answers first.kind) codec) visits ∧
        visits.length ≤ config.maxWalkVisits := by
    rw [hkind]
    exact fun codec hcodec => h.trees codec (hreports codec hcodec)
  refine (ensures_onController (Courier.walk_at (D := courier config.poll first s.device hequipped.idle.calm hn.timer
    (h.checks_pos hn _)) hreaches htrees hequipped.ready.at)).of_succeeds ?_
  rintro topology _ s' ⟨c', rfl, hsurveys, words, hat⟩
  obtain ⟨hready, hleaves⟩ := Ready.of_at hat
  exact ⟨c', rfl, by rwa [Rig.replies, ← hkind], hequipped.after hready hleaves⟩

/-- From the walk to where the stream runs. -/
theorem perform_succeeds {c₀ : Controller} {first : Transport} {streams : Streams} {topology : Topology} {e : StreamEngine}
    {f : List NodeAddr → Streams → α} (h : u.Suits c₀.config waveform) (hn : u.Outlasted n)
    (hequipped : s.Equipped c₀ first streams e c)
    (hreaches : ∀ addr ∈ topology.audioOutputs, Reaches (u.Carries first.kind) addr.codec) :
    Ensures world n (do
      let r ← Bringup.onStreams streams do return (← Streams.program topology waveform, (← Procedure.get).2)
      Bringup.onController r.2.start
      let b ← Procedure.get
      if 0 < b.controller.config.playbackLinger then (do
        stall b.controller.config.playbackLinger
        pure (f r.1 r.2))
      else pure (f r.1 r.2)) ⟨c, some streams⟩ s (.succeeds fun a b s' => ∃ streams',
        a = f topology.audioOutputs streams' ∧ streams'.programmedEngine = some e ∧ b.streams = some streams' ∧
          s'.Playing c₀ first e.descriptor b) := by
  have hprogram := program_succeeds (n := n) hequipped.ready hequipped.engine hequipped.low hequipped.list hequipped.sample
    hequipped.idle h.shape hn.timer (h.checks_pos hn _) (h.checks_pos hn _) hreaches
  have hprogrammed : Ensures world n (do return (← Streams.program topology waveform, (← Procedure.get).2)) (c, streams) s
      (.succeeds fun r t' s' => r = (topology.audioOutputs, t'.2) ∧ t'.2.programmedEngine = some e ∧ s'.Ready c₀ first t'.1 ∧
        s'.Idle e.descriptor ∧ ∀ p ∈ s'.device.memory.shape,
          p.1 ∈ first.held.map (·.2.host) ∨ p.1 ∈ t'.2.regions.map (·.host)) := by
    refine hprogram.andThen ?_
    rintro _ ⟨c', _⟩ s' ⟨rfl, sample, rfl, hready', hidle', hshape'⟩
    refine ensures_get_bind.2 (ensures_pure.2 ⟨rfl, hequipped.engine, hready', hidle', fun p hp => ?_⟩)
    rw [hshape', List.mem_append, List.mem_singleton] at hp
    rcases hp with hp | rfl
    · refine (hequipped.memory p hp).imp_right fun hp => ?_
      rw [Streams.regions, hequipped.sample] at hp
      exact List.mem_cons_of_mem _ hp
    · exact .inr List.mem_cons_self
  refine (ensures_onStreams hprogrammed).andThen ?_
  rintro _ _ s₁ ⟨c, streams, rfl, rfl, hengine, hready₁, hidle₁, hshape₁⟩
  dsimp only
  refine (ensures_onController (startEngine_succeeds hengine hequipped.low hidle₁)).andThen ?_
  rintro _ _ s₂ ⟨c, rfl, rfl, hgoing₂, h₂⟩
  refine ensures_get_bind.2 ?_
  have hplaying : ∀ {s' : Station u}, s₂.device.Leaves (fun _ => True) s'.device →
      s'.Playing c₀ first e.descriptor ⟨c, some streams⟩ := fun h' => by
    have hlink : s₁.device.Leaves OnLink _ := (h₂.mono fun q hq => by
      unfold OnLink at hq
      exact .inr (by omega)).trans (h'.mono fun _ _ => trivial)
    refine ⟨hready₁.of_leaves hlink, ⟨streams, e, rfl, hengine, rfl, ?_⟩,
      hgoing₂.of_spares h'.toSpares ⟨trivial, trivial, trivial⟩⟩
    rw [hlink.shape]
    exact hshape₁
  split
  · refine (ensures_stall_rests _).andThen ?_
    rintro _ _ s₃ ⟨rfl, h₃⟩
    exact ensures_pure.2 ⟨streams, rfl, hengine, rfl, hplaying h₃.rests⟩
  · exact ensures_pure.2 ⟨streams, rfl, hengine, rfl, hplaying .refl⟩

/-- From where commands can be sent to where the stream runs. -/
theorem play_succeeds (h : u.Suits config waveform) (hn : u.Outlasted n) (hs : u.device.Leaves (fun _ => True) s.device) :
    Ensures world n (Bringup.play identity waveform) ⟨{ config }, none⟩ s (.succeeds fun summary b s' =>
      u.Told config identity summary ∧ ∃ first, s'.Playing (u.scanned config) first (u.descriptor config) b) := by
  refine awaken_succeeds hs (h.checks hn _).1 fun s₁ hawake => ?_
  change Ensures world n _ (Bringup.mk (u.scanned config) none) s₁ _
  refine equip_succeeds h hn hawake fun first streams e s₂ hkind hdescriptor hequipped₂ => ?_
  refine (walk_succeeds h hn hkind hequipped₂).andThen ?_
  rintro topology _ s₃ ⟨c, rfl, hsurveys, hequipped₃⟩
  refine (ensures_note_rests _).andThen ?_
  rintro _ _ s₄ ⟨rfl, h₄⟩
  have hequipped₄ := hequipped₃.after (hequipped₃.ready.of_leaves h₄.rests) h₄.rests
  have hconverters : ∀ addr ∈ topology.audioOutputs, Reaches (u.Carries first.kind) addr.codec := fun addr haddr => by
    rw [hsurveys.outputs] at haddr
    have hcodec := ((hsurveys.mem_iff addr).1 (List.mem_filter.1 haddr).1).1
    exact hkind ▸ reaches_of_suits h ((u.mem_codecAddresses_scanned config _).1 hcodec)
  have hperform := perform_succeeds (f := fun outputs streams => ({
    identity, codecs := (StateChangeStatus.mk u.stateChanges).codecs, transport := first.kind, nodes := topology.nodeCount
    outputs, streamDescriptor := (streams.programmedEngine.map (·.descriptor)).getD 0 } : Summary)) h hn hequipped₄ hconverters
  refine hperform.of_succeeds ?_
  rintro _ b s₅ ⟨streams', rfl, hprogrammed, hstreams, hplaying⟩
  refine ⟨⟨rfl, Rig.getLsbD_codecs _, hkind, ⟨topology.nodeAddrs, hsurveys.ascending, fun addr => ?_,
    topology.nodeCount_eq, hsurveys.outputs⟩, ?_⟩, first, hdescriptor ▸ hplaying⟩
  · rw [hsurveys.mem_iff, u.mem_codecAddresses_scanned config]
  · dsimp only
    rw [hprogrammed]
    exact hdescriptor

/-- **A whole performance succeeds**, and leaves nothing behind: neither ring runs, the stream has stopped, and no memory is
in use. -/
theorem playThrough_succeeds (identity : Pci.Identity) (h : u.Suits config waveform) (hn : u.Outlasted n)
    (hs : u.device.Leaves (fun _ => True) s.device) :
    Ensures world n (Bringup.playThrough identity waveform) ⟨{ config }, none⟩ s (.succeeds fun summary _ s' =>
      u.Told config identity summary ∧ s'.Halted ∧ s'.Idle (u.descriptor config) ∧ s'.device.memory.shape = []) := by
  have hk := h.descriptor_lt
  refine (play_succeeds h hn hs).andThen ?_
  rintro summary b s₁ ⟨htold, first, ⟨transport, hcontroller, -, hheld, hlinked⟩, ⟨streams, e, hstreams, he, hdescriptor, hshape⟩,
    hgoing⟩
  refine ensures_get_bind.2 ?_
  rw [hstreams]
  refine ensures_modify_bind.2 ?_
  rw [hcontroller]
  have hrelease := release_succeeds (n := n) (c := { u.scanned config with transport := some transport }) he (hdescriptor ▸ hk)
    (hdescriptor ▸ hgoing) (h.checks hn _).2
  refine (ensures_onController hrelease).andThen ?_
  rintro _ _ s₂ ⟨_, rfl, rfl, hidle, h₂, hshape₂⟩
  have hclosable : s₂.Closable config.poll transport := hlinked.closable.of_spares h₂
  refine (ensures_onController (tearDownTransport_succeeds rfl hclosable hidle.calm (h.checks_pos hn _))).andThen ?_
  rintro _ _ s₃ ⟨c, rfl, h₃, hhalted, hshape₃⟩
  refine ensures_pure.2 ⟨htold, hhalted, ?_, ?_⟩
  · exact (hdescriptor ▸ hidle).of_spares h₃ ⟨by decide, .inr (by omega), .inr (by omega)⟩
  · rw [hshape₃, hshape₂, hheld, List.filter_filter, List.filter_eq_nil_iff]
    intro p hp
    rcases hshape p hp with hp | hp <;> simp [hp]

end Station
end Simulation
end AudioBringup
