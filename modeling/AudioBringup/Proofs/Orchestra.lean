import AudioBringup.Proofs.BufferSplit
import AudioBringup.Proofs.Engine
import AudioBringup.Proofs.Link
/-!
# Proofs.Orchestra — the streams of a simulated controller
-/
namespace AudioBringup

open Procedure

/-! ### The commands to converters -/

/-- The words that set one converter up. -/
def Config.converterWords (config : Config) (addr : NodeAddr) : List (BitVec 32) :=
  [Command.encode ⟨addr.codec, addr.node, .setStreamFormat, config.format.raw⟩,
    Command.encode ⟨addr.codec, addr.node, .setStreamChannel, streamChannel config.streamTag 0⟩]

namespace Courier

variable {ω : Type} {W : World Call Call.Answer ω} {n : Nat} {R : Replies} {carries : BitVec 32 → Prop}
  {D : Courier W n R carries} {c₀ : Controller}

/-- **Every converter is set up, in their order.** -/
theorem formatConverters_at : ∀ {converters : List NodeAddr} {words : List (BitVec 32)} {c : Controller} {w : ω},
    (∀ addr ∈ converters, Reaches carries addr.codec) → D.At c₀ words c w →
      Ensures W n (Streams.formatConverters converters) c w (.succeeds fun _ c' w' =>
        D.At c₀ (words ++ converters.flatMap c₀.config.converterWords) c' w')
  | [], words, c, w, _, h => by
    rw [List.flatMap_nil, List.append_nil]
    exact ensures_pure.2 h
  | addr :: rest, words, c, w, hall, h => by
    obtain ⟨haddr, hrest⟩ := List.forall_mem_cons.1 hall
    refine ensures_get_bind.2 ?_
    have hconfig : c.config = c₀.config := by
      obtain ⟨t, rfl, -⟩ := h
      rfl
    rw [hconfig]
    refine (note_at h).andThen fun _ c w h => ?_
    refine (command_at (haddr _ rfl) h).andThen ?_
    rintro _ c w ⟨-, h⟩
    refine (command_at (haddr _ rfl) h).andThen ?_
    rintro _ c w ⟨-, h⟩
    refine (formatConverters_at hrest h).of_succeeds fun _ c w h => ?_
    rw [List.flatMap_cons, Config.converterWords]
    simp only [List.append_assoc, List.cons_append, List.nil_append] at h ⊢
    exact h

end Courier

namespace Simulation
namespace Station

attribute [local irreducible] LittleEndian.write LittleEndian.read

variable {u : Rig} {σ : Type} {n : Nat} {t : σ} {s s₁ s₂ : Station u} {c : Controller}

/-! ### Memory for all of them -/

/-- Memory was had, and everything else is as it was. -/
structure Gains (s : Station u) (blocks : List (Nat × Nat)) (s' : Station u) : Prop where
  spares : s.device.Spares (fun _ => True) s'.device
  shape : s'.device.memory.shape = s.device.memory.shape ++ blocks
  ordered : s.device.memory.Ordered → s'.device.memory.Ordered

theorem Gains.trans {b₁ b₂ : List (Nat × Nat)} (h₁ : s.Gains b₁ s₁) (h₂ : s₁.Gains b₂ s₂) : s.Gains (b₁ ++ b₂) s₂ :=
  ⟨h₁.spares.trans h₂.spares, by rw [h₂.shape, h₁.shape, List.append_assoc], fun h => h₂.ordered (h₁.ordered h)⟩

theorem Gains.rests {blocks : List (Nat × Nat)} (h₁ : s.Gains blocks s₁) (h₂ : s₁.device.Leaves (fun _ => True) s₂.device) :
    s.Gains blocks s₂ :=
  ⟨h₁.spares.trans h₂.toSpares, by rw [h₂.shape, h₁.shape], fun h => h₂.ordered (h₁.ordered h)⟩

theorem ensures_allocate_gains (k : Nat) : Ensures world n (allocate k) t s (.succeeds fun g t' s' => t' = t ∧
    g.length = k ∧ s.Gains [(g.host, k)] s') := by
  refine (ensures_allocate_block k).of_succeeds ?_
  rintro _ _ s' ⟨rfl, rfl, h⟩
  refine ⟨rfl, rfl, h.spares ⟨fun _ _ => Device.cell_of_registers rfl, fun _ => ⟨rfl, rfl⟩, fun _ => rfl, fun _ => rfl⟩, ?_, ?_⟩
  · rw [h.memory, Memory.shape_allocate]
  · rw [h.memory]
    exact fun hd => hd.allocate k

/-- Access to memory changes neither a register nor which blocks there are. -/
theorem Becomes.leaves_memory {P : Nat → Prop} {m : Memory} (h : s.Becomes { s.device with memory := m } s₁)
    (hshape : m.shape = s.device.memory.shape) (hnext : m.next = s.device.memory.next) : s.device.Leaves P s₁.device :=
  h.leaves ⟨⟨fun _ _ => Device.cell_of_registers rfl, fun _ => ⟨rfl, rfl⟩, fun _ => rfl, fun _ => rfl⟩, hshape, hnext⟩

/-- Where the engines of a class stand among all, and how long their lists are. -/
def Aligned (descriptor : Nat) (engines : List StreamEngine) : Prop :=
  ∀ i e, engines[i]? = some e → e.descriptor = descriptor + i ∧ e.list.length = BufferList.length

theorem allocateEngines_succeeds {streamClass : StreamClass} : ∀ {count index descriptor : Nat} {t : σ} {s : Station u},
    Ensures world n (Streams.allocateEngines streamClass index descriptor count) t s (.succeeds fun engines t' s' => t' = t ∧
      engines.length = count ∧ Aligned descriptor engines ∧
        s.Gains (engines.map fun e => (e.list.host, e.list.length)) s')
  | 0, _, _, _, _ => ensures_pure.2 ⟨rfl, rfl, fun _ _ h => by simp at h, .refl, (List.append_nil _).symm, id⟩
  | count + 1, index, descriptor, t, s => by
    refine (ensures_allocate_gains _).andThen ?_
    rintro list t s₁ ⟨rfl, hlength, h₁⟩
    refine (ensures_zero_block list).andThen ?_
    rintro _ t s₂ ⟨rfl, h₂⟩
    refine (allocateEngines_succeeds).andThen ?_
    rintro rest _ s₃ ⟨rfl, hcount, haligned, h₃⟩
    refine ensures_pure.2 ⟨rfl, congrArg (· + 1) hcount, ?_, ?_⟩
    · rintro (_ | i) e he
      · cases Option.some.inj he
        exact ⟨rfl, hlength⟩
      · obtain ⟨hdescriptor, hlist⟩ := haligned i e he
        exact ⟨by omega, hlist⟩
    · have hcleared : s₁.device.Leaves (fun _ => True) s₂.device :=
        h₂.leaves_memory (Memory.shape_clear _) (Memory.next_clear _)
      rw [List.map_cons, hlength]
      exact (h₁.rests hcleared).trans h₃

/-- Streams that were just allocated for a controller with certain capabilities. -/
structure Stocked (caps : GlobalCaps) (streams : Streams) : Prop where
  length : streams.output.length = caps.outputStreams
  aligned : Aligned caps.inputStreams streams.output
  sample : streams.sample = none

/-- Everything but the address of the position buffer. -/
def BeyondPositions (q : Nat) : Prop := q < 0x70 ∨ 0x78 ≤ q

instance : DecidablePred BeyondPositions := fun _ => inferInstanceAs (Decidable (_ ∨ _))

/-- Every block of a memory is one of some regions. -/
def Within (shape : List (Nat × Nat)) (regions : List Region) : Prop := ∀ p ∈ shape, p.1 ∈ regions.map (·.host)

theorem capabilities_succeeds (hcaps : (s.device.load .word 0x00).setWidth 16 = u.capabilities)
    (hcalm : s.device.pendingStop = none) : Ensures world n Controller.capabilities c s (.succeeds fun caps c' s' => c' = c ∧
      caps = ⟨u.capabilities⟩ ∧ s.device.Leaves (fun _ => True) s'.device) := by
  refine (ensures_read16_calm hcalm (by decide)).andThen ?_
  rintro raw _ s₁ ⟨rfl, hraw, h₁⟩
  refine ensures_pure.2 ⟨rfl, ?_, h₁.rests⟩
  rw [hraw, Device.shown_of_inert (by decide)]
  exact congrArg _ hcaps

/-- **Streams that were allocated hold all the memory that was had.** -/
theorem allocate_succeeds (hcaps : (s.device.load .word 0x00).setWidth 16 = u.capabilities)
    (hcalm : s.device.pendingStop = none) : Ensures world n Streams.allocate c s (.succeeds fun streams c' s' => c' = c ∧
      Stocked ⟨u.capabilities⟩ streams ∧ s.device.Spares BeyondPositions s'.device ∧
        (s.device.memory.Ordered → s'.device.memory.Ordered) ∧
          ∃ blocks, s'.device.memory.shape = s.device.memory.shape ++ blocks ∧ Within blocks streams.regions) := by
  have hdword : Width.dword.bytes = 4 := rfl
  refine (capabilities_succeeds hcaps hcalm).andThen ?_
  rintro _ c s₁ ⟨rfl, rfl, h₁⟩
  refine (ensures_note_rests _).andThen ?_
  rintro _ c s₂ ⟨rfl, h₂⟩
  refine (allocateEngines_succeeds).andThen ?_
  rintro input c s₃ ⟨rfl, -, -, h₃⟩
  refine (allocateEngines_succeeds).andThen ?_
  rintro output c s₄ ⟨rfl, hcount, haligned, h₄⟩
  refine (allocateEngines_succeeds).andThen ?_
  rintro bidirectional c s₅ ⟨rfl, -, -, h₅⟩
  refine (ensures_allocate_gains _).andThen ?_
  rintro positions c s₆ ⟨rfl, -, h₆⟩
  refine (ensures_zero_block positions).andThen ?_
  rintro _ c s₇ ⟨rfl, h₇⟩
  refine (ensures_writeAddress_inert _ (by decide) (by decide)).andThen ?_
  rintro _ c s₈ ⟨rfl, h₈⟩
  refine (ensures_note_rests _).andThen ?_
  rintro _ _ s₉ ⟨rfl, h₉⟩
  have hgains := (((h₃.trans h₄).trans h₅).trans h₆).rests (h₇.leaves_memory (Memory.shape_clear _) (Memory.next_clear _))
  have hplaced : s₇.device.Leaves BeyondPositions s₉.device := by
    refine (h₈.leaves ((Device.leaves_store fun q hq => ?_).trans (Device.leaves_store fun q hq => ?_))).trans h₉.rests
    · rw [show Register.dplbase.toNat = 0x70 from rfl]
      unfold BeyondPositions at hq
      omega
    · rw [show Register.dpubase.toNat = 0x74 from rfl]
      unfold BeyondPositions at hq
      omega
  have hstart : s.device.Leaves (fun _ => True) s₂.device := h₁.trans h₂.rests
  have hshape := hplaced.shape.trans (hgains.shape.trans (congrArg (· ++ _) hstart.shape))
  refine ensures_pure.2 ⟨rfl, ⟨hcount, haligned, rfl⟩, ?_, ?_, _, hshape, ?_⟩
  · exact ((hstart.toSpares.trans hgains.spares).mono fun _ _ => trivial).trans hplaced.toSpares
  · exact fun h => hplaced.ordered (hgains.ordered (hstart.ordered h))
  · intro p hp
    simp only [List.mem_append, List.mem_map, List.mem_singleton] at hp
    simp only [Streams.regions, Option.toList, List.nil_append, List.map_append, List.map_map, List.map_cons, List.map_nil,
      List.mem_append, List.mem_map, List.mem_reverse, List.mem_singleton, Function.comp_apply]
    rcases hp with ((⟨e, he, rfl⟩ | ⟨e, he, rfl⟩) | ⟨e, he, rfl⟩) | rfl
    · exact .inl (.inl (.inl ⟨e, he, rfl⟩))
    · exact .inl (.inl (.inr ⟨e, he, rfl⟩))
    · exact .inl (.inr ⟨e, he, rfl⟩)
    · exact .inr rfl

/-! ### What is played -/

theorem writePieces_succeeds {list : Region} : ∀ {pieces : List BufferPiece} {index : Nat} {t : σ} {s : Station u},
    (index + pieces.length) * BufferList.recordLength ≤ list.length →
      Ensures world n (Streams.writePieces list index pieces) t s (.succeeds fun _ t' s' => t' = t ∧
        s.device.Leaves (fun _ => True) s'.device)
  | [], _, _, _, _ => ensures_pure.2 ⟨rfl, .refl⟩
  | piece :: rest, index, t, s, hlong => by
    have hrecord : BufferList.recordLength = 16 := rfl
    rw [List.length_cons, hrecord] at hlong
    refine (ensures_store64_block (by rw [hrecord]; omega) (by rw [hrecord]; omega)).andThen ?_
    rintro _ t s₁ ⟨rfl, h₁⟩
    refine (ensures_store32_block (by rw [hrecord]; omega) (by rw [hrecord]; omega)).andThen ?_
    rintro _ t s₂ ⟨rfl, h₂⟩
    refine (ensures_store32_block (by rw [hrecord]; omega) (by rw [hrecord]; omega)).andThen ?_
    rintro _ t s₃ ⟨rfl, h₃⟩
    refine (writePieces_succeeds (by rw [hrecord]; omega)).of_succeeds ?_
    rintro _ _ s₄ ⟨rfl, h₄⟩
    have hstored : ∀ {s s' : Station u} {a k v : Nat}, s.Becomes { s.device with memory := s.device.memory.store a k v } s' →
        s.device.Leaves (fun _ => True) s'.device := fun h => h.leaves_memory (Memory.shape_store _) (Memory.next_store _)
    exact ⟨rfl, (((hstored h₁).trans (hstored h₂)).trans (hstored h₃)).trans h₄⟩

theorem allocateSample_succeeds {waveform : Array Byte} {parts : Nat}
    (hshape : BufferList.checkShape waveform.size parts = .ok ()) :
    Ensures world n (Streams.allocateSample waveform parts) t s (.succeeds fun r t' s' => t' = t ∧ r.2.length = parts ∧
      s.Gains [(r.1.host, waveform.size)] s') := by
  unfold Streams.allocateSample
  rw [hshape]
  refine (ensures_allocate_gains _).andThen ?_
  rintro sample t s₁ ⟨rfl, hlength, h₁⟩
  rw [BufferList.split_of_ok sample.address hshape]
  refine (ensures_fill_block (by omega)).andThen ?_
  rintro _ _ s₂ ⟨rfl, h₂⟩
  refine ensures_pure.2 ⟨rfl, by rw [List.length_map, List.length_range], h₁.rests ?_⟩
  exact h₂.leaves_memory (Memory.shape_fill _) (Memory.next_fill _)

/-- **The configured stream is programmed**: it is described, and every converter is pointed at it. -/
theorem program_succeeds {c₀ : Controller} {first : Transport} {streams : Streams} {topology : Topology}
    {waveform : Array Byte} {e : StreamEngine} (hready : s.Ready c₀ first c)
    (hengine : streams.output[c₀.config.outputStream]? = some e) (hk : e.descriptor < 64)
    (hlist : e.list.length = BufferList.length) (hsample : streams.sample = none) (hidle : s.Idle e.descriptor)
    (hshape : BufferList.checkShape waveform.size c₀.config.bdlEntries = .ok ()) (htimer : u.timerChecks < n)
    (hlimit : 0 < (c₀.config.poll.limit .streamReset).checks n) (hdrain : 0 < (c₀.config.poll.limit .corbDrain).checks n)
    (hreaches : ∀ addr ∈ topology.audioOutputs, Reaches (u.Carries first.kind) addr.codec) :
    Ensures world n (Streams.program topology waveform) (c, streams) s (.succeeds fun outputs t' s' =>
      outputs = topology.audioOutputs ∧ ∃ sample : Region,
        t'.2 = { streams with sample := some sample, programmed := some c₀.config.outputStream } ∧
        s'.Ready c₀ first t'.1 ∧ s'.Idle e.descriptor ∧
        s'.device.memory.shape = s.device.memory.shape ++ [(sample.host, waveform.size)]) := by
  have hconfig : c.config = c₀.config := by
    obtain ⟨transport, rfl, -⟩ := hready
    rfl
  have hparts : c₀.config.bdlEntries ≤ 256 := (BufferList.checkShape_ok.1 hshape).2.1
  refine ensures_get_bind.2 ?_
  dsimp only
  rw [hconfig, hengine]
  dsimp only
  refine (resetEngine_succeeds hk hlimit hidle).andThen ?_
  rintro _ _ s₁ ⟨rfl, hidle₁, h₁⟩
  refine ensures_modify_bind.2 ?_
  rw [hsample]
  dsimp only
  refine (allocateSample_succeeds hshape).andThen ?_
  rintro ⟨sample, pieces⟩ _ s₂ ⟨rfl, hpieces, h₂⟩
  dsimp only at hpieces
  have hrecord : BufferList.recordLength = 16 := rfl
  have hlength : BufferList.length = 4096 := rfl
  have hlong : (0 + pieces.length) * BufferList.recordLength ≤ e.list.length := by
    rw [hlist, hrecord, hlength]
    omega
  refine (writePieces_succeeds hlong).andThen ?_
  rintro _ _ s₃ ⟨rfl, h₃⟩
  have hidle₃ : s₃.Idle e.descriptor :=
    (hidle₁.of_spares h₂.spares ⟨trivial, trivial, trivial⟩).of_spares h₃.toSpares ⟨trivial, trivial, trivial⟩
  refine describe_succeeds hk hidle₃ fun s₄ hidle₄ h₄ => ?_
  refine (ensures_note_rests _).andThen ?_
  rintro _ _ s₅ ⟨rfl, h₅⟩
  have hidle₅ : s₅.Idle e.descriptor := hidle₄.rests h₅
  refine ensures_modify_bind.2 ?_
  have hlink : ∀ q, OnLink q → BeforeStreams q := fun q hq => by
    unfold OnLink at hq
    unfold BeforeStreams
    omega
  have hspares₅ : s.device.Spares OnLink s₅.device :=
    ((((h₁.toSpares.mono hlink).trans (h₂.spares.mono fun _ _ => trivial)).trans (h₃.toSpares.mono fun _ _ => trivial)).trans
      (h₄.toSpares.mono hlink)).trans h₅.rests.toSpares
  have hlast : s₂.device.Leaves BeforeStreams s₅.device := ((h₃.mono fun _ _ => trivial).trans h₄).trans h₅.rests
  have hshape₅ : s₅.device.memory.shape = s.device.memory.shape ++ [(sample.host, waveform.size)] := by
    rw [hlast.shape, h₂.shape, h₁.shape]
  have hready₅ : s₅.Ready c₀ first c := by
    refine hready.of_spares hspares₅ (fun h => hlast.ordered (h₂.ordered (h₁.ordered h))) ?_
    rw [hshape₅]
    exact List.subset_append_left _ _
  refine Ensures.andThen (P := fun _ t' s' => t'.2 = { streams with sample := some sample, programmed := some c₀.config.outputStream } ∧
    s'.Ready c₀ first t'.1 ∧ s₅.device.Leaves BeyondLink s'.device) ?_ ?_
  · refine ensures_get_bind.2 (ensures_on.2 ((Courier.formatConverters_at (D := courier c₀.config.poll first s₅.device
      hidle₅.calm htimer hdrain) hreaches hready₅.at).of_succeeds fun _ c' s' h => ?_))
    exact ⟨rfl, Ready.of_at h⟩
  · rintro _ ⟨c', streams'⟩ s₆ ⟨hstreams, hready₆, h₆⟩
    refine ensures_pure.2 ⟨rfl, sample, hstreams, hready₆, ?_, h₆.shape.trans hshape₅⟩
    exact hidle₅.of_spares h₆.toSpares ⟨by decide, by unfold BeyondLink; omega, by unfold BeyondLink; omega⟩

/-! ### Giving everything back -/

theorem freeAll_succeeds : ∀ {regions : List Region} {t : σ} {s : Station u}, Ensures world n (Streams.freeAll regions) t s
    (.succeeds fun _ t' s' => t' = t ∧ s.device.Spares (fun _ => True) s'.device ∧
      s'.device.memory.shape = s.device.memory.shape.filter (·.1 ∉ regions.map (·.host)))
  | [], _, _ => ensures_pure.2 ⟨rfl, .refl, (List.filter_eq_self.2 fun _ _ => by simp).symm⟩
  | region :: rest, t, s => by
    refine (ensures_free_block region).andThen ?_
    rintro _ t s₁ ⟨rfl, h₁⟩
    refine (freeAll_succeeds).of_succeeds ?_
    rintro _ _ s₂ ⟨rfl, h₂, hshape⟩
    refine ⟨rfl, (h₁.spares ⟨fun _ _ => Device.cell_of_registers rfl, fun _ => ⟨rfl, rfl⟩, fun _ => rfl, fun _ => rfl⟩).trans
      h₂, ?_⟩
    rw [hshape, h₁.memory, Memory.shape_free, List.filter_filter]
    refine List.filter_congr fun p _ => ?_
    simp only [List.map_cons, List.mem_cons, not_or, bne, Bool.decide_and, decide_not, Bool.and_comm]
    rfl

/-- **Streams that are released have stopped**, and nothing of them is left. -/
theorem release_succeeds {streams : Streams} {e : StreamEngine} (he : streams.programmedEngine = some e)
    (hk : e.descriptor < 64) (hgoing : s.Going e.descriptor)
    (hlimit : u.stopLatency < (c.config.poll.limit .streamReset).checks n) :
    Ensures world n streams.release c s (.succeeds fun _ c' s' => c' = c ∧ s'.Idle e.descriptor ∧
      s.device.Spares OnLink s'.device ∧
        s'.device.memory.shape = s.device.memory.shape.filter (·.1 ∉ streams.regions.map (·.host))) := by
  have hdword : Width.dword.bytes = 4 := rfl
  unfold Streams.release
  rw [he]
  refine ensures_get_bind.2 ((stopEngine_succeeds hk hlimit hgoing).andThen ?_)
  rintro _ c s₁ ⟨rfl, hidle₁, h₁⟩
  refine (ensures_writeAddress_inert 0 (by decide) (by decide)).andThen ?_
  rintro _ c s₂ ⟨rfl, h₂⟩
  have hplaced : s₁.device.Leaves BeyondPositions s₂.device := by
    refine h₂.leaves ((Device.leaves_store fun q hq => ?_).trans (Device.leaves_store fun q hq => ?_))
    · rw [show Register.dplbase.toNat = 0x70 from rfl]
      unfold BeyondPositions at hq
      omega
    · rw [show Register.dpubase.toNat = 0x74 from rfl]
      unfold BeyondPositions at hq
      omega
  refine (freeAll_succeeds).of_succeeds ?_
  rintro _ _ s₃ ⟨rfl, h₃, hshape⟩
  have hbeyond : ∀ q, 0x80 ≤ q → BeyondPositions q := fun q hq => .inr (by omega)
  refine ⟨rfl, ?_, ?_, ?_⟩
  · exact (hidle₁.of_spares hplaced.toSpares ⟨hbeyond _ (by omega), hbeyond _ (by omega), hbeyond _ (by omega)⟩).of_spares h₃
      ⟨trivial, trivial, trivial⟩
  · have hlink : ∀ q, OnLink q → BeforeStreams q ∧ BeyondPositions q := fun q hq => by
      unfold OnLink at hq
      unfold BeforeStreams BeyondPositions
      omega
    exact ((h₁.toSpares.mono fun q hq => (hlink q hq).1).trans (hplaced.toSpares.mono fun q hq => (hlink q hq).2)).trans
      (h₃.mono fun _ _ => trivial)
  · rw [hshape, hplaced.shape, h₁.shape]

end Station
end Simulation
end AudioBringup
