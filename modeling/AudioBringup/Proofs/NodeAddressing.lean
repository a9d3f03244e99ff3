import AudioBringup.Proofs.TimedOutAnswers
/-!
# Proofs.NodeAddressing — the nodes that words are for

Ids of children have eight bits, and words have room for seven: the highest bit of an id falls on the bit for indirect
addressing, which is never set.  So a word on behalf of a node goes to the node with that bit cleared
(`Ground.receiver`), which is the node itself below 128.  An id from 128 on is found as a reading of another node
(`walk_records_alias`), of the one that differs in that bit and of no other (`walk_directed`).
-/
namespace AudioBringup

open Procedure

/-! ### Whom a word is for -/

/-- The node with the bit for indirect addressing cleared. -/
def NodeAddr.direct (addr : NodeAddr) : NodeAddr := ⟨addr.codec, addr.node &&& 0x7f⟩

/-- Two ids of one codec are one node exactly if they differ in the bit for indirect addressing at most. -/
theorem NodeAddr.direct_eq_iff {codec a b : BitVec 8} :
    direct ⟨codec, a⟩ = direct ⟨codec, b⟩ ↔ a = b ∨ a = b ^^^ 0x80 := by
  -- said of the difference of the two, there is one byte to go through
  have hbyte : ∀ c : BitVec 8, c &&& 0x7f = 0#8 ↔ c = 0#8 ∨ c = 0x80 := by decide
  have hxor : (a ^^^ b) &&& 0x7f = (a &&& 0x7f) ^^^ (b &&& 0x7f) := by
    ext i
    simp [Bool.and_xor_distrib_right]
  have hflip : a ^^^ b = 0x80 ↔ a = b ^^^ 0x80 := by
    rw [← BitVec.xor_left_inj b, BitVec.xor_assoc, BitVec.xor_self, BitVec.xor_zero, BitVec.xor_comm b]
  have hdirect : direct ⟨codec, a⟩ = direct ⟨codec, b⟩ ↔ a &&& 0x7f = b &&& 0x7f := by simp [direct]
  rw [hdirect, ← BitVec.xor_eq_zero_iff, ← hxor, hbyte, hflip, BitVec.xor_eq_zero_iff]

namespace Command

/-- The node that a word is for, as words are taken apart. -/
def receiver (word : BitVec 32) : NodeAddr := ⟨(decode word .short).codec, (decode word .short).node⟩

theorem node_decode_encode (cmd : Command) : (decode cmd.encode .short).node = cmd.node &&& 0x7f := by
  have hmask : (cmd.node &&& 0x7f).setWidth 8 = (cmd.node.setWidth 7).setWidth 8 :=
    Bits.setWidth_and_lowMask (show 7 ≤ 8 by decide) cmd.node 8
  rw [BitVec.setWidth_eq] at hmask
  exact cmd.node_field.trans hmask.symm

theorem codec_decode_encode {cmd : Command} (hlink : cmd.codec.toNat < 16) :
    (decode cmd.encode .short).codec = cmd.codec := by
  change (Link.target cmd.encode).setWidth 8 = _
  rw [Link.target_encode]
  apply BitVec.eq_of_toNat_eq
  rw [BitVec.toNat_setWidth, BitVec.toNat_setWidth, Nat.mod_eq_of_lt hlink, Nat.mod_eq_of_lt cmd.codec.isLt]

/-- **A word is for the node it was made for**, but for the bit for indirect addressing. -/
theorem receiver_encode (cmd : Command) (hlink : cmd.codec.toNat < 16) :
    receiver cmd.encode = NodeAddr.direct ⟨cmd.codec, cmd.node⟩ := by
  rw [receiver, codec_decode_encode hlink, node_decode_encode, NodeAddr.direct]

end Command

theorem Node.addr_of_mem_bringUp {addr : NodeAddr} {node : Node} {cmd : Command} (h : cmd ∈ node.bringUp addr) :
    (⟨cmd.codec, cmd.node⟩ : NodeAddr) = addr := by
  simp only [bringUp, List.mem_append] at h
  rcases h with (h | h) | h <;>
  · split at h
    · rw [List.mem_singleton.1 h]
    · cases h

/-- What is sent on behalf of a node goes to it, but for the bit for indirect addressing. -/
theorem Ground.receiver {before : List Letter} {addr : NodeAddr} {word : BitVec 32} (hlink : addr.codec.toNat < 16)
    (h : Ground before addr word) : Command.receiver word = addr.direct := by
  cases h with
  | root => exact Command.receiver_encode _ hlink
  | child read there named => exact Command.receiver_encode _ hlink
  | detail asked there => exact Command.receiver_encode _ hlink
  | @told _ node cmd read there wanted =>
    obtain rfl := Node.addr_of_mem_bringUp wanted
    exact Command.receiver_encode _ hlink

/-! ### What is recorded, and on whose behalf -/

/-- Each letter was sent on behalf of a node of one of the codecs, for a ground in the letters before it, and is for that
node but for the bit for indirect addressing. -/
def Directed (addresses : List (BitVec 8)) (l : List Letter) : Prop :=
  ∀ before letter after, l = before ++ letter :: after → ∃ addr : NodeAddr, addr.codec ∈ addresses ∧
    Ground before addr letter.word ∧ Command.receiver letter.word = addr.direct

/-- The entry of an id was read in successive letters, all of them for the node with that id but for the bit for indirect
addressing. -/
def Codec.ReadFrom (codec : Codec) (l : List Letter) (e : BitVec 8 × Node) : Prop :=
  ∃ asked, asked <:+: l ∧ asked.map (·.response) = Parameter.all.map (fun p => some (e.2.value p)) ∧
    ∀ letter ∈ asked, Command.receiver letter.word = NodeAddr.direct ⟨codec.address, e.1⟩

/-- Every entry of a codec was read from the node with its id but for the bit for indirect addressing, so that two of them
are readings of one node exactly if their ids differ in nothing else. -/
def Codec.WellRead (codec : Codec) (l : List Letter) : Prop :=
  ∀ e ∈ (0, codec.root) :: codec.nodes, codec.ReadFrom l e ∧ ∀ e' ∈ (0, codec.root) :: codec.nodes,
    NodeAddr.direct ⟨codec.address, e.1⟩ = NodeAddr.direct ⟨codec.address, e'.1⟩ ↔ e.1 = e'.1 ∨ e.1 = e'.1 ^^^ 0x80

/-- The letters are stream commands for entries of a topology, each for the node of its entry but for the bit for indirect
addressing. -/
def Topology.Streamed (topology : Topology) (l : List Letter) : Prop :=
  ∀ letter ∈ l, ∃ codec ∈ topology.codecs, ∃ e ∈ codec.nodes, e.2.isAudioOutput ∧
    Command.receiver letter.word = NodeAddr.direct ⟨codec.address, e.1⟩

/-- Whenever the converters of a topology are given the stream, it is with commands for the nodes of their entries. -/
def Correspondent.Streams {ω : Type} {W : World Call Call.Answer ω} {n : Nat} (P : Correspondent W n) (topology : Topology) :
    Prop :=
  ∀ (c : Controller) (t : Transport) (w : ω), P.Ready t w →
    Ensures W n (Streams.formatConverters topology.audioOutputs) { c with transport := some t } w
      (P.adds (P.letters w) (fun _ => topology.Streamed) topology.Streamed)

theorem Grounded.directed {addresses : List (BitVec 8)} {l : List Letter} (hlink : ∀ a ∈ addresses, a.toNat < 16)
    (h : Grounded addresses l) : Directed addresses l := by
  intro before letter after hl
  obtain ⟨addr, hcodec, hground⟩ := h before letter after hl
  exact ⟨addr, hcodec, hground, hground.receiver (hlink _ hcodec)⟩

theorem Node.ReadIn.readFrom {codec : Codec} {l : List Letter} {e : BitVec 8 × Node} (hlink : codec.address.toNat < 16)
    (h : e.2.ReadIn l ⟨codec.address, e.1⟩) : codec.ReadFrom l e := by
  refine ⟨e.2.reading ⟨codec.address, e.1⟩, h.1, ?_, ?_⟩
  · rw [Node.reading, List.map_map]
    rfl
  · intro letter hletter
    obtain ⟨p, -, rfl⟩ := List.mem_map.1 hletter
    exact Command.receiver_encode (.getParameter codec.address e.1 p) hlink

theorem Controller.link_of_mem_codecAddresses {c : Controller} {codec : BitVec 8} (h : codec ∈ c.codecAddresses) :
    codec.toNat < 16 := Nat.lt_trans (mem_codecAddresses.1 h).1 (by decide)

namespace Letter

theorem Begins.exists_word {whole l : List Letter} (h : Begins whole l) {letter : Letter} (hletter : letter ∈ l) :
    ∃ full ∈ whole, full.word = letter.word := by
  cases h with
  | cut first => exact ⟨letter, first.subset hletter, rfl⟩
  | @unanswered before last first =>
    rcases List.mem_append.1 hletter with hletter | hletter
    · exact ⟨letter, first.subset (List.mem_append_left _ hletter), rfl⟩
    · rw [List.mem_singleton.1 hletter]
      exact ⟨last, first.subset (List.mem_append_right before List.mem_cons_self), rfl⟩

theorem exists_carries : ∀ {cmds : List Command} {l : List Letter}, List.Forall₂ Carries cmds l → ∀ letter ∈ l,
    ∃ cmd ∈ cmds, letter.word = cmd.encode
  | _, _, .cons (a := cmd) ⟨_, hcmd⟩ hrest, letter, hletter => by
    rcases List.mem_cons.1 hletter with rfl | hletter
    · exact ⟨cmd, List.mem_cons_self, congrArg Letter.word hcmd⟩
    · obtain ⟨other, hother, hword⟩ := exists_carries hrest letter hletter
      exact ⟨other, List.mem_cons_of_mem cmd hother, hword⟩

end Letter

namespace Streams

/-- The commands that give a converter the stream. -/
def converterCommands (config : Config) (addr : NodeAddr) : List Command :=
  [⟨addr.codec, addr.node, .setStreamFormat, config.format.raw⟩,
   ⟨addr.codec, addr.node, .setStreamChannel, streamChannel config.streamTag 0⟩]

theorem formatConverters_writes {ω : Type} {W : World Call Call.Answer ω} {n : Nat} (P : Correspondent W n)
    (c₀ : Controller) : ∀ converters, P.Writes c₀
      (fun _ => List.Forall₂ Letter.Carries (converters.flatMap (converterCommands c₀.config))) (formatConverters converters)
  | [] => Correspondent.writes_pure .nil
  | addr :: rest => by
    apply Correspondent.writes_get_bind
    intro t
    refine Correspondent.writes_note_bind nofun ?_
    apply Correspondent.writes_command_bind
    intro format
    apply Correspondent.writes_command_bind
    intro channel
    exact (formatConverters_writes P c₀ rest).mono fun _ _ hl => .cons ⟨format, rfl⟩ (.cons ⟨channel, rfl⟩ hl)

end Streams

namespace Topology

variable {ω : Type} {W : World Call Call.Answer ω} {n : Nat}

/-- What is sent to the converters of a topology is for them, but for the bit for indirect addressing. -/
theorem formatConverters_streamed {P : Correspondent W n} {topology : Topology}
    (hlink : ∀ codec ∈ topology.codecs, codec.address.toNat < 16) : P.Streams topology := by
  intro c t w hready
  have hstreamed : ∀ {l}, List.Forall₂ Letter.Carries
      (topology.audioOutputs.flatMap (Streams.converterCommands c.config)) l → topology.Streamed l := by
    intro l hl letter hletter
    obtain ⟨cmd, hcmd, hword⟩ := Letter.exists_carries hl letter hletter
    obtain ⟨addr, haddr, hcmd⟩ := List.mem_flatMap.1 hcmd
    obtain ⟨codec, hcodec, e, he, houtput, rfl⟩ := mem_audioOutputs.1 haddr
    refine ⟨codec, hcodec, e, he, houtput, ?_⟩
    rw [hword]
    simp only [Streams.converterCommands, List.mem_cons, List.not_mem_nil, or_false] at hcmd
    rcases hcmd with rfl | rfl
    · exact Command.receiver_encode _ (hlink codec hcodec)
    · exact Command.receiver_encode _ (hlink codec hcodec)
  apply (Streams.formatConverters_writes P c topology.audioOutputs).adds
  · exact fun _ l => hstreamed
  · intro _ whole l hwhole hbegins letter hletter
    obtain ⟨full, hfull, hword⟩ := hbegins.exists_word hletter
    rw [← hword]
    exact hstreamed hwhole full hfull
  · exact hready

theorem Toured.wellRead {addresses : List (BitVec 8)} {l : List Letter} {codecs : List Codec}
    (hlink : ∀ a ∈ addresses, a.toNat < 16) (h : Toured addresses l codecs) : ∀ codec ∈ codecs, codec.WellRead l := by
  intro codec hcodec e he
  obtain ⟨haddress, hroot, hnodes⟩ := h.readIn codec hcodec
  refine ⟨?_, fun e' _ => NodeAddr.direct_eq_iff⟩
  rcases List.mem_cons.1 he with rfl | he
  · exact hroot.readFrom (e := (0, codec.root)) (hlink _ haddress)
  · exact (hnodes e he).readFrom (hlink _ haddress)

/-- **Every word of a walk is for the node it is sent on behalf of, but for the bit for indirect addressing**, over any
transport and whatever it answers, in a walk that fails too.  Each entry that a walk comes back with was read from the node
with its id but for that bit, so that two entries of one codec are readings of one node exactly if they differ in nothing
else; and whenever its converters are given the stream, it is with commands for the nodes of their entries in that sense. -/
theorem walk_directed (P : Correspondent W n) {c : Controller} {t : Transport} {w : ω} (ht : c.transport = some t)
    (hready : P.Ready t w) : Ensures W n walk c w (P.adds (P.letters w) (fun topology l => Directed c.codecAddresses l ∧
      (∀ codec ∈ topology.codecs, codec.WellRead l) ∧ P.Streams topology) (Directed c.codecAddresses)) := by
  have hlink : ∀ a ∈ c.codecAddresses, a.toNat < 16 := fun a => Controller.link_of_mem_codecAddresses
  have hc : c = { c with transport := some t } := by rw [← ht]
  rw [hc]
  apply (Correspondent.walk_writes c).adds
  · intro topology l htour
    refine ⟨htour.grounded.directed hlink, htour.wellRead hlink, ?_⟩
    exact formatConverters_streamed fun codec hcodec => hlink _ (htour.readIn codec hcodec).1
  · exact fun topology whole l htour hbegins => Grounded.directed hlink (htour.grounded.begins hbegins)
  · exact hready

/-- Rings that nothing has gone through. -/
def unusedRings : CommandRings where
  corb := { host := 0x10000, address := 0x10000, length := CommandRings.corbLength, token := 0 }
  rirb := { host := 0x20000, address := 0x20000, length := CommandRings.rirbLength, token := 1 }
  corbEntries := .twoFiftySix
  rirbEntries := .twoFiftySix
  writeCursor := 0
  readCursor := 0
  resetLimit := .unbounded
  drainLimit := .unbounded

/-- A controller that one codec reported to, with those rings. -/
def soleCodecOnRings : Controller := { soleCodec with transport := some (.rings unusedRings) }

theorem walk_directed_either :
    (soleCodec.transport = some (.immediate 0) ∧ (mail 1).Ready (.immediate 0) [] ∧
      Ensures recording 1 walk soleCodec [] ((mail 1).adds ((mail 1).letters [])
        (fun topology l => Directed soleCodec.codecAddresses l ∧ (∀ codec ∈ topology.codecs, codec.WellRead l) ∧
          (mail 1).Streams topology) (Directed soleCodec.codecAddresses))) ∧
    soleCodecOnRings.transport = some (.rings unusedRings) ∧ (mail 1).Ready (.rings unusedRings) [] ∧
      Ensures recording 1 walk soleCodecOnRings [] ((mail 1).adds ((mail 1).letters [])
        (fun topology l => Directed soleCodecOnRings.codecAddresses l ∧ (∀ codec ∈ topology.codecs, codec.WellRead l) ∧
          (mail 1).Streams topology) (Directed soleCodecOnRings.codecAddresses)) :=
  ⟨⟨rfl, trivial, walk_directed (mail 1) rfl trivial⟩, rfl, trivial, walk_directed (mail 1) rfl trivial⟩

/-! ### One node under two ids -/

/-- A codec whose root names one child, 130. -/
def aliased (word : BitVec 32) : Option (BitVec 32) :=
  if word = (Command.getParameter 0 0 .vendorId).encode then some 1
  else if word = (Command.getParameter 0 0 .subordinateNodeCount).encode then some 0x820001
  else some 0

/-- Each entry was read from the node with its id. -/
def ReadAsRecorded (h : History) (topology : Topology) : Prop := ∀ codec ∈ topology.codecs, ∀ e ∈ codec.nodes,
  ∃ letter ∈ h.letters, Command.receiver letter.word = ⟨codec.address, e.1⟩

/-- There is an entry for a node that no word is for. -/
def misrecorded : Ending (Except Error Topology × Controller) × History → Bool
  | (.result (.ok topology, _), h) => topology.codecs.any fun codec => codec.nodes.any fun e =>
      h.letters.all fun letter => Command.receiver letter.word != ⟨codec.address, e.1⟩
  | _ => false

/-- **A node is recorded under an id that no word is for**: where a child 130 is named, there is an entry for it, and it was
read from node 2. -/
theorem walk_records_alias : ¬Ensures recording 1 walk soleCodec []
    ⟨fun topology _ h => ReadAsRecorded h topology, fun _ _ _ => True, fun _ => True, fun _ => True⟩ := by
  refine Procedure.refuted (hosting aliased) misrecorded (by decide +kernel) ?_
  rintro ⟨⟨e | topology, _⟩ | cause | _, h⟩ hmisrecorded hread
  · cases hmisrecorded
  · obtain ⟨codec, hcodec, hentry⟩ := List.any_eq_true.1 hmisrecorded
    obtain ⟨e, he, hall⟩ := List.any_eq_true.1 hentry
    obtain ⟨letter, hletter, hreceiver⟩ : ∃ letter ∈ h.letters, Command.receiver letter.word = ⟨codec.address, e.1⟩ :=
      hread codec hcodec e he
    have hne := List.all_eq_true.1 hall letter hletter
    rw [hreceiver] at hne
    simp at hne
  · cases hmisrecorded
  · cases hmisrecorded

end Topology
end AudioBringup
