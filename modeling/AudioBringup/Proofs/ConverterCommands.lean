import AudioBringup.Proofs.Census
import AudioBringup.Proofs.NodeAddressing
import AudioBringup.Proofs.ReleaseOrder
import AudioBringup.Proofs.WalkBounds
/-!
# Proofs.ConverterCommands — which converters are given the stream, and what they are told

Whatever the codecs answer, a walk comes back with each codec once and each of its nodes once, by ascending address, since
codecs are walked in the order of their addresses and nodes go into ordered tables (`walk_sorted`).  So every converter is
there once (`Sorted.orderly`), and programming sends two commands to each of them in their order and no other word
(`program_tells`), or the first of those words where it fails.
-/
namespace AudioBringup

open Procedure

/-! ### The order of a topology -/

theorem Node.isAudioOutput_iff {node : Node} : node.isAudioOutput = true ↔
    node.isFunctionGroup = false ∧ node.audioWidgetCaps ≠ 0 ∧ Bits.field node.audioWidgetCaps 20 4 = 0 := by
  have hcode : ∀ code : BitVec 4, WidgetType.ofCode? code = some .audioOutput ↔ code = 0 := by decide
  simp [isAudioOutput, widgetType?, hcode, and_assoc]

/-- Where the keys of a list ascend there is one entry for each at most, and looking for it finds it. -/
theorem find?_of_ascending {α : Type} {key : α → BitVec 8} {k : BitVec 8} {a : α} : ∀ {l : List α},
    l.Pairwise (key · < key ·) → (l.find? (key · == k) = some a ↔ a ∈ l ∧ key a = k)
  | [], _ => by simp
  | b :: l, h => by
    obtain ⟨hfirst, hrest⟩ := List.pairwise_cons.1 h
    rw [List.find?_cons, List.mem_cons]
    by_cases hb : key b = k
    · rw [beq_iff_eq.2 hb]
      constructor
      · rintro ⟨⟩
        exact ⟨.inl rfl, hb⟩
      · rintro ⟨rfl | ha, hk⟩
        · rfl
        · exact absurd (hfirst a ha) (by rw [hb, hk]; exact BitVec.lt_irrefl k)
    · rw [beq_eq_false_iff_ne.2 hb, find?_of_ascending hrest]
      refine and_congr_left fun hk => ⟨.inr, fun ha => ha.resolve_left ?_⟩
      rintro rfl
      exact hb hk

namespace Topology

/-- The codecs are among some addresses and in their order, and so are the nodes of each. -/
structure Sorted (addresses : List (BitVec 8)) (t : Topology) : Prop where
  codecs : (t.codecs.map (·.address)).Sublist addresses
  nodes : ∀ codec ∈ t.codecs, codec.nodes.Ascends

/-- The codecs of a topology are in the order of their addresses, which the link has, and so are the converters, which are
the audio outputs among the nodes that there are. -/
structure Orderly (t : Topology) : Prop where
  codecs : (t.codecs.map (·.address)).Pairwise (· < ·)
  onLink : ∀ codec ∈ t.codecs, codec.address.toNat < 15
  outputs : t.audioOutputs.Pairwise NodeAddr.Before
  mem_outputs : ∀ addr, addr ∈ t.audioOutputs ↔ ∃ node, t.node? addr = some node ∧
    node.isFunctionGroup = false ∧ node.audioWidgetCaps ≠ 0 ∧ Bits.field node.audioWidgetCaps 20 4 = 0

variable {t : Topology}

theorem node?_eq_some_iff (hcodecs : t.codecs.Pairwise (·.address < ·.address)) (hnodes : ∀ c ∈ t.codecs, c.nodes.Ascends)
    {addr : NodeAddr} {node : Node} :
    t.node? addr = some node ↔ ∃ c ∈ t.codecs, c.address = addr.codec ∧ (addr.node, node) ∈ c.nodes := by
  have hfind : ∀ c ∈ t.codecs, NodeTable.node? addr.node c.nodes = some node ↔ (addr.node, node) ∈ c.nodes := by
    intro c hc
    rw [NodeTable.node?, Option.map_eq_some_iff]
    constructor
    · rintro ⟨e, he, rfl⟩
      obtain ⟨hmem, hid⟩ := (find?_of_ascending (hnodes c hc)).1 he
      exact hid ▸ hmem
    · exact fun hmem => ⟨_, (find?_of_ascending (hnodes c hc)).2 ⟨hmem, rfl⟩, rfl⟩
  rw [Topology.node?, Option.bind_eq_some_iff]
  constructor
  · rintro ⟨c, hc, hnode⟩
    obtain ⟨hc, haddress⟩ := (find?_of_ascending hcodecs).1 hc
    exact ⟨c, hc, haddress, (hfind c hc).1 hnode⟩
  · rintro ⟨c, hc, haddress, hmem⟩
    exact ⟨c, (find?_of_ascending hcodecs).2 ⟨hc, haddress⟩, (hfind c hc).2 hmem⟩

theorem Sorted.orderly {c : Controller} (h : t.Sorted c.codecAddresses) : t.Orderly := by
  have hascend := c.codecAddresses_ascend.sublist h.codecs
  have hcodecs := List.pairwise_map.1 hascend
  refine ⟨hascend, fun codec hcodec => ?_, ?_, fun addr => ?_⟩
  · exact (Controller.mem_codecAddresses.1 (h.codecs.subset (List.mem_map_of_mem hcodec))).1
  · refine List.pairwise_flatMap.2 ⟨fun codec hcodec => ?_, hcodecs.imp fun hlt a ha b hb => ?_⟩
    · exact List.pairwise_map.2 (((h.nodes codec hcodec).filter _).imp NodeAddr.before_of_node)
    · obtain ⟨_, -, rfl⟩ := List.mem_map.1 ha
      obtain ⟨_, -, rfl⟩ := List.mem_map.1 hb
      exact NodeAddr.before_of_codec hlt
  · simp only [mem_audioOutputs, node?_eq_some_iff hcodecs h.nodes, ← Node.isAudioOutput_iff]
    constructor
    · rintro ⟨codec, hcodec, e, he, houtput, rfl⟩
      exact ⟨e.2, ⟨codec, hcodec, rfl, he⟩, houtput⟩
    · rintro ⟨node, ⟨codec, hcodec, haddress, he⟩, houtput⟩
      exact ⟨codec, hcodec, _, he, houtput, congrArg (NodeAddr.mk · addr.node) haddress⟩

section
variable {ω : Type} {W : World Call Call.Answer ω} {n : Nat} {c : Controller} {w : ω}

/-- What is found goes into the table where it belongs, however often it is found. -/
theorem walkBelow_ascends (codec : BitVec 8) : ∀ (allowance : Nat) (pending : List (BitVec 8)) {found : NodeTable}
    {c : Controller} {w : ω}, found.Ascends →
      Ensures W n (Codec.walkBelow codec allowance pending found) c w (.ifDone fun nodes _ _ => nodes.Ascends)
  | 0, [], _, _, _, h | _ + 1, [], _, _, _, h => h
  | 0, _ :: _, _, _, _, _ => trivial
  | allowance + 1, id :: pending, _, _, _, h => by
    refine ensures_anything.ifDoneThen fun node _ _ _ => ?_
    cases node with
    | none => exact walkBelow_ascends codec allowance pending h
    | some node => exact walkBelow_ascends codec allowance _ (h.insert id node)

theorem codecWalk_ascends (address : BitVec 8) : Ensures W n (Codec.walk address) c w
    (.ifDone fun found _ _ => ∀ codec ∈ found, codec.address = address ∧ codec.nodes.Ascends) := by
  refine ensures_anything.ifDoneThen fun vendorId _ _ _ => ?_
  split
  · exact ensures_anything.ifDoneThen fun _ _ _ _ => nofun
  · refine ensures_anything.ifDoneThen fun _ _ _ _ => ensures_anything.ifDoneThen fun root _ _ _ => ?_
    refine ensures_anything.ifDoneThen fun _ _ _ _ => ensures_anything.ifDoneThen fun _ _ _ _ => ?_
    refine (walkBelow_ascends address _ _ List.Pairwise.nil).ifDoneThen fun nodes _ _ hnodes => ?_
    refine ensures_anything.ifDoneThen fun _ _ _ _ => ?_
    rintro codec ⟨⟩
    exact ⟨rfl, hnodes⟩

theorem walkAll_sorted : ∀ {addresses : List (BitVec 8)} {c : Controller} {w : ω},
    Ensures W n (Codec.walkAll addresses) c w (.ifDone fun codecs _ _ => Sorted addresses { codecs })
  | [], _, _ => ⟨List.Sublist.refl _, nofun⟩
  | address :: addresses, _, _ => by
    refine (codecWalk_ascends address).ifDoneThen fun found _ _ hfound => walkAll_sorted.ifDoneThen fun rest _ _ hrest => ?_
    cases found with
    | none => exact ⟨hrest.codecs.cons _, hrest.nodes⟩
    | some codec =>
      obtain ⟨rfl, hnodes⟩ := hfound codec rfl
      exact ⟨hrest.codecs.cons_cons _, List.forall_mem_cons.2 ⟨hnodes, hrest.nodes⟩⟩

theorem walk_sorted : Ensures W n walk c w (.ifDone fun t _ _ => t.Sorted c.codecAddresses) :=
  ensures_get_bind.2 (walkAll_sorted.ifDoneThen fun _ _ _ h => h)

end

end Topology

/-! ### What is sent -/

namespace History

/-- Every word that was put to a transport, the earliest first, whether or not the write went through: what is written to the
immediate interface is one, and what was stored last when the write pointer of the command ring is moved. -/
def sent : History → List (BitVec 32)
  | [] => []
  | ⟨.write _ o v, _⟩ :: h =>
    sent h ++ if o = Register.icoi then [v] else if o = Register.corbwp then [stored h] else []
  | _ :: h => sent h

variable {h h' : History} {l l' : List (BitVec 32)}

theorem sent_cons {c : Call} {a : c.Answer} (hc : c.Wordless) : sent (⟨c, a⟩ :: h) = h.sent := by
  cases c with
  | write w o v => rw [sent, if_neg hc.1, if_neg hc.2, List.append_nil]
  | _ => rfl

theorem sent_pointer {w : Width} {v : BitVec 32} {a : (Call.write w Register.corbwp v).Answer} :
    sent (⟨.write w Register.corbwp v, a⟩ :: h) = h.sent ++ [h.stored] := by
  rw [sent, if_neg (by decide), if_pos rfl]

theorem stable_sent : Stable Call.Wordless (fun h => h.sent = l) := fun _ _ _ hc hl => (sent_cons hc).trans hl

/-- Some first of these words were sent after `h`. -/
def Begun (l : List (BitVec 32)) (h h' : History) : Prop := ∃ first, first <+: l ∧ h'.sent = h.sent ++ first

theorem begun_of_sent_eq (hh : h'.sent = h.sent) : Begun l h h' := ⟨[], List.nil_prefix, by rw [hh, List.append_nil]⟩

theorem Begun.mono (hh : Begun l h h') : Begun (l ++ l') h h' := by
  obtain ⟨first, hfirst, hh⟩ := hh
  exact ⟨first, hfirst.trans (List.prefix_append l l'), hh⟩

theorem Begun.after {h₁ : History} (h₁l : h₁.sent = h.sent ++ l) (hh : Begun l' h₁ h') : Begun (l ++ l') h h' := by
  obtain ⟨first, hfirst, hh⟩ := hh
  exact ⟨l ++ first, (List.prefix_append_right_inj l).2 hfirst, by rw [hh, h₁l, List.append_assoc]⟩

end History

namespace Procedure

open History

variable {σ τ α β : Type} {f : σ → τ} {t : τ} {l l' : List (BitVec 32)} {x : Procedure σ α} {n : Nat} {h : History}

/-- How a procedure can end that leaves `f` of its state at `t` and sends the words `l`. -/
def telling (f : σ → τ) (t : τ) (l : List (BitVec 32)) (h : History) : Outcome σ α History where
  ok _ s h' := f s = t ∧ h'.sent = h.sent ++ l
  error _ _ := Begun l h
  misused := Begun l h
  stuck := Begun l h

/-- From a state of which `f` is `t`, and whatever is answered, the words `l` are sent in their order and no other word, and
`f` is left at `t`; where it comes to no result, only some first of the words are sent. -/
def Tells (f : σ → τ) (t : τ) (l : List (BitVec 32)) (x : Procedure σ α) : Prop :=
  ∀ n s h, f s = t → Ensures recording n x s h (telling f t l h)

theorem Confined.tells (hx : Confined Call.Wordless f x) : Tells f t [] x := by
  rintro n s h rfl
  refine (hx.keeps stable_sent rfl).mono ?_ ?_ (fun _ => begun_of_sent_eq) fun _ => begun_of_sent_eq
  · exact fun _ _ _ hh => ⟨hh.1, by rw [hh.2, List.append_nil]⟩
  · exact fun _ _ _ hh => begun_of_sent_eq hh.2

theorem tells_bind {g : α → Procedure σ β} (hx : Tells f t l x) (hg : ∀ a, Tells f t l' (g a)) :
    Tells f t (l ++ l') (x >>= g) := fun n s h hs => by
  refine ensures_bind.2 ((hx n s h hs).mono ?_ (fun _ _ _ => Begun.mono) (fun _ => Begun.mono) fun _ => Begun.mono)
  rintro a s₁ h₁ ⟨hs₁, hl⟩
  refine (hg a n s₁ h₁ hs₁).mono ?_ (fun _ _ _ => Begun.after hl) (fun _ => Begun.after hl) fun _ => Begun.after hl
  exact fun _ _ _ hh => ⟨hh.1, by rw [hh.2, hl, List.append_assoc]⟩

/-- A step that sends nothing, and what follows it. -/
theorem tells_after {g : α → Procedure σ β} (hx : Confined Call.Wordless f x) (hg : ∀ a, Tells f t l (g a)) :
    Tells f t l (x >>= g) := tells_bind hx.tells hg

/-- What is made of the state may rely on what is seen of it. -/
theorem tells_get_bind {g : σ → Procedure σ α} (hg : ∀ s, f s = t → Tells f t l (g s)) : Tells f t l (get >>= g) :=
  fun n s h hs => ensures_get_bind.2 (hg s hs n s h hs)

theorem tells_icoi {w : Width} {v : BitVec 32} : Tells f t [v] (write w Register.icoi v) := fun n s h hs => by
  refine ensures_write.2 ?_
  rintro (e | ⟨⟩) _ rfl
  · exact ⟨[v], List.prefix_rfl, rfl⟩
  · exact ⟨hs, rfl⟩

/-- A word is put into the command ring by storing it and moving the write pointer to it. -/
theorem tells_ring {r : Region} {offset : Nat} {word : BitVec 32} {v : BitVec 16} {rest : Procedure σ α}
    (hrest : Confined Call.Wordless f rest) : Tells f t [word] (do
      r.store32 offset word
      write16 Register.corbwp v
      rest) := by
  intro n s h hs
  refine ensures_bind.2 (ensures_store32_recording (begun_of_sent_eq rfl) fun host => ensures_bind.2 (ensures_write.2 ?_))
  rintro (e | ⟨⟩) _ rfl
  · exact ⟨[word], List.prefix_rfl, sent_pointer⟩
  · refine (hrest.tells n s _ hs).mono ?_ (fun _ _ _ => Begun.after sent_pointer) (fun _ => Begun.after sent_pointer)
      fun _ => Begun.after sent_pointer
    exact fun _ _ _ hh => ⟨hh.1, hh.2.trans ((List.append_nil _).trans sent_pointer)⟩

end Procedure

/-! ### Over either transport -/

theorem wordless_icis {σ τ : Type} {f : σ → τ} {v : BitVec 16} : Confined Call.Wordless f (write16 Register.icis v) :=
  confined_write ⟨by decide, by decide⟩

theorem ImmediateInterface.exchange_tells {σ τ : Type} {f : σ → τ} {t : τ} (timeout : BitVec 64) (word : BitVec 32) :
    Tells f t [word] (exchange timeout word) := by
  refine tells_after wordless_icis fun _ => ?_
  rw [← List.append_nil [word]]
  refine tells_bind tells_icoi fun _ => Confined.tells ?_
  refine confined_bind wordless_icis fun _ => confined_bind (confined_armTimer trivial) fun _ => ?_
  refine confined_bind (fun n => confined_awaitResponse trivial trivial n n) fun answered => ?_
  refine confined_bind (confined_cancelTimer trivial) fun _ => confined_ite ?_ ?_
  · refine confined_bind (confined_read trivial) fun response => confined_bind (confined_read16 trivial) fun status => ?_
    refine confined_bind wordless_icis fun _ => confined_bind (confined_note trivial) fun _ => confined_pure _
  · exact confined_bind (confined_note trivial) fun _ => confined_pure _

theorem CommandRings.exchange_tells (word : BitVec 32) : Tells (fun _ => ()) () [word] (exchange word) := by
  refine tells_after (confined_modify fun _ => rfl) fun _ => tells_get_bind fun rings _ => tells_ring ?_
  refine confined_bind (confined_waitUntil (confined_look16 trivial) fun _ => trivial) fun _ => ?_
  refine confined_bind (confined_waitUntil (confined_look16 trivial) fun _ => trivial) fun _ => ?_
  refine confined_bind (confined_modify fun _ => rfl) fun _ => confined_bind confined_get fun rings => ?_
  refine confined_bind (confined_load32 trivial) fun _ => confined_bind (confined_write ⟨by decide, by decide⟩) fun _ => ?_
  exact confined_bind (confined_note trivial) fun _ => confined_pure _

/-- An exchange sends its word and no other. -/
theorem Transport.exchange_tells (word : BitVec 32) : Tells (fun _ => ()) () [word] (Transport.exchange word)
  | n, .immediate timeout, h, _ =>
    ensures_get_bind.2 (ImmediateInterface.exchange_tells timeout word n (Transport.immediate timeout) h rfl)
  | n, .rings r, h, _ =>
    ensures_get_bind.2 (ensures_on.2 (CommandRings.exchange_tells word n r h rfl))

theorem Controller.command_tells {config : Config} (cmd : Command) :
    Tells Controller.config config [cmd.encode] (command cmd) := by
  refine tells_get_bind fun c hc => ?_
  cases c.transport with
  | none => exact fun _ _ _ _ => History.begun_of_sent_eq rfl
  | some t =>
    have hsent : Tells Controller.config config [cmd.encode]
        (on t (fun t (s : Controller) => { s with transport := some t }) (Transport.exchange cmd.encode)) := fun n c h hc =>
      ensures_on.2 ((Transport.exchange_tells cmd.encode n t h rfl).mono (fun _ _ _ hh => ⟨hc, hh.2⟩) (fun _ _ _ => id)
        (fun _ => id) fun _ => id)
    dsimp only
    split
    · exact tells_after (confined_note trivial) fun _ => hsent
    · exact hsent

namespace Streams

/-- The words that give converters the stream, one converter after the other. -/
def converterWords (config : Config) (converters : List NodeAddr) : List (BitVec 32) :=
  (converters.flatMap (converterCommands config)).map Command.encode

theorem formatConverters_tells {config : Config} : ∀ converters,
    Tells Controller.config config (converterWords config converters) (formatConverters converters)
  | [] => Confined.tells (confined_pure ())
  | addr :: rest => by
    refine tells_get_bind fun c hc => ?_
    subst hc
    refine tells_after (confined_note trivial) fun _ => ?_
    refine tells_bind (Controller.command_tells _) fun _ => tells_bind (Controller.command_tells _) fun _ => ?_
    exact formatConverters_tells rest

theorem tells_onController {α : Type} {config : Config} {l : List (BitVec 32)} {x : Procedure Controller α}
    (hx : Tells Controller.config config l x) :
    Tells (fun t : Controller × Streams => t.1.config) config l (onController x) := fun n t h ht =>
  ensures_get_bind.2 (ensures_on.2 ((hx n t.1 h ht).mono (fun _ _ _ => id) (fun _ _ _ => id) (fun _ => id) fun _ => id))

/-! ### Programming -/

section
variable {ω : Type} {W : World Call Call.Answer ω} {n : Nat} {w : ω} {topology : Topology} {waveform : Array Byte}

/-- There are fifteen input engines at most, and as many output engines after them. -/
theorem allocate_low {c : Controller} {h : History} :
    Ensures recording n Streams.allocate c h (.ifDone fun s _ _ => ∀ e ∈ s.output, e.descriptor < 30) :=
  allocate_laidOut.ifDone fun _ _ _ ⟨_, _, _, hlaid⟩ _ he => hlaid.output_lt he

theorem session_low {c : Controller} {h : History} {deeds : List Deed} :
    Ensures recording n (session deeds) c h (.ifDone fun t _ _ => ∀ e ∈ t.2.output, e.descriptor < 30) :=
  session_lasting (K := fun s _ => ∀ e ∈ s.output, e.descriptor < 30) (fun _ _ _ => id) allocate_low

/-- Programming comes back with all converters. -/
theorem program_returns {t : Controller × Streams} :
    Ensures W n (program topology waveform) t w (.ifDone fun converters _ _ => converters = topology.audioOutputs) := by
  rw [program_eq]
  refine ensures_get_bind.2 ?_
  dsimp only
  cases t.2.output[t.1.config.outputStream]? with
  | none => exact trivial
  | some e =>
    -- whatever is done before, the converters are what is returned
    iterate 12 refine ensures_anything.ifDoneThen fun _ _ _ _ => ?_
    exact rfl

/-- The calls of programming before the converters are told put no word to a transport. -/
theorem wordless_stream {e : StreamEngine} (hlow : e.descriptor < 30) {w : Width} {o v : BitVec 32} (ho : o.toNat < 0x20) :
    (Call.write w (e.base + o) v).Wordless := by
  have hplace : (e.base + o).toNat = 0x80 + 0x20 * e.descriptor + o.toNat := Register.toNat_stream (by omega) ho
  constructor
  · intro heq
    have hicoi : (e.base + o).toNat = 0x60 := congrArg BitVec.toNat heq
    omega
  · intro heq
    have hcorbwp : (e.base + o).toNat = 0x48 := congrArg BitVec.toNat heq
    omega

theorem program_tells {c : Controller} {s : Streams} {h : History} (hlow : ∀ e ∈ s.output, e.descriptor < 30) :
    Ensures recording n (program topology waveform) (c, s) h
      (telling (fun t => t.1.config) c.config (converterWords c.config topology.audioOutputs) h) := by
  rw [program_eq]
  refine ensures_get_bind.2 ?_
  dsimp only
  cases he : s.output[c.config.outputStream]? with
  | none => exact History.begun_of_sent_eq rfl
  | some e =>
    have hwrite : ∀ {w o v}, o.toNat < 0x20 → Confined Call.Wordless (fun t : Controller × Streams => t.1.config)
        (write w (e.base + o) v) := fun ho => confined_write (wordless_stream (hlow e (List.mem_of_getElem? he)) ho)
    refine tells_after (confined_resetEngine (fun _ _ => trivial) (fun _ => ?_) fun _ => trivial) (fun _ => ?_) n (c, s) h rfl
    · exact wordless_stream (hlow e (List.mem_of_getElem? he)) (by decide)
    refine tells_after (confined_modify fun _ => rfl) fun _ => ?_
    refine tells_after (confined_dropSample fun _ _ => trivial) fun _ => ?_
    refine tells_after (confined_allocateSample (fun _ => trivial) fun _ _ => trivial) fun _ => ?_
    refine tells_after (confined_writePieces (fun _ _ => trivial) fun _ _ => trivial) fun _ => ?_
    refine tells_after (hwrite (by decide)) fun _ => tells_after (hwrite (by decide)) fun _ => ?_
    refine tells_after (confined_bind (hwrite (by decide)) fun _ => hwrite (by decide)) fun _ => ?_
    refine tells_after (hwrite (by decide)) fun _ => tells_after (confined_note trivial) fun _ => ?_
    refine tells_after (confined_modify fun _ => rfl) fun _ => ?_
    rw [← List.append_nil (converterWords _ _)]
    exact tells_bind (tells_onController (formatConverters_tells _)) fun _ => Confined.tells (confined_pure _)

end

/-- How programming can end that is to tell converters the words. -/
def told (converters : List NodeAddr) (words : List (BitVec 32)) (h : History) :
    Outcome (Controller × Streams) (List NodeAddr) History where
  ok r _ h' := r = converters ∧ h'.sent = h.sent ++ words
  error _ _ := History.Begun words h
  misused := History.Begun words h
  stuck := History.Begun words h

/-- **Every converter is given the stream once, and nobody else is**: whatever the codecs answered to the walk that found a
topology, its converters are all the audio outputs there are, each once and in order.  Programming sends each of them in this
order its format and then its stream, and no other word, and comes back with the same list; where it fails, some first of
those words were sent. -/
theorem converters_told_once {ω : Type} (W : World Call Call.Answer ω) (n : Nat) (c : Controller) (w : ω) :
    Ensures W n Topology.walk c w (.ifDone fun topology _ _ => topology.Orderly ∧
      ∀ (n : Nat) (c : Controller) (h : History) (deeds : List Deed), Ensures recording n (session deeds) c h (.ifDone
        fun t _ _ => ∀ (c : Controller) (waveform : Array Byte) (h : History),
          Ensures recording n (program topology waveform) (c, t.2) h
            (told topology.audioOutputs (converterWords c.config topology.audioOutputs) h))) := by
  refine Topology.walk_sorted.ifDone ?_
  intro topology _ _ hsorted
  refine ⟨hsorted.orderly, fun n c h deeds => session_low.ifDone ?_⟩
  intro t _ _ hlow c waveform h
  exact (program_returns.and (program_tells hlow)).mono (fun _ _ _ hh => ⟨hh.1, hh.2.2⟩) (fun _ _ _ => And.right)
    (fun _ => And.right) fun _ => And.right

end Streams
end AudioBringup
