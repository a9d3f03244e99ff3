import Mathlib.Data.List.Forall2
import AudioBringup.Proofs.WalkBounds
/-!
# Proofs.Tours — what a walk sends, what it is answered, and what it makes of that

Codecs may answer the same question differently each time.  The letters of a tour (`Topology.Toured`) are those of its
visits: a node whose vendor timed out is passed over; every other node is read with all that was answered, told what it
needs, and its children are next.  So every letter of a tour has a ground in those before it (`Grounded`), and all that is
found was read (`Topology.Toured.readIn`).
-/
namespace AudioBringup

/-! ### Letters -/

/-- A word that was sent, and the response to it, if the exchange came back with one. -/
structure Letter where
  word : BitVec 32
  response : Option (BitVec 32)
  deriving DecidableEq

namespace Letter

/-- The word is a command, and there was a response. -/
def Carries (cmd : Command) (letter : Letter) : Prop := ∃ response, letter = ⟨cmd.encode, some response⟩

/-- What was written by the time that not all of it had been: some of the letters, the last one perhaps without its
response. -/
inductive Begins (whole : List Letter) : List Letter → Prop
  | cut {l : List Letter} (first : l <+: whole) : Begins whole l
  | unanswered {before : List Letter} {letter : Letter} (first : before ++ [letter] <+: whole) :
    Begins whole (before ++ [⟨letter.word, none⟩])

variable {whole more l : List Letter}

theorem begins_nil : Begins whole [] := .cut List.nil_prefix

theorem begins_unanswered {word response : BitVec 32} : Begins [⟨word, some response⟩] [⟨word, none⟩] := by
  have h : Begins ([] ++ [⟨word, some response⟩]) ([] ++ [⟨Letter.word ⟨word, some response⟩, none⟩]) :=
    .unanswered List.prefix_rfl
  exact h

theorem Begins.append (h : Begins whole l) (more : List Letter) : Begins (whole ++ more) l := by
  cases h with
  | cut first => exact .cut (first.trans (List.prefix_append _ _))
  | unanswered first => exact .unanswered (first.trans (List.prefix_append _ _))

theorem Begins.after (h : Begins whole l) (before : List Letter) : Begins (before ++ whole) (before ++ l) := by
  cases h with
  | cut first => exact .cut ((List.prefix_append_right_inj before).2 first)
  | unanswered first =>
    rw [← List.append_assoc]
    apply Begins.unanswered
    rw [List.append_assoc]
    exact (List.prefix_append_right_inj before).2 first

end Letter

namespace Node

/-- What a node has for a parameter. -/
def value (node : Node) : Parameter → BitVec 32
  | .vendorId => node.vendorId
  | .revisionId => node.revisionId
  | .subordinateNodeCount => node.nodeCount
  | .functionGroupType => node.functionGroupType
  | .audioGroupCaps => node.audioGroupCaps
  | .audioWidgetCaps => node.audioWidgetCaps
  | .supportedPcmRates => node.supportedPcmRates
  | .supportedFormats => node.supportedFormats
  | .pinCaps => node.pinCaps
  | .inputAmpCaps => node.inputAmpCaps
  | .connListLength => node.connListLength
  | .supportedPowerStates => node.supportedPowerStates
  | .processingCaps => node.processingCaps
  | .gpioCount => node.gpioCount
  | .outputAmpCaps => node.outputAmpCaps
  | .volumeKnobCaps => node.volumeKnobCaps

/-- The letters that read a node: the question for each parameter, answered by what the node has for it. -/
def reading (addr : NodeAddr) (node : Node) : List Letter :=
  Parameter.all.map fun p => ⟨(Command.getParameter addr.codec addr.node p).encode, some (node.value p)⟩

end Node

/-! ### Tours -/

namespace Codec

/-- The letters of one visit: a question for the vendor that timed out, or all of a node and what it was told. -/
def Visited (codec id : BitVec 8) : Option Node → List Letter → Prop
  | none, l => l = [⟨Replies.vendorWord codec id, some Response.timedOut⟩]
  | some node, l => node.vendorId ≠ Response.timedOut ∧
    ∃ told, List.Forall₂ Letter.Carries (node.bringUp ⟨codec, id⟩) told ∧ l = node.reading ⟨codec, id⟩ ++ told

/-- **The tour below a root**: the letters of the visits to `pending` and to the children of every node that is read, those
before the rest of `pending`, and the nodes in the order in which they are found. -/
inductive TouredBelow (codec : BitVec 8) : (pending : List (BitVec 8)) → List Letter → List (BitVec 8 × Node) → Prop
  | done : TouredBelow codec [] [] []
  | skip {id : BitVec 8} {pending : List (BitVec 8)} {here rest : List Letter} {found : List (BitVec 8 × Node)}
    (visit : Visited codec id none here) (others : TouredBelow codec pending rest found) :
    TouredBelow codec (id :: pending) (here ++ rest) found
  | read {id : BitVec 8} {node : Node} {pending : List (BitVec 8)} {here rest : List Letter}
    {found : List (BitVec 8 × Node)} (visit : Visited codec id (some node) here)
    (others : TouredBelow codec (node.children ++ pending) rest found) :
    TouredBelow codec (id :: pending) (here ++ rest) ((id, node) :: found)

/-- **The tour of a codec**: nothing but a question where its root has no vendor or does not answer, all of the root and the
tour below it where it does. -/
inductive Toured (address : BitVec 8) : List Letter → Option Codec → Prop
  | absent {response : BitVec 32} (silent : response = Response.absent ∨ response = Response.timedOut) :
    Toured address [⟨Replies.vendorWord address 0, some response⟩] none
  | present {root : Node} {here rest : List Letter} {found : List (BitVec 8 × Node)}
    (vendor : root.vendorId ≠ Response.absent) (visit : Visited address 0 (some root) here)
    (below : TouredBelow address root.children rest found) :
    Toured address (here ++ rest) (some ⟨address, root, found.foldl (fun t e => t.insert e.1 e.2) []⟩)

end Codec

/-- **The tour of the codecs at some addresses**, one after the other, and those that are found. -/
inductive Topology.Toured : (addresses : List (BitVec 8)) → List Letter → List Codec → Prop
  | done : Toured [] [] []
  | codec {address : BitVec 8} {addresses : List (BitVec 8)} {here rest : List Letter} {codec : Option Codec}
    {codecs : List Codec} (first : Codec.Toured address here codec) (others : Toured addresses rest codecs) :
    Toured (address :: addresses) (here ++ rest) (codec.toList ++ codecs)

/-! ### What a letter goes back to -/

/-- Why a word is sent on behalf of a node, given the letters before it: to look for a root or for a child that a node which
was read has named, for another parameter of a node that is there, or to bring up a node as it was read. -/
inductive Ground (before : List Letter) : NodeAddr → BitVec 32 → Prop
  | root {codec : BitVec 8} : Ground before ⟨codec, 0⟩ (Replies.vendorWord codec 0)
  | child {codec id child : BitVec 8} {parent : Node} (read : parent.reading ⟨codec, id⟩ <:+: before)
    (there : parent.vendorId ≠ Response.timedOut) (named : child ∈ parent.children) :
    Ground before ⟨codec, child⟩ (Replies.vendorWord codec child)
  | detail {addr : NodeAddr} {vendorId : BitVec 32} {p : Parameter}
    (asked : ⟨Replies.vendorWord addr.codec addr.node, some vendorId⟩ ∈ before) (there : vendorId ≠ Response.timedOut) :
    Ground before addr (Command.getParameter addr.codec addr.node p).encode
  | told {addr : NodeAddr} {node : Node} {cmd : Command} (read : node.reading addr <:+: before)
    (there : node.vendorId ≠ Response.timedOut) (wanted : cmd ∈ node.bringUp addr) : Ground before addr cmd.encode

/-- Each of the letters `l` has a ground in those before it, the first of which are `base`. -/
def GroundedAfter (addresses : List (BitVec 8)) (base l : List Letter) : Prop :=
  ∀ before letter after, l = before ++ letter :: after →
    ∃ addr : NodeAddr, addr.codec ∈ addresses ∧ Ground (base ++ before) addr letter.word

/-- **Each letter has a ground** in those before it, and is for a codec at one of the addresses. -/
def Grounded (addresses : List (BitVec 8)) (l : List Letter) : Prop := GroundedAfter addresses [] l

section
variable {addresses : List (BitVec 8)} {base l l' : List Letter} {letter : Letter} {addr : NodeAddr} {word : BitVec 32}
  {node : Node}

theorem Ground.mono {base' : List Letter} (hbase : base <:+: base') (h : Ground base addr word) : Ground base' addr word := by
  cases h with
  | root => exact .root
  | child read there named => exact .child (read.trans hbase) there named
  | detail asked there => exact .detail (hbase.subset asked) there
  | told read there wanted => exact .told (read.trans hbase) there wanted

theorem GroundedAfter.nil : GroundedAfter addresses base [] := by
  intro before letter after h
  cases before <;> cases h

theorem GroundedAfter.cons (hletter : ∃ addr : NodeAddr, addr.codec ∈ addresses ∧ Ground base addr letter.word)
    (hl : GroundedAfter addresses (base ++ [letter]) l) : GroundedAfter addresses base (letter :: l) := by
  intro before letter' after h
  cases before with
  | nil =>
    cases h
    rwa [List.append_nil]
  | cons first before =>
    cases h
    have hground := hl before letter' after rfl
    rwa [List.append_assoc] at hground

theorem GroundedAfter.append : ∀ {l base}, GroundedAfter addresses base l → GroundedAfter addresses (base ++ l) l' →
    GroundedAfter addresses base (l ++ l')
  | [], base, _, hl' => by rwa [List.append_nil] at hl'
  | letter :: l, base, hl, hl' => by
    have hletter := hl [] letter l rfl
    rw [List.append_nil] at hletter
    apply GroundedAfter.cons hletter
    apply GroundedAfter.append
    · intro before letter' after h
      rw [List.append_assoc]
      exact hl (letter :: before) letter' after (congrArg (letter :: ·) h)
    · rwa [List.append_assoc]

/-- What was written by the time that not all of it had been has the same grounds. -/
theorem GroundedAfter.begins (h : GroundedAfter addresses base l) (hbegins : Letter.Begins l l') :
    GroundedAfter addresses base l' := by
  have hcut : ∀ {l'}, l' <+: l → GroundedAfter addresses base l' := by
    rintro l' ⟨rest, rfl⟩ before letter after rfl
    exact h before letter (after ++ rest) (by rw [List.append_assoc, List.cons_append])
  cases hbegins with
  | cut first => exact hcut first
  | @unanswered before letter first =>
    -- a ground is about the word alone, so it does not matter that the response is missing
    apply GroundedAfter.append
    · exact hcut ((List.prefix_append before [letter]).trans first)
    · refine GroundedAfter.cons ?_ .nil
      exact hcut first before letter [] rfl

theorem groundedAfter_details (addr : NodeAddr) {vendorId : BitVec 32} (hcodec : addr.codec ∈ addresses)
    (there : vendorId ≠ Response.timedOut) : ∀ {parameters : List Parameter} {base},
    ⟨Replies.vendorWord addr.codec addr.node, some vendorId⟩ ∈ base → GroundedAfter addresses base
      (parameters.map fun p => ⟨(Command.getParameter addr.codec addr.node p).encode, some (node.value p)⟩)
  | [], _, _ => .nil
  | _ :: _, _, asked => .cons ⟨addr, hcodec, .detail asked there⟩
    (groundedAfter_details addr hcodec there (List.mem_append_left _ asked))

theorem groundedAfter_told (addr : NodeAddr) (hcodec : addr.codec ∈ addresses) (there : node.vendorId ≠ Response.timedOut) :
    ∀ {cmds : List Command} {told base}, List.Forall₂ Letter.Carries cmds told → (∀ cmd ∈ cmds, cmd ∈ node.bringUp addr) →
      node.reading addr <:+: base → GroundedAfter addresses base told
  | [], _, _, .nil, _, _ => .nil
  | cmd :: cmds, _, _, .cons hcmd htold, hwanted, hread => by
    obtain ⟨response, rfl⟩ := hcmd
    obtain ⟨hfirst, hwanted⟩ := List.forall_mem_cons.1 hwanted
    apply GroundedAfter.cons ⟨addr, hcodec, .told hread there hfirst⟩
    exact groundedAfter_told addr hcodec there htold hwanted (hread.trans (List.prefix_append _ _).isInfix)

/-- A visit has grounds if there are any to look for its node. -/
theorem groundedAfter_visited {codec id : BitVec 8} (hcodec : codec ∈ addresses)
    (hlook : Ground base ⟨codec, id⟩ (Replies.vendorWord codec id)) : ∀ {node}, Codec.Visited codec id node l →
    GroundedAfter addresses base l
  | none, h => by
    rw [h]
    exact .cons ⟨_, hcodec, hlook⟩ .nil
  | some node, ⟨there, told, htold, h⟩ => by
    rw [h]
    have hread : GroundedAfter addresses base (node.reading ⟨codec, id⟩) := by
      apply GroundedAfter.cons ⟨_, hcodec, hlook⟩
      exact groundedAfter_details ⟨codec, id⟩ hcodec there (List.mem_append_right base List.mem_cons_self)
    apply hread.append
    exact groundedAfter_told ⟨codec, id⟩ hcodec there htold (fun _ h => h) (List.suffix_append base _).isInfix

/-- **Every letter of a tour below a root has a ground**, if there is one to look for each id that is pending. -/
theorem Codec.TouredBelow.grounded {codec : BitVec 8} (hcodec : codec ∈ addresses) {pending : List (BitVec 8)}
    {found : List (BitVec 8 × Node)} (h : TouredBelow codec pending l found) : ∀ {base},
    (∀ id ∈ pending, Ground base ⟨codec, id⟩ (Replies.vendorWord codec id)) → GroundedAfter addresses base l := by
  induction h with
  | done => exact fun _ => .nil
  | @skip id pending here rest found visit others ih =>
    intro base hlook
    obtain ⟨hid, hpending⟩ := List.forall_mem_cons.1 hlook
    apply (groundedAfter_visited hcodec hid visit).append
    exact ih fun id hmem => (hpending id hmem).mono (List.prefix_append base here).isInfix
  | @read id node pending here rest found visit others ih =>
    intro base hlook
    obtain ⟨hid, hpending⟩ := List.forall_mem_cons.1 hlook
    apply (groundedAfter_visited hcodec hid visit).append
    obtain ⟨there, told, htold, rfl⟩ := visit
    apply ih
    -- the children have their ground in what was just read, the rest has the one it had
    intro child hmem
    rcases List.mem_append.1 hmem with hnamed | hmem
    · exact .child (List.infix_append' base _ told) there hnamed
    · exact (hpending child hmem).mono (List.prefix_append base _).isInfix

theorem Codec.Toured.grounded {address : BitVec 8} {codec : Option Codec} (hcodec : address ∈ addresses)
    (h : Toured address l codec) : GroundedAfter addresses base l := by
  cases h with
  | absent silent => exact .cons ⟨_, hcodec, .root⟩ .nil
  | @present root here rest found vendor visit below =>
    apply (groundedAfter_visited hcodec .root visit).append
    obtain ⟨there, told, htold, rfl⟩ := visit
    exact below.grounded hcodec fun child hnamed => .child (List.infix_append' base _ told) there hnamed

theorem Topology.Toured.groundedAfter {codecs : List Codec} {toured : List (BitVec 8)} (h : Toured toured l codecs) :
    ∀ {base}, (∀ address ∈ toured, address ∈ addresses) → GroundedAfter addresses base l := by
  induction h with
  | done => exact fun _ => .nil
  | codec first others ih =>
    intro base hall
    obtain ⟨hfirst, hall⟩ := List.forall_mem_cons.1 hall
    exact (first.grounded hfirst).append (ih hall)

theorem Topology.Toured.grounded {codecs : List Codec} (h : Toured addresses l codecs) : Grounded addresses l :=
  h.groundedAfter fun _ => id

end

/-! ### What is found -/

section
variable {codec : BitVec 8} {pending : List (BitVec 8)} {found : List (BitVec 8 × Node)} {l : List Letter}

/-- The node was read, and is there. -/
def Node.ReadIn (l : List Letter) (addr : NodeAddr) (node : Node) : Prop :=
  node.reading addr <:+: l ∧ node.vendorId ≠ Response.timedOut

theorem Node.ReadIn.mono {addr : NodeAddr} {node : Node} {l' : List Letter} (h : node.ReadIn l addr) (hl : l <:+: l') :
    node.ReadIn l' addr := ⟨h.1.trans hl, h.2⟩

theorem Codec.Visited.readIn {id : BitVec 8} {node : Node} (h : Visited codec id (some node) l) :
    node.ReadIn l ⟨codec, id⟩ := by
  obtain ⟨there, told, -, rfl⟩ := h
  exact ⟨(List.prefix_append _ told).isInfix, there⟩

theorem Codec.TouredBelow.readIn (h : TouredBelow codec pending l found) : ∀ e ∈ found, e.2.ReadIn l ⟨codec, e.1⟩ := by
  induction h with
  | done => exact nofun
  | @skip id pending here rest found visit others ih =>
    exact fun e he => (ih e he).mono (List.suffix_append here rest).isInfix
  | @read id node pending here rest found visit others ih =>
    intro e he
    rcases List.mem_cons.1 he with rfl | he
    · exact visit.readIn.mono (List.prefix_append here rest).isInfix
    · exact (ih e he).mono (List.suffix_append here rest).isInfix

/-- What is in a table was there before or was put into it. -/
theorem NodeTable.mem_foldl_insert {e : BitVec 8 × Node} : ∀ {found : List (BitVec 8 × Node)} {t : NodeTable},
    e ∈ found.foldl (fun t e => t.insert e.1 e.2) t → e ∈ t ∨ e ∈ found
  | [], _, h => .inl h
  | first :: found, t, h => by
    rw [List.foldl_cons] at h
    rcases mem_foldl_insert h with h | h
    · rcases mem_insert h with rfl | h
      · exact .inr List.mem_cons_self
      · exact .inl h
    · exact .inr (List.mem_cons_of_mem first h)

/-- **All that is found was read**, where it is found. -/
theorem Topology.Toured.readIn {addresses : List (BitVec 8)} {codecs : List Codec} (h : Toured addresses l codecs) :
    ∀ codec ∈ codecs, codec.address ∈ addresses ∧ codec.root.ReadIn l ⟨codec.address, 0⟩ ∧
      ∀ e ∈ codec.nodes, e.2.ReadIn l ⟨codec.address, e.1⟩ := by
  induction h with
  | done => exact nofun
  | @codec address addresses here rest codec codecs first others ih =>
    intro found hfound
    rcases List.mem_append.1 hfound with hfound | hfound
    · cases first with
      | absent silent => cases hfound
      | @present root visited below found vendor visit tour =>
        cases List.mem_singleton.1 hfound
        have hroot : visited <:+: visited ++ below ++ rest := by
          rw [List.append_assoc]
          exact (List.prefix_append visited _).isInfix
        refine ⟨List.mem_cons_self, visit.readIn.mono hroot, fun e he => ?_⟩
        rcases NodeTable.mem_foldl_insert he with he | he
        · cases he
        · exact (tour.readIn e he).mono (List.infix_append visited below rest)
    · obtain ⟨haddress, hroot, hnodes⟩ := ih found hfound
      have hrest : rest <:+: here ++ rest := (List.suffix_append here rest).isInfix
      exact ⟨List.mem_cons_of_mem address haddress, hroot.mono hrest, fun e he => (hnodes e he).mono hrest⟩

end

end AudioBringup
