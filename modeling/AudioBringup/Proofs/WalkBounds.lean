import AudioBringup.Proofs.Channel
import AudioBringup.Proofs.Survey
/-!
# Proofs.WalkBounds — a walk ends, whatever it is answered

Hardware may answer the same question differently each time, and name children in circles.  A visit sends few words, all of
them to its own node (`visit_speaks`), and each takes one from the allowance, so the walk below a root goes on for so many
visits at most (`walkBelow_speaks`).  Across all codecs this bounds what is sent to each address and what is found there
(`walk_bounded`).
-/
namespace AudioBringup

open Procedure

/-! ### What was sent -/

namespace Command

/-- The verb and the payload of a word. -/
def contentOf (word : BitVec 32) : BitVec 20 := word.extractLsb' 0 20

theorem contentOf_encode (cmd : Command) : contentOf cmd.encode =
    match cmd.verb with
    | .short id => id ++ cmd.payload.setWidth 8
    | .long id => id ++ cmd.payload := by
  have happend : ∀ (a : BitVec 12) (b : BitVec 20), contentOf (a ++ b) = b := by
    intro a b
    apply BitVec.eq_of_getLsbD_eq
    intro i hi
    simp only [contentOf, BitVec.getLsbD_extractLsb', BitVec.getLsbD_append, hi, decide_true, Bool.true_and]
    rw [if_pos (by omega), Nat.zero_add]
  exact happend _ _

/-- A word asks for the vendor, as the first word of every visit does. -/
def AsksVendor (word : BitVec 32) : Prop := contentOf word = 0xf0000#20

/-- No other parameter is asked for like that. -/
theorem not_asksVendor_getParameter {codec node : BitVec 8} {p : Parameter} (hp : p ≠ .vendorId) :
    ¬AsksVendor (getParameter codec node p).encode := by
  rw [AsksVendor, contentOf_encode]
  cases p <;> first | exact absurd rfl hp | (dsimp only [getParameter, Verb.getParameter, Parameter.code]; decide)

theorem not_asksVendor_power {codec node : BitVec 8} :
    ¬AsksVendor (encode ⟨codec, node, .setPowerState, PowerState.d0.code⟩) := by
  rw [AsksVendor, contentOf_encode]
  exact (by decide : ¬(0x705#12 ++ (0#16).setWidth 8 : BitVec 20) = 0xf0000#20)

theorem not_asksVendor_gain {codec node : BitVec 8} {payload : BitVec 16} :
    ¬AsksVendor (encode ⟨codec, node, .setAmpGainMute, payload⟩) := by
  rw [AsksVendor, contentOf_encode]
  intro h
  have htop : (0x3#4 ++ payload : BitVec 20).getLsbD 19 = true := congrArg (·.getLsbD 19) h
  rw [BitVec.getLsbD_append, if_neg (by decide)] at htop
  exact absurd htop (by decide)

end Command

/-- At most so many words, all of them to one node. -/
def SentTo (codec id : BitVec 8) (most : Nat) (words : List (BitVec 32)) : Prop :=
  words.length ≤ most ∧ ∀ word ∈ words, ∃ cmd : Command, cmd.codec = codec ∧ cmd.node = id ∧ word = cmd.encode

/-- One visit, and the words it sent. -/
structure Visit where
  id : BitVec 8
  words : List (BitVec 32)

/-- The most words of a visit: a question for every parameter, and three commands to bring the node up. -/
def Visit.most : Nat := 19

/-- A visit asks for the vendor first and not again, and stays with its node. -/
structure Visit.Modest (codec : BitVec 8) (v : Visit) : Prop where
  asks : ∃ rest, v.words = Replies.vendorWord codec v.id :: rest ∧ ∀ word ∈ rest, ¬Command.AsksVendor word
  sent : SentTo codec v.id Visit.most v.words

/-- What was sent to one codec: to its root first, and on each visit below it after that. -/
structure Inquiry where
  address : BitVec 8
  root : List (BitVec 32)
  visits : List Visit := []

namespace Inquiry

/-- Every word of an inquiry. -/
def words (q : Inquiry) : List (BitVec 32) := q.root ++ q.visits.flatMap (·.words)

/-- A visit of the root and so many below it at most, all of them to the inquiry's codec. -/
structure Modest (most : Nat) (q : Inquiry) : Prop where
  root : Visit.Modest q.address ⟨0, q.root⟩
  visits : ∀ v ∈ q.visits, v.Modest q.address
  few : q.visits.length ≤ most

end Inquiry

/-- **What a walk sends**: one modest inquiry after the other, the last one perhaps cut short, to codecs that reported in,
and none of them twice. -/
structure Bounded (c : Controller) (words : List (BitVec 32)) : Prop where
  inquiries : ∃ inquiries : List Inquiry, words <+: inquiries.flatMap (·.words) ∧
    inquiries.map (·.address) <+: c.codecAddresses ∧ ∀ q ∈ inquiries, q.Modest c.config.maxWalkVisits
  few : ∀ codec, words.countP (Link.target · = codec) ≤ Visit.most * (1 + c.config.maxWalkVisits)
  present : ∀ word ∈ words, c.presentCodecs.getLsbD (Link.target word).toNat = true

/-- So many words at most to one node, none of which asks for its vendor. -/
def Details (codec id : BitVec 8) (most : Nat) (words : List (BitVec 32)) : Prop :=
  SentTo codec id most words ∧ ∀ word ∈ words, ¬Command.AsksVendor word

section
variable {codec id : BitVec 8} {j k : Nat} {l l' : List (BitVec 32)}

theorem SentTo.append (h : SentTo codec id j l) (h' : SentTo codec id k l') : SentTo codec id (j + k) (l ++ l') :=
  ⟨by rw [List.length_append]; exact Nat.add_le_add h.1 h'.1, List.forall_mem_append.2 ⟨h.2, h'.2⟩⟩

theorem SentTo.single (cmd : Command) : SentTo cmd.codec cmd.node 1 [cmd.encode] :=
  ⟨Nat.le_refl 1, List.forall_mem_singleton.2 ⟨cmd, rfl, rfl, rfl⟩⟩

theorem SentTo.target (h : SentTo codec id k l) : ∀ word ∈ l, Link.target word = codec.setWidth 4 := by
  intro word hword
  obtain ⟨cmd, rfl, -, rfl⟩ := h.2 word hword
  exact Link.target_encode cmd

theorem Details.nil : Details codec id k [] := ⟨⟨Nat.zero_le _, nofun⟩, nofun⟩

theorem Details.mono (h : Details codec id j l) (hjk : j ≤ k) : Details codec id k l :=
  ⟨⟨Nat.le_trans h.1.1 hjk, h.1.2⟩, h.2⟩

theorem Details.append (h : Details codec id j l) (h' : Details codec id k l') : Details codec id (j + k) (l ++ l') :=
  ⟨h.1.append h'.1, List.forall_mem_append.2 ⟨h.2, h'.2⟩⟩

/-- The question for the vendor and some details make a visit. -/
theorem modest_of_details (h : Details codec id 18 l) : Visit.Modest codec ⟨id, [Replies.vendorWord codec id] ++ l⟩ :=
  ⟨⟨l, rfl, h.2⟩, (SentTo.single (.getParameter codec id .vendorId)).append h.1⟩

theorem modest_of_told (h : Details codec id 15 l) (h' : Details codec id 3 l') :
    Visit.Modest codec ⟨id, [Replies.vendorWord codec id] ++ l ++ l'⟩ := by
  rw [List.append_assoc]
  exact modest_of_details (h.append h')

theorem modest_vendor : Visit.Modest codec ⟨id, [Replies.vendorWord codec id]⟩ := modest_of_details .nil

end

/-! ### What was found -/

namespace NodeTable

/-- The ids of a table ascend, so that there is one node at most for each. -/
def Ascends (t : NodeTable) : Prop := List.Pairwise (·.1 < ·.1) t

theorem length_insert_le (id : BitVec 8) (node : Node) : ∀ t : NodeTable, (insert id node t).length ≤ t.length + 1
  | [] => Nat.le_refl 1
  | entry :: rest => by
    have hrest := length_insert_le id node rest
    unfold insert
    split
    · exact Nat.le_refl _
    · split
      · exact Nat.le_succ _
      · exact Nat.succ_le_succ hrest

theorem mem_insert {id : BitVec 8} {node : Node} {entry : BitVec 8 × Node} : ∀ {t : NodeTable},
    entry ∈ insert id node t → entry = (id, node) ∨ entry ∈ t
  | [], h => .inl (List.mem_singleton.1 h)
  | first :: rest, h => by
    unfold insert at h
    split at h
    · exact List.mem_cons.1 h
    · split at h
      · exact (List.mem_cons.1 h).imp_right (List.mem_cons_of_mem _)
      · rcases List.mem_cons.1 h with rfl | h
        · exact .inr List.mem_cons_self
        · exact (mem_insert h).imp_right (List.mem_cons_of_mem _)

theorem Ascends.insert (id : BitVec 8) (node : Node) : ∀ {t : NodeTable}, t.Ascends → (t.insert id node).Ascends
  | [], _ => List.pairwise_singleton _ _
  | first :: rest, h => by
    obtain ⟨hfirst, hrest⟩ := List.pairwise_cons.1 h
    unfold NodeTable.insert
    split
    · rename_i hlt
      exact List.pairwise_cons.2 ⟨List.forall_mem_cons.2 ⟨hlt, fun e he => BitVec.lt_trans hlt (hfirst e he)⟩, h⟩
    · split
      · rename_i heq
        exact List.pairwise_cons.2 ⟨fun e he => heq ▸ hfirst e he, hrest⟩
      · rename_i hnlt hne
        refine List.pairwise_cons.2 ⟨fun e he => ?_, Ascends.insert id node hrest⟩
        rcases mem_insert he with rfl | he
        · bv_omega
        · exact hfirst e he

/-- There are no more ids than bytes. -/
theorem Ascends.length_le {t : NodeTable} (h : t.Ascends) : t.length ≤ 256 := by
  have habove : ∀ {t : NodeTable} {least : Nat}, t.Ascends → least ≤ 256 → (∀ e ∈ t, least ≤ e.1.toNat) →
      t.length + least ≤ 256 := by
    intro t
    induction t with
    | nil => exact fun _ hleast _ => by rwa [List.length_nil, Nat.zero_add]
    | cons first rest ih =>
      intro least h _ hall
      obtain ⟨hfirst, hrest⟩ := List.pairwise_cons.1 h
      have hrest := ih hrest first.1.isLt fun e he => BitVec.lt_def.1 (hfirst e he)
      have hleast := hall first List.mem_cons_self
      rw [List.length_cons]
      omega
  exact habove h (Nat.zero_le 256) fun _ _ => Nat.zero_le _

end NodeTable

/-! ### Hardware that answers anything -/

/-- A transport in a world: every exchange returns, with whatever response, or with a failure before or after its word was
sent. -/
structure Listener {ω : Type} (W : World Call Call.Answer ω) (patience : Nat) where
  Ready : Transport → ω → Prop
  /-- every word that was sent so far -/
  heard : ω → List (BitVec 32)
  exchange : ∀ {t w} (word : BitVec 32), Ready t w → Procedure.Ensures W patience (Transport.exchange word) t w
    ⟨fun _ t' w' => Ready t' w' ∧ heard w' = heard w ++ [word],
      fun _ t' w' => Ready t' w' ∧ ∃ sent, sent <+: [word] ∧ heard w' = heard w ++ sent, fun _ => False, fun _ => False⟩
  note : ∀ {t w m w'}, Ready t w → W (.note m) w () w' → Ready t w' ∧ heard w' = heard w

namespace Listener

variable {ω α β : Type} {W : World Call Call.Answer ω} {n : Nat} {L : Listener W n} {c₀ : Controller}
  {D : α → List (BitVec 32) → Prop} {F : β → List (BitVec 32) → Prop} {E E' : List (BitVec 32) → Prop}

/-- The controller is as it was but for its transport, which is ready, and `words` have been heard. -/
def At (L : Listener W n) (c₀ : Controller) (words : List (BitVec 32)) (c : Controller) (w : ω) : Prop :=
  ∃ t, c = { c₀ with transport := some t } ∧ L.Ready t w ∧ L.heard w = words

/-- The outcome of going on from `base` to a result and words that are `D`, or to a failure and the first of words that
are `E`. -/
def spoken (L : Listener W n) (c₀ : Controller) (base : List (BitVec 32)) (D : α → List (BitVec 32) → Prop)
    (E : List (BitVec 32) → Prop) : Outcome Controller α ω where
  ok a c w := ∃ said, D a said ∧ L.At c₀ (base ++ said) c w
  error _ c w := ∃ said tried, said <+: tried ∧ E tried ∧ L.At c₀ (base ++ said) c w
  misused _ := False
  stuck _ := False

/-- A procedure comes to an end, and what it sends makes `said` something that is `D` with its result, or `E` if it fails. -/
def Speaks (L : Listener W n) (c₀ : Controller) (said : List (BitVec 32)) (D : α → List (BitVec 32) → Prop)
    (E : List (BitVec 32) → Prop) (x : Procedure Controller α) : Prop :=
  ∀ base c w, L.At c₀ (base ++ said) c w → Ensures W n x c w (L.spoken c₀ base D E)

variable {x : Procedure Controller α} {f : α → Procedure Controller β} {said : List (BitVec 32)}

theorem Speaks.mono {D' : α → List (BitVec 32) → Prop} (hx : L.Speaks c₀ said D' E' x) (hD : ∀ a l, D' a l → D a l)
    (hE : ∀ l, E' l → E l) : L.Speaks c₀ said D E x := fun base c w h =>
  (hx base c w h).mono (fun a _ _ ⟨l, hl, h⟩ => ⟨l, hD a l hl, h⟩) (fun _ _ _ ⟨l, tried, hle, hl, h⟩ =>
    ⟨l, tried, hle, hE tried hl, h⟩) (fun _ => id) fun _ => id

/-- What is sent does not depend on what was sent before. -/
theorem Speaks.after (hx : L.Speaks c₀ [] D E x) : L.Speaks c₀ said (fun a l => ∃ more, l = said ++ more ∧ D a more)
    (fun l => ∃ more, l = said ++ more ∧ E more) x := fun base c w h => by
  refine (hx (base ++ said) c w (by rwa [List.append_nil])).mono ?_ ?_ (fun _ => id) fun _ => id
  · rintro a c w ⟨more, hmore, h⟩
    exact ⟨said ++ more, ⟨more, rfl, hmore⟩, by rwa [← List.append_assoc]⟩
  · rintro e c w ⟨more, tried, hle, htried, h⟩
    exact ⟨said ++ more, said ++ tried, (List.prefix_append_right_inj said).2 hle, ⟨tried, rfl, htried⟩,
      by rwa [← List.append_assoc]⟩

theorem speaks_pure {a : α} (hD : D a said) : L.Speaks c₀ said D E (pure a : Procedure Controller α) := fun _ _ _ h =>
  ⟨said, hD, h⟩

theorem speaks_fail {e : Error} (hE : E said) : L.Speaks c₀ said D E (fail e : Procedure Controller α) := fun _ _ _ h =>
  ⟨said, said, List.prefix_rfl, hE, h⟩

theorem speaks_bind (hx : L.Speaks c₀ said D E' x) (hf : ∀ a l, D a l → L.Speaks c₀ l F E (f a)) (hE : ∀ l, E' l → E l) :
    L.Speaks c₀ said F E (x >>= f) := fun base c w h =>
  ensures_bind.2 ((hx base c w h).mono (fun a c w ⟨l, hl, h⟩ => hf a l hl base c w h) (fun _ _ _ ⟨l, tried, hle, hl, h⟩ =>
    ⟨l, tried, hle, hE tried hl, h⟩) (fun _ => id) fun _ => id)

theorem speaks_ite {p : Prop} [Decidable p] {y : Procedure Controller α} (hx : L.Speaks c₀ said D E x)
    (hy : L.Speaks c₀ said D E y) : L.Speaks c₀ said D E (if p then x else y) := by
  by_cases hp : p
  · rw [if_pos hp]
    exact hx
  · rw [if_neg hp]
    exact hy

theorem speaks_get_bind {f : Controller → Procedure Controller β}
    (hf : ∀ t, L.Speaks c₀ said F E (f { c₀ with transport := some t })) : L.Speaks c₀ said F E (Procedure.get >>= f) := by
  rintro base _ w ⟨t, rfl, h⟩
  exact ensures_get_bind.2 (hf t base _ w ⟨t, rfl, h⟩)

theorem speaks_note_bind {m : Notice} {y : Procedure Controller α} (hy : L.Speaks c₀ said D E y) :
    L.Speaks c₀ said D E (do Procedure.note m; y) := by
  rintro base _ w ⟨t, rfl, hready, hheard⟩
  refine ensures_bind.2 (ensures_note.2 fun w' hw => ?_)
  obtain ⟨hready, hheard'⟩ := L.note hready hw
  exact hy base _ w' ⟨t, rfl, hready, hheard'.trans hheard⟩

theorem speaks_command (cmd : Command) :
    L.Speaks c₀ said (fun _ l => l = said ++ [cmd.encode]) (· = said ++ [cmd.encode]) (Controller.command cmd) := by
  have hsent : ∀ {base t w}, L.Ready t w → L.heard w = base ++ said → Ensures W n (on t (fun t (c : Controller) =>
      { c with transport := some t }) (Transport.exchange cmd.encode)) { c₀ with transport := some t } w
      (L.spoken c₀ base (fun _ l => l = said ++ [cmd.encode]) (· = said ++ [cmd.encode])) := fun {base t w} hready hheard => by
    refine ensures_on.2 ((L.exchange cmd.encode hready).mono ?_ ?_ (fun _ => id) fun _ => id)
    · rintro _ t' w' ⟨hready', hheard'⟩
      exact ⟨_, rfl, t', rfl, hready', by rw [hheard', hheard, List.append_assoc]⟩
    · rintro _ t' w' ⟨hready', sent, hsent, hheard'⟩
      exact ⟨said ++ sent, _, (List.prefix_append_right_inj said).2 hsent, rfl, t', rfl, hready',
        by rw [hheard', hheard, List.append_assoc]⟩
  rintro base _ w ⟨t, rfl, hready, hheard⟩
  refine ensures_bind.2 (ensures_get.2 ?_)
  change Ensures W n (if cmd.indirect then (do
      Procedure.note (.indirectNode cmd.node cmd.codec)
      on t (fun t (c : Controller) => { c with transport := some t }) (Transport.exchange cmd.encode))
    else on t (fun t (c : Controller) => { c with transport := some t }) (Transport.exchange cmd.encode)) _ _ _
  split
  · refine ensures_bind.2 (ensures_note.2 fun w' hw => ?_)
    obtain ⟨hready, hheard'⟩ := L.note hready hw
    exact hsent hready (hheard'.trans hheard)
  · exact hsent hready hheard

/-! ### One visit -/

/-- A procedure sends so many words at most, all of them details of one node. -/
def Talks (L : Listener W n) (c₀ : Controller) (codec id : BitVec 8) (most : Nat) (x : Procedure Controller α) : Prop :=
  L.Speaks c₀ [] (fun _ => Details codec id most) (Details codec id most) x

variable {codec id : BitVec 8} {k : Nat}

theorem talks_command_bind {cmd : Command} {f : BitVec 32 → Procedure Controller α} (hcodec : cmd.codec = codec)
    (hid : cmd.node = id) (hdetail : ¬Command.AsksVendor cmd.encode) (hf : ∀ a, L.Talks c₀ codec id k (f a)) :
    L.Talks c₀ codec id (k + 1) (Controller.command cmd >>= f) := by
  subst hcodec hid
  have hcmd : Details cmd.codec cmd.node 1 [cmd.encode] := ⟨SentTo.single cmd, List.forall_mem_singleton.2 hdetail⟩
  have happend : ∀ l, (∃ more, l = [cmd.encode] ++ more ∧ Details cmd.codec cmd.node k more) →
      Details cmd.codec cmd.node (k + 1) l := by
    rintro _ ⟨more, rfl, hmore⟩
    exact Nat.add_comm 1 k ▸ hcmd.append hmore
  refine speaks_bind (speaks_command cmd) ?_ ?_
  · rintro a _ rfl
    exact (Speaks.after (hf a)).mono (fun _ => happend) happend
  · rintro _ rfl
    exact hcmd.mono (Nat.le_add_left 1 k)

/-- A command that is announced and sent only where it is wanted, and nothing made of its answer. -/
theorem talks_sendIf {wanted : Bool} {m : Notice} {cmd : Command} {rest : Procedure Controller Unit}
    (hcodec : cmd.codec = codec) (hid : cmd.node = id) (hdetail : ¬Command.AsksVendor cmd.encode)
    (hrest : L.Talks c₀ codec id k rest) : L.Talks c₀ codec id (k + 1) (if wanted then (do
      Procedure.note m
      let _ ← Controller.command cmd
      rest) else rest) := by
  have hmore : ∀ l, Details codec id k l → Details codec id (k + 1) l := fun _ h => h.mono (Nat.le_succ k)
  exact speaks_ite (speaks_note_bind (talks_command_bind hcodec hid hdetail fun _ => hrest))
    (Speaks.mono hrest (fun _ => hmore) hmore)

theorem read_talks (codec id : BitVec 8) (vendorId : BitVec 32) :
    L.Talks c₀ codec id 15 (Node.read ⟨codec, id⟩ vendorId) := by
  unfold Node.read
  iterate 15 refine talks_command_bind rfl rfl (Command.not_asksVendor_getParameter nofun) fun _ => ?_
  exact speaks_pure .nil

theorem configure_talks (codec id : BitVec 8) (node : Node) : L.Talks c₀ codec id 3 (Node.configure ⟨codec, id⟩ node) :=
  talks_sendIf rfl rfl Command.not_asksVendor_power (talks_sendIf rfl rfl Command.not_asksVendor_gain
    (talks_sendIf rfl rfl Command.not_asksVendor_gain (speaks_pure .nil)))

theorem visit_speaks (codec id : BitVec 8) : L.Speaks c₀ [] (fun _ l => Visit.Modest codec ⟨id, l⟩)
    (fun l => Visit.Modest codec ⟨id, l⟩) (Codec.visit codec id) := by
  refine speaks_bind (speaks_command _) ?_ ?_
  · rintro vendorId _ rfl
    refine speaks_ite (speaks_note_bind (speaks_pure modest_vendor)) ?_
    refine speaks_bind (Speaks.after (read_talks codec id vendorId)) ?_ ?_
    · rintro node _ ⟨asked, rfl, hasked⟩
      refine speaks_note_bind (speaks_bind (Speaks.after (configure_talks codec id node)) ?_ ?_)
      · rintro _ _ ⟨told, rfl, htold⟩
        exact speaks_pure (modest_of_told hasked htold)
      · rintro _ ⟨told, rfl, htold⟩
        exact modest_of_told hasked htold
    · rintro _ ⟨asked, rfl, hasked⟩
      exact modest_of_details (hasked.mono (by decide))
  · rintro _ rfl
    exact modest_vendor

/-! ### One codec and all of them -/

/-- Words of so many modest visits at most. -/
def Visited (codec : BitVec 8) (most : Nat) (l : List (BitVec 32)) : Prop :=
  ∃ visits : List Visit, l = visits.flatMap (·.words) ∧ (∀ v ∈ visits, v.Modest codec) ∧ visits.length ≤ most

theorem visited_nil {codec : BitVec 8} {most : Nat} : Visited codec most [] := ⟨[], rfl, nofun, Nat.zero_le _⟩

theorem visited_cons {codec id : BitVec 8} {most : Nat} {first rest : List (BitVec 32)} (hfirst : Visit.Modest codec ⟨id, first⟩)
    (hrest : Visited codec most rest) : Visited codec (most + 1) (first ++ rest) := by
  obtain ⟨visits, rfl, hall, hle⟩ := hrest
  exact ⟨⟨id, first⟩ :: visits, rfl, List.forall_mem_cons.2 ⟨hfirst, hall⟩, Nat.succ_le_succ hle⟩

/-- **The walk below a root ends within its allowance**, whatever is still to be visited: each visit takes one from it, and
adds one node at most. -/
theorem walkBelow_speaks (codec : BitVec 8) : ∀ allowance pending found, found.Ascends →
    L.Speaks c₀ [] (fun nodes l => Visited codec allowance l ∧ nodes.Ascends ∧ nodes.length ≤ found.length + allowance)
      (Visited codec allowance) (Codec.walkBelow codec allowance pending found)
  | 0, [], _, hfound | _ + 1, [], _, hfound => speaks_pure ⟨visited_nil, hfound, Nat.le_add_right _ _⟩
  | 0, _ :: _, _, _ => speaks_fail visited_nil
  | allowance + 1, id :: pending, found, hfound => by
    refine speaks_bind (visit_speaks codec id) ?_ ?_
    · intro node first hfirst
      have happend : ∀ l, (∃ more, l = first ++ more ∧ Visited codec allowance more) → Visited codec (allowance + 1) l := by
        rintro _ ⟨more, rfl, hmore⟩
        exact visited_cons hfirst hmore
      cases node with
      | none =>
        refine (Speaks.after (walkBelow_speaks codec allowance pending found hfound)).mono ?_ happend
        rintro nodes _ ⟨more, rfl, hmore, hnodes, hle⟩
        exact ⟨visited_cons hfirst hmore, hnodes, Nat.le_succ_of_le hle⟩
      | some node =>
        have hlength := NodeTable.length_insert_le id node found
        refine (Speaks.after (walkBelow_speaks codec allowance _ _ (hfound.insert id node))).mono ?_ happend
        rintro nodes _ ⟨more, rfl, hmore, hnodes, hle⟩
        exact ⟨visited_cons hfirst hmore, hnodes, by omega⟩
    · intro first hfirst
      have hone : Visited codec (allowance + 1) (first ++ []) := visited_cons hfirst visited_nil
      rwa [List.append_nil] at hone

/-- Words of one modest inquiry. -/
def Inquired (most : Nat) (address : BitVec 8) (l : List (BitVec 32)) : Prop :=
  ∃ q : Inquiry, l = q.words ∧ q.address = address ∧ q.Modest most

theorem inquired_root {most : Nat} {address : BitVec 8} {root : List (BitVec 32)} (hroot : Visit.Modest address ⟨0, root⟩) :
    Inquired most address root :=
  ⟨⟨address, root, []⟩, (List.append_nil root).symm, rfl, hroot, nofun, Nat.zero_le _⟩

theorem inquired_below {most : Nat} {address : BitVec 8} {root l : List (BitVec 32)} (hroot : Visit.Modest address ⟨0, root⟩)
    (hl : Visited address most l) : Inquired most address (root ++ l) := by
  obtain ⟨visits, rfl, hall, hle⟩ := hl
  exact ⟨⟨address, root, visits⟩, rfl, rfl, hroot, hall, hle⟩

theorem codecWalk_speaks (address : BitVec 8) : L.Speaks c₀ []
    (fun codec l => Inquired c₀.config.maxWalkVisits address l ∧
      ∀ found ∈ codec.toList, found.nodes.length ≤ min 256 c₀.config.maxWalkVisits)
    (Inquired c₀.config.maxWalkVisits address) (Codec.walk address) := by
  refine speaks_bind (speaks_command _) ?_ ?_
  · rintro vendorId _ rfl
    refine speaks_ite (speaks_note_bind (speaks_pure ⟨inquired_root modest_vendor, nofun⟩)) (speaks_note_bind ?_)
    refine speaks_bind (Speaks.after (read_talks address 0 vendorId)) ?_ ?_
    · rintro node _ ⟨asked, rfl, hasked⟩
      refine speaks_bind (Speaks.after (configure_talks address 0 node)) ?_ ?_
      · rintro _ _ ⟨told, rfl, htold⟩
        refine speaks_get_bind fun t => speaks_bind (Speaks.after (walkBelow_speaks address _ _ _ List.Pairwise.nil)) ?_ ?_
        · rintro nodes _ ⟨more, rfl, hmore, hnodes, hle⟩
          rw [List.length_nil, Nat.zero_add] at hle
          refine speaks_note_bind (speaks_pure ⟨inquired_below (modest_of_told hasked htold) hmore, List.forall_mem_singleton.2 ?_⟩)
          exact Nat.le_min.2 ⟨hnodes.length_le, hle⟩
        · rintro _ ⟨more, rfl, hmore⟩
          exact inquired_below (modest_of_told hasked htold) hmore
      · rintro _ ⟨told, rfl, htold⟩
        exact inquired_root (modest_of_told hasked htold)
    · rintro _ ⟨asked, rfl, hasked⟩
      exact inquired_root (modest_of_details (hasked.mono (by decide)))
  · rintro _ rfl
    exact inquired_root modest_vendor

/-- Words of modest inquiries at these addresses, in their order. -/
def Toured (most : Nat) (addresses : List (BitVec 8)) (l : List (BitVec 32)) : Prop :=
  ∃ inquiries : List Inquiry, l = inquiries.flatMap (·.words) ∧ inquiries.map (·.address) = addresses ∧
    ∀ q ∈ inquiries, q.Modest most

theorem toured_nil {most : Nat} : Toured most [] [] := ⟨[], rfl, rfl, nofun⟩

theorem toured_cons {most : Nat} {address : BitVec 8} {addresses : List (BitVec 8)} {first rest : List (BitVec 32)}
    (hfirst : Inquired most address first) (hrest : Toured most addresses rest) :
    Toured most (address :: addresses) (first ++ rest) := by
  obtain ⟨q, rfl, rfl, hq⟩ := hfirst
  obtain ⟨inquiries, rfl, rfl, hall⟩ := hrest
  exact ⟨q :: inquiries, rfl, rfl, List.forall_mem_cons.2 ⟨hq, hall⟩⟩

theorem walkAll_speaks : ∀ addresses, L.Speaks c₀ []
    (fun codecs l => Toured c₀.config.maxWalkVisits addresses l ∧
      ∀ found ∈ codecs, found.nodes.length ≤ min 256 c₀.config.maxWalkVisits)
    (fun l => ∃ begun, begun <+: addresses ∧ Toured c₀.config.maxWalkVisits begun l) (Codec.walkAll addresses)
  | [] => speaks_pure ⟨toured_nil, nofun⟩
  | address :: addresses => by
    refine speaks_bind (codecWalk_speaks address) ?_ ?_
    · rintro codec first ⟨hfirst, hsmall⟩
      refine speaks_bind (Speaks.after (walkAll_speaks addresses)) ?_ ?_
      · rintro codecs _ ⟨rest, rfl, hrest, hall⟩
        exact speaks_pure ⟨toured_cons hfirst hrest, List.forall_mem_append.2 ⟨hsmall, hall⟩⟩
      · rintro _ ⟨rest, rfl, begun, hbegun, hrest⟩
        exact ⟨address :: begun, List.cons_prefix_cons.2 ⟨rfl, hbegun⟩, toured_cons hfirst hrest⟩
    · intro first hfirst
      have hone := toured_cons hfirst toured_nil
      rw [List.append_nil] at hone
      exact ⟨[address], List.cons_prefix_cons.2 ⟨rfl, List.nil_prefix⟩, hone⟩

end Listener

/-! ### The walk -/

namespace Inquiry

variable {q : Inquiry} {most : Nat} {inquiries : List Inquiry}

theorem Modest.target (h : q.Modest most) : ∀ word ∈ q.words, Link.target word = q.address.setWidth 4 := by
  intro word hword
  rcases List.mem_append.1 hword with hword | hword
  · exact h.root.sent.target word hword
  · obtain ⟨v, hv, hword⟩ := List.mem_flatMap.1 hword
    exact (h.visits v hv).sent.target word hword

theorem Modest.length_le (h : q.Modest most) : q.words.length ≤ Visit.most * (1 + most) := by
  have hvisits : ∀ visits : List Visit, (∀ v ∈ visits, v.Modest q.address) →
      (visits.flatMap (·.words)).length ≤ Visit.most * visits.length := by
    intro visits
    induction visits with
    | nil => exact fun _ => Nat.le_refl 0
    | cons v visits ih =>
      intro hall
      obtain ⟨hv, hall⟩ := List.forall_mem_cons.1 hall
      have hfirst := hv.sent.1
      have hrest := ih hall
      rw [List.flatMap_cons, List.length_append, List.length_cons, Nat.mul_succ]
      omega
  have hroot : q.root.length ≤ Visit.most := h.root.sent.1
  have hbelow := Nat.le_trans (hvisits q.visits h.visits) (Nat.mul_le_mul_left Visit.most h.few)
  rw [words, List.length_append, Nat.mul_add, Nat.mul_one]
  omega

/-- Among inquiries to different codecs, one at most has words for a codec. -/
theorem countP_words_le (codec : BitVec 4) : ∀ {inquiries : List Inquiry}, (∀ q ∈ inquiries, q.Modest most) →
    inquiries.Pairwise (fun p q => p.address.setWidth 4 ≠ q.address.setWidth 4) →
    (inquiries.flatMap (·.words)).countP (Link.target · = codec) ≤ Visit.most * (1 + most)
  | [], _, _ => Nat.zero_le _
  | q :: inquiries, hall, hapart => by
    obtain ⟨hq, hall⟩ := List.forall_mem_cons.1 hall
    obtain ⟨hothers, hapart⟩ := List.pairwise_cons.1 hapart
    rw [List.flatMap_cons, List.countP_append]
    by_cases hcodec : q.address.setWidth 4 = codec
    · have hnone : (inquiries.flatMap (·.words)).countP (Link.target · = codec) = 0 := by
        refine List.countP_eq_zero.2 fun word hword => ?_
        obtain ⟨p, hp, hword⟩ := List.mem_flatMap.1 hword
        have hne := hothers p hp
        rw [hcodec, ← (hall p hp).target word hword] at hne
        simpa using Ne.symm hne
      rw [hnone, Nat.add_zero]
      exact Nat.le_trans List.countP_le_length hq.length_le
    · have hnone : q.words.countP (Link.target · = codec) = 0 := by
        refine List.countP_eq_zero.2 fun word hword => ?_
        rw [hq.target word hword]
        simpa using hcodec
      rw [hnone, Nat.zero_add]
      exact countP_words_le codec hall hapart

end Inquiry

namespace Controller

theorem codecAddresses_apart (c : Controller) :
    c.codecAddresses.Pairwise fun a b => a.setWidth 4 ≠ b.setWidth 4 := by
  refine c.codecAddresses_ascend.imp_of_mem fun {a b} ha hb hab heq => ?_
  have hsmall : ∀ {a : BitVec 8}, a ∈ c.codecAddresses → (a.setWidth 4).toNat = a.toNat := fun {a} ha => by
    rw [BitVec.toNat_setWidth]
    exact Nat.mod_eq_of_lt (Nat.lt_trans (mem_codecAddresses.1 ha).1 (by decide))
  have hnat := congrArg BitVec.toNat heq
  rw [hsmall ha, hsmall hb] at hnat
  exact absurd (BitVec.lt_def.1 hab) (by omega)

end Controller

theorem bounded_of_toured {c : Controller} {begun : List (BitVec 8)} {said tried : List (BitVec 32)}
    (hbegun : begun <+: c.codecAddresses) (hsaid : said <+: tried) (h : Listener.Toured c.config.maxWalkVisits begun tried) :
    Bounded c said := by
  obtain ⟨inquiries, rfl, rfl, hall⟩ := h
  have hapart := c.codecAddresses_apart.sublist hbegun.sublist
  rw [List.pairwise_map] at hapart
  refine ⟨⟨inquiries, hsaid, hbegun, hall⟩, fun codec => Nat.le_trans hsaid.sublist.countP_le
    (Inquiry.countP_words_le codec hall hapart), fun word hword => ?_⟩
  obtain ⟨q, hq, hword⟩ := List.mem_flatMap.1 (hsaid.subset hword)
  obtain ⟨hlt, hset⟩ := Controller.mem_codecAddresses.1 (hbegun.subset (List.mem_map_of_mem hq))
  rw [(hall q hq).target word hword, BitVec.toNat_setWidth, Nat.mod_eq_of_lt (Nat.lt_trans hlt (by decide))]
  exact hset

/-- **The walk is bounded against any hardware.**  Provided that every exchange returns, the walk comes to an end, whatever
the responses are; what it sends is bounded, and if it comes back with a topology, then no codec has more nodes than there
are ids, or than were allowed to be visited. -/
theorem Topology.walk_bounded {ω : Type} {W : World Call Call.Answer ω} {n : Nat} (L : Listener W n) {c : Controller}
    {t : Transport} {w : ω} (ht : c.transport = some t) (hready : L.Ready t w) : Ensures W n Topology.walk c w {
      ok := fun topology _ w' => (∃ said, L.heard w' = L.heard w ++ said ∧ Bounded c said) ∧
        ∀ codec ∈ topology.codecs, codec.nodes.length ≤ min 256 c.config.maxWalkVisits
      error := fun _ _ w' => ∃ said, L.heard w' = L.heard w ++ said ∧ Bounded c said
      misused := fun _ => False
      stuck := fun _ => False } := by
  have h : L.At c (L.heard w ++ []) c w := ⟨t, by rw [← ht], hready, (List.append_nil _).symm⟩
  refine ensures_bind.2 (ensures_get.2 (ensures_bind.2 ((Listener.walkAll_speaks _ _ c w h).mono ?_ ?_ (fun _ => id)
    fun _ => id)))
  · rintro codecs _ w' ⟨said, ⟨hsaid, hsmall⟩, -, -, -, hheard⟩
    exact ⟨⟨said, hheard, bounded_of_toured List.prefix_rfl List.prefix_rfl hsaid⟩, hsmall⟩
  · rintro e _ w' ⟨said, _, hle, ⟨begun, hbegun, htried⟩, -, -, -, hheard⟩
    exact ⟨said, hheard, bounded_of_toured hbegun hle htried⟩

/-! ### Hardware that answers anything at once -/

/-- Hardware with any registers, any of whose accesses may fail, and with a response always there: the words it was sent. -/
def prompt : World Call Call.Answer (List (BitVec 32))
  | .write _ o v, words, .ok (), words' => words' = if o = Register.icoi then words ++ [v] else words
  | .read _ o, words, r, words' => (o = Register.icis → ∀ v, r = .ok v → v.getLsbD 1 = true) ∧ words' = words
  | _, words, _, words' => words' = words

section
variable {σ α β : Type} {n : Nat} {t : σ} {words : List (BitVec 32)} {P : α → Prop} {Q : β → Prop}

/-- The state is as it was, and `sent` is what was sent, or begins with it if there was a failure. -/
def sends (P : α → Prop) (t : σ) (words sent : List (BitVec 32)) : Outcome σ α (List (BitVec 32)) where
  ok a t' words' := P a ∧ t' = t ∧ words' = words ++ sent
  error _ t' words' := t' = t ∧ ∃ first, first <+: sent ∧ words' = words ++ first
  misused _ := False
  stuck _ := False

theorem sends_bind {x : Procedure σ α} {f : α → Procedure σ β} {l l' : List (BitVec 32)}
    (hx : Ensures prompt n x t words (sends P t words l))
    (hf : ∀ a words, P a → Ensures prompt n (f a) t words (sends Q t words l')) :
    Ensures prompt n (x >>= f) t words (sends Q t words (l ++ l')) := by
  refine ensures_bind.2 (hx.mono ?_ ?_ (fun _ => id) fun _ => id)
  · rintro a _ _ ⟨ha, rfl, rfl⟩
    refine (hf a _ ha).mono ?_ ?_ (fun _ => id) fun _ => id
    · rintro b _ _ ⟨hb, rfl, rfl⟩
      exact ⟨hb, rfl, List.append_assoc _ _ _⟩
    · rintro e _ _ ⟨rfl, first, hfirst, rfl⟩
      exact ⟨rfl, l ++ first, (List.prefix_append_right_inj l).2 hfirst, List.append_assoc _ _ _⟩
  · rintro e _ _ ⟨rfl, first, hfirst, rfl⟩
    exact ⟨rfl, first, hfirst.trans (List.prefix_append _ _), rfl⟩

/-- A step that sends nothing, and what follows it. -/
theorem silent_bind {x : Procedure σ α} {f : α → Procedure σ β} {l : List (BitVec 32)}
    (hx : Ensures prompt n x t words (sends P t words []))
    (hf : ∀ a words, P a → Ensures prompt n (f a) t words (sends Q t words l)) :
    Ensures prompt n (x >>= f) t words (sends Q t words l) := sends_bind hx hf

theorem sends_nothing {r : Except Error α} (hr : ∀ a, r = .ok a → P a) : (sends P t words []).after r t words :=
  match r with
  | .ok a => ⟨hr a rfl, rfl, (List.append_nil words).symm⟩
  | .error _ => ⟨rfl, [], List.prefix_rfl, (List.append_nil words).symm⟩

theorem sends_status (v : BitVec 16) : Ensures prompt n (write16 Register.icis v) t words
    (sends (fun _ => True) t words []) := by
  refine ensures_write.2 ?_
  rintro (e | _) words' h
  · cases h
    exact sends_nothing nofun
  · rw [show words' = words from h.trans (if_neg (by decide))]
    exact sends_nothing fun _ _ => trivial

theorem sends_word (word : BitVec 32) : Ensures prompt n (write32 Register.icoi word) t words
    (sends (fun _ => True) t words [word]) := by
  refine ensures_write.2 ?_
  rintro (e | _) words' h
  · exact ⟨rfl, [], List.nil_prefix, h.trans (List.append_nil words).symm⟩
  · exact ⟨trivial, rfl, h.trans (if_pos rfl)⟩

theorem ensures_read16_prompt : Ensures prompt n (read16 Register.icis) t words
    (sends (fun v => (ImmediateStatus.mk v).valid = true) t words []) := by
  refine ensures_bind.2 (ensures_read.2 ?_)
  rintro (e | v) _ ⟨hvalid, rfl⟩
  · exact sends_nothing nofun
  · refine ⟨?_, rfl, (List.append_nil _).symm⟩
    have h : v.getLsbD 1 = true := hvalid rfl v rfl
    simpa [ImmediateStatus.valid] using h

theorem ensures_await_prompt : Ensures prompt 1 (fun patience => ImmediateInterface.awaitResponse patience patience) t words
    (sends (· = true) t words []) := by
  refine silent_bind ensures_read16_prompt fun v words hv => ?_
  rw [if_pos hv]
  exact ensures_pure.2 ⟨rfl, rfl, (List.append_nil words).symm⟩

theorem ensures_exchange_prompt (timeout : BitVec 64) (word : BitVec 32) :
    Ensures prompt 1 (ImmediateInterface.exchange timeout word) t words (sends (fun _ => True) t words [word]) := by
  refine silent_bind (sends_status _) fun _ words _ => sends_bind (sends_word word) fun _ words _ => ?_
  refine silent_bind (sends_status _) fun _ words _ => ?_
  refine silent_bind (P := fun _ => True) (ensures_armTimer.2 ?_) fun _ words _ => ?_
  · rintro r _ rfl
    exact sends_nothing fun _ _ => trivial
  refine silent_bind ensures_await_prompt fun answered words hanswered => ?_
  refine silent_bind (P := fun _ => True) (ensures_cancelTimer.2 ?_) fun _ words _ => ?_
  · rintro r _ rfl
    exact sends_nothing fun _ _ => trivial
  rw [if_pos hanswered]
  refine silent_bind (P := fun _ => True) (ensures_read.2 ?_) fun response words _ => ?_
  · rintro r _ ⟨-, rfl⟩
    exact sends_nothing fun _ _ => trivial
  refine silent_bind ensures_read16_prompt fun status words _ => silent_bind (sends_status _) fun _ words _ => ?_
  refine ensures_bind.2 (ensures_note.2 ?_)
  rintro _ rfl
  exact ⟨trivial, rfl, (List.append_nil _).symm⟩

end

/-- The hardware behind an immediate interface. -/
def promptListener : Listener prompt 1 where
  Ready t _ := ∃ timeout, t = .immediate timeout
  heard := id
  exchange := by
    rintro _ words word ⟨timeout, rfl⟩
    refine ensures_get_bind.2 ((ensures_exchange_prompt timeout word).mono ?_ ?_ (fun _ => id) fun _ => id)
    · rintro response _ _ ⟨-, rfl, rfl⟩
      exact ⟨⟨timeout, rfl⟩, rfl⟩
    · rintro e _ _ ⟨rfl, sent, hsent, rfl⟩
      exact ⟨⟨timeout, rfl⟩, sent, hsent, rfl⟩
  note := by
    rintro t words m _ h rfl
    exact ⟨h, rfl⟩

/-- A controller that one codec reported to. -/
def soleCodec : Controller := { config := {}, presentCodecs := 1, transport := some (.immediate 0) }

theorem Topology.walk_bounded_prompt : soleCodec.transport = some (.immediate 0) ∧ promptListener.Ready (.immediate 0) [] ∧
    Ensures prompt 1 Topology.walk soleCodec [] {
      ok := fun topology _ words => (∃ said, words = [] ++ said ∧ Bounded soleCodec said) ∧
        ∀ codec ∈ topology.codecs, codec.nodes.length ≤ min 256 soleCodec.config.maxWalkVisits
      error := fun _ _ words => ∃ said, words = [] ++ said ∧ Bounded soleCodec said
      misused := fun _ => False
      stuck := fun _ => False } :=
  ⟨rfl, ⟨0, rfl⟩, Topology.walk_bounded promptListener rfl ⟨0, rfl⟩⟩

end AudioBringup
