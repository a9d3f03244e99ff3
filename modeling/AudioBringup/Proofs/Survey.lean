import AudioBringup.Proofs.Ensures
import AudioBringup.Proofs.Unfolding
/-!
# Proofs.Survey — the topology walk is the unfolding of every codec

The walk keeps a list of what is still to visit and one allowance for all of it.  Over any transport that answers each
word from the word alone (`Responder`) it visits the preorder of the tree, and gives up exactly where the preorder has
more visits than are allowed.
-/
namespace AudioBringup

open Procedure

/-! ### What is sent -/

/-- The commands that bring a node up, in their order. -/
def Node.bringUp (addr : NodeAddr) (node : Node) : List Command :=
  (if node.supportsD0 then [⟨addr.codec, addr.node, .setPowerState, PowerState.d0.code⟩] else []) ++
  (if node.outputAmp.canMute then
    [⟨addr.codec, addr.node, .setAmpGainMute, ((unmuted node.outputAmp).withOutput true).raw⟩] else []) ++
  if node.inputAmp.canMute then
    [⟨addr.codec, addr.node, .setAmpGainMute, ((unmuted node.inputAmp).withInput true).raw⟩] else []

namespace Replies

variable (R : Replies) (codec : BitVec 8)

/-- The word that asks for the vendor of a node. -/
def vendorWord (id : BitVec 8) : BitVec 32 := (Command.getParameter codec id .vendorId).encode

/-- The words that read a node which is there, and bring it up. -/
def nodeWords (id : BitVec 8) : List (BitVec 32) :=
  Parameter.all.tail.map (fun p => (Command.getParameter codec id p).encode) ++
    (Node.bringUp ⟨codec, id⟩ (R.nodeAt codec id)).map (·.encode)

/-- The words of one visit. -/
def visitWords (id : BitVec 8) : List (BitVec 32) :=
  vendorWord codec id :: if R.Present codec id then R.nodeWords codec id else []

/-- The codec's root answers. -/
def Answers : Prop := R.ask codec 0 .vendorId ≠ Response.absent ∧ R.ask codec 0 .vendorId ≠ Response.timedOut

instance : Decidable (R.Answers codec) := inferInstanceAs (Decidable (_ ∧ _))

/-- The words sent to one codec: the question for its vendor alone, where its root does not answer. -/
def codecWords (visits : List (BitVec 8)) : List (BitVec 32) :=
  vendorWord codec 0 :: if R.Answers codec then R.nodeWords codec 0 ++ visits.flatMap (R.visitWords codec) else []

/-- The codec that is found by `visits`. -/
def codecAt (visits : List (BitVec 8)) : Codec where
  address := codec
  root := R.nodeAt codec 0
  nodes := R.table codec visits

/-- A codec has been walked: where its root answers, `visits` is the preorder below it and is not too long. -/
def Explored (most : Nat) (visits : List (BitVec 8)) : Prop :=
  R.Answers codec → R.Unfolds codec (R.roots codec) visits ∧ visits.length ≤ most

end Replies

/-! ### A transport that answers -/

/-- A transport in a world: every exchange succeeds, with an answer that depends on the word alone. -/
structure Responder {ω : Type} (W : World Call Call.Answer ω) (patience : Nat) (R : Replies) where
  Ready : Transport → ω → Prop
  /-- every word sent so far -/
  sent : ω → List (BitVec 32)
  exchange : ∀ {t w} (word : BitVec 32), Ready t w → Procedure.Ensures W patience (Transport.exchange word) t w
    (.succeeds fun a t' w' => a = R word ∧ Ready t' w' ∧ sent w' = sent w ++ [word])
  note : ∀ {t w m w'}, Ready t w → W (.note m) w () w' → Ready t w' ∧ sent w' = sent w

/-- A transport that can be relied on for some words only. -/
structure Courier {ω : Type} (W : World Call Call.Answer ω) (patience : Nat) (R : Replies) (carries : BitVec 32 → Prop) where
  Ready : Transport → ω → Prop
  sent : ω → List (BitVec 32)
  exchange : ∀ {t w} (word : BitVec 32), carries word → Ready t w →
    Procedure.Ensures W patience (Transport.exchange word) t w
      (.succeeds fun a t' w' => a = R word ∧ Ready t' w' ∧ sent w' = sent w ++ [word])
  note : ∀ {t w m w'}, Ready t w → W (.note m) w () w' → Ready t w' ∧ sent w' = sent w

/-- Some of the words are all of them. -/
def Responder.courier {ω : Type} {W : World Call Call.Answer ω} {n : Nat} {R : Replies} (D : Responder W n R) :
    Courier W n R fun _ => True :=
  ⟨D.Ready, D.sent, fun word _ => D.exchange word, D.note⟩

/-- Among some words are all those for one codec. -/
def Reaches (carries : BitVec 32 → Prop) (codec : BitVec 8) : Prop := ∀ cmd : Command, cmd.codec = codec → carries cmd.encode

namespace Courier

variable {ω : Type} {W : World Call Call.Answer ω} {n : Nat} {R : Replies} {carries : BitVec 32 → Prop}
  (D : Courier W n R carries)

/-- The controller is as it was but for its transport, which is ready, and `words` have been sent. -/
def At (c₀ : Controller) (words : List (BitVec 32)) (c : Controller) (w : ω) : Prop :=
  ∃ t, c = { c₀ with transport := some t } ∧ D.Ready t w ∧ D.sent w = words

variable {D} {c₀ c : Controller} {words : List (BitVec 32)} {w : ω}

theorem note_at {m : Notice} (h : D.At c₀ words c w) :
    Ensures W n (Procedure.note m) c w (.succeeds fun _ c' w' => D.At c₀ words c' w') := by
  obtain ⟨t, rfl, hready, hsent⟩ := h
  refine ensures_note.2 fun w' hw => ?_
  obtain ⟨hready, hsent'⟩ := D.note hready hw
  exact ⟨t, rfl, hready, hsent'.trans hsent⟩

theorem exchange_at {t : Transport} {word : BitVec 32} (hword : carries word) (hready : D.Ready t w) (hsent : D.sent w = words) :
    Ensures W n (on t (fun t (c : Controller) => { c with transport := some t }) (Transport.exchange word))
      { c₀ with transport := some t } w
      (.succeeds fun a c' w' => a = R word ∧ D.At c₀ (words ++ [word]) c' w') := by
  refine ensures_on.2 ((D.exchange word hword hready).of_succeeds ?_)
  rintro a t' w' ⟨rfl, hready, hsent'⟩
  exact ⟨rfl, t', rfl, hready, hsent ▸ hsent'⟩

theorem command_at {cmd : Command} (hcmd : carries cmd.encode) (h : D.At c₀ words c w) : Ensures W n (Controller.command cmd) c w
    (.succeeds fun a c' w' => a = R cmd.encode ∧ D.At c₀ (words ++ [cmd.encode]) c' w') := by
  obtain ⟨t, rfl, hready, hsent⟩ := h
  refine ensures_bind.2 (ensures_get.2 ?_)
  change Ensures W n (if cmd.indirect then (do
      Procedure.note (.indirectNode cmd.node cmd.codec)
      on t (fun t (c : Controller) => { c with transport := some t }) (Transport.exchange cmd.encode))
    else on t (fun t (c : Controller) => { c with transport := some t }) (Transport.exchange cmd.encode)) _ _ _
  split
  · refine ensures_bind.2 (ensures_note.2 fun w' hw => ?_)
    obtain ⟨hready, hsent'⟩ := D.note hready hw
    exact exchange_at hcmd hready (hsent'.trans hsent)
  · exact exchange_at hcmd hready hsent

theorem parameter_at {codec : BitVec 8} (hcodec : Reaches carries codec) (id : BitVec 8) (p : Parameter) (h : D.At c₀ words c w) :
    Ensures W n (Controller.getParameter codec id p) c w (.succeeds fun a c' w' =>
      a = R.ask codec id p ∧ D.At c₀ (words ++ [(Command.getParameter codec id p).encode]) c' w') :=
  command_at (hcodec _ rfl) h

/-! ### One visit -/

theorem read_at {codec : BitVec 8} (hcodec : Reaches carries codec) (id : BitVec 8) (h : D.At c₀ words c w) :
    Ensures W n (Node.read ⟨codec, id⟩ (R.ask codec id .vendorId)) c w (.succeeds fun node c' w' =>
      node = R.nodeAt codec id ∧
        D.At c₀ (words ++ Parameter.all.tail.map fun p => (Command.getParameter codec id p).encode) c' w') := by
  unfold Node.read
  iterate 15
    refine ensures_bind.2 ((parameter_at hcodec id _ h).of_succeeds ?_)
    clear h
    rintro _ c w ⟨rfl, h⟩
  simp only [List.append_assoc, List.cons_append, List.nil_append] at h
  exact ⟨rfl, h⟩

/-- A command that is announced and sent only where it is wanted, and nothing made of its answer. -/
theorem sendIf_at {wanted : Bool} {m : Notice} {cmd : Command} {rest : Procedure Controller Unit}
    {Q : Outcome Controller Unit ω} (hcmd : carries cmd.encode) (h : D.At c₀ words c w)
    (hrest : ∀ {c w}, D.At c₀ (words ++ (if wanted then [cmd] else []).map (·.encode)) c w → Ensures W n rest c w Q) :
    Ensures W n (if wanted then (do
      Procedure.note m
      let _ ← Controller.command cmd
      rest) else rest) c w Q := by
  cases wanted
  · exact hrest (by simpa using h)
  · refine ensures_bind.2 ((note_at h).of_succeeds fun _ c w h => ?_)
    exact ensures_bind.2 ((command_at hcmd h).of_succeeds fun _ c w h => hrest h.2)

theorem configure_at {codec : BitVec 8} (hcodec : Reaches carries codec) (id : BitVec 8) (node : Node) (h : D.At c₀ words c w) :
    Ensures W n (Node.configure ⟨codec, id⟩ node) c w (.succeeds fun _ c' w' =>
      D.At c₀ (words ++ (Node.bringUp ⟨codec, id⟩ node).map (·.encode)) c' w') := by
  refine sendIf_at (hcodec _ rfl) h fun h => ?_
  refine sendIf_at (hcodec _ rfl) h fun h => ?_
  refine sendIf_at (hcodec _ rfl) h fun h => ?_
  simp only [List.append_assoc, ← List.map_append] at h
  rw [← List.append_assoc] at h
  exact h

theorem visit_at {codec : BitVec 8} (hcodec : Reaches carries codec) (id : BitVec 8) (h : D.At c₀ words c w) :
    Ensures W n (Codec.visit codec id) c w (.succeeds fun node? c' w' =>
      node? = (if R.Present codec id then some (R.nodeAt codec id) else none) ∧
        D.At c₀ (words ++ R.visitWords codec id) c' w') := by
  refine ensures_bind.2 ((parameter_at hcodec id .vendorId h).of_succeeds ?_)
  rintro _ c w ⟨rfl, h⟩
  change Ensures W n (if R.ask codec id .vendorId == Response.timedOut then _ else _) c w _
  by_cases hp : R.Present codec id
  · rw [if_neg (by simpa [Replies.Present] using hp)]
    refine ensures_bind.2 ((read_at hcodec id h).of_succeeds ?_)
    rintro _ c w ⟨rfl, h⟩
    refine ensures_bind.2 ((note_at h).of_succeeds fun _ c w h => ?_)
    refine ensures_bind.2 ((configure_at hcodec id _ h).of_succeeds fun _ c w h => ?_)
    refine ⟨(if_pos hp).symm, ?_⟩
    rw [Replies.visitWords, if_pos hp, Replies.nodeWords]
    simp only [List.append_assoc, List.cons_append, List.nil_append] at h
    exact h
  · rw [if_pos (by simpa [Replies.Present] using hp)]
    refine ensures_bind.2 ((note_at h).of_succeeds fun _ c w h => ⟨(if_neg hp).symm, ?_⟩)
    rwa [Replies.visitWords, if_neg hp]

/-! ### Everything below a root -/

/-- What a walk below a root comes to: it comes back with everything a preorder finds that is short enough, or it gives up
where the preorder goes on one visit further than is allowed. -/
def below (D : Courier W n R carries) (c₀ : Controller) (codec : BitVec 8) (allowance : Nat) (pending : List (BitVec 8))
    (found : NodeTable) (words : List (BitVec 32)) : Outcome Controller NodeTable ω where
  ok nodes c w := ∃ visits, R.Unfolds codec pending visits ∧ visits.length ≤ allowance ∧
    nodes = visits.foldl (R.record codec) found ∧ D.At c₀ (words ++ visits.flatMap (R.visitWords codec)) c w
  error e c w := e = .topologyOverflow codec ∧ ∃ visits, R.Begins codec pending visits ∧ visits.length = allowance + 1 ∧
    D.At c₀ (words ++ (visits.take allowance).flatMap (R.visitWords codec)) c w
  misused _ := False
  stuck _ := False

/-- One visit before a walk of what the visit leaves to be visited. -/
theorem below_cons {codec id : BitVec 8} {allowance : Nat} {next pending : List (BitVec 8)} {found : NodeTable}
    {x : Procedure Controller NodeTable}
    (hunfolds : ∀ {visits}, R.Unfolds codec next visits → R.Unfolds codec (id :: pending) (id :: visits))
    (hbegins : ∀ {visits}, R.Begins codec next visits → R.Begins codec (id :: pending) (id :: visits))
    (h : Ensures W n x c w (D.below c₀ codec allowance next (R.record codec found id) (words ++ R.visitWords codec id))) :
    Ensures W n x c w (D.below c₀ codec (allowance + 1) (id :: pending) found words) := by
  refine h.mono ?_ ?_ (fun _ h => h) (fun _ h => h)
  · rintro nodes c w ⟨visits, hvisits, hle, rfl, h⟩
    refine ⟨id :: visits, hunfolds hvisits, Nat.succ_le_succ hle, rfl, ?_⟩
    rwa [List.flatMap_cons, ← List.append_assoc]
  · rintro e c w ⟨rfl, visits, hvisits, hlen, h⟩
    refine ⟨rfl, id :: visits, hbegins hvisits, congrArg (· + 1) hlen, ?_⟩
    rwa [List.take_succ_cons, List.flatMap_cons, ← List.append_assoc]

/-- **The walk below a root is the preorder of the tree**, as far as the allowance goes. -/
theorem walkBelow_at {codec : BitVec 8} (hcodec : Reaches carries codec) : ∀ (allowance : Nat)
    (pending : List (BitVec 8)) (found : NodeTable) {words : List (BitVec 32)} {c : Controller} {w : ω}, D.At c₀ words c w →
    Ensures W n (Codec.walkBelow codec allowance pending found) c w (D.below c₀ codec allowance pending found words)
  | _, [], found, words, c, w, h => by
    unfold Codec.walkBelow
    refine ensures_pure.2 ⟨[], .nil, Nat.zero_le _, rfl, ?_⟩
    rwa [List.flatMap_nil, List.append_nil]
  | 0, id :: _, found, words, c, w, h => by
    refine ensures_fail.2 ⟨rfl, [id], ?_, rfl, ?_⟩
    · by_cases hp : R.Present codec id
      · exact .within hp .nil
      · exact .absent hp .nil
    · rwa [List.take_zero, List.flatMap_nil, List.append_nil]
  | allowance + 1, id :: pending, found, words, c, w, h => by
    refine ensures_bind.2 ((visit_at hcodec id h).of_succeeds ?_)
    rintro _ c w ⟨rfl, h⟩
    by_cases hp : R.Present codec id
    · have hrest := walkBelow_at hcodec allowance ((R.nodeAt codec id).children ++ pending) (R.record codec found id) h
      rw [Replies.record, if_pos hp] at hrest
      rw [if_pos hp]
      exact below_cons (.ofChildren hp) (.ofChildren hp) (by rwa [Replies.record, if_pos hp])
    · have hrest := walkBelow_at hcodec allowance pending (R.record codec found id) h
      rw [Replies.record, if_neg hp] at hrest
      rw [if_neg hp]
      exact below_cons (.absent hp) (.absent hp) (by rwa [Replies.record, if_neg hp])

/-! ### One codec and all of them -/

/-- What a walk of one codec comes to. -/
def within (D : Courier W n R carries) (c₀ : Controller) (address : BitVec 8) (words : List (BitVec 32)) :
    Outcome Controller (Option Codec) ω where
  ok codec? c w := ∃ visits, R.Explored address c₀.config.maxWalkVisits visits ∧
    codec? = (if R.Answers address then some (R.codecAt address visits) else none) ∧
    D.At c₀ (words ++ R.codecWords address visits) c w
  error e c w := e = .topologyOverflow address ∧ R.Answers address ∧ ∃ visits,
    R.Begins address (R.roots address) visits ∧ visits.length = c₀.config.maxWalkVisits + 1 ∧
    D.At c₀ (words ++ R.codecWords address (visits.take c₀.config.maxWalkVisits)) c w
  misused _ := False
  stuck _ := False

theorem codecWalk_at {address : BitVec 8} (haddress : Reaches carries address) (h : D.At c₀ words c w) :
    Ensures W n (Codec.walk address) c w (D.within c₀ address words) := by
  refine ensures_bind.2 ((parameter_at haddress 0 .vendorId h).of_succeeds ?_)
  rintro _ c w ⟨rfl, h⟩
  change Ensures W n (if R.ask address 0 .vendorId == Response.absent || R.ask address 0 .vendorId == Response.timedOut then _
    else _) c w _
  by_cases ha : R.Answers address
  · rw [if_neg (by simpa [Replies.Answers] using ha)]
    refine ensures_bind.2 ((note_at h).of_succeeds fun _ c w h => ?_)
    refine ensures_bind.2 ((read_at haddress 0 h).of_succeeds ?_)
    rintro _ c w ⟨rfl, h⟩
    refine ensures_bind.2 ((configure_at haddress 0 _ h).of_succeeds fun _ c w h => ?_)
    refine ensures_bind.2 (ensures_get.2 ?_)
    have hconfig : c.config = c₀.config := by obtain ⟨t, rfl, -⟩ := h; rfl
    have hwords : ∀ visits, words ++ R.codecWords address visits =
        words ++ [Replies.vendorWord address 0] ++ R.nodeWords address 0 ++ visits.flatMap (R.visitWords address) :=
      fun visits => by
        rw [Replies.codecWords, if_pos ha]
        simp only [List.append_assoc, List.cons_append, List.nil_append]
    have hsent : D.At c₀ (words ++ [Replies.vendorWord address 0] ++ R.nodeWords address 0) c w := by
      rw [Replies.nodeWords, ← List.append_assoc]; exact h
    have hbelow := walkBelow_at haddress c₀.config.maxWalkVisits (R.roots address) [] hsent
    rw [← hconfig] at hbelow
    refine ensures_bind.2 (hbelow.mono ?_ ?_ (fun _ h => h) (fun _ h => h))
    · rintro nodes c' w' ⟨visits, hvisits, hle, rfl, h⟩
      refine ensures_bind.2 ((note_at h).of_succeeds fun _ c w h => ⟨visits, fun _ => ⟨hvisits, hconfig ▸ hle⟩, ?_, ?_⟩)
      · rw [if_pos ha, Replies.foldl_record]; rfl
      · rw [hwords]; exact h
    · rintro e c' w' ⟨rfl, visits, hvisits, hlen, h⟩
      rw [hconfig] at hlen h
      exact ⟨rfl, ha, visits, hvisits, hlen, by rw [hwords]; exact h⟩
  · rw [if_pos (by simpa [Replies.Answers, Decidable.or_iff_not_imp_left] using ha)]
    refine ensures_bind.2 ((note_at h).of_succeeds fun _ c w h => ⟨[], fun h => absurd h ha, (if_neg ha).symm, ?_⟩)
    rwa [Replies.codecWords, if_neg ha]

/-- What a walk of several codecs comes to: with each address goes what was visited there. -/
def across (D : Courier W n R carries) (c₀ : Controller) (addresses : List (BitVec 8)) (words : List (BitVec 32)) :
    Outcome Controller (List Codec) ω where
  ok codecs c w := ∃ tour : List (BitVec 8 × List (BitVec 8)), tour.map (·.1) = addresses ∧
    (∀ s ∈ tour, R.Explored s.1 c₀.config.maxWalkVisits s.2) ∧
    codecs = (tour.filter fun s => R.Answers s.1).map (fun s => R.codecAt s.1 s.2) ∧
    D.At c₀ (words ++ tour.flatMap fun s => R.codecWords s.1 s.2) c w
  error e c w := ∃ (tour : List (BitVec 8 × List (BitVec 8))) (a : BitVec 8) (visits rest : List (BitVec 8)),
    addresses = tour.map (·.1) ++ a :: rest ∧ (∀ s ∈ tour, R.Explored s.1 c₀.config.maxWalkVisits s.2) ∧
    R.Answers a ∧ R.Begins a (R.roots a) visits ∧ visits.length = c₀.config.maxWalkVisits + 1 ∧
    e = .topologyOverflow a ∧
    D.At c₀ (words ++ tour.flatMap (fun s => R.codecWords s.1 s.2) ++
      R.codecWords a (visits.take c₀.config.maxWalkVisits)) c w
  misused _ := False
  stuck _ := False

theorem walkAll_at : ∀ {addresses : List (BitVec 8)} {words : List (BitVec 32)} {c : Controller} {w : ω},
    (∀ a ∈ addresses, Reaches carries a) → D.At c₀ words c w → Ensures W n (Codec.walkAll addresses) c w (D.across c₀ addresses words)
  | [], words, c, w, _, h => ⟨[], rfl, fun _ h => (List.not_mem_nil h).elim, rfl, by rwa [List.flatMap_nil, List.append_nil]⟩
  | address :: addresses, words, c, w, hall, h => by
    obtain ⟨haddress, haddresses⟩ := List.forall_mem_cons.1 hall
    refine ensures_bind.2 ((codecWalk_at haddress h).mono ?_ ?_ (fun _ h => h) (fun _ h => h))
    · rintro codec? c w ⟨visits, hexplored, rfl, h⟩
      have hcons : ∀ {tour : List (BitVec 8 × List (BitVec 8))}, (∀ s ∈ tour, R.Explored s.1 c₀.config.maxWalkVisits s.2) →
          ∀ s ∈ (address, visits) :: tour, R.Explored s.1 c₀.config.maxWalkVisits s.2 :=
        fun hall => List.forall_mem_cons.2 ⟨hexplored, hall⟩
      refine ensures_bind.2 ((walkAll_at haddresses h).mono ?_ ?_ (fun _ h => h) (fun _ h => h))
      · rintro codecs c w ⟨tour, rfl, hall, rfl, h⟩
        refine ⟨(address, visits) :: tour, rfl, hcons hall, ?_, ?_⟩
        · by_cases ha : R.Answers address
          · rw [if_pos ha, List.filter_cons_of_pos (by simpa using ha)]; rfl
          · rw [if_neg ha, List.filter_cons_of_neg (by simpa using ha)]; rfl
        · rwa [List.flatMap_cons, ← List.append_assoc]
      · rintro e c w ⟨tour, a, visits', rest, rfl, hall, ha, hbegins, hlen, rfl, h⟩
        refine ⟨(address, visits) :: tour, a, visits', rest, rfl, hcons hall, ha, hbegins, hlen, rfl, ?_⟩
        rwa [List.flatMap_cons, ← List.append_assoc words]
    · rintro e c w ⟨rfl, ha, visits, hbegins, hlen, h⟩
      exact ⟨[], address, visits, addresses, rfl, fun _ h => (List.not_mem_nil h).elim, ha, hbegins, hlen, rfl, by
        rwa [List.flatMap_nil, List.append_nil]⟩

end Courier

/-! ### The walk -/

namespace Controller

theorem mem_codecAddresses {c : Controller} {a : BitVec 8} :
    a ∈ c.codecAddresses ↔ a.toNat < maxCodecs ∧ c.presentCodecs.getLsbD a.toNat = true := by
  simp only [codecAddresses, List.mem_map, List.mem_filter, List.mem_range]
  constructor
  · rintro ⟨i, ⟨hlt, hset⟩, rfl⟩
    have hi : (BitVec.ofNat 8 i).toNat = i := Nat.mod_eq_of_lt (Nat.lt_trans hlt (by decide))
    rw [hi]
    exact ⟨hlt, hset⟩
  · rintro ⟨hlt, hset⟩
    exact ⟨a.toNat, ⟨hlt, hset⟩, by rw [BitVec.ofNat_toNat, BitVec.setWidth_eq]⟩

theorem codecAddresses_ascend (c : Controller) : c.codecAddresses.Pairwise (· < ·) := by
  unfold codecAddresses
  rw [List.pairwise_map]
  refine (List.Pairwise.filter _ List.pairwise_lt_range).imp_of_mem fun {a b} ha hb hab => ?_
  have hbyte : ∀ {i}, i ∈ (List.range maxCodecs).filter (c.presentCodecs.getLsbD ·) → i < 256 := fun h =>
    Nat.lt_trans (List.mem_range.1 (List.mem_filter.1 h).1) (by decide)
  rw [BitVec.lt_def, BitVec.toNat_ofNat, BitVec.toNat_ofNat, Nat.mod_eq_of_lt (hbyte ha), Nat.mod_eq_of_lt (hbyte hb)]
  exact hab

end Controller

open Courier in
/-- **The topology walk is the unfolding of every codec** that answers, by ascending address.  With each address goes what
was visited there: nothing but the question for the vendor where the root does not answer, and the preorder of the tree
below the root otherwise.  The walk comes back with one codec for each address that answers, unless the preorder of one
of them has more visits than are allowed; the first such codec ends it. -/
theorem Topology.walk_unfolds {ω : Type} {W : World Call Call.Answer ω} {n : Nat} {R : Replies} (D : Responder W n R)
    {c : Controller} {t : Transport} {w : ω} (ht : c.transport = some t) (hready : D.Ready t w) :
    Ensures W n Topology.walk c w {
      ok := fun topology _ w' => ∃ tour : List (BitVec 8 × List (BitVec 8)), tour.map (·.1) = c.codecAddresses ∧
        (∀ s ∈ tour, R.Answers s.1 →
          R.Unfolds s.1 (R.roots s.1) s.2 ∧ s.2.length ≤ c.config.maxWalkVisits) ∧
        topology.codecs = (tour.filter fun s => R.Answers s.1).map (fun s => R.codecAt s.1 s.2) ∧
        D.sent w' = D.sent w ++ tour.flatMap fun s => R.codecWords s.1 s.2
      error := fun e _ w' => ∃ (tour : List (BitVec 8 × List (BitVec 8))) (a : BitVec 8) (visits rest : List (BitVec 8)),
        c.codecAddresses = tour.map (·.1) ++ a :: rest ∧
        (∀ s ∈ tour, R.Answers s.1 →
          R.Unfolds s.1 (R.roots s.1) s.2 ∧ s.2.length ≤ c.config.maxWalkVisits) ∧
        R.Answers a ∧ R.Begins a (R.roots a) visits ∧ visits.length = c.config.maxWalkVisits + 1 ∧
        e = .topologyOverflow a ∧
        D.sent w' = D.sent w ++ tour.flatMap (fun s => R.codecWords s.1 s.2) ++
          R.codecWords a (visits.take c.config.maxWalkVisits)
      misused := fun _ => False
      stuck := fun _ => False } := by
  have h : D.courier.At c (D.sent w) c w := ⟨t, by rw [← ht], hready, rfl⟩
  refine ensures_bind.2 (ensures_get.2 (ensures_bind.2 ((walkAll_at (fun _ _ _ _ => trivial) h).mono ?_ ?_ (fun _ h => h)
    (fun _ h => h))))
  · rintro codecs c' w' ⟨tour, htour, hall, rfl, t', rfl, -, hsent⟩
    exact ⟨tour, htour, hall, rfl, hsent⟩
  · rintro e c' w' ⟨tour, a, visits, rest, htour, hall, ha, hbegins, hlen, rfl, t', rfl, -, hsent⟩
    exact ⟨tour, a, visits, rest, htour, hall, ha, hbegins, hlen, rfl, hsent⟩

/-! ### A codec without an end -/

/-- A controller that answers at once: the last word written, and every word sent. -/
def instantReply (R : Replies) : (c : Call) → BitVec 32 × List (BitVec 32) → c.Answer × BitVec 32 × List (BitVec 32)
  | .read _ o, s => (.ok (if o = Register.icii then R s.1 else 2), s)
  | .write _ o v, s => (.ok (), if o = Register.icoi then (v, s.2 ++ [v]) else s)
  | .allocate _, s => (.error .outOfResources, s)
  | .candidates, s => (.error .noController, s)
  | .identify _, s => (.error .noController, s)
  | .bindExclusive _, s => (.error .noController, s)
  | .timerExpired, s => (.ok false, s)
  | .release, s | .free _, s | .stall _, s | .armTimer _, s | .cancelTimer, s => (.ok (), s)
  | .load32 _, s => ((0 : BitVec 32), s)
  | .load64 _, s => ((0 : BitVec 64), s)
  | .store32 .., s | .store64 .., s | .fill .., s | .clear .., s | .note _, s => ((), s)

theorem exchange_instant {σ : Type} (R : Replies) (timeout : BitVec 64) (word : BitVec 32) (t : σ)
    (s : BitVec 32 × List (BitVec 32)) : (ImmediateInterface.exchange timeout word 1 t).run (instantReply R) s =
      (.result (.ok (R word), t), (word, s.2 ++ [word])) := by
  have hvalid : (ImmediateStatus.mk ((2 : BitVec 32).setWidth 16)).valid = true := rfl
  have hsend : (Register.icis = Register.icoi) = False := by decide
  have hstatus : (Register.icis = Register.icii) = False := by decide
  simp only [ImmediateInterface.exchange, ImmediateInterface.awaitResponse, bind, Procedure.bind, pure, Procedure.pure,
    write16, write32, write, Procedure.read, read16, read32, Program.bind, Program.run, continueWith, instantReply, armTimer,
    cancelTimer, hsend, hstatus, if_false, if_true, hvalid, note, request]

/-- The immediate interface of such a controller. -/
def instantResponder (R : Replies) : Responder (fun c s a s' => (a, s') = instantReply R c s) 1 R where
  Ready t _ := t.kind = .immediate
  sent s := s.2
  exchange {t s} word hready := by
    cases t with
    | immediate timeout =>
      refine Program.ensures_of_run ?_
      rw [show Transport.exchange word 1 (.immediate timeout) = ImmediateInterface.exchange timeout word 1 _ from rfl,
        exchange_instant]
      exact ⟨rfl, rfl, rfl⟩
    | rings r => cases hready
  note hready hw := by cases hw; exact ⟨hready, rfl⟩

/-- Every node has node 1 for its child. -/
def endless : Replies := fun _ => 0x00010001

theorem not_unfolds_endless {visits : List (BitVec 8)} : ¬endless.Unfolds 0 [1] visits := by
  generalize hids : [(1 : BitVec 8)] = ids
  intro h
  induction h with
  | nil => cases hids
  | absent h rest ih => exact h (show (0x00010001 : BitVec 32) ≠ Response.timedOut by decide)
  | node h children rest ihc ihr =>
    cases hids
    exact ihc rfl

/-- No allowance is enough for a node below itself, not the default one either. -/
theorem Topology.walk_unfolds_endless :
    Ensures (fun c s a s' => (a, s') = instantReply endless c s) 1 Topology.walk
      { config := {}, presentCodecs := 1, transport := some (.immediate 0) } (0, [])
      ⟨fun _ _ _ => False, fun e _ _ => e = .topologyOverflow 0, fun _ => False, fun _ => False⟩ := by
  have hready : (instantResponder endless).Ready (.immediate 0) (0, []) := rfl
  refine (Topology.walk_unfolds (instantResponder endless) rfl hready).mono ?_ ?_ (fun _ h => h) (fun _ h => h)
  · rintro topology c w ⟨tour, htour, hall, -⟩
    cases tour with
    | nil => cases htour
    | cons s tour =>
      obtain ⟨hs, -⟩ : s.1 = 0 ∧ tour.map (·.1) = [] := List.cons.inj (htour.trans (rfl : _ = [(0 : BitVec 8)]))
      have hunfolds := (hall s List.mem_cons_self (by rw [hs]; decide)).1
      rw [hs] at hunfolds
      exact not_unfolds_endless hunfolds
  · rintro e c w ⟨tour, a, visits, rest, haddr, -, -, -, -, rfl, -⟩
    have ha : a ∈ [(0 : BitVec 8)] := by
      rw [show [(0 : BitVec 8)] = _ from haddr]
      exact List.mem_append_right _ List.mem_cons_self
    rw [List.mem_singleton.1 ha]

end AudioBringup
