import AudioBringup.Playback.Streams
import AudioBringup.Proofs.Channel
/-!
# Proofs.Lockstep — the walk over two ways to the same codecs

Two controllers that differ in their transports only, each a channel to the same link.  Whatever they send next is the same
word, so it is answered the same, so they stay in lockstep: by induction over the walk they find the same topology, or give
up at the same codec.
-/
namespace AudioBringup

open Procedure

variable {ω ω₁ ω₂ ρ : Type} {W : World Call Call.Answer ω} {W₁ : World Call Call.Answer ω₁} {W₂ : World Call Call.Answer ω₂}
  {n : Nat} {link : Link} {P : Platform ρ}

theorem Channel.noted (D : Channel W n link P) {t : Transport} {words : List (BitVec 32)} {x : ρ} {w w' : ω} {m : Notice} {a : Unit}
    (h : D.At t words x w) (hw : W (.note m) w a w') : D.At t words x w' := by
  have hforeign : (Call.note m).Foreign := trivial
  obtain ⟨x', hx, h'⟩ := D.foreign h hforeign hw
  obtain rfl : x' = x := hx
  exact h'

/-- One command over a channel. -/
theorem Channel.command (D : Channel W n link P) {c₀ : Controller} {t : Transport} {words : List (BitVec 32)} {x : ρ} {w : ω}
    {cmd : Command} {answer : BitVec 32} (h : D.At t words x w) (ha : link.answer? words cmd.encode = some answer) :
    Ensures W n (Controller.command cmd) { c₀ with transport := some t } w (.succeeds fun a c w' => a = answer ∧
      ∃ t', c = { c₀ with transport := some t' } ∧ D.At t' (words ++ [cmd.encode]) x w') := by
  have hexchange : ∀ {w}, D.At t words x w → Ensures W n
      (on t (fun t (c : Controller) => { c with transport := some t }) (Transport.exchange cmd.encode))
      { c₀ with transport := some t } w (.succeeds fun a c w' => a = answer ∧
        ∃ t', c = { c₀ with transport := some t' } ∧ D.At t' (words ++ [cmd.encode]) x w') := by
    intro w h
    refine ensures_on.2 ((D.exchange h ha).of_succeeds ?_)
    rintro a t' w' ⟨rfl, h⟩
    exact ⟨rfl, t', rfl, h⟩
  refine ensures_bind.2 (ensures_get.2 ?_)
  change Ensures W n (if cmd.indirect then (do
      note (.indirectNode cmd.node cmd.codec)
      on t (fun t (c : Controller) => { c with transport := some t }) (Transport.exchange cmd.encode))
    else on t (fun t (c : Controller) => { c with transport := some t }) (Transport.exchange cmd.encode)) _ _ _
  split
  · exact ensures_bind.2 (ensures_note.2 fun w' hw => hexchange (D.noted h hw))
  · exact hexchange h

namespace Lockstep

/-- The controllers are `c₀` but for their transports, the same words have been sent over both, and the platforms are in
the same state. -/
def Level (D₁ : Channel W₁ n link P) (D₂ : Channel W₂ n link P) (c₀ c₁ : Controller) (w₁ : ω₁) (c₂ : Controller) (w₂ : ω₂) :
    Prop :=
  ∃ t₁ t₂ words x, c₁ = { c₀ with transport := some t₁ } ∧ c₂ = { c₀ with transport := some t₂ } ∧
    D₁.At t₁ words x w₁ ∧ D₂.At t₂ words x w₂

/-- The same words have been sent on both sides. -/
def SameSent (D₁ : Channel W₁ n link P) (D₂ : Channel W₂ n link P) (w₁ : ω₁) (w₂ : ω₂) : Prop := D₁.sent w₁ = D₂.sent w₂

section
variable {D₁ : Channel W₁ n link P} {D₂ : Channel W₂ n link P} {c₀ : Controller} {α β : Type} {V : α → β → Prop}

theorem Level.sameSent {c₁ c₂ : Controller} {w₁ : ω₁} {w₂ : ω₂} (h : Level D₁ D₂ c₀ c₁ w₁ c₂ w₂) : SameSent D₁ D₂ w₁ w₂ := by
  obtain ⟨t₁, t₂, words, x, -, -, h₁, h₂⟩ := h
  exact (D₁.sent_eq h₁).trans (D₂.sent_eq h₂).symm

/-- Two steps of controllers in lockstep. -/
abbrev Locked (D₁ : Channel W₁ n link P) (D₂ : Channel W₂ n link P) (c₀ : Controller) (V : α → β → Prop)
    (x : Procedure Controller α) (y : Procedure Controller β) : Prop :=
  Matched W₁ W₂ n (Level D₁ D₂ c₀) (SameSent D₁ D₂) V x y

theorem note_locked (m : Notice) : Locked D₁ D₂ c₀ (fun _ _ => True) (note m) (note m) := by
  refine matched_ask ?_
  rintro c₁ w₁ c₂ w₂ ⟨t₁, t₂, words, x, rfl, rfl, h₁, h₂⟩ a w₁' b w₂' ha hb
  exact ⟨trivial, t₁, t₂, words, x, rfl, rfl, D₁.noted h₁ ha, D₂.noted h₂ hb⟩

theorem get_locked {f : Controller → Procedure Controller α} {g : Controller → Procedure Controller β}
    (h : ∀ t₁ t₂, Locked D₁ D₂ c₀ V (f { c₀ with transport := some t₁ }) (g { c₀ with transport := some t₂ })) :
    Locked D₁ D₂ c₀ V (get >>= f) (get >>= g) := by
  refine matched_get ?_
  rintro c₁ w₁ c₂ w₂ ⟨t₁, t₂, words, x, rfl, rfl, -⟩
  exact h t₁ t₂

/-- **A command to a codec that is there** is answered the same on both sides. -/
theorem command_locked {cmd : Command} (hcodec : link.Has cmd.codec) :
    Locked D₁ D₂ c₀ Eq (Controller.command cmd) (Controller.command cmd) := by
  refine matched_of_ensures ?_
  rintro c₁ w₁ c₂ w₂ ⟨t₁, t₂, words, x, rfl, rfl, h₁, h₂⟩
  obtain ⟨answer, ha⟩ := Link.answer?_isSome hcodec words
  refine ⟨_, _, D₁.command h₁ ha, D₂.command h₂ ha, ?_⟩
  rintro a c₁ w₁' b c₂ w₂' ⟨rfl, t₁', rfl, h₁⟩ ⟨rfl, t₂', rfl, h₂⟩
  exact ⟨rfl, t₁', t₂', _, x, rfl, rfl, h₁, h₂⟩

/-! ### One node -/

theorem read_locked {addr : NodeAddr} (hcodec : link.Has addr.codec) (vendorId : BitVec 32) :
    Locked D₁ D₂ c₀ Eq (Node.read addr vendorId) (Node.read addr vendorId) := by
  unfold Node.read Controller.getParameter
  iterate 15
    refine matched_bind (command_locked hcodec) ?_
    rintro _ _ rfl
  exact matched_pure rfl

theorem sendIf_locked {wanted : Bool} {m : Notice} {cmd : Command} {rest : Procedure Controller Unit}
    (hcodec : link.Has cmd.codec) (hrest : Locked D₁ D₂ c₀ Eq rest rest) : Locked D₁ D₂ c₀ Eq
      (if wanted then (do
        note m
        let _ ← Controller.command cmd
        rest) else rest)
      (if wanted then (do
        note m
        let _ ← Controller.command cmd
        rest) else rest) := by
  cases wanted
  · exact hrest
  · exact matched_bind (note_locked m) fun _ _ _ => matched_bind (command_locked hcodec) fun _ _ _ => hrest

theorem configure_locked {addr : NodeAddr} (hcodec : link.Has addr.codec) (node : Node) :
    Locked D₁ D₂ c₀ Eq (Node.configure addr node) (Node.configure addr node) :=
  sendIf_locked hcodec (sendIf_locked hcodec (sendIf_locked hcodec (matched_pure rfl)))

theorem visit_locked {codec : BitVec 8} (hcodec : link.Has codec) (id : BitVec 8) :
    Locked D₁ D₂ c₀ Eq (Codec.visit codec id) (Codec.visit codec id) := by
  unfold Codec.visit Controller.getParameter
  refine matched_bind (command_locked hcodec) ?_
  rintro vendorId _ rfl
  split
  · exact matched_bind (note_locked _) fun _ _ _ => matched_pure rfl
  · refine matched_bind (read_locked hcodec vendorId) ?_
    rintro node _ rfl
    refine matched_bind (note_locked _) fun _ _ _ => ?_
    exact matched_bind (configure_locked hcodec node) fun _ _ _ => matched_pure rfl

/-! ### The walk -/

theorem walkBelow_locked {codec : BitVec 8} (hcodec : link.Has codec) : ∀ (allowance : Nat) (pending : List (BitVec 8))
    (found : NodeTable), Locked D₁ D₂ c₀ Eq (Codec.walkBelow codec allowance pending found)
      (Codec.walkBelow codec allowance pending found)
  | _, [], found => by
    unfold Codec.walkBelow
    exact matched_pure rfl
  | 0, _ :: _, found => matched_fail _
  | allowance + 1, id :: pending, found => by
    unfold Codec.walkBelow
    refine matched_bind (visit_locked hcodec id) ?_
    rintro node? _ rfl
    cases node? with
    | none => exact walkBelow_locked hcodec allowance pending found
    | some node => exact walkBelow_locked hcodec allowance (node.children ++ pending) (NodeTable.insert id node found)

theorem codecWalk_locked {address : BitVec 8} (hcodec : link.Has address) :
    Locked D₁ D₂ c₀ (fun a b => a = b ∧ ∀ codec ∈ a, codec.address = address) (Codec.walk address) (Codec.walk address) := by
  unfold Codec.walk Controller.getParameter
  refine matched_bind (command_locked hcodec) ?_
  rintro vendorId _ rfl
  split
  · exact matched_bind (note_locked _) fun _ _ _ => matched_pure ⟨rfl, nofun⟩
  · refine matched_bind (note_locked _) fun _ _ _ => matched_bind (read_locked hcodec vendorId) ?_
    rintro root _ rfl
    refine matched_bind (configure_locked hcodec root) fun _ _ _ => get_locked fun t₁ t₂ => ?_
    refine matched_bind (walkBelow_locked hcodec c₀.config.maxWalkVisits root.children []) ?_
    rintro nodes _ rfl
    refine matched_bind (note_locked _) fun _ _ _ => matched_pure ⟨rfl, ?_⟩
    rintro codec hmem
    cases hmem
    rfl

theorem walkAll_locked : ∀ {addresses : List (BitVec 8)}, (∀ a ∈ addresses, link.Has a) →
    Locked D₁ D₂ c₀ (fun a b => a = b ∧ ∀ codec ∈ a, codec.address ∈ addresses) (Codec.walkAll addresses)
      (Codec.walkAll addresses)
  | [], _ => matched_pure ⟨rfl, nofun⟩
  | address :: rest, hall => by
    unfold Codec.walkAll
    refine matched_bind (codecWalk_locked (hall address List.mem_cons_self)) ?_
    rintro codec _ ⟨rfl, haddress⟩
    refine matched_bind (walkAll_locked fun a ha => hall a (List.mem_cons_of_mem address ha)) ?_
    rintro codecs _ ⟨rfl, hrest⟩
    refine matched_pure ⟨rfl, fun codec' hmem => ?_⟩
    rcases List.mem_append.1 hmem with hmem | hmem
    · rw [haddress codec' (Option.mem_toList.1 hmem)]
      exact List.mem_cons_self
    · exact List.mem_cons_of_mem address (hrest codec' hmem)

/-- **The walk finds the same on both sides**, where there is a codec at every address that reported in. -/
theorem walk_locked (hall : ∀ a ∈ c₀.codecAddresses, link.Has a) :
    Locked D₁ D₂ c₀ (fun a b => a = b ∧ ∀ codec ∈ a.codecs, link.Has codec.address) Topology.walk Topology.walk := by
  refine get_locked fun t₁ t₂ => matched_bind (walkAll_locked hall) ?_
  rintro codecs _ ⟨rfl, haddress⟩
  exact matched_pure ⟨rfl, fun codec hmem => hall _ (haddress codec hmem)⟩

theorem formatConverters_locked : ∀ {converters : List NodeAddr}, (∀ addr ∈ converters, link.Has addr.codec) →
    Locked D₁ D₂ c₀ Eq (Streams.formatConverters converters) (Streams.formatConverters converters)
  | [], _ => matched_pure rfl
  | addr :: rest, hall => by
    have hcodec := hall addr List.mem_cons_self
    refine get_locked fun t₁ t₂ => matched_bind (note_locked _) fun _ _ _ => ?_
    refine matched_bind (command_locked hcodec) fun _ _ _ => matched_bind (command_locked hcodec) fun _ _ _ => ?_
    exact formatConverters_locked fun a ha => hall a (List.mem_cons_of_mem addr ha)

end

end Lockstep
end AudioBringup
