import AudioBringup.Proofs.Mail
/-!
# Proofs.TimedOutAnswers — what a walk makes of questions that time out

Through the immediate interface a question that times out is answered by `Response.timedOut`, which the walk knows for what
it is where it asked for a vendor: such a node is skipped, whatever it would have answered otherwise (`walk_skips_silent`).
Where it asked for another parameter it takes that for the value of the parameter (`walk_takes_silence`).
-/
namespace AudioBringup

open Procedure

/-! ### The walk -/

namespace Topology

/-- **A node is skipped if the question for its vendor times out**, and nothing else comes of that: whatever the platform
answers and whichever questions time out, the letters of the walk are those of a tour of the codecs that reported in, and
what it finds is what the tour finds.  A walk that ends in any other way has the first letters of a tour.  Either way each
word has a ground in the letters before it. -/
theorem walk_skips_silent {n : Nat} {c : Controller} {timeout : BitVec 64} {h : History} :
    Ensures recording n walk { c with transport := some (.immediate timeout) } h ((mail n).adds h.letters
      (fun topology l => Toured c.codecAddresses l topology.codecs ∧ Grounded c.codecAddresses l)
      fun l => (∃ codecs whole, Toured c.codecAddresses whole codecs ∧ Letter.Begins whole l) ∧
        Grounded c.codecAddresses l) := by
  apply (Correspondent.walk_writes c).adds
  · exact fun topology l htour => ⟨htour, htour.grounded⟩
  · exact fun topology whole l htour hbegins => ⟨⟨topology.codecs, whole, htour, hbegins⟩, htour.grounded.begins hbegins⟩
  · trivial

end Topology

/-! ### Silence taken for an answer -/

/-- A platform with an immediate interface, and codecs that answer some words at once and others not at all. -/
def hosting (R : BitVec 32 → Option (BitVec 32)) : (c : Call) → History → c.Answer
  | .read _ o, h =>
    let response := R (h.left Register.icoi)
    .ok (if o = Register.icis then (if response.isSome then 2 else 0) else response.getD 0)
  | .timerExpired, _ => .ok true
  | .candidates, _ => .ok []
  | .identify _, _ => .error .noController
  | .allocate _, _ => .error .outOfResources
  | .bindExclusive _, _ | .release, _ | .write .., _ | .free _, _ | .stall _, _ | .armTimer _, _ | .cancelTimer, _ => .ok ()
  | .load32 _, _ => (0 : BitVec 32)
  | .load64 _, _ => (0 : BitVec 64)
  | .store32 .., _ | .store64 .., _ | .fill .., _ | .clear .., _ | .note _, _ => ()

namespace Topology

/-- The question for the children of node 2. -/
def childrenOfTwo : BitVec 32 := (Command.getParameter 0 2 .subordinateNodeCount).encode

/-- A codec with one node, 2, which does not say what children it has. -/
def reticent (word : BitVec 32) : Option (BitVec 32) :=
  if word = childrenOfTwo then none
  else if word = (Command.getParameter 0 0 .vendorId).encode then some 1
  else if word = (Command.getParameter 0 0 .subordinateNodeCount).encode then some 0x20001
  else some 0

/-- A node of which a question was not answered is not in the topology. -/
def PassesOver (h : History) (topology : Topology) : Prop := ∀ (addr : NodeAddr) p,
  ⟨.note (.unanswered (Command.getParameter addr.codec addr.node p).encode), ()⟩ ∈ h → topology.node? addr = none

/-- The question was not answered, and the node is in the topology all the same, with a child that it never named. -/
def invented : Ending (Except Error Topology × Controller) × History → Bool
  | (.result (.ok topology, _), h) => (topology.node? ⟨0, 2⟩).isSome && (topology.node? ⟨0, 255⟩).isSome && h.any fun m =>
      match m with
      | ⟨.note (.unanswered word), _⟩ => word == childrenOfTwo
      | _ => false
  | _ => false

/-- **Silence is taken for an answer**: where the question for the children of a node times out, the node is found, and so is
a child 255 that no codec has. -/
theorem walk_takes_silence : ¬Ensures recording 1 walk soleCodec []
    ⟨fun topology _ h => PassesOver h topology, fun _ _ _ => True, fun _ => True, fun _ => True⟩ := by
  refine Procedure.refuted (hosting reticent) invented (by decide +kernel) ?_
  rintro ⟨⟨e | topology, _⟩ | cause | _, h⟩ hinvented hpasses
  · cases hinvented
  · obtain ⟨hfound, hasked⟩ := Bool.and_eq_true_iff.1 hinvented
    obtain ⟨hfound, -⟩ := Bool.and_eq_true_iff.1 hfound
    obtain ⟨m, hm, hword⟩ := List.any_eq_true.1 hasked
    split at hword
    · rename_i word _
      cases eq_of_beq hword
      have hnone : topology.node? ⟨0, 2⟩ = none := hpasses ⟨0, 2⟩ .subordinateNodeCount hm
      rw [hnone] at hfound
      cases hfound
    · cases hword
  · cases hinvented
  · cases hinvented

end Topology
end AudioBringup
