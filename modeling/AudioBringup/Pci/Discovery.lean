import AudioBringup.Procedure
/-!
# Pci.Discovery — finding the controller on the bus

The first candidate that is an HD audio controller, in the order the bus names them.
-/
namespace AudioBringup
namespace Pci

open Procedure

variable {σ : Type}

/-- The first controller among some candidates, with its identity. -/
def firstController : List Candidate → Procedure σ (Candidate × Identity)
  | [] => fail .noController
  | candidate :: rest => do
    let identity ← identify candidate
    note (.candidateSeen candidate identity)
    if identity.isController then
      note (.controllerFound identity)
      return (candidate, identity)
    else firstController rest

/-- The first controller on the bus. -/
def discover : Procedure σ (Candidate × Identity) := do
  let all ← candidates
  note (.candidatesFound all.length)
  firstController all

end Pci
end AudioBringup
