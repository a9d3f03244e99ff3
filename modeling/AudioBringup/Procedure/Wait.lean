import AudioBringup.Procedure
/-!
# Procedure.Wait — waiting for the hardware by looking again and again

A wait checks first and counts after, so a limit of no checks still makes one.  Only a wait with a limit can time out.
-/
namespace AudioBringup
namespace Procedure

variable {σ : Type}

/-- Up to `left` more checks after `made`. -/
def waitBounded (site : WaitSite) (check : Procedure σ Bool) (made : Nat) : (left : Nat) → Procedure σ Unit
  | 0 => do
    note (.gaveUp site made)
    fail (.waitTimedOut site)
  | left + 1 => do
    if ← check then pure () else waitBounded site check (made + 1) left

/-- Checks without a limit, followed for `patience` of them. -/
def waitUnbounded (check : Procedure σ Bool) : (patience : Nat) → Procedure σ Unit
  | 0 => fun _ _ => .stuck
  | patience + 1 => do
    if ← check then pure () else waitUnbounded check patience

/-- Waits until `check` holds, for as long as `limit` lets it. -/
def waitUntil (site : WaitSite) (limit : WaitLimit) (check : Procedure σ Bool) : Procedure σ Unit :=
  match limit with
  | .iterations checks => waitBounded site check 0 (max checks 1)
  | .unbounded => fun patience => waitUnbounded check patience patience

end Procedure
end AudioBringup
