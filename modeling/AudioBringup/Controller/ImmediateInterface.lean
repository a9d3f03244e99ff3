import AudioBringup.Procedure.Wait
/-!
# Controller.ImmediateInterface — commands and responses through a pair of registers

One command at a time: the word goes into one register, its response comes back in another.  Every command runs under a
timer of its own, and a command whose timer expires is answered by `Response.timedOut`.
-/
namespace AudioBringup
namespace ImmediateInterface

open Procedure

variable {σ : Type}

/-- Looks for the response and at the timer in turn, for `patience` rounds: whether the response came first. -/
def awaitResponse : (patience : Nat) → Procedure σ Bool
  | 0 => fun _ _ => .stuck
  | patience + 1 => do
    let status := ImmediateStatus.mk (← read16 Register.icis)
    if status.valid then return true
    else if ← timerExpired then return false
    else awaitResponse patience

/-- Sends one word and waits for its response for `timeout` units of 100 ns. -/
def exchange (timeout : BitVec 64) (word : BitVec 32) : Procedure σ (BitVec 32) := do
  -- drops a response left over from a command that timed out
  write16 Register.icis ((ImmediateStatus.mk 0).withValid true).raw
  write32 Register.icoi word
  write16 Register.icis ((ImmediateStatus.mk 0).withBusy true).raw
  armTimer timeout
  let answered ← fun patience => awaitResponse patience patience
  cancelTimer
  if answered then
    let response ← read32 Register.icii
    -- the valid bit is cleared by writing it back
    let status ← read16 Register.icis
    write16 Register.icis status
    note (.answered .immediate word response)
    return response
  else
    note (.unanswered word)
    return Response.timedOut

end ImmediateInterface
end AudioBringup
