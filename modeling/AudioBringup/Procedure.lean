import AudioBringup.Call
import AudioBringup.Register
/-!
# Procedure — the steps of the bring-up

A procedure makes calls, can fail with an `Error`, and works on a state that outlives the failure: what a step did to
it before it failed is still done.  `within` runs a procedure on a state of its own and hands out both its result and
that state.  `on` runs one on a part of the state.

A wait without a limit is followed for `patience` checks only and is `stuck` after that, so that every procedure is a
finite program.  Nothing else depends on it.
-/
namespace AudioBringup

/-- A procedure on a state in `σ` with a result in `α`. -/
def Procedure (σ α : Type) : Type := Nat → σ → Program Call Call.Answer (Except Error α × σ)

namespace Procedure

variable {σ τ α β : Type}

protected def pure (a : α) : Procedure σ α := fun _ s => .pure (.ok a, s)

/-- What follows a procedure's result: the next procedure, or nothing after a failure. -/
def continueWith (f : α → Procedure σ β) (patience : Nat) :
    Except Error α × σ → Program Call Call.Answer (Except Error β × σ)
  | (.ok a, s) => f a patience s
  | (.error e, s) => .pure (.error e, s)

protected def bind (x : Procedure σ α) (f : α → Procedure σ β) : Procedure σ β := fun patience s =>
  (x patience s).bind (continueWith f patience)

instance : Monad (Procedure σ) where
  pure := Procedure.pure
  bind := Procedure.bind

/-! ### Failure and state -/

def fail (e : Error) : Procedure σ α := fun _ s => .pure (.error e, s)

/-- Ends the program for a call outside its contract. -/
def misuse (m : Misuse) : Procedure σ α := fun _ _ => .misused m

/-- The result of a procedure, failure or not. -/
def attempt (x : Procedure σ α) : Procedure σ (Except Error α) := fun patience s =>
  (x patience s).bind fun (r, s) => .pure (.ok r, s)

def get : Procedure σ σ := fun _ s => .pure (.ok s, s)

def modify (f : σ → σ) : Procedure σ Unit := fun _ s => .pure (.ok (), f s)

/-- Runs a procedure on a state of its own; returns its result, failure or not, with the state it left. -/
def within (t : τ) (x : Procedure τ α) : Procedure σ (Except Error α × τ) := fun patience s =>
  (x patience t).bind fun r => .pure (.ok r, s)

/-- Runs a procedure on the part `t` of the state and puts back what it left. -/
def on (t : τ) (put : τ → σ → σ) (x : Procedure τ α) : Procedure σ α := fun patience s =>
  (x patience t).bind fun (r, t) => .pure (r, put t s)

/-- Runs `x` for `count` numbers from `first` up, each whether or not the one before it failed; the last result, failure
or not, or `last` without any. -/
def timesFrom (x : Nat → Procedure σ α) (first : Nat) (last : Option (Except Error α)) :
    (count : Nat) → Procedure σ (Option (Except Error α))
  | 0 => Procedure.pure last
  | count + 1 => do timesFrom x (first + 1) (some (← attempt (x first))) count

/-- Runs `x` for the numbers below `count`, whether it fails or not; the last result, if there is one. -/
def times (x : Nat → Procedure σ α) (count : Nat) : Procedure σ (Option (Except Error α)) := timesFrom x 0 none count

/-! ### Calls -/

/-- Makes a call that cannot fail. -/
def request (c : Call) : Procedure σ c.Answer := fun _ s => .ask c fun a => .pure (.ok a, s)

def note (n : Notice) : Procedure σ Unit := request (.note n)

def candidates : Procedure σ (List Pci.Candidate) := fun _ s => .ask .candidates fun r => .pure (r, s)

def identify (c : Pci.Candidate) : Procedure σ Pci.Identity := fun _ s => .ask (.identify c) fun r => .pure (r, s)

def bindExclusive (c : Pci.Candidate) : Procedure σ Unit := fun _ s => .ask (.bindExclusive c) fun r => .pure (r, s)

def release : Procedure σ Unit := fun _ s => .ask .release fun r => .pure (r, s)

def read (w : Width) (offset : BitVec 32) : Procedure σ (BitVec 32) := fun _ s =>
  .ask (.read w offset) fun r => .pure (r, s)

def write (w : Width) (offset value : BitVec 32) : Procedure σ Unit := fun _ s =>
  .ask (.write w offset value) fun r => .pure (r, s)

def allocate (length : Nat) : Procedure σ Region := fun _ s => .ask (.allocate length) fun r => .pure (r, s)

def free (region : Region) : Procedure σ Unit := fun _ s => .ask (.free region) fun r => .pure (r, s)

def stall (microseconds : Nat) : Procedure σ Unit := fun _ s => .ask (.stall microseconds) fun r => .pure (r, s)

def armTimer (duration : BitVec 64) : Procedure σ Unit := fun _ s => .ask (.armTimer duration) fun r => .pure (r, s)

def timerExpired : Procedure σ Bool := fun _ s => .ask .timerExpired fun r => .pure (r, s)

def cancelTimer : Procedure σ Unit := fun _ s => .ask .cancelTimer fun r => .pure (r, s)

/-! ### Registers by width -/

def read8 (offset : BitVec 32) : Procedure σ (BitVec 8) := do return (← read .byte offset).setWidth 8

def read16 (offset : BitVec 32) : Procedure σ (BitVec 16) := do return (← read .word offset).setWidth 16

def read32 (offset : BitVec 32) : Procedure σ (BitVec 32) := read .dword offset

def write8 (offset : BitVec 32) (value : BitVec 8) : Procedure σ Unit := write .byte offset (value.setWidth 32)

def write16 (offset : BitVec 32) (value : BitVec 16) : Procedure σ Unit := write .word offset (value.setWidth 32)

def write32 (offset value : BitVec 32) : Procedure σ Unit := write .dword offset value

/-- Writes a device address into a pair of registers, lower half first. -/
def writeAddress (lower upper : BitVec 32) (address : BitVec 64) : Procedure σ Unit := do
  write32 lower (Bits.field address 0 32)
  write32 upper (Bits.field address 32 32)

end Procedure
end AudioBringup
