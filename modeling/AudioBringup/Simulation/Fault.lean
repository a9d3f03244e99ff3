/-!
# Simulation.Fault — calls that are made to fail

A fault waits for calls of one name, and of one offset if it names one.  It lets some of them pass, makes some fail
after that, and is used up then.
-/
namespace AudioBringup
namespace Simulation

/-- A plan to make calls fail. -/
structure Fault where
  call : String
  offset : Option Nat := none
  /-- calls still let pass -/
  skip : Nat := 0
  /-- calls still made to fail -/
  times : Nat := 1
  status : BitVec 64 := 0x8000000000000007
  /-- fail for want of memory, whatever the status -/
  outOfMemory : Bool := false
  deriving Repr, DecidableEq

namespace Fault

/-- The fault is about this call. -/
def concerns (f : Fault) (call : String) (offset : Option Nat) : Bool :=
  f.call == call && (f.offset.isNone || f.offset == offset)

/-- Holds a call against faults in their order: the one that strikes, if any, and the faults after that. -/
def strike (call : String) (offset : Option Nat) : List Fault → Option Fault × List Fault
  | [] => (none, [])
  | f :: rest =>
    if f.concerns call offset && f.skip == 0 && f.times != 0 then (some f, { f with times := f.times - 1 } :: rest)
    else
      let (struck, rest) := strike call offset rest
      (struck, (if f.concerns call offset && f.skip != 0 then { f with skip := f.skip - 1 } else f) :: rest)

end Fault
end Simulation
end AudioBringup
