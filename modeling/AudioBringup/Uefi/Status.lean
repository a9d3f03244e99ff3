import AudioBringup.Hex
/-!
# Uefi.Status — what a firmware call answers

A status with the top bit set is an error.  Any other status, success or warning, lets the caller go on.
-/
namespace AudioBringup
namespace Uefi

/-- The answer of every firmware call. -/
abbrev Status := BitVec 64

namespace Status

/-- The error of a code. -/
def error (code : Nat) : Status := BitVec.ofNat 64 (0x8000000000000000 + code)

def success : Status := 0
def invalidParameter : Status := error 2
def unsupported : Status := error 3
def notReady : Status := error 6
def deviceError : Status := error 7
def outOfResources : Status := error 9
def notFound : Status := error 14
def timeout : Status := error 18

/-- The top bit tells errors from the rest. -/
def isError (s : Status) : Bool := s.getLsbD 63

end Status

/-- A firmware call that failed, and how. -/
structure Failure where
  op : String
  status : Status
  deriving Repr, DecidableEq

namespace Failure

/-- The text of a failure, in the pieces it is printed in; the status is shown without its error bit. -/
def pieces (f : Failure) : List String :=
  [f.op, " failed with status ", "0x", Hex.digits (f.status.setWidth 63).toNat]

def message (f : Failure) : String := String.join f.pieces

end Failure
end Uefi
end AudioBringup
