/-!
# Width — the size of one register access
-/
namespace AudioBringup

/-- The three sizes a register is accessed in. -/
inductive Width
  | byte
  | word
  | dword
  deriving Repr, DecidableEq

namespace Width

def bytes : Width → Nat
  | .byte => 1
  | .word => 2
  | .dword => 4

theorem bytes_pos (w : Width) : 0 < w.bytes := by cases w <;> decide

def bits (w : Width) : Nat := 8 * w.bytes

/-- The width of so many bits. -/
def ofBits? : Nat → Option Width
  | 8 => some .byte
  | 16 => some .word
  | 32 => some .dword
  | _ => none

/-- The bits of `value` an access of this width carries. -/
def truncate (w : Width) (value : BitVec 32) : BitVec 32 := (value.setWidth w.bits).setWidth 32

end Width
end AudioBringup
