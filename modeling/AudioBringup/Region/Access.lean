import AudioBringup.Procedure
/-!
# Region.Access — the host side of bus master memory

Every access is held against the length of its region first and against its own alignment after that; one that fails
either has no effect.
-/
namespace AudioBringup
namespace Region

variable {σ : Type}

def isEmpty (r : Region) : Bool := r.length == 0

/-- Where an access of `size` bytes at `offset` goes, if the region admits it. -/
def locate (r : Region) (offset size : Nat) : Except Misuse Nat :=
  if r.length < offset + size then .error .outOfBounds
  else if offset % size ≠ 0 then .error .misaligned
  else .ok (r.host + offset)

section
variable {r : Region} {offset size : Nat}

theorem locate_eq_ok (hlong : offset + size ≤ r.length) (haligned : offset % size = 0) :
    r.locate offset size = .ok (r.host + offset) :=
  (if_neg (Nat.not_lt.2 hlong)).trans (if_neg (not_not_intro haligned))

/-- An access goes where its offset says, or nowhere. -/
theorem locate_cases (r : Region) (offset size : Nat) :
    r.locate offset size = .ok (r.host + offset) ∨ ∃ m, r.locate offset size = .error m := by
  unfold locate
  split
  · exact .inr ⟨_, rfl⟩
  · split
    · exact .inr ⟨_, rfl⟩
    · exact .inl rfl

end

def load32 (r : Region) (offset : Nat) : Procedure σ (BitVec 32) :=
  match r.locate offset 4 with
  | .ok host => Procedure.request (.load32 host)
  | .error m => Procedure.misuse m

def load64 (r : Region) (offset : Nat) : Procedure σ (BitVec 64) :=
  match r.locate offset 8 with
  | .ok host => Procedure.request (.load64 host)
  | .error m => Procedure.misuse m

def store32 (r : Region) (offset : Nat) (value : BitVec 32) : Procedure σ Unit :=
  match r.locate offset 4 with
  | .ok host => Procedure.request (.store32 host value)
  | .error m => Procedure.misuse m

def store64 (r : Region) (offset : Nat) (value : BitVec 64) : Procedure σ Unit :=
  match r.locate offset 8 with
  | .ok host => Procedure.request (.store64 host value)
  | .error m => Procedure.misuse m

/-- Copies `data` in from `offset` on. -/
def fill (r : Region) (offset : Nat) (data : Array Byte) : Procedure σ Unit :=
  if r.length < offset + data.size then Procedure.misuse .outOfBounds
  else Procedure.request (.fill (r.host + offset) data)

/-- Sets every byte to zero. -/
def zero (r : Region) : Procedure σ Unit := Procedure.request (.clear r.host r.length)

end Region
end AudioBringup
