import Mathlib.Algebra.Order.Ring.Int
/-!
# Proofs.WordArithmetic — numbers held against the words they are computed in

An operation that a word has no room for, or that is not defined, gives nothing.  Wherever it gives something it gives what
it comes to in whole numbers, so a computation that gives a result never left its words.
-/
namespace AudioBringup
namespace Word

/-! ### Numbers that are never negative -/

/-- A number, where a word of `w` bits has room for it. -/
def inWord (w n : Nat) : Option Nat := if n < 2 ^ w then some n else none

/-- A difference, where nothing is taken from less. -/
def difference (a b : Nat) : Option Nat := if b ≤ a then some (a - b) else none

/-- A quotient, where there is something to divide by. -/
def quotient (a b : Nat) : Option Nat := if b = 0 then none else some (a / b)

theorem inWord_of_lt {w n : Nat} (h : n < 2 ^ w) : inWord w n = some n := if_pos h

theorem difference_of_le {a b : Nat} (h : b ≤ a) : difference a b = some (a - b) := if_pos h

theorem quotient_of_ne {a b : Nat} (h : b ≠ 0) : quotient a b = some (a / b) := if_neg h

/-! ### Words that are shifted -/

section
variable {w : Nat} {n : BitVec w} {places : Nat}

/-- The word moved up, by less than it is wide. -/
def shiftUp (n : BitVec w) (places : Nat) : Option (BitVec w) := if places < w then some (n <<< places) else none

/-- The word moved down, by less than it is wide. -/
def shiftDown (n : BitVec w) (places : Nat) : Option (BitVec w) := if places < w then some (n >>> places) else none

theorem shiftUp_of_lt (h : places < w) : shiftUp n places = some (n <<< places) := if_pos h

theorem shiftDown_of_lt (h : places < w) : shiftDown n places = some (n >>> places) := if_pos h

end

/-! ### Signed numbers of 64 bits -/

/-- A whole number, where a signed word of 64 bits has room for it. -/
def inSigned (n : Int) : Option Int := if -0x8000000000000000 ≤ n ∧ n < 0x8000000000000000 then some n else none

/-- What a word of 64 bits is as a signed one. -/
def asSigned (n : Nat) : Int := Int.bmod n 0x10000000000000000

/-- A quotient rounded toward zero, where there is something to divide by and the word has room for it. -/
def signedQuotient (n d : Int) : Option Int := if d = 0 then none else inSigned (n.tdiv d)

theorem inSigned_eq_some {n m : Int} :
    inSigned n = some m ↔ m = n ∧ -0x8000000000000000 ≤ n ∧ n < 0x8000000000000000 := by
  unfold inSigned
  split
  · next h => rw [Option.some_inj, and_iff_left h, eq_comm]
  · next h => exact iff_of_false nofun fun hm => h hm.2

theorem asSigned_of_lt {n : Nat} (h : n < 0x8000000000000000) : asSigned n = n := by
  unfold asSigned
  exact Int.bmod_eq_of_le (by omega) (by omega)

/-! ### Rows of results -/

/-- Where each element has a result, so does the list. -/
theorem mapM_eq_some {α β : Type} {f : α → Option β} {g : α → β} :
    ∀ {l : List α}, (∀ x ∈ l, f x = some (g x)) → l.mapM f = some (l.map g)
  | [], _ => rfl
  | x :: l, h => by
    have hrest : l.mapM f = some (l.map g) := mapM_eq_some fun y hy => h y (.tail x hy)
    rw [List.mapM_cons, h x (.head l), hrest]
    rfl

end Word
end AudioBringup
