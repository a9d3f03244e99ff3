import AudioBringup.Misuse
/-!
# Program — interaction as data

A program asks one request after the other and goes on by the answer.  What it does is therefore all there to be
looked at: every request it can make, in every order the answers can drive it to.

`run` answers the requests from a state, `expand` answers each of them by a program over other requests.  Both keep
a state of their own, and neither can reorder, repeat or drop a request.
-/
namespace AudioBringup

/-- A program over requests `Req` that are answered by `Ans`, with a result in `α`. -/
inductive Program (Req : Type) (Ans : Req → Type) (α : Type)
  /-- nothing more to ask -/
  | pure (result : α)
  /-- the program called something outside its contract, and ends there -/
  | misused (cause : Misuse)
  /-- the program has waited without a limit for as long as it is followed -/
  | stuck
  /-- asks `request` and goes on with the answer -/
  | ask (request : Req) (next : Ans request → Program Req Ans α)

/-- How a program ended. -/
inductive Ending (α : Type)
  | result (value : α)
  | misused (cause : Misuse)
  | stuck
  deriving Repr

namespace Program

variable {Req Req' : Type} {Ans : Req → Type} {Ans' : Req' → Type} {σ α β : Type}

/-- The first program, then the one its result selects. -/
def bind : Program Req Ans α → (α → Program Req Ans β) → Program Req Ans β
  | .pure a, f => f a
  | .misused m, _ => .misused m
  | .stuck, _ => .stuck
  | .ask r next, f => .ask r fun a => (next a).bind f

instance : Monad (Program Req Ans) where
  pure := .pure
  bind := .bind

/-- Asks one request and returns its answer. -/
def request (r : Req) : Program Req Ans (Ans r) := .ask r .pure

/-- Answers every request from a state. -/
def run (answer : (r : Req) → σ → Ans r × σ) : Program Req Ans α → σ → Ending α × σ
  | .pure a, s => (.result a, s)
  | .misused m, s => (.misused m, s)
  | .stuck, s => (.stuck, s)
  | .ask r next, s =>
    match answer r s with
    | (a, s) => (next a).run answer s

/-- Answers every request by a program over other requests. -/
def expand (answer : (r : Req) → σ → Program Req' Ans' (Ans r × σ)) :
    Program Req Ans α → σ → Program Req' Ans' (α × σ)
  | .pure a, s => .pure (a, s)
  | .misused m, _ => .misused m
  | .stuck, _ => .stuck
  | .ask r next, s => (answer r s).bind fun (a, s) => (next a).expand answer s

theorem pure_bind (a : α) (f : α → Program Req Ans β) : (Program.pure a).bind f = f a := rfl

theorem bind_pure : ∀ p : Program Req Ans α, p.bind .pure = p
  | .pure _ => rfl
  | .misused _ => rfl
  | .stuck => rfl
  | .ask r next => by simp only [bind]; congr; funext a; exact bind_pure (next a)

theorem bind_assoc {γ : Type} (f : α → Program Req Ans β) (g : β → Program Req Ans γ) :
    ∀ p : Program Req Ans α, (p.bind f).bind g = p.bind fun a => (f a).bind g
  | .pure _ => rfl
  | .misused _ => rfl
  | .stuck => rfl
  | .ask r next => by simp only [bind]; congr; funext a; exact bind_assoc f g (next a)

end Program
end AudioBringup
