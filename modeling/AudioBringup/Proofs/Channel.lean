import AudioBringup.Codec.Topology
import AudioBringup.Proofs.CommandWords
import AudioBringup.Proofs.SideBySide
/-!
# Proofs.Channel — codecs on a link, and a transport as a way to them

A codec is a machine that answers every word sent to it; the link has one, or none, at each address.  What is answered to a
word is then a function of the words sent so far, whichever way they go.  A `Channel` is a transport in a world that
sends words to such a link and leaves the rest of the platform alone.
-/
namespace AudioBringup

open Procedure

/-! ### The codecs -/

/-- A codec as its link sees it. -/
structure CodecMachine where
  State : Type
  start : State
  step : State → BitVec 32 → BitVec 32 × State

namespace CodecMachine

/-- The state that so many words leave a codec in. -/
def after (m : CodecMachine) (words : List (BitVec 32)) : m.State := words.foldl (fun s word => (m.step s word).2) m.start

/-- What is answered to `word` after `words`. -/
def answer (m : CodecMachine) (words : List (BitVec 32)) (word : BitVec 32) : BitVec 32 := (m.step (m.after words) word).1

end CodecMachine

/-- The codecs on a link, by address. -/
def Link : Type 1 := BitVec 4 → Option CodecMachine

namespace Link

/-- The address a word is for. -/
def target (word : BitVec 32) : BitVec 4 := Bits.field word 28 4

/-- What is answered to `word` once `words` have gone over the link: a codec hears those for its address only. -/
def answer? (link : Link) (words : List (BitVec 32)) (word : BitVec 32) : Option (BitVec 32) :=
  (link (target word)).map fun m => m.answer (words.filter (target · = target word)) word

/-- There is a codec at an address. -/
def Has (link : Link) (address : BitVec 8) : Prop := (link (address.setWidth 4)).isSome

instance (link : Link) (address : BitVec 8) : Decidable (link.Has address) := inferInstanceAs (Decidable (_ = true))

/-- The codecs may have answered so: each word what was to be answered to it by the words before it. -/
def Honest (link : Link) (said : List (BitVec 32 × BitVec 32)) : Prop :=
  ∀ before word answer after, said = before ++ (word, answer) :: after →
    link.answer? (before.map (·.1)) word = some answer

variable {link : Link}

theorem target_encode (c : Command) : target c.encode = c.codec.setWidth 4 := c.codec_field

theorem answer?_isSome {c : Command} (h : link.Has c.codec) (words : List (BitVec 32)) :
    ∃ a, link.answer? words c.encode = some a := by
  obtain ⟨m, hm⟩ := Option.isSome_iff_exists.1 h
  refine ⟨m.answer (words.filter (target · = target c.encode)) c.encode, ?_⟩
  rw [answer?, target_encode, hm]
  rfl

theorem honest_nil : link.Honest [] := by
  intro before word answer after h
  exact absurd h (List.append_ne_nil_of_right_ne_nil _ (List.cons_ne_nil _ _)).symm

theorem Honest.last {said : List (BitVec 32 × BitVec 32)} {word answer : BitVec 32} (h : link.Honest (said ++ [(word, answer)])) :
    link.answer? (said.map (·.1)) word = some answer := h said word answer [] rfl

theorem Honest.snoc {said : List (BitVec 32 × BitVec 32)} {word answer : BitVec 32} (h : link.Honest said)
    (ha : link.answer? (said.map (·.1)) word = some answer) : link.Honest (said ++ [(word, answer)]) := by
  intro before w a after heq
  rcases List.eq_nil_or_concat after with rfl | ⟨after', last, rfl⟩
  · obtain ⟨rfl, hlast⟩ := List.append_inj' heq rfl
    cases hlast
    exact ha
  · rw [List.concat_eq_append, ← List.cons_append, ← List.append_assoc] at heq
    obtain ⟨hsaid, -⟩ := List.append_inj' heq rfl
    exact h before w a after' hsaid

end Link

/-! ### The platform beside the transport -/

namespace Register

/-- The registers of the two transports. -/
def OfTransport (o : BitVec 32) : Prop := 0x40 ≤ o.toNat ∧ o.toNat < 0x70

instance (o : BitVec 32) : Decidable (OfTransport o) := inferInstanceAs (Decidable (_ ∧ _))

/-- The registers that take the address of a buffer list. -/
def TakesAddress (o : BitVec 32) : Prop := ∃ d < 64, o = stream d + sdbdpl ∨ o = stream d + sdbdpu

end Register

/-- Everything beside the transport, as a machine of its own.  It may do and answer as it likes, but for where memory
lies, which makes no difference to it. -/
structure Platform (ρ : Type) where
  read : Width → BitVec 32 → ρ → Except Error (BitVec 32) × ρ
  write : Width → BitVec 32 → BitVec 32 → ρ → Except Error Unit × ρ
  /-- the length of what is given -/
  allocate : Nat → ρ → Except Error Nat × ρ
  free : Nat → ρ → Except Error Unit × ρ
  blind : ∀ w o v v' x, Register.TakesAddress o → write w o v x = write w o v' x

namespace Platform

variable {ρ : Type}

/-- How a call goes that is not the transport's. -/
def Answers (P : Platform ρ) (x : ρ) : (c : Call) → c.Answer → ρ → Prop
  | .read w o, a, x' => P.read w o x = (a, x')
  | .write w o v, a, x' => P.write w o v x = (a, x')
  | .allocate k, .ok g, x' => P.allocate k x = (.ok g.length, x')
  | .allocate k, .error e, x' => P.allocate k x = (.error e, x')
  | .free g, a, x' => P.free g.length x = (a, x')
  | _, _, x' => x' = x

/-- So much memory, at one place always. -/
def placed : Except Error Nat × ρ → Except Error Region × ρ
  | (.ok length, x) => (.ok ⟨0, 0, length, 0⟩, x)
  | (.error e, x) => (.error e, x)

/-- One of the answers there are to a call. -/
def reply (P : Platform ρ) (x : ρ) : (c : Call) → c.Answer × ρ
  | .read w o => P.read w o x
  | .write w o v => P.write w o v x
  | .allocate k => placed (P.allocate k x)
  | .free g => P.free g.length x
  | .load32 _ => ((0 : BitVec 32), x)
  | .load64 _ => ((0 : BitVec 64), x)
  | .store32 .. | .store64 .. | .fill .. | .clear .. | .note _ => ((), x)
  | .candidates | .identify _ | .bindExclusive _ | .release | .stall _ | .armTimer _ | .timerExpired | .cancelTimer =>
    (.error .noTransport, x)

theorem answers_reply (P : Platform ρ) (x : ρ) (c : Call) : P.Answers x c (P.reply x c).1 (P.reply x c).2 := by
  cases c with
  | allocate k =>
    change P.Answers x (.allocate k) (placed (P.allocate k x)).1 (placed (P.allocate k x)).2
    obtain ⟨result, x', h⟩ : ∃ result x', P.allocate k x = (result, x') := ⟨_, _, rfl⟩
    rw [h]
    cases result with
    | error e => exact h
    | ok length => exact h
  | _ => rfl

end Platform

namespace Call

/-- The calls of whoever uses the transport: none to a register of the transports, and none that asks for their memory
or for the time. -/
def Foreign : Call → Prop
  | .read _ o | .write _ o _ => ¬Register.OfTransport o
  | .allocate _ | .free _ | .store32 .. | .store64 .. | .fill .. | .note _ => True
  | _ => False

end Call

/-- **A way to the codecs of a link**: it brings every word for a codec that is there to it, and its answer back, and the
platform does not notice. -/
structure Channel {ω ρ : Type} (W : World Call Call.Answer ω) (patience : Nat) (link : Link) (P : Platform ρ) where
  /-- the transport is ready, these words have been sent, and the platform is in this state -/
  At : Transport → List (BitVec 32) → ρ → ω → Prop
  sent : ω → List (BitVec 32)
  sent_eq : ∀ {t words x w}, At t words x w → sent w = words
  exchange : ∀ {t words x w word answer}, At t words x w → link.answer? words word = some answer →
    Ensures W patience (Transport.exchange word) t w (.succeeds fun a t' w' => a = answer ∧ At t' (words ++ [word]) x w')
  foreign : ∀ {t words x w c a w'}, At t words x w → c.Foreign → W c w a w' → ∃ x', P.Answers x c a x' ∧ At t words x' w'

end AudioBringup
