import AudioBringup.Procedure.Wait
import AudioBringup.Region.Access
/-!
# Proofs.Ensures — what holds however a run ends

A world says which answers a request may get in a state, and which state follows.  `Program.Ensures` holds a condition
against every ending a program can come to in a world; `Program.Ends` is one such ending.  `Procedure.Ensures` does the
same for a procedure, with a condition for each kind of ending (`Outcome`) and one rule per way of building a procedure.
Two conditions that hold hold together (`Ensures.and`).
-/
namespace AudioBringup

/-- The answers a request may get in a state, each with the state that follows. -/
abbrev World (Req : Type) (Ans : Req → Type) (ω : Type) := (r : Req) → ω → Ans r → ω → Prop

namespace Program

variable {Req : Type} {Ans : Req → Type} {ω α β : Type} {W : World Req Ans ω}

/-- `Q` holds of every ending the program can come to. -/
def Ensures (W : World Req Ans ω) (Q : Ending α → ω → Prop) : Program Req Ans α → ω → Prop
  | .pure a, w => Q (.result a) w
  | .misused m, w => Q (.misused m) w
  | .stuck, w => Q .stuck w
  | .ask r next, w => ∀ a w₁, W r w a w₁ → (next a).Ensures W Q w₁

/-- **What holds in a world holds in every world that allows no more.** -/
theorem Ensures.restrict {W' : World Req Ans ω} (hW : ∀ r w a w', W' r w a w' → W r w a w') {Q : Ending α → ω → Prop} :
    ∀ {p : Program Req Ans α} {w : ω}, p.Ensures W Q w → p.Ensures W' Q w
  | .pure _, _, h | .misused _, _, h | .stuck, _, h => h
  | .ask r _, w, h => fun a w₁ hw => Ensures.restrict hW (h a w₁ (hW r w a w₁ hw))

/-- The program can come to the ending `e`, and leave the world in the last state. -/
def Ends (W : World Req Ans ω) : Program Req Ans α → ω → Ending α → ω → Prop
  | .pure a, w, e, w' => e = .result a ∧ w' = w
  | .misused m, w, e, w' => e = .misused m ∧ w' = w
  | .stuck, w, e, w' => e = .stuck ∧ w' = w
  | .ask r next, w, e, w' => ∃ a w₁, W r w a w₁ ∧ (next a).Ends W w₁ e w'

theorem ensures_iff_ends {Q : Ending α → ω → Prop} : ∀ {p : Program Req Ans α} {w : ω},
    p.Ensures W Q w ↔ ∀ e w', p.Ends W w e w' → Q e w'
  | .pure _, _ => by simp [Ensures, Ends]
  | .misused _, _ => by simp [Ensures, Ends]
  | .stuck, _ => by simp [Ensures, Ends]
  | .ask r next, w => by
    simp only [Ensures, Ends, ensures_iff_ends]
    constructor
    · rintro h e w' ⟨a, w₁, hw, he⟩
      exact h a w₁ hw e w' he
    · exact fun h a w₁ hw e w' he => h e w' ⟨a, w₁, hw, he⟩

theorem Ensures.mono {Q Q' : Ending α → ω → Prop} {p : Program Req Ans α} {w : ω} (h : p.Ensures W Q w)
    (hq : ∀ e w, Q e w → Q' e w) : p.Ensures W Q' w :=
  ensures_iff_ends.2 fun e w' he => hq e w' (ensures_iff_ends.1 h e w' he)

theorem ensures_congr {Q Q' : Ending α → ω → Prop} {p : Program Req Ans α} {w : ω} (h : ∀ e w, Q e w ↔ Q' e w) :
    p.Ensures W Q w ↔ p.Ensures W Q' w :=
  ⟨fun hp => hp.mono fun e w => (h e w).1, fun hp => hp.mono fun e w => (h e w).2⟩

/-- What is to hold after the first of two programs: what the second one needs, where it is reached. -/
def Then (Q : Ending β → ω → Prop) (q : α → ω → Prop) : Ending α → ω → Prop
  | .result a, w => q a w
  | .misused m, w => Q (.misused m) w
  | .stuck, w => Q .stuck w

theorem ensures_bind {Q : Ending β → ω → Prop} {f : α → Program Req Ans β} : ∀ {p : Program Req Ans α} {w : ω},
    (p.bind f).Ensures W Q w ↔ p.Ensures W (Then Q fun a w => (f a).Ensures W Q w) w
  | .pure _, _ => Iff.rfl
  | .misused _, _ => Iff.rfl
  | .stuck, _ => Iff.rfl
  | .ask r next, w => by simp only [bind, Ensures, ensures_bind]

/-- In a world that allows one answer and no other, what holds of the executed run holds of every run. -/
theorem ensures_of_run {answer : (r : Req) → ω → Ans r × ω} {Q : Ending α → ω → Prop} : ∀ {p : Program Req Ans α} {w : ω},
    Q (p.run answer w).1 (p.run answer w).2 → p.Ensures (fun r w a w' => (a, w') = answer r w) Q w
  | .pure _, _, h => h
  | .misused _, _, h => h
  | .stuck, _, h => h
  | .ask r next, w, h => by
    rintro a w₁ hw
    refine ensures_of_run ?_
    rw [Prod.ext_iff] at hw
    obtain ⟨rfl, rfl⟩ := hw
    exact h

/-- **An executed run is one of the runs of a world** that allows each answer, as long as `I` holds. -/
theorem ends_run {answer : (r : Req) → ω → Ans r × ω} {I : ω → Prop}
    (hW : ∀ r w, I w → W r w (answer r w).1 (answer r w).2 ∧ I (answer r w).2) :
    ∀ {p : Program Req Ans α} {w : ω}, I w → p.Ends W w (p.run answer w).1 (p.run answer w).2
  | .pure _, _, _ => ⟨rfl, rfl⟩
  | .misused _, _, _ => ⟨rfl, rfl⟩
  | .stuck, _, _ => ⟨rfl, rfl⟩
  | .ask r _, w, h => ⟨_, _, (hW r w h).1, ends_run hW (hW r w h).2⟩

/-- Every request the program can come to is `P`. -/
def Asks (P : Req → Prop) : Program Req Ans α → Prop
  | .pure _ | .misused _ | .stuck => True
  | .ask r next => P r ∧ ∀ a, (next a).Asks P

/-- **What holds of a world holds of every world it simulates**, of a state the last one is related to: as far as the
requests go that the program makes. -/
theorem Ensures.along {ω' : Type} {W' : World Req Ans ω'} {R : ω → ω' → Prop} {P : Req → Prop}
    (hstep : ∀ r a w w₁' w', P r → R w w' → W' r w' a w₁' → ∃ w₁, W r w a w₁ ∧ R w₁ w₁') {Q : Ending α → ω → Prop} :
    ∀ {p : Program Req Ans α} {w w'}, p.Asks P → p.Ensures W Q w → R w w' →
      p.Ensures W' (fun e w' => ∃ w, R w w' ∧ Q e w) w'
  | .pure _, w, _, _, hp, hr | .misused _, w, _, _, hp, hr | .stuck, w, _, _, hp, hr => ⟨w, hr, hp⟩
  | .ask r next, w, w', ha, hp, hr => fun a w₁' hw' => by
    obtain ⟨w₁, hw, hr₁⟩ := hstep r a w w₁' w' ha.1 hr hw'
    exact Ensures.along hstep (ha.2 a) (hp a w₁ hw) hr₁

end Program

/-- What is to hold at each kind of ending of a procedure. -/
structure Outcome (σ α ω : Type) where
  ok : α → σ → ω → Prop
  error : Error → σ → ω → Prop
  misused : ω → Prop
  stuck : ω → Prop

namespace Outcome

variable {σ α β ω : Type}

/-- What is to hold after a result or a failure. -/
def after (Q : Outcome σ α ω) : Except Error α → σ → ω → Prop
  | .ok a => Q.ok a
  | .error e => Q.error e

/-- What is to hold at an ending. -/
def holds (Q : Outcome σ α ω) : Ending (Except Error α × σ) → ω → Prop
  | .result (r, s), w => Q.after r s w
  | .misused _, w => Q.misused w
  | .stuck, w => Q.stuck w

/-- A result satisfies `ok`; the procedure may also fail or wait, but never ends for a misuse. -/
def unlessFails (ok : α → σ → ω → Prop) : Outcome σ α ω := ⟨ok, fun _ _ _ => True, fun _ => False, fun _ => True⟩

/-- A result satisfies `ok` and a failure `failed`; the procedure may also wait, but never ends for a misuse. -/
def unlessStuck (ok : α → σ → ω → Prop) (failed : σ → ω → Prop) : Outcome σ α ω :=
  ⟨ok, fun _ => failed, fun _ => False, fun _ => True⟩

/-- The procedure comes to a result, which satisfies `ok`. -/
def succeeds (ok : α → σ → ω → Prop) : Outcome σ α ω := ⟨ok, fun _ _ _ => False, fun _ => False, fun _ => False⟩

/-- A result satisfies `ok`; nothing is said of any other ending. -/
def ifDone (ok : α → σ → ω → Prop) : Outcome σ α ω := ⟨ok, fun _ _ _ => True, fun _ => True, fun _ => True⟩

/-- Every result and every failure satisfies `Q`, every other ending `J`. -/
def always (Q : σ → ω → Prop) (J : ω → Prop) : Outcome σ α ω := ⟨fun _ => Q, fun _ => Q, J, J⟩

/-- The outcome with another condition on the result. -/
def withOk (Q : Outcome σ α ω) (ok : β → σ → ω → Prop) : Outcome σ β ω := ⟨ok, Q.error, Q.misused, Q.stuck⟩

end Outcome

/-- How many checks a wait makes at most, followed for `patience` of them where it has no limit. -/
def WaitLimit.checks (patience : Nat) : WaitLimit → Nat
  | .unbounded => patience
  | .iterations checks => max checks 1

namespace Procedure

variable {σ τ α β ω : Type} {W : World Call Call.Answer ω} {n : Nat} {s : σ} {w : ω}

/-- `Q` holds of every ending of a procedure that is followed for `patience` checks. -/
def Ensures (W : World Call Call.Answer ω) (patience : Nat) (x : Procedure σ α) (s : σ) (w : ω)
    (Q : Outcome σ α ω) : Prop :=
  (x patience s).Ensures W Q.holds w

/-- The procedure can end with the result or failure `r`, and leave its state and the world in the last states. -/
def Ends (W : World Call Call.Answer ω) (patience : Nat) (x : Procedure σ α) (s : σ) (w : ω) (r : Except Error α)
    (s' : σ) (w' : ω) : Prop :=
  (x patience s).Ends W w (.result (r, s')) w'

/-- From what holds of every ending of a procedure, and from how it ended, to what is to hold. -/
theorem Ensures.withEnds {x : Procedure σ α} {P Q : Outcome σ α ω} (h : Ensures W n x s w P)
    (hafter : ∀ r s' w', x.Ends W n s w r s' w' → P.after r s' w' → Q.after r s' w')
    (hmisused : ∀ w, P.misused w → Q.misused w) (hstuck : ∀ w, P.stuck w → Q.stuck w) : Ensures W n x s w Q :=
  Program.ensures_iff_ends.2 fun e w' he =>
    match e, he, Program.ensures_iff_ends.1 h e w' he with
    | .result (r, s'), he, hp => hafter r s' w' he hp
    | .misused _, _, hp => hmisused w' hp
    | .stuck, _, hp => hstuck w' hp

theorem Ensures.mono {x : Procedure σ α} {P Q : Outcome σ α ω} (h : Ensures W n x s w P)
    (hok : ∀ a s w, P.ok a s w → Q.ok a s w) (herror : ∀ e s w, P.error e s w → Q.error e s w)
    (hmisused : ∀ w, P.misused w → Q.misused w) (hstuck : ∀ w, P.stuck w → Q.stuck w) : Ensures W n x s w Q :=
  h.withEnds (fun r s' w' _ hp => match r with
    | .ok a => hok a s' w' hp
    | .error e => herror e s' w' hp) hmisused hstuck

theorem Ensures.imp {x : Procedure σ α} {P Q : α → σ → ω → Prop} (h : Ensures W n x s w (.unlessFails P))
    (hok : ∀ a s w, P a s w → Q a s w) : Ensures W n x s w (.unlessFails Q) :=
  h.mono hok (fun _ _ _ => id) (fun _ => id) (fun _ => id)

theorem Ensures.of_succeeds {x : Procedure σ α} {P : α → σ → ω → Prop} {Q : Outcome σ α ω}
    (h : Ensures W n x s w (.succeeds P)) (hok : ∀ a s w, P a s w → Q.ok a s w) : Ensures W n x s w Q :=
  h.mono hok (fun _ _ _ h => h.elim) (fun _ h => h.elim) (fun _ h => h.elim)

/-- What follows a step that succeeds. -/
theorem Ensures.andThen {x : Procedure σ α} {f : α → Procedure σ β} {P : α → σ → ω → Prop} {Q : Outcome σ β ω}
    (hx : Ensures W n x s w (.succeeds P)) (hf : ∀ a s w, P a s w → Ensures W n (f a) s w Q) : Ensures W n (x >>= f) s w Q :=
  Program.ensures_bind.2 (Program.Ensures.mono hx fun e w h => match e, h with
    | .result (.ok a, s), h => hf a s w h)

/-- What follows a step of which nothing is known but what it does where it comes to a result. -/
theorem Ensures.ifDoneThen {x : Procedure σ α} {f : α → Procedure σ β} {P : α → σ → ω → Prop} {ok : β → σ → ω → Prop}
    (hx : Ensures W n x s w (.ifDone P)) (hf : ∀ a s w, P a s w → Ensures W n (f a) s w (.ifDone ok)) :
    Ensures W n (x >>= f) s w (.ifDone ok) :=
  Program.ensures_bind.2 (Program.Ensures.mono hx fun e w h => match e, h with
    | .result (.ok a, s), h => hf a s w h
    | .result (.error _, _), _ | .misused _, _ | .stuck, _ => trivial)

theorem ensures_anything {x : Procedure σ α} : Ensures W n x s w (.ifDone fun _ _ _ => True) :=
  Program.ensures_iff_ends.2 fun e _ _ => match e with
    | .result (.ok _, _) | .result (.error _, _) | .misused _ | .stuck => trivial

/-- What follows a step that may fail as what follows may. -/
theorem Ensures.orFailThen {x : Procedure σ α} {f : α → Procedure σ β} {P : α → σ → ω → Prop} {Q : β → σ → ω → Prop}
    {F : σ → ω → Prop} (hx : Ensures W n x s w (.unlessStuck P F))
    (hf : ∀ a s w, P a s w → Ensures W n (f a) s w (.unlessStuck Q F)) : Ensures W n (x >>= f) s w (.unlessStuck Q F) :=
  Program.ensures_bind.2 (Program.Ensures.mono hx fun e w h => match e, h with
    | .result (.ok a, s), h => hf a s w h
    | .result (.error _, _), h => h
    | .stuck, h => h)

theorem Ensures.weaken {x : Procedure σ α} {P Q : α → σ → ω → Prop} {F G : σ → ω → Prop}
    (h : Ensures W n x s w (.unlessStuck P F)) (hok : ∀ a s w, P a s w → Q a s w) (hfailed : ∀ s w, F s w → G s w) :
    Ensures W n x s w (.unlessStuck Q G) :=
  h.mono hok (fun _ => hfailed) (fun _ => id) fun _ => id

/-- A procedure that succeeds in a world succeeds in every world it simulates. -/
theorem Ensures.along {ω' : Type} {W' : World Call Call.Answer ω'} {R : ω → ω' → Prop} {w' : ω'} {x : Procedure σ α}
    {A : Call → Prop} {P : α → σ → ω → Prop} (h : Ensures W n x s w (.succeeds P)) (ha : (x n s).Asks A)
    (hstep : ∀ r a w w₁' w', A r → R w w' → W' r w' a w₁' → ∃ w₁, W r w a w₁ ∧ R w₁ w₁') (hr : R w w') :
    Ensures W' n x s w' (.succeeds fun a s w' => ∃ w, R w w' ∧ P a s w) :=
  (Program.Ensures.along hstep ha h hr).mono fun e _ ⟨w, hr, hq⟩ => match e, hq with
    | .result (.ok _, _), hq => ⟨w, hr, hq⟩

/-- Both of two conditions. -/
protected theorem Ensures.and {x : Procedure σ α} {P Q : Outcome σ α ω} (hp : Ensures W n x s w P)
    (hq : Ensures W n x s w Q) : Ensures W n x s w ⟨fun a s w => P.ok a s w ∧ Q.ok a s w,
      fun e s w => P.error e s w ∧ Q.error e s w, fun w => P.misused w ∧ Q.misused w, fun w => P.stuck w ∧ Q.stuck w⟩ :=
  Program.ensures_iff_ends.2 fun e w' he =>
    match e, Program.ensures_iff_ends.1 hp e w' he, Program.ensures_iff_ends.1 hq e w' he with
    | .result (.ok _, _), hp, hq => ⟨hp, hq⟩
    | .result (.error _, _), hp, hq => ⟨hp, hq⟩
    | .misused _, hp, hq => ⟨hp, hq⟩
    | .stuck, hp, hq => ⟨hp, hq⟩

/-- What is known of a result, if there is one. -/
theorem Ensures.ifDone {x : Procedure σ α} {Q : Outcome σ α ω} {ok : α → σ → ω → Prop} (h : Ensures W n x s w Q)
    (hok : ∀ a s w, Q.ok a s w → ok a s w) : Ensures W n x s w (.ifDone ok) :=
  h.mono hok (fun _ _ _ _ => trivial) (fun _ _ => trivial) fun _ _ => trivial

/-- Both of two conditions on a result. -/
theorem Ensures.bothDone {x : Procedure σ α} {P Q : α → σ → ω → Prop} (hp : Ensures W n x s w (.ifDone P))
    (hq : Ensures W n x s w (.ifDone Q)) : Ensures W n x s w (.ifDone fun a s w => P a s w ∧ Q a s w) :=
  (hp.and hq).ifDone fun _ _ _ => id

/-! ### One rule per way of building a procedure -/

@[simp] theorem ensures_pure {a : α} {Q : Outcome σ α ω} :
    Ensures W n (pure a : Procedure σ α) s w Q ↔ Q.ok a s w := Iff.rfl

@[simp] theorem ensures_bind {x : Procedure σ α} {f : α → Procedure σ β} {Q : Outcome σ β ω} :
    Ensures W n (x >>= f) s w Q ↔ Ensures W n x s w (Q.withOk fun a s w => Ensures W n (f a) s w Q) := by
  refine Program.ensures_bind.trans (Program.ensures_congr ?_)
  rintro (⟨e | a, s⟩ | m | _) w <;> rfl

@[simp] theorem ensures_fail {e : Error} {Q : Outcome σ α ω} :
    Ensures W n (fail e : Procedure σ α) s w Q ↔ Q.error e s w := Iff.rfl

@[simp] theorem ensures_misuse {m : Misuse} {Q : Outcome σ α ω} :
    Ensures W n (misuse m : Procedure σ α) s w Q ↔ Q.misused w := Iff.rfl

@[simp] theorem ensures_get {Q : Outcome σ σ ω} : Ensures W n (get : Procedure σ σ) s w Q ↔ Q.ok s s w := Iff.rfl

@[simp] theorem ensures_modify {f : σ → σ} {Q : Outcome σ Unit ω} :
    Ensures W n (modify f) s w Q ↔ Q.ok () (f s) w := Iff.rfl

theorem ensures_get_bind {f : σ → Procedure σ α} {Q : Outcome σ α ω} :
    Ensures W n (get >>= f) s w Q ↔ Ensures W n (f s) s w Q := Iff.rfl

theorem ensures_modify_bind {f : σ → σ} {g : Unit → Procedure σ α} {Q : Outcome σ α ω} :
    Ensures W n (modify f >>= g) s w Q ↔ Ensures W n (g ()) (f s) w Q := Iff.rfl

@[simp] theorem ensures_attempt {x : Procedure σ α} {Q : Outcome σ (Except Error α) ω} :
    Ensures W n (attempt x) s w Q ↔
      Ensures W n x s w ⟨fun a => Q.ok (.ok a), fun e => Q.ok (.error e), Q.misused, Q.stuck⟩ := by
  refine Program.ensures_bind.trans (Program.ensures_congr ?_)
  rintro (⟨e | a, s⟩ | m | _) w <;> rfl

/-- The result of a procedure that succeeds. -/
theorem Ensures.attempt {x : Procedure σ α} {P : α → σ → ω → Prop} (h : Ensures W n x s w (.succeeds P)) :
    Ensures W n (attempt x) s w (.succeeds fun r s' w' => ∃ a, r = .ok a ∧ P a s' w') :=
  ensures_attempt.2 (h.mono (fun a _ _ h => ⟨a, rfl, h⟩) (fun _ _ _ h => h.elim) (fun _ h => h.elim) fun _ h => h.elim)

@[simp] theorem ensures_within {t : τ} {x : Procedure τ α} {Q : Outcome σ (Except Error α × τ) ω} :
    Ensures W n (within t x : Procedure σ _) s w Q ↔
      Ensures W n x t w ⟨fun a t => Q.ok (.ok a, t) s, fun e t => Q.ok (.error e, t) s, Q.misused, Q.stuck⟩ := by
  refine Program.ensures_bind.trans (Program.ensures_congr ?_)
  rintro (⟨e | a, s⟩ | m | _) w <;> rfl

@[simp] theorem ensures_on {t : τ} {put : τ → σ → σ} {x : Procedure τ α} {Q : Outcome σ α ω} :
    Ensures W n (on t put x) s w Q ↔
      Ensures W n x t w ⟨fun a t => Q.ok a (put t s), fun e t => Q.error e (put t s), Q.misused, Q.stuck⟩ := by
  refine Program.ensures_bind.trans (Program.ensures_congr ?_)
  rintro (⟨e | a, s⟩ | m | _) w <;> rfl

/-! ### One rule per call -/

@[simp] theorem ensures_request {c : Call} {Q : Outcome σ c.Answer ω} :
    Ensures W n (request c : Procedure σ _) s w Q ↔ ∀ a w', W c w a w' → Q.ok a s w' := Iff.rfl

@[simp] theorem ensures_note {m : Notice} {Q : Outcome σ Unit ω} :
    Ensures W n (note m) s w Q ↔ ∀ w', W (.note m) w () w' → Q.ok () s w' :=
  ⟨fun h w' => h () w', fun h _ w' => h w'⟩

@[simp] theorem ensures_candidates {Q : Outcome σ (List Pci.Candidate) ω} :
    Ensures W n candidates s w Q ↔ ∀ r w', W .candidates w r w' → Q.after r s w' := Iff.rfl

@[simp] theorem ensures_identify {c : Pci.Candidate} {Q : Outcome σ Pci.Identity ω} :
    Ensures W n (identify c) s w Q ↔ ∀ r w', W (.identify c) w r w' → Q.after r s w' := Iff.rfl

@[simp] theorem ensures_bindExclusive {c : Pci.Candidate} {Q : Outcome σ Unit ω} :
    Ensures W n (bindExclusive c) s w Q ↔ ∀ r w', W (.bindExclusive c) w r w' → Q.after r s w' := Iff.rfl

@[simp] theorem ensures_release {Q : Outcome σ Unit ω} :
    Ensures W n release s w Q ↔ ∀ r w', W .release w r w' → Q.after r s w' := Iff.rfl

@[simp] theorem ensures_read {wd : Width} {o : BitVec 32} {Q : Outcome σ (BitVec 32) ω} :
    Ensures W n (read wd o) s w Q ↔ ∀ r w', W (.read wd o) w r w' → Q.after r s w' := Iff.rfl

@[simp] theorem ensures_write {wd : Width} {o v : BitVec 32} {Q : Outcome σ Unit ω} :
    Ensures W n (write wd o v) s w Q ↔ ∀ r w', W (.write wd o v) w r w' → Q.after r s w' := Iff.rfl

@[simp] theorem ensures_allocate {k : Nat} {Q : Outcome σ Region ω} :
    Ensures W n (allocate k) s w Q ↔ ∀ r w', W (.allocate k) w r w' → Q.after r s w' := Iff.rfl

@[simp] theorem ensures_free {g : Region} {Q : Outcome σ Unit ω} :
    Ensures W n (free g) s w Q ↔ ∀ r w', W (.free g) w r w' → Q.after r s w' := Iff.rfl

@[simp] theorem ensures_stall {k : Nat} {Q : Outcome σ Unit ω} :
    Ensures W n (stall k) s w Q ↔ ∀ r w', W (.stall k) w r w' → Q.after r s w' := Iff.rfl

@[simp] theorem ensures_armTimer {d : BitVec 64} {Q : Outcome σ Unit ω} :
    Ensures W n (armTimer d) s w Q ↔ ∀ r w', W (.armTimer d) w r w' → Q.after r s w' := Iff.rfl

@[simp] theorem ensures_timerExpired {Q : Outcome σ Bool ω} :
    Ensures W n timerExpired s w Q ↔ ∀ r w', W .timerExpired w r w' → Q.after r s w' := Iff.rfl

@[simp] theorem ensures_cancelTimer {Q : Outcome σ Unit ω} :
    Ensures W n cancelTimer s w Q ↔ ∀ r w', W .cancelTimer w r w' → Q.after r s w' := Iff.rfl

theorem ensures_store32 {r : Region} {offset : Nat} {v : BitVec 32} {Q : Outcome σ Unit ω}
    (hlong : offset + 4 ≤ r.length) (haligned : offset % 4 = 0) :
    Ensures W n (r.store32 offset v) s w Q ↔ ∀ w', W (.store32 (r.host + offset) v) w () w' → Q.ok () s w' := by
  unfold Region.store32
  rw [Region.locate_eq_ok hlong haligned]
  exact ⟨fun h w' => h () w', fun h _ w' => h w'⟩

theorem ensures_load32 {r : Region} {offset : Nat} {Q : Outcome σ (BitVec 32) ω}
    (hlong : offset + 4 ≤ r.length) (haligned : offset % 4 = 0) :
    Ensures W n (r.load32 offset) s w Q ↔ ∀ v w', W (.load32 (r.host + offset)) w v w' → Q.ok v s w' := by
  unfold Region.load32
  rw [Region.locate_eq_ok hlong haligned]
  exact Iff.rfl

/-! ### Waits -/

/-- **A wait, by the number of its checks**: `I k` after `k` of them that did not hold, of as many as the limit allows. -/
theorem ensures_waitUntil_counted {site : WaitSite} {limit : WaitLimit} {check : Procedure σ Bool} {Q : Outcome σ Unit ω}
    (I : Nat → σ → ω → Prop) (hcheck : ∀ k s w, k < limit.checks n → I k s w → Ensures W n check s w
      (Q.withOk fun holds s w => if holds then Q.ok () s w else I (k + 1) s w))
    (hgave : ∀ m s w w', limit = .iterations m → I (max m 1) s w → W (.note (.gaveUp site (max m 1))) w () w' →
      Q.error (.waitTimedOut site) s w')
    (hstuck : ∀ s w, limit = .unbounded → I n s w → Q.stuck w) (h : I 0 s w) :
    Ensures W n (waitUntil site limit check) s w Q := by
  have step : ∀ {rest : Procedure σ Unit} k s w, k < limit.checks n → (∀ s w, I (k + 1) s w → Ensures W n rest s w Q) →
      I k s w → Ensures W n (do if ← check then pure () else rest) s w Q := by
    intro rest k s w hk hrest h
    refine ensures_bind.2 ((hcheck k s w hk h).mono (fun holds s w hb => ?_) (fun _ _ _ => id) (fun _ => id) fun _ => id)
    cases holds
    · exact hrest s w hb
    · exact hb
  cases limit with
  | unbounded =>
    have unbounded : ∀ left k s w, k + left = n → I k s w → Ensures W n (waitUnbounded check left) s w Q := by
      intro left
      induction left with
      | zero =>
        intro k s w hcount h
        obtain rfl : k = n := hcount
        exact hstuck s w rfl h
      | succ left ih =>
        intro k s w hcount h
        exact step k s w (by simp only [WaitLimit.checks]; omega) (fun s w => ih (k + 1) s w (by omega)) h
    exact unbounded n 0 s w (Nat.zero_add n) h
  | iterations checks =>
    have bounded : ∀ left k s w, k + left = max checks 1 → I k s w →
        Ensures W n (waitBounded site check k left) s w Q := by
      intro left
      induction left with
      | zero =>
        intro k s w hcount h
        obtain rfl : k = max checks 1 := hcount
        exact ensures_bind.2 (ensures_note.2 fun w' => hgave checks s w w' rfl h)
      | succ left ih =>
        intro k s w hcount h
        exact step k s w (by simp only [WaitLimit.checks]; omega) (fun s w => ih (k + 1) s w (by omega)) h
    exact bounded _ 0 s w (Nat.zero_add _) h

/-- **A wait keeps what its checks keep**: `I` before each check, and after each one that did not hold. -/
theorem ensures_waitUntil {site : WaitSite} {limit : WaitLimit} {check : Procedure σ Bool} {Q : Outcome σ Unit ω}
    (I : σ → ω → Prop) (hcheck : ∀ s w, I s w → Ensures W n check s w
      (Q.withOk fun holds s w => if holds then Q.ok () s w else I s w))
    (hgave : ∀ k s w w', I s w → W (.note (.gaveUp site k)) w () w' → Q.error (.waitTimedOut site) s w')
    (hstuck : ∀ s w, I s w → Q.stuck w) (h : I s w) : Ensures W n (waitUntil site limit check) s w Q :=
  ensures_waitUntil_counted (fun _ => I) (fun _ s w _ => hcheck s w) (fun _ s w w' _ => hgave _ s w w')
    (fun s w _ => hstuck s w) h

/-- **A wait ends in time**: `I k` says that at most `k` more checks fail, and there are more checks than that. -/
theorem ensures_waitUntil_of_lt {site : WaitSite} {limit : WaitLimit} {check : Procedure σ Bool} {Q : σ → ω → Prop}
    (I : Nat → σ → ω → Prop) (hcheck : ∀ k s w, I k s w → Ensures W n check s w
      (.succeeds fun holds s w => if holds then Q s w else ∃ j < k, I j s w))
    {k : Nat} (hk : k < limit.checks n) (h : I k s w) :
    Ensures W n (waitUntil site limit check) s w (.succeeds fun _ => Q) := by
  -- what was checked and what may still fail are less than all checks
  refine ensures_waitUntil_counted (fun made s w => ∃ k, made + k < limit.checks n ∧ I k s w) ?_ ?_ ?_
    ⟨k, by omega, h⟩
  · rintro made s w - ⟨k, hk, h⟩
    refine (hcheck k s w h).of_succeeds fun holds s w hb => ?_
    cases holds
    · obtain ⟨j, hj, h⟩ := hb
      exact ⟨j, by omega, h⟩
    · exact hb
  · rintro m s w w' rfl ⟨k, hk, -⟩
    exact absurd hk (Nat.not_lt.2 (Nat.le_add_right _ k))
  · rintro s w rfl ⟨k, hk, -⟩
    exact absurd hk (Nat.not_lt.2 (Nat.le_add_right _ k))

/-- A wait for what is there already. -/
theorem ensures_waitUntil_of_check {site : WaitSite} {limit : WaitLimit} {check : Procedure σ Bool} {Q : σ → ω → Prop}
    (hlimit : 0 < limit.checks n) (hcheck : Ensures W n check s w (.succeeds fun holds s w => holds = true ∧ Q s w)) :
    Ensures W n (waitUntil site limit check) s w (.succeeds fun _ => Q) := by
  refine ensures_waitUntil_of_lt (fun _ s' w' => s' = s ∧ w' = w) ?_ hlimit ⟨rfl, rfl⟩
  rintro k _ _ ⟨rfl, rfl⟩
  refine hcheck.of_succeeds ?_
  rintro _ s' w' ⟨rfl, h⟩
  exact h

/-! ### One after the other -/

/-- Runs `x` for one after the other, each whether or not the one before it failed; all of them with their results. -/
def attemptEach {γ : Type} (x : γ → Procedure σ α) : List γ → Procedure σ (List (γ × Except Error α))
  | [] => return []
  | c :: rest => do
    let r ← attempt (x c)
    return (c, r) :: (← attemptEach x rest)

/-- `E` holds of each of them: of what there was before it, of its result, and of what there is after it. -/
inductive Successively {κ γ ρ : Type} (E : κ → γ → ρ → κ → Prop) : κ → List (γ × ρ) → κ → Prop
  | nil {k} : Successively E k [] k
  | cons {k k' k'' c r rest} (h : E k c r k') (hrest : Successively E k' rest k'') : Successively E k ((c, r) :: rest) k''

/-- **What holds of each holds of them all**, where what there is (`I`) is all that is known of the state and the world. -/
theorem ensures_attemptEach {κ γ : Type} {x : γ → Procedure σ α} (I : κ → σ → ω → Prop)
    (E : κ → γ → Except Error α → κ → Prop) (hx : ∀ c k s w, I k s w → Ensures W n (x c) s w
      ⟨fun a s' w' => ∃ k', I k' s' w' ∧ E k c (.ok a) k', fun e s' w' => ∃ k', I k' s' w' ∧ E k c (.error e) k',
        fun _ => False, fun _ => True⟩) :
    ∀ (cs : List γ) {k s w}, I k s w → Ensures W n (attemptEach x cs) s w (.unlessStuck (fun results s' w' =>
      results.map (·.1) = cs ∧ ∃ k', I k' s' w' ∧ Successively E k results k') fun _ _ => False)
  | [], k, _, _, h => ⟨rfl, k, h, .nil⟩
  | c :: cs, k, s, w, h => by
    have hrest : ∀ {r k' s w}, I k' s w ∧ E k c r k' → Ensures W n (do return (c, r) :: (← attemptEach x cs)) s w
        (.unlessStuck (fun results s' w' => results.map (·.1) = c :: cs ∧ ∃ k', I k' s' w' ∧ Successively E k results k')
          fun _ _ => False) := by
      rintro r k' s w ⟨h, hr⟩
      refine (ensures_attemptEach I E hx cs h).orFailThen ?_
      rintro results s' w' ⟨hcs, k'', h, hresults⟩
      exact ⟨congrArg (c :: ·) hcs, k'', h, .cons hr hresults⟩
    exact ensures_bind.2 (ensures_attempt.2 ((hx c k s w h).mono (fun _ _ _ ⟨_, h⟩ => hrest h) (fun _ _ _ ⟨_, h⟩ => hrest h)
      (fun _ => id) fun _ => id))

end Procedure
end AudioBringup
