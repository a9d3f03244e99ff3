import AudioBringup.Proofs.Ensures
/-!
# Proofs.Expansion — programs whose requests are answered by programs

A request that a program over another world answers can get whatever that program returns there (`through`).  What holds
however a program ends over such answers holds of the program they are put into (`ensures_expand`), if all along every
answering program returned.
-/
namespace AudioBringup

/-- What is beneath a program whose requests are answered by programs: the state they keep and the world they are in. -/
structure Beneath (σ ω : Type) where
  state : σ
  world : ω
  /-- every one of them has returned -/
  intact : Bool := true

namespace Program

variable {Req Req' : Type} {Ans : Req → Type} {Ans' : Req' → Type} {σ ω α β : Type} {W : World Req' Ans' ω}
  {answer : (r : Req) → σ → Program Req' Ans' (Ans r × σ)}

/-- The answers that programs over `W` return, each from what the one before it left.  After one that does not return there
may be any. -/
def through (answer : (r : Req) → σ → Program Req' Ans' (Ans r × σ)) (W : World Req' Ans' ω) : World Req Ans (Beneath σ ω) :=
  fun r t a t' =>
    t.intact = true ∧ t'.intact = true ∧ (answer r t.state).Ends W t.world (.result (a, t'.state)) t'.world ∨
    t'.intact = false ∧ (t.intact = false ∨ ∃ e w, (answer r t.state).Ends W t.world e w ∧ ∀ b, e ≠ .result b)

/-- What is to hold of an ending, beside what is beneath. -/
def Beside (Q : Ending (α × σ) → ω → Prop) : Ending α → Beneath σ ω → Prop
  | .result a, t => Q (.result (a, t.state)) t.world
  | .misused m, t => Q (.misused m) t.world
  | .stuck, t => Q .stuck t.world

/-- What holds of every ending holds of one after an answering program did not return. -/
theorem exists_broken [∀ r, Nonempty (Ans r)] {Q : Ending α → Beneath σ ω → Prop} : ∀ {p : Program Req Ans α} {t},
    p.Ensures (through answer W) Q t → t.intact = false → ∃ e t', t'.intact = false ∧ Q e t'
  | .pure _, t, hp, ht | .misused _, t, hp, ht | .stuck, t, hp, ht => ⟨_, t, ht, hp⟩
  | .ask r next, t, hp, ht => by
    obtain ⟨a⟩ := (inferInstance : Nonempty (Ans r))
    exact exists_broken (hp a t (.inr ⟨ht, .inl ht⟩)) ht

/-- Where all have returned at every ending, each answering program returns. -/
theorem returns_of_intact [∀ r, Nonempty (Ans r)] {Q : Ending α → Beneath σ ω → Prop} {r : Req}
    {next : Ans r → Program Req Ans α} {s : σ} {w w' : ω} {e : Ending (Ans r × σ)}
    (hp : (Program.ask r next).Ensures (through answer W) (fun e t => t.intact = true ∧ Q e t) ⟨s, w, true⟩)
    (he : (answer r s).Ends W w e w') : ∃ b, e = .result b := by
  have hreturned : ¬∀ b, e ≠ .result b := fun hnone => by
    obtain ⟨a⟩ := (inferInstance : Nonempty (Ans r))
    have hbroken := hp a ⟨s, w', false⟩ (.inr ⟨rfl, .inr ⟨e, w', he, hnone⟩⟩)
    obtain ⟨_, t, ht, hintact, -⟩ := exists_broken hbroken rfl
    rw [ht] at hintact
    cases hintact
  cases e with
  | result b => exact ⟨b, rfl⟩
  | misused m => exact absurd (fun _ => nofun) hreturned
  | stuck => exact absurd (fun _ => nofun) hreturned

/-- **What holds of a program over the answers holds of the program they are put into.** -/
theorem ensures_expand [∀ r, Nonempty (Ans r)] {Q : Ending (α × σ) → ω → Prop} : ∀ {p : Program Req Ans α} {s w},
    p.Ensures (through answer W) (fun e t => t.intact = true ∧ Beside Q e t) ⟨s, w, true⟩ →
      (p.expand answer s).Ensures W Q w
  | .pure _, _, _, hp | .misused _, _, _, hp | .stuck, _, _, hp => hp.2
  | .ask r next, s, w, hp => by
    simp only [expand, ensures_bind]
    rw [ensures_iff_ends]
    intro e w' he
    obtain ⟨⟨a, s'⟩, rfl⟩ := returns_of_intact hp he
    exact ensures_expand (hp a ⟨s', w', true⟩ (.inl ⟨rfl, rfl, he⟩))

theorem ends_bind_result {f : α → Program Req' Ans' β} {b : β} {w' : ω} : ∀ {p : Program Req' Ans' α} {w : ω},
    (p.bind f).Ends W w (.result b) w' ↔ ∃ a w₁, p.Ends W w (.result a) w₁ ∧ (f a).Ends W w₁ (.result b) w'
  | .pure a, w => ⟨fun h => ⟨a, w, ⟨rfl, rfl⟩, h⟩, fun ⟨_, _, ⟨ha, hw⟩, h⟩ => by cases ha; exact hw ▸ h⟩
  | .misused _, _ | .stuck, _ => by simp [bind, Ends]
  | .ask r next, w => by
    simp only [bind, Ends, ends_bind_result]
    constructor
    · rintro ⟨a, w₁, hw, b, w₂, hnext, hf⟩
      exact ⟨b, w₂, ⟨a, w₁, hw, hnext⟩, hf⟩
    · rintro ⟨b, w₂, ⟨a, w₁, hw, hnext⟩, hf⟩
      exact ⟨a, w₁, hw, b, w₂, hnext, hf⟩

/-- A result over the answers, all of which were returned, is one of the program they are put into. -/
theorem ends_expand {a : α} {t' : Beneath σ ω} (ht' : t'.intact = true) : ∀ {p : Program Req Ans α} {t : Beneath σ ω},
    p.Ends (through answer W) t (.result a) t' →
      t.intact = true ∧ (p.expand answer t.state).Ends W t.world (.result (a, t'.state)) t'.world
  | .pure b, t, ⟨ha, ht⟩ => by
    cases ha
    subst ht
    exact ⟨ht', rfl, rfl⟩
  | .ask r next, t, ⟨b, t₁, hanswer, hnext⟩ => by
    obtain ⟨h₁, hends⟩ := ends_expand ht' hnext
    rcases hanswer with ⟨ht, -, hb⟩ | ⟨hbroken, -⟩
    · exact ⟨ht, ends_bind_result.2 ⟨_, _, hb, hends⟩⟩
    · rw [h₁] at hbroken
      cases hbroken

/-- The answers that programs over `W` return, where each returns. -/
def returning (answer : (r : Req) → σ → Program Req' Ans' (Ans r × σ)) (W : World Req' Ans' ω) :
    World Req Ans (Beneath σ ω) := fun r t a t' =>
  t'.intact = true ∧ (answer r t.state).Ends W t.world (.result (a, t'.state)) t'.world

/-- Where all have returned at every ending, it is enough to look at answers that were returned. -/
theorem ensures_of_returning [∀ r, Nonempty (Ans r)] {Q : Ending α → Beneath σ ω → Prop} : ∀ {p : Program Req Ans α} {t},
    p.Ensures (through answer W) (fun _ t => t.intact = true) t → p.Ensures (returning answer W) Q t →
      p.Ensures (through answer W) Q t
  | .pure _, _, _, hq | .misused _, _, _, hq | .stuck, _, _, hq => hq
  | .ask r next, t, hp, hq => fun a t' hanswer => by
    refine ensures_of_returning (hp a t' hanswer) (hq a t' ?_)
    have hp := hp a t' hanswer
    rcases hanswer with ⟨-, ht', hends⟩ | ⟨hbroken, -⟩
    · exact ⟨ht', hends⟩
    · obtain ⟨_, t, ht, hintact⟩ := exists_broken hp hbroken
      rw [ht] at hintact
      cases hintact

theorem expand_bind {answer : (r : Req) → σ → Program Req' Ans' (Ans r × σ)} {f : α → Program Req Ans β} :
    ∀ {p : Program Req Ans α} {s : σ},
      (p.bind f).expand answer s = (p.expand answer s).bind fun r => (f r.1).expand answer r.2
  | .pure _, _ | .misused _, _ | .stuck, _ => rfl
  | .ask r next, s => by
    simp only [bind, expand, bind_assoc]
    congr
    funext r
    exact expand_bind

/-- Both of two conditions. -/
protected theorem Ensures.and {W : World Req Ans ω} {Q Q' : Ending α → ω → Prop} {p : Program Req Ans α} {w : ω}
    (h : p.Ensures W Q w) (h' : p.Ensures W Q' w) : p.Ensures W (fun e w => Q e w ∧ Q' e w) w :=
  ensures_iff_ends.2 fun e w' he => ⟨ensures_iff_ends.1 h e w' he, ensures_iff_ends.1 h' e w' he⟩

theorem asks_anything : ∀ p : Program Req Ans α, p.Asks fun _ => True
  | .pure _ | .misused _ | .stuck => trivial
  | .ask _ next => ⟨trivial, fun a => asks_anything (next a)⟩

theorem Asks.bind {P : Req → Prop} {f : α → Program Req Ans β} (hf : ∀ a, (f a).Asks P) :
    ∀ {p : Program Req Ans α}, p.Asks P → (p.bind f).Asks P
  | .pure a, _ => hf a
  | .misused _, _ | .stuck, _ => trivial
  | .ask _ _, hp => ⟨hp.1, fun a => Asks.bind hf (hp.2 a)⟩

/-- What every call keeps that a program may make holds at each of its endings. -/
theorem ensures_kept {W : World Req Ans ω} {P : Req → Prop} {I : ω → Prop}
    (hkept : ∀ r w a w', P r → I w → W r w a w' → I w') : ∀ {p : Program Req Ans α} {w : ω}, p.Asks P → I w →
      p.Ensures W (fun _ w => I w) w
  | .pure _, _, _, hw | .misused _, _, _, hw | .stuck, _, _, hw => hw
  | .ask r _, w, hp, hw => fun a w' hanswer => ensures_kept hkept (hp.2 a) (hkept r w a w' hp.1 hw hanswer)

end Program
end AudioBringup
