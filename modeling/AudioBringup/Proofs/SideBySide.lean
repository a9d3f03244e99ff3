import AudioBringup.Proofs.Ensures
/-!
# Proofs.SideBySide — two runs that cannot be told apart

Two procedures run side by side, each in a world of its own.  They are `Matched` if, from any two states that are level,
whatever the one ends in and whatever the other ends in show the same: values that go together, or one and the same
failure, misuse or endless wait.  After a value or a failure the states are level again.
-/
namespace AudioBringup

namespace Program

variable {Req : Type} {Ans : Req → Type} {ω α β : Type} {W : World Req Ans ω}

/-- How the second of two programs ends, by how the first one did. -/
def Onward (W : World Req Ans ω) (f : α → Program Req Ans β) : Ending α → ω → Ending β → ω → Prop
  | .result a, w, e, w' => (f a).Ends W w e w'
  | .misused m, w, e, w' => e = .misused m ∧ w' = w
  | .stuck, w, e, w' => e = .stuck ∧ w' = w

theorem ends_bind {f : α → Program Req Ans β} {e : Ending β} {w' : ω} : ∀ {p : Program Req Ans α} {w : ω},
    (p.bind f).Ends W w e w' → ∃ e₁ w₁, p.Ends W w e₁ w₁ ∧ Onward W f e₁ w₁ e w'
  | .pure a, w, h => ⟨.result a, w, ⟨rfl, rfl⟩, h⟩
  | .misused m, w, h => ⟨.misused m, w, ⟨rfl, rfl⟩, h⟩
  | .stuck, w, h => ⟨.stuck, w, ⟨rfl, rfl⟩, h⟩
  | .ask r next, w, h => by
    obtain ⟨a, w₁, hw, h⟩ := h
    obtain ⟨e₁, w₂, h₁, h₂⟩ := ends_bind h
    exact ⟨e₁, w₂, ⟨a, w₁, hw, h₁⟩, h₂⟩

/-- Where every request has an answer, every program comes to an end. -/
theorem exists_ends {I : ω → Prop} (hW : ∀ r w, I w → ∃ a w', W r w a w' ∧ I w') : ∀ (p : Program Req Ans α) {w : ω}, I w →
    ∃ e w', p.Ends W w e w'
  | .pure a, w, _ => ⟨.result a, w, rfl, rfl⟩
  | .misused m, w, _ => ⟨.misused m, w, rfl, rfl⟩
  | .stuck, w, _ => ⟨.stuck, w, rfl, rfl⟩
  | .ask r next, w, h => by
    obtain ⟨a, w₁, hw, h₁⟩ := hW r w h
    obtain ⟨e, w', he⟩ := exists_ends hW (next a) h₁
    exact ⟨e, w', a, w₁, hw, he⟩

end Program

namespace Procedure

section
variable {σ τ α β ω₁ ω₂ : Type}

/-- Two results that show the same. -/
def Together (V : α → β → Prop) : Except Error α → Except Error β → Prop
  | .ok a, .ok b => V a b
  | .error e, .error e' => e = e'
  | _, _ => False

/-- Two endings that show the same, over states and worlds that are level where the state is still there. -/
inductive Match (V : α → β → Prop) (L : σ → ω₁ → τ → ω₂ → Prop) (J : ω₁ → ω₂ → Prop) :
    Ending (Except Error α × σ) → ω₁ → Ending (Except Error β × τ) → ω₂ → Prop
  | result {r r' s w₁ t w₂} (hr : Together V r r') (hlevel : L s w₁ t w₂) : Match V L J (.result (r, s)) w₁ (.result (r', t)) w₂
  | misused {w₁ w₂} (m : Misuse) (hworlds : J w₁ w₂) : Match V L J (.misused m) w₁ (.misused m) w₂
  | stuck {w₁ w₂} (hworlds : J w₁ w₂) : Match V L J .stuck w₁ .stuck w₂

end

section
variable {σ τ σ' τ' α β γ δ ω₁ ω₂ : Type} {W₁ : World Call Call.Answer ω₁} {W₂ : World Call Call.Answer ω₂} {n : Nat}
  {L : σ → ω₁ → τ → ω₂ → Prop} {J : ω₁ → ω₂ → Prop} {V : α → β → Prop}

/-- Whatever `x` ends in and whatever `y` ends in show the same. -/
def Matched (W₁ : World Call Call.Answer ω₁) (W₂ : World Call Call.Answer ω₂) (n : Nat) (L : σ → ω₁ → τ → ω₂ → Prop)
    (J : ω₁ → ω₂ → Prop) (V : α → β → Prop) (x : Procedure σ α) (y : Procedure τ β) : Prop :=
  ∀ s w₁ t w₂, L s w₁ t w₂ → ∀ e₁ w₁' e₂ w₂', (x n s).Ends W₁ w₁ e₁ w₁' → (y n t).Ends W₂ w₂ e₂ w₂' →
    Match V L J e₁ w₁' e₂ w₂'

/-! ### One rule per way of building a procedure -/

theorem matched_pure {a : α} {b : β} (h : V a b) : Matched W₁ W₂ n L J V (pure a) (pure b) := by
  rintro s w₁ t w₂ hs _ _ _ _ ⟨rfl, rfl⟩ ⟨rfl, rfl⟩
  exact .result h hs

theorem matched_fail (e : Error) : Matched W₁ W₂ n L J V (fail e) (fail e) := by
  rintro s w₁ t w₂ hs _ _ _ _ ⟨rfl, rfl⟩ ⟨rfl, rfl⟩
  exact .result rfl hs

theorem matched_misuse (m : Misuse) (hJ : ∀ s w₁ t w₂, L s w₁ t w₂ → J w₁ w₂) :
    Matched W₁ W₂ n L J V (misuse m) (misuse m) := by
  rintro s w₁ t w₂ hs _ _ _ _ ⟨rfl, rfl⟩ ⟨rfl, rfl⟩
  exact .misused m (hJ s _ t _ hs)

theorem matched_modify {f : σ → σ} {g : τ → τ} (h : ∀ s w₁ t w₂, L s w₁ t w₂ → L (f s) w₁ (g t) w₂) :
    Matched W₁ W₂ n L J (fun _ _ => True) (modify f) (modify g) := by
  rintro s w₁ t w₂ hs _ _ _ _ ⟨rfl, rfl⟩ ⟨rfl, rfl⟩
  exact .result trivial (h s _ t _ hs)

theorem matched_bind {V' : γ → δ → Prop} {x : Procedure σ α} {y : Procedure τ β} {f : α → Procedure σ γ}
    {g : β → Procedure τ δ} (hx : Matched W₁ W₂ n L J V x y) (hf : ∀ a b, V a b → Matched W₁ W₂ n L J V' (f a) (g b)) :
    Matched W₁ W₂ n L J V' (x >>= f) (y >>= g) := by
  intro s w₁ t w₂ hs e₁ w₁' e₂ w₂' h₁ h₂
  obtain ⟨d₁, v₁, hd₁, h₁⟩ := Program.ends_bind h₁
  obtain ⟨d₂, v₂, hd₂, h₂⟩ := Program.ends_bind h₂
  cases hx s w₁ t w₂ hs d₁ v₁ d₂ v₂ hd₁ hd₂ with
  | misused m hJ =>
    obtain ⟨rfl, rfl⟩ := h₁
    obtain ⟨rfl, rfl⟩ := h₂
    exact .misused m hJ
  | stuck hJ =>
    obtain ⟨rfl, rfl⟩ := h₁
    obtain ⟨rfl, rfl⟩ := h₂
    exact .stuck hJ
  | @result r r' s v₁ t v₂ hr hL =>
    cases r with
    | ok a =>
      cases r' with
      | ok b => exact hf a b hr s v₁ t v₂ hL e₁ w₁' e₂ w₂' h₁ h₂
      | error e => cases hr
    | error e =>
      cases r' with
      | ok b => cases hr
      | error e' =>
        obtain ⟨rfl, rfl⟩ := h₁
        obtain ⟨rfl, rfl⟩ := h₂
        exact .result hr hL

/-- What is made of the states may rely on the states being level. -/
theorem matched_get {f : σ → Procedure σ α} {g : τ → Procedure τ β}
    (h : ∀ s w₁ t w₂, L s w₁ t w₂ → Matched W₁ W₂ n L J V (f s) (g t)) : Matched W₁ W₂ n L J V (get >>= f) (get >>= g) :=
  fun s w₁ t w₂ hs e₁ w₁' e₂ w₂' h₁ h₂ => h s w₁ t w₂ hs s w₁ t w₂ hs e₁ w₁' e₂ w₂' h₁ h₂

theorem matched_ite {c : Prop} [Decidable c] {x x' : Procedure σ α} {y y' : Procedure τ β} (hx : Matched W₁ W₂ n L J V x y)
    (hx' : Matched W₁ W₂ n L J V x' y') : Matched W₁ W₂ n L J V (if c then x else x') (if c then y else y') := by
  by_cases hc : c
  · rw [if_pos hc, if_pos hc]
    exact hx
  · rw [if_neg hc, if_neg hc]
    exact hx'

/-- Two steps that each come to a result of their own kind. -/
theorem matched_of_ensures {x : Procedure σ α} {y : Procedure τ β} (h : ∀ s w₁ t w₂, L s w₁ t w₂ → ∃ P Q,
    Ensures W₁ n x s w₁ (.succeeds P) ∧ Ensures W₂ n y t w₂ (.succeeds Q) ∧
      ∀ a s' w₁' b t' w₂', P a s' w₁' → Q b t' w₂' → V a b ∧ L s' w₁' t' w₂') : Matched W₁ W₂ n L J V x y := by
  intro s w₁ t w₂ hs e₁ w₁' e₂ w₂' h₁ h₂
  obtain ⟨P, Q, hx, hy, hPQ⟩ := h s w₁ t w₂ hs
  have hP := Program.ensures_iff_ends.1 hx e₁ w₁' h₁
  have hQ := Program.ensures_iff_ends.1 hy e₂ w₂' h₂
  match e₁, e₂, hP, hQ with
  | .result (.ok a, s'), .result (.ok b, t'), hP, hQ =>
    obtain ⟨hV, hL⟩ := hPQ a s' w₁' b t' w₂' hP hQ
    exact .result hV hL

/-! ### Calls -/

/-- Two calls that are answered alike. -/
theorem matched_ask {c₁ c₂ : Call} {f : c₁.Answer → Except Error α} {g : c₂.Answer → Except Error β}
    (h : ∀ s w₁ t w₂, L s w₁ t w₂ → ∀ a w₁' b w₂', W₁ c₁ w₁ a w₁' → W₂ c₂ w₂ b w₂' → Together V (f a) (g b) ∧ L s w₁' t w₂') :
    Matched W₁ W₂ n L J V (fun _ s => .ask c₁ fun a => .pure (f a, s)) (fun _ t => .ask c₂ fun b => .pure (g b, t)) := by
  rintro s w₁ t w₂ hs _ _ _ _ ⟨a, w₁', ha, rfl, rfl⟩ ⟨b, w₂', hb, rfl, rfl⟩
  obtain ⟨hr, hL⟩ := h s w₁ t w₂ hs a _ b _ ha hb
  exact .result hr hL

/-! ### Waits -/

theorem matched_waitUntil {site : WaitSite} {limit : WaitLimit} {check : Procedure σ Bool} {check' : Procedure τ Bool}
    (hcheck : Matched W₁ W₂ n L J Eq check check') (hnote : ∀ m, Matched W₁ W₂ n L J (fun _ _ => True) (note m) (note m))
    (hJ : ∀ s w₁ t w₂, L s w₁ t w₂ → J w₁ w₂) :
    Matched W₁ W₂ n L J (fun _ _ => True) (waitUntil site limit check) (waitUntil site limit check') := by
  have step : ∀ {rest : Procedure σ Unit} {rest' : Procedure τ Unit}, Matched W₁ W₂ n L J (fun _ _ => True) rest rest' →
      Matched W₁ W₂ n L J (fun _ _ => True) (do if ← check then pure () else rest) (do if ← check' then pure () else rest') := by
    intro rest rest' hrest
    refine matched_bind hcheck ?_
    rintro holds _ rfl
    cases holds
    · exact hrest
    · exact matched_pure trivial
  cases limit with
  | unbounded =>
    have unbounded : ∀ left, Matched W₁ W₂ n L J (fun _ _ => True) (waitUnbounded check left) (waitUnbounded check' left) := by
      intro left
      induction left with
      | zero =>
        rintro s w₁ t w₂ hs _ _ _ _ ⟨rfl, rfl⟩ ⟨rfl, rfl⟩
        exact .stuck (hJ s _ t _ hs)
      | succ left ih => exact step ih
    exact unbounded n
  | iterations checks =>
    have bounded : ∀ left made, Matched W₁ W₂ n L J (fun _ _ => True) (waitBounded site check made left)
        (waitBounded site check' made left) := by
      intro left
      induction left with
      | zero => exact fun made => matched_bind (hnote _) fun _ _ _ => matched_fail _
      | succ left ih => exact fun made => step (ih (made + 1))
    exact bounded _ 0

end

end Procedure
end AudioBringup
