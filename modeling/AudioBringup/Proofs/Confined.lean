import AudioBringup.Bringup
import AudioBringup.Proofs.History
/-!
# Proofs.Confined — which calls a procedure makes, and what it leaves of its state

A procedure is confined to the calls `P` and to what `f` sees of its state if it makes no other call and leaves `f` of
the state as it was, whatever it is answered and however it ends.  Whatever no such call ends then outlives the
procedure (`Confined.keeps`), so a fact about a run needs a proof about the steps that can end it only.
-/
namespace AudioBringup

namespace History

variable {P P' : Call → Prop} {K K' : History → Prop} {h h₁ h₂ : History}

theorem Grows.of_stable (hK : Stable P K) : ∀ {h'}, h.Grows P h' → K h → K h'
  | _, .refl, hh => hh
  | _, .call hc hg, hh => hK _ _ _ hc (hg.of_stable hK hh)

theorem Grows.trans (h₁₂ : h.Grows P h₁) : ∀ {h₂}, h₁.Grows P h₂ → h.Grows P h₂
  | _, .refl => h₁₂
  | _, .call hc hg => .call hc (h₁₂.trans hg)

theorem Grows.mono (hP : ∀ c, P c → P' c) : ∀ {h'}, h.Grows P h' → h.Grows P' h'
  | _, .refl => .refl
  | _, .call hc hg => .call (hP _ hc) (hg.mono hP)

theorem Stable.mono (hP : ∀ c, P' c → P c) (h : Stable P K) : Stable P' K := fun c a h' hc => h c a h' (hP c hc)

protected theorem Stable.and (hk : Stable P K) (hk' : Stable P K') : Stable P fun h => K h ∧ K' h :=
  fun c a h hc hh => ⟨hk c a h hc hh.1, hk' c a h hc hh.2⟩

end History

namespace Procedure

open History (Stable)

variable {σ τ υ α β : Type} {P P' : Call → Prop} {f : σ → τ} {x : Procedure σ α}

/-- Every call is `P`, and `f` of the state is left as it was. -/
def Confined (P : Call → Prop) (f : σ → τ) (x : Procedure σ α) : Prop :=
  ∀ n s h, Ensures recording n x s h (.always (fun s' h' => f s' = f s ∧ h.Grows P h') (h.Grows P))

theorem Confined.mono (hP : ∀ c, P c → P' c) (hx : Confined P f x) : Confined P' f x := fun n s h =>
  (hx n s h).mono (fun _ _ _ hh => ⟨hh.1, hh.2.mono hP⟩) (fun _ _ _ hh => ⟨hh.1, hh.2.mono hP⟩)
    (fun _ hh => hh.mono hP) (fun _ hh => hh.mono hP)

theorem Confined.map (g : τ → υ) (hx : Confined P f x) : Confined P (fun s => g (f s)) x := fun n s h =>
  (hx n s h).mono (fun _ _ _ hh => ⟨congrArg g hh.1, hh.2⟩) (fun _ _ _ hh => ⟨congrArg g hh.1, hh.2⟩)
    (fun _ hh => hh) (fun _ hh => hh)

/-- **What no call ends outlives the procedure.** -/
theorem Confined.keeps {K : History → Prop} (hx : Confined P f x) (hK : Stable P K) {n : Nat} {s : σ} {h : History}
    (hh : K h) : Ensures recording n x s h (.always (fun s' h' => f s' = f s ∧ K h') K) :=
  (hx n s h).mono (fun _ _ _ hg => ⟨hg.1, hg.2.of_stable hK hh⟩) (fun _ _ _ hg => ⟨hg.1, hg.2.of_stable hK hh⟩)
    (fun _ hg => hg.of_stable hK hh) (fun _ hg => hg.of_stable hK hh)

/-! ### One rule per way of building a procedure -/

theorem confined_pure (a : α) : Confined P f (pure a : Procedure σ α) := fun _ _ _ => ⟨rfl, .refl⟩

theorem confined_fail (e : Error) : Confined P f (fail e : Procedure σ α) := fun _ _ _ => ⟨rfl, .refl⟩

theorem confined_misuse (m : Misuse) : Confined P f (misuse m : Procedure σ α) := fun _ _ _ => .refl

theorem confined_get : Confined P f (get : Procedure σ σ) := fun _ _ _ => ⟨rfl, .refl⟩

theorem confined_modify {g : σ → σ} (hg : ∀ s, f (g s) = f s) : Confined P f (modify g) := fun _ s _ => ⟨hg s, .refl⟩

theorem confined_bind {g : α → Procedure σ β} (hx : Confined P f x) (hg : ∀ a, Confined P f (g a)) :
    Confined P f (x >>= g) := by
  intro n s h
  refine ensures_bind.2 ((hx n s h).mono (fun a s₁ h₁ hh => ?_) (fun _ _ _ => id) (fun _ => id) (fun _ => id))
  obtain ⟨hs, hh⟩ := hh
  exact (hg a n s₁ h₁).mono (fun _ _ _ h₂ => ⟨h₂.1.trans hs, hh.trans h₂.2⟩) (fun _ _ _ h₂ => ⟨h₂.1.trans hs, hh.trans h₂.2⟩)
    (fun _ h₂ => hh.trans h₂) (fun _ h₂ => hh.trans h₂)

theorem confined_ite {c : Prop} [Decidable c] {y : Procedure σ α} (hx : Confined P f x) (hy : Confined P f y) :
    Confined P f (if c then x else y) := by
  by_cases hc : c
  · rw [if_pos hc]
    exact hx
  · rw [if_neg hc]
    exact hy

theorem confined_on {ρ : Type} {t₀ : ρ} {put : ρ → σ → σ} {y : Procedure ρ α} {g : ρ → υ} (hy : Confined P g y)
    {n : Nat} {s : σ} {h : History} (hput : ∀ t, g t = g t₀ → f (put t s) = f s) :
    Ensures recording n (on t₀ put y) s h (.always (fun s' h' => f s' = f s ∧ h.Grows P h') (h.Grows P)) :=
  ensures_on.2 ((hy n t₀ h).mono (fun _ t _ hh => ⟨hput t hh.1, hh.2⟩) (fun _ t _ hh => ⟨hput t hh.1, hh.2⟩)
    (fun _ => id) (fun _ => id))

theorem confined_attempt (hx : Confined P f x) : Confined P f (attempt x) := fun n s h =>
  ensures_attempt.2 ((hx n s h).mono (fun _ _ _ => id) (fun _ _ _ => id) (fun _ => id) fun _ => id)

theorem confined_waitUntil {site : WaitSite} {limit : WaitLimit} {check : Procedure σ Bool} (hcheck : Confined P f check)
    (hgave : ∀ k, P (.note (.gaveUp site k))) : Confined P f (waitUntil site limit check) := by
  intro n s h
  refine ensures_waitUntil (fun s' h' => f s' = f s ∧ h.Grows P h') (fun s₁ h₁ hh => ?_) ?_ (fun _ _ hh => hh.2) ⟨rfl, .refl⟩
  · refine (hcheck n s₁ h₁).mono (fun b _ _ h₂ => ?_) (fun _ _ _ h₂ => ⟨h₂.1.trans hh.1, hh.2.trans h₂.2⟩)
      (fun _ h₂ => hh.2.trans h₂) (fun _ h₂ => hh.2.trans h₂)
    cases b <;> exact ⟨h₂.1.trans hh.1, hh.2.trans h₂.2⟩
  · rintro k s₁ h₁ _ hh rfl
    exact ⟨hh.1, .call (hgave k) hh.2⟩

/-- Any program makes some calls. -/
theorem ensures_grows : ∀ {p : Program Call Call.Answer α} {h : History},
    p.Ensures recording (fun _ => h.Grows fun _ => True) h
  | .pure _, _ | .misused _, _ | .stuck, _ => .refl
  | .ask _ _, _ => by
    rintro a _ rfl
    exact ensures_grows.mono fun _ _ hg => (History.Grows.call trivial .refl).trans hg

theorem confined_anything : Confined (fun _ => True) (fun _ => ()) x := fun n s _ =>
  (ensures_grows (p := x n s)).mono fun e _ hg => match e with
    | .result (.ok _, _) | .result (.error _, _) => ⟨rfl, hg⟩
    | .misused _ | .stuck => hg

/-! ### One rule per call -/

theorem confined_ask {c : Call} {k : c.Answer → Except Error α} (hc : P c) :
    Confined P f (fun _ s => .ask c fun a => .pure (k a, s)) := by
  rintro n s h a _ rfl
  cases hr : k a <;> simp only [Program.Ensures, hr] <;> exact ⟨rfl, .call hc .refl⟩

theorem confined_request {c : Call} (hc : P c) : Confined P f (request c : Procedure σ c.Answer) := confined_ask hc

theorem confined_note {m : Notice} (hc : P (.note m)) : Confined P f (note m) := confined_request hc

theorem confined_read {w : Width} {o : BitVec 32} (hc : P (.read w o)) : Confined P f (read w o) := confined_ask hc

theorem confined_write {w : Width} {o v : BitVec 32} (hc : P (.write w o v)) : Confined P f (write w o v) :=
  confined_ask hc

theorem confined_stall {k : Nat} (hc : P (.stall k)) : Confined P f (stall k) := confined_ask hc

theorem confined_armTimer {d : BitVec 64} (hc : P (.armTimer d)) : Confined P f (armTimer d) := confined_ask hc

theorem confined_timerExpired (hc : P .timerExpired) : Confined P f timerExpired := confined_ask hc

theorem confined_cancelTimer (hc : P .cancelTimer) : Confined P f cancelTimer := confined_ask hc

theorem confined_read16 {o : BitVec 32} (hc : P (.read .word o)) : Confined P f (read16 o) :=
  confined_bind (confined_read hc) fun _ => confined_pure _

/-- A look at a register of 16 bits. -/
theorem confined_look16 {o : BitVec 32} {g : BitVec 16 → α} (hc : P (.read .word o)) :
    Confined P f (do return g (← read16 o)) :=
  confined_bind (confined_read16 hc) fun _ => confined_pure _

theorem confined_read8 {o : BitVec 32} (hc : P (.read .byte o)) : Confined P f (read8 o) :=
  confined_bind (confined_read hc) fun _ => confined_pure _

/-! ### Memory -/

/-- An access is made where the region admits it, or none is. -/
theorem confined_locate {r : Region} {offset size : Nat} {y : Nat → Procedure σ α}
    (hy : Confined P f (y (r.host + offset))) :
    Confined P f (match r.locate offset size with
      | .ok host => y host
      | .error m => misuse m) := by
  rcases r.locate_cases offset size with hlocated | ⟨m, hlocated⟩
  · rw [hlocated]
    exact hy
  · rw [hlocated]
    exact confined_misuse m

theorem confined_load32 {r : Region} {offset : Nat} (hc : P (.load32 (r.host + offset))) :
    Confined P f (r.load32 offset) :=
  confined_locate (y := fun host => request (.load32 host)) (confined_request hc)

theorem confined_store32 {r : Region} {offset : Nat} {v : BitVec 32} (hc : P (.store32 (r.host + offset) v)) :
    Confined P f (r.store32 offset v) :=
  confined_locate (y := fun host => request (.store32 host v)) (confined_request hc)

theorem confined_store64 {r : Region} {offset : Nat} {v : BitVec 64} (hc : P (.store64 (r.host + offset) v)) :
    Confined P f (r.store64 offset v) :=
  confined_locate (y := fun host => request (.store64 host v)) (confined_request hc)

theorem confined_fill {r : Region} {offset : Nat} {data : Array Byte} (hc : P (.fill (r.host + offset) data)) :
    Confined P f (r.fill offset data) :=
  confined_ite (confined_misuse _) (confined_ask (k := .ok) hc)

/-! ### A step with what follows it -/

section
variable {n : Nat} {s : σ} {h : History} {J K M : History → Prop} {E : Error → History → Prop} {ok : α → History → Prop}
  {ok' : β → History → Prop}

/-- A step that leaves its state as it is: a result satisfies `ok`, an error `E`, and `M` holds where it comes to neither. -/
def still (s : σ) (ok : α → History → Prop) (E : Error → History → Prop) (M : History → Prop) : Outcome σ α History :=
  ⟨fun a s' h => s' = s ∧ ok a h, fun e s' h => s' = s ∧ E e h, M, M⟩

theorem still_andThen {f : α → Procedure σ β} {Q : Outcome σ β History} (hx : Ensures recording n x s h (still s ok E M))
    (herror : ∀ e h, E e h → Q.error e s h) (hmisused : ∀ h, M h → Q.misused h) (hstuck : ∀ h, M h → Q.stuck h)
    (hf : ∀ a h, ok a h → Ensures recording n (f a) s h Q) : Ensures recording n (x >>= f) s h Q := by
  refine ensures_bind.2 (hx.mono ?_ ?_ hmisused hstuck)
  · rintro a _ h ⟨rfl, ha⟩
    exact hf a h ha
  · rintro e _ h ⟨rfl, he⟩
    exact herror e h he

theorem still_bind {f : α → Procedure σ β} (hx : Ensures recording n x s h (still s ok E M))
    (hf : ∀ a h, ok a h → Ensures recording n (f a) s h (still s ok' E M)) :
    Ensures recording n (x >>= f) s h (still s ok' E M) :=
  still_andThen hx (fun _ _ he => ⟨rfl, he⟩) (fun _ => id) (fun _ => id) hf

/-- A step that leaves its state as it is: a result satisfies `ok`, and `J` holds wherever else it ends. -/
def steady (J : History → Prop) (s : σ) (ok : α → History → Prop) : Outcome σ α History :=
  ⟨fun a s' h => s' = s ∧ ok a h, fun _ s' h => s' = s ∧ J h, J, J⟩

theorem steady_bind {f : α → Procedure σ β} (hx : Ensures recording n x s h (steady J s ok))
    (hf : ∀ a h, ok a h → Ensures recording n (f a) s h (steady J s ok')) :
    Ensures recording n (x >>= f) s h (steady J s ok') := still_bind (M := J) (E := fun _ => J) hx hf

theorem Confined.steady (hx : Confined P id x) (hK : Stable P K) (hJ : ∀ h, K h → J h) (hh : K h) :
    Ensures recording n x s h (steady J s fun _ => K) :=
  (hx.keeps hK hh).mono (fun _ _ _ => id) (fun _ _ h hk => ⟨hk.1, hJ h hk.2⟩) hJ hJ

/-- A confined step with what follows it. -/
theorem Confined.steadyThen {f : α → Procedure σ β} (hK : Stable P K) (hJ : ∀ h, K h → J h) (hx : Confined P id x)
    (hf : ∀ a h, K h → Ensures recording n (f a) s h (Procedure.steady J s ok')) (hh : K h) :
    Ensures recording n (x >>= f) s h (Procedure.steady J s ok') := steady_bind (hx.steady hK hJ hh) hf

end

end Procedure
end AudioBringup
