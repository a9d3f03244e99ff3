import AudioBringup.Proofs.Ensures
/-!
# Proofs.Keeps — steps that may be cut short, but leave something as it is

A step keeps `P` of its state and `K` of the world if both hold after it wherever they held before, however it is answered
and however it ends, and if it never ends for a misuse.  A call keeps `K` where the world allows no other (`Closed`).
-/
namespace AudioBringup

/-- The world that notes as well whether every call so far was made where `P` holds of it. -/
def World.watched {ω : Type} (W : World Call Call.Answer ω) (P : Call → ω → Prop) : World Call Call.Answer (ω × Prop) :=
  fun c w a w' => W c w.1 a w'.1 ∧ (w'.2 ↔ w.2 ∧ P c w.1)

namespace Procedure

variable {σ τ α β ω : Type} {W : World Call Call.Answer ω} {P : σ → Prop} {K : ω → Prop} {n : Nat} {s : σ} {w : ω}

/-- However the step ends, `Q` holds of its state and of the world; it does not end for a misuse. -/
def throughout (Q : σ → ω → Prop) : Outcome σ α ω := ⟨fun _ => Q, fun _ => Q, fun _ => False, fun _ => True⟩

/-- `P` of the state and `K` of the world hold after `x` wherever they hold before it. -/
def Keeps (W : World Call Call.Answer ω) (P : σ → Prop) (K : ω → Prop) (x : Procedure σ α) : Prop :=
  ∀ n s w, P s → K w → Ensures W n x s w (throughout fun s w => P s ∧ K w)

/-- No answer to the call ends `K`. -/
def Closed (W : World Call Call.Answer ω) (K : ω → Prop) (c : Call) : Prop := ∀ w a w', W c w a w' → K w → K w'

theorem throughout_andThen {Q R : σ → ω → Prop} {x : Procedure σ α} {f : α → Procedure σ β}
    (hx : Ensures W n x s w (throughout Q)) (hQ : ∀ s w, Q s w → R s w)
    (hf : ∀ a s w, Q s w → Ensures W n (f a) s w (throughout R)) : Ensures W n (x >>= f) s w (throughout R) :=
  ensures_bind.2 (hx.mono hf (fun _ => hQ) (fun _ => id) fun _ => id)

/-! ### One rule per way of building a procedure -/

theorem keeps_pure {a : α} : Keeps W P K (pure a : Procedure σ α) := fun _ _ _ hs hw => ⟨hs, hw⟩

theorem keeps_fail {e : Error} : Keeps W P K (fail e : Procedure σ α) := fun _ _ _ hs hw => ⟨hs, hw⟩

theorem keeps_modify {f : σ → σ} (hf : ∀ s, P s → P (f s)) : Keeps W P K (modify f) := fun _ s _ hs hw => ⟨hf s hs, hw⟩

theorem keeps_bind {x : Procedure σ α} {f : α → Procedure σ β} (hx : Keeps W P K x) (hf : ∀ a, Keeps W P K (f a)) :
    Keeps W P K (x >>= f) := fun n s w hs hw =>
  throughout_andThen (hx n s w hs hw) (fun _ _ => id) fun a s w h => hf a n s w h.1 h.2

/-- What is made of the state may rely on what holds of it. -/
theorem keeps_get {f : σ → Procedure σ α} (hf : ∀ s, P s → Keeps W P K (f s)) : Keeps W P K (get >>= f) :=
  fun n s w hs hw => ensures_bind.2 (ensures_get.2 (hf s hs n s w hs hw))

theorem keeps_ite {c : Prop} [Decidable c] {x y : Procedure σ α} (hx : Keeps W P K x) (hy : Keeps W P K y) :
    Keeps W P K (if c then x else y) := by
  by_cases hc : c
  · rw [if_pos hc]
    exact hx
  · rw [if_neg hc]
    exact hy

theorem keeps_on {P' : τ → Prop} {t : τ} {put : τ → σ → σ} {x : Procedure τ α} (hx : Keeps W P' K x) (ht : P' t)
    (hput : ∀ t s, P' t → P s → P (put t s)) : Keeps W P K (on t put x) := fun n s w hs hw =>
  ensures_on.2 ((hx n t w ht hw).mono (fun _ t _ h => ⟨hput t s h.1 hs, h.2⟩) (fun _ t _ h => ⟨hput t s h.1 hs, h.2⟩)
    (fun _ => id) fun _ => id)

theorem keeps_waitUntil {site : WaitSite} {limit : WaitLimit} {check : Procedure σ Bool} (hcheck : Keeps W P K check)
    (hgave : ∀ k, Closed W K (.note (.gaveUp site k))) : Keeps W P K (waitUntil site limit check) := by
  intro n s w hs hw
  refine ensures_waitUntil (fun s w => P s ∧ K w) (fun s w h => ?_) (fun k s w w' h hnote => ⟨h.1, ?_⟩)
    (fun _ _ _ => trivial) ⟨hs, hw⟩
  · refine (hcheck n s w h.1 h.2).mono (fun holds _ _ h => ?_) (fun _ _ _ => id) (fun _ => id) fun _ => id
    cases holds <;> exact h
  · exact hgave k w () w' hnote h.2

/-! ### One rule per call -/

theorem keeps_ask {c : Call} {k : c.Answer → Except Error α} (hc : Closed W K c) :
    Keeps W P K (fun _ s => .ask c fun a => .pure (k a, s)) := by
  intro n s w hs hw a w' hanswer
  have hw' := hc w a w' hanswer hw
  cases hr : k a <;> simp only [Program.Ensures, hr] <;> exact ⟨hs, hw'⟩

theorem keeps_note {m : Notice} (hc : Closed W K (.note m)) : Keeps W P K (note m) := keeps_ask hc

theorem keeps_read {wd : Width} {o : BitVec 32} (hc : Closed W K (.read wd o)) : Keeps W P K (read wd o) := keeps_ask hc

theorem keeps_read16 {o : BitVec 32} (hc : Closed W K (.read .word o)) : Keeps W P K (read16 o) :=
  keeps_bind (keeps_read hc) fun _ => keeps_pure

theorem keeps_read8 {o : BitVec 32} (hc : Closed W K (.read .byte o)) : Keeps W P K (read8 o) :=
  keeps_bind (keeps_read hc) fun _ => keeps_pure

/-- A look at a register of 16 bits. -/
theorem keeps_look16 {o : BitVec 32} {g : BitVec 16 → α} (hc : Closed W K (.read .word o)) :
    Keeps W P K (do return g (← read16 o)) :=
  keeps_bind (keeps_read16 hc) fun _ => keeps_pure

theorem keeps_write {wd : Width} {o v : BitVec 32} (hc : Closed W K (.write wd o v)) : Keeps W P K (write wd o v) :=
  keeps_ask hc

theorem keeps_load32 {r : Region} {offset : Nat} (hlong : offset + 4 ≤ r.length) (haligned : offset % 4 = 0)
    (hc : Closed W K (.load32 (r.host + offset))) : Keeps W P K (r.load32 offset) := fun _ _ w hs hw =>
  (ensures_load32 hlong haligned).2 fun v w' hanswer => ⟨hs, hc w v w' hanswer hw⟩

theorem keeps_store32 {r : Region} {offset : Nat} {v : BitVec 32} (hlong : offset + 4 ≤ r.length)
    (haligned : offset % 4 = 0) (hc : Closed W K (.store32 (r.host + offset) v)) :
    Keeps W P K (r.store32 offset v) := fun _ _ w hs hw =>
  (ensures_store32 hlong haligned).2 fun w' hanswer => ⟨hs, hc w () w' hanswer hw⟩

/-! ### Memory -/

theorem ensures_store64 {r : Region} {offset : Nat} {v : BitVec 64} {Q : Outcome σ Unit ω}
    (hlong : offset + 8 ≤ r.length) (haligned : offset % 8 = 0) :
    Ensures W n (r.store64 offset v) s w Q ↔ ∀ w', W (.store64 (r.host + offset) v) w () w' → Q.ok () s w' := by
  unfold Region.store64
  rw [Region.locate_eq_ok hlong haligned]
  exact ⟨fun h w' => h () w', fun h _ w' => h w'⟩

theorem ensures_fill {r : Region} {offset : Nat} {data : Array Byte} {Q : Outcome σ Unit ω}
    (hlong : offset + data.size ≤ r.length) :
    Ensures W n (r.fill offset data) s w Q ↔ ∀ w', W (.fill (r.host + offset) data) w () w' → Q.ok () s w' := by
  have hfill : (r.fill offset data : Procedure σ Unit) = request (.fill (r.host + offset) data) := if_neg (by omega)
  rw [hfill]
  exact ⟨fun h w' => h () w', fun h _ w' => h w'⟩

end Procedure
end AudioBringup
