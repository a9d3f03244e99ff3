import AudioBringup.Proofs.History
/-!
# Proofs.Budget — how many calls a procedure makes at most

An extent says how much of everything there is (`Extent`): how many functions are on the bus, how many engines the
controller has, and how soon a timer that runs is seen to have expired.  Everything else is answered as the platform likes.

`Spends` bounds the calls to the bus and the platform that a procedure makes in such a world, whichever way it ends, and
says that it never waits for good.  The bounds add up as the procedure is built.
-/
namespace AudioBringup

namespace Call

/-- Goes to the bus or to the platform: not to memory the host has at hand, and no notice. -/
def outward : Call → Bool
  | .load32 _ | .load64 _ | .store32 .. | .store64 .. | .fill .. | .clear .. | .note _ => false
  | _ => true

end Call

namespace History

/-- How many calls went to the bus or to the platform. -/
def calls (h : History) : Nat := h.countP (·.call.outward)

/-- How often the timer has been looked at since it was started; nothing where none runs. -/
def looks : History → Option Nat
  | [] => none
  | ⟨.armTimer _, .ok ()⟩ :: _ => some 0
  | ⟨.armTimer _, .error _⟩ :: _ | ⟨.cancelTimer, _⟩ :: _ => none
  | ⟨.timerExpired, _⟩ :: h => (looks h).map (· + 1)
  | _ :: h => looks h

theorem calls_cons_le (m : Made) (h : History) : calls (m :: h) ≤ h.calls + 1 := by
  simp only [calls, List.countP_cons]
  split <;> omega

theorem calls_cons_of_aside {m : Made} {h : History} (hm : m.call.outward = false) : calls (m :: h) = h.calls := by
  simp [calls, hm]

end History

/-- How much of everything there is. -/
structure Extent where
  /-- PCI functions on the bus -/
  candidates : Nat
  /-- stream engines of the controller -/
  engines : Nat
  /-- looks at a timer that runs, the last of which finds it expired -/
  timerChecks : Nat

namespace Extent

/-- The answers of a platform of that extent: any, but for what the extent is about. -/
def Allows (x : Extent) (h : History) : Made → Prop
  | ⟨.candidates, .ok all⟩ => all.length ≤ x.candidates
  | ⟨.read _ o, .ok v⟩ => o = Register.gcap → (GlobalCaps.mk (v.setWidth 16)).totalStreams ≤ x.engines
  | ⟨.timerExpired, .ok false⟩ => ∀ k, h.looks = some k → k + 1 < x.timerChecks
  | _ => True

/-- Every platform of that extent. -/
def world (x : Extent) : World Call Call.Answer History := fun c h a h' => h' = ⟨c, a⟩ :: h ∧ x.Allows h ⟨c, a⟩

end Extent

namespace Procedure

variable {σ τ α β : Type} {x : Extent} {n j k : Nat} {I : σ → Prop} {J : τ → Prop} {R : α → Prop} {S : β → Prop}
  {p : Procedure σ α}

/-- At most `most` calls were made; what was left of the state is `I`, and a result is `R`. -/
def spent (I : σ → Prop) (R : α → Prop) (most : Nat) : Outcome σ α History where
  ok a s h := R a ∧ I s ∧ h.calls ≤ most
  error _ s h := I s ∧ h.calls ≤ most
  misused h := h.calls ≤ most
  stuck _ := False

/-- **A bound on calls**: from every state that is `I`, a procedure that is followed for `n` checks makes at most `k` calls,
comes to an end, and leaves a state that is `I`; its result is `R`. -/
def Spends (x : Extent) (n : Nat) (I : σ → Prop) (k : Nat) (p : Procedure σ α) (R : α → Prop) : Prop :=
  ∀ s h, I s → Ensures x.world n p s h (spent I R (h.calls + k))

theorem Ensures.spent_mono {R' : α → Prop} {s : σ} {h : History} (hp : Ensures x.world n p s h (spent I R j)) (hjk : j ≤ k)
    (hR : ∀ a, R a → R' a) : Ensures x.world n p s h (spent I R' k) := by
  apply hp.mono
  · exact fun a _ _ hh => ⟨hR a hh.1, hh.2.1, Nat.le_trans hh.2.2 hjk⟩
  · exact fun _ _ _ hh => ⟨hh.1, Nat.le_trans hh.2 hjk⟩
  · exact fun _ hcalls => Nat.le_trans hcalls hjk
  · exact fun _ hstuck => hstuck

theorem Spends.weaken {R' : α → Prop} (hp : Spends x n I j p R) (hjk : j ≤ k) (hR : ∀ a, R a → R' a) :
    Spends x n I k p R' := fun s h hs => (hp s h hs).spent_mono (by omega) hR

theorem Spends.le (hp : Spends x n I j p R) (hjk : j ≤ k) : Spends x n I k p R := hp.weaken hjk fun _ => id

/-! ### One rule per way of building a procedure -/

theorem spends_pure {a : α} (ha : R a) : Spends x n I 0 (pure a) R := fun _ _ hs => ⟨ha, hs, Nat.le_refl _⟩

theorem spends_fail (e : Error) : Spends x n I 0 (fail e : Procedure σ α) R := fun _ _ hs => ⟨hs, Nat.le_refl _⟩

theorem spends_misuse (m : Misuse) : Spends x n I 0 (misuse m : Procedure σ α) R := fun _ _ _ => Nat.le_refl _

/-- **What two steps cost adds up.** -/
theorem Spends.bind {f : α → Procedure σ β} (hp : Spends x n I j p R) (hf : ∀ a, R a → Spends x n I k (f a) S) :
    Spends x n I (j + k) (p >>= f) S := by
  intro s h hs
  rw [ensures_bind]
  apply (hp s h hs).mono
  · rintro a s' h' ⟨ha, hs', hcalls⟩
    exact (hf a ha s' h' hs').spent_mono (by omega) fun _ => id
  · exact fun e s' h' hh => ⟨hh.1, Nat.le_trans hh.2 (by omega)⟩
  · exact fun h' hcalls => Nat.le_trans hcalls (by omega)
  · exact fun _ hstuck => hstuck

theorem Spends.andThen {f : α → Procedure σ β} (hp : Spends x n I j p fun _ => True)
    (hf : ∀ a, Spends x n I k (f a) S) : Spends x n I (j + k) (p >>= f) S := hp.bind fun a _ => hf a

theorem Spends.seq {q : Procedure σ β} (hp : Spends x n I j p fun _ => True) (hq : Spends x n I k q S) :
    Spends x n I (j + k) (p >>= fun _ => q) S := hp.andThen fun _ => hq

/-- The state is known where it is looked at. -/
theorem spends_get_bind {f : σ → Procedure σ β} (hf : ∀ s, I s → Spends x n I k (f s) S) :
    Spends x n I k (get >>= f) S := fun s h hs => hf s hs s h hs

theorem spends_modify_seq {f : σ → σ} {q : Procedure σ β} (hf : ∀ s, I s → I (f s)) (hq : Spends x n I k q S) :
    Spends x n I k (modify f >>= fun _ => q) S := fun s h hs => hq (f s) h (hf s hs)

theorem spends_ite {c : Prop} [Decidable c] {q : Procedure σ α} (hp : c → Spends x n I j p R)
    (hq : ¬c → Spends x n I k q R) : Spends x n I (max j k) (if c then p else q) R := by
  by_cases hc : c
  · rw [if_pos hc]
    exact (hp hc).le (Nat.le_max_left j k)
  · rw [if_neg hc]
    exact (hq hc).le (Nat.le_max_right j k)

theorem spends_when {c : Prop} [Decidable c] {p : Procedure σ Unit} {rest : Procedure σ α}
    (hp : Spends x n I j p fun _ => True) (hrest : Spends x n I k rest R) :
    Spends x n I (j + k) (if c then (do p; rest) else rest) R :=
  (spends_ite (fun _ => hp.seq hrest) fun _ => hrest).le (by omega)

/-- A step whose failure is looked at costs what it costs. -/
theorem spends_attempt {f : Except Error α → Procedure σ β} (hp : Spends x n I j p R)
    (hok : ∀ a, R a → Spends x n I k (f (.ok a)) S) (herror : ∀ e, Spends x n I k (f (.error e)) S) :
    Spends x n I (j + k) (attempt p >>= f) S := by
  have hattempt : Spends x n I j (attempt p) fun r => ∀ a, r = .ok a → R a := by
    intro s h hs
    rw [ensures_attempt]
    apply (hp s h hs).mono
    · rintro a s' h' ⟨ha, hs', hcalls⟩
      exact ⟨fun _ hr => Except.ok.inj hr ▸ ha, hs', hcalls⟩
    · rintro e s' h' ⟨hs', hcalls⟩
      exact ⟨nofun, hs', hcalls⟩
    · exact fun _ hcalls => hcalls
    · exact fun _ hstuck => hstuck
  apply hattempt.bind
  rintro (e | a) hr
  · exact herror e
  · exact hok a (hr a rfl)

theorem spends_on {t : τ} {put : τ → σ → σ} {p : Procedure τ α} (hp : Spends x n J k p R) (ht : J t)
    (hput : ∀ s t, I s → J t → I (put t s)) : Spends x n I k (on t put p) R := by
  intro s h hs
  rw [ensures_on]
  apply (hp t h ht).mono
  · exact fun _ t' _ hh => ⟨hh.1, hput s t' hs hh.2.1, hh.2.2⟩
  · exact fun _ t' _ hh => ⟨hput s t' hs hh.1, hh.2⟩
  · exact fun _ hcalls => hcalls
  · exact fun _ hstuck => hstuck

/-- A procedure on a state of its own, which is `J` whether it fails or not. -/
theorem spends_within {t : τ} {p : Procedure τ α} (hp : Spends x n J k p R) (ht : J t) :
    Spends x n I k (within t p) fun r => J r.2 := by
  intro s h hs
  rw [ensures_within]
  apply (hp t h ht).mono
  · exact fun _ _ _ hh => ⟨hh.2.1, hs, hh.2.2⟩
  · exact fun _ _ _ hh => ⟨hh.1, hs, hh.2⟩
  · exact fun _ hcalls => hcalls
  · exact fun _ hstuck => hstuck

/-- **A wait with a limit costs its checks**, and never waits for good. -/
theorem spends_waitUntil {site : WaitSite} {limit : WaitLimit} {check : Procedure σ Bool} (hlimit : limit ≠ .unbounded)
    (hcheck : Spends x n I j check fun _ => True) :
    Spends x n I (limit.checks 0 * j) (waitUntil site limit check) fun _ => True := by
  have hnote : ∀ made, Spends x n I 0 (note (.gaveUp site made)) fun _ => True := by
    rintro made s h hs a _ ⟨rfl, -⟩
    exact ⟨trivial, hs, Nat.le_of_eq (History.calls_cons_of_aside rfl)⟩
  -- every check that is left is paid for, whether it is made or not
  have hbounded : ∀ left made, Spends x n I (left * j) (waitBounded site check made left) fun _ => True := by
    intro left
    induction left with
    | zero =>
      intro made
      apply ((hnote made).seq (spends_fail (.waitTimedOut site))).le
      omega
    | succ left ih =>
      intro made
      apply (hcheck.andThen fun holds => spends_ite (fun _ => spends_pure trivial) fun _ => ih (made + 1)).le
      rw [Nat.succ_mul]
      omega
  cases limit with
  | unbounded => exact absurd rfl hlimit
  | iterations checks => exact hbounded _ 0

/-! ### One rule per call -/

/-- A call costs one at most, and a result is what the platform allows. -/
theorem spends_ask {c : Call} {f : c.Answer → Except Error α} (hR : ∀ h a v, x.Allows h ⟨c, a⟩ → f a = .ok v → R v) :
    Spends x n I 1 (fun _ s => .ask c fun a => .pure (f a, s)) R := by
  rintro s h hs a _ ⟨rfl, ha⟩
  have hcalls := History.calls_cons_le ⟨c, a⟩ h
  cases hf : f a with
  | ok v =>
    simp only [Program.Ensures, hf]
    exact ⟨hR h a v ha hf, hs, hcalls⟩
  | error e =>
    simp only [Program.Ensures, hf]
    exact ⟨hs, hcalls⟩

/-- A call that stays with the host costs nothing. -/
theorem spends_aside {c : Call} (hc : c.outward = false) : Spends x n I 0 (request c) fun _ => True := by
  rintro s h hs a _ ⟨rfl, -⟩
  exact ⟨trivial, hs, Nat.le_of_eq (History.calls_cons_of_aside hc)⟩

theorem spends_note (m : Notice) : Spends x n I 0 (note m) fun _ => True := spends_aside rfl

theorem spends_read (w : Width) (o : BitVec 32) : Spends x n I 1 (read w o) fun _ => True :=
  spends_ask fun _ _ _ _ _ => trivial

theorem spends_write (w : Width) (o v : BitVec 32) : Spends x n I 1 (write w o v) fun _ => True :=
  spends_ask fun _ _ _ _ _ => trivial

theorem spends_allocate (length : Nat) : Spends x n I 1 (allocate length) fun _ => True :=
  spends_ask fun _ _ _ _ _ => trivial

theorem spends_free (g : Region) : Spends x n I 1 (free g) fun _ => True := spends_ask fun _ _ _ _ _ => trivial

theorem spends_stall (k : Nat) : Spends x n I 1 (stall k) fun _ => True := spends_ask fun _ _ _ _ _ => trivial

theorem spends_release : Spends x n I 1 release fun _ => True := spends_ask fun _ _ _ _ _ => trivial

theorem spends_read8 (o : BitVec 32) : Spends x n I 1 (read8 o) fun _ => True :=
  (spends_read .byte o).andThen fun _ => spends_pure trivial

theorem spends_read16 (o : BitVec 32) : Spends x n I 1 (read16 o) fun _ => True :=
  (spends_read .word o).andThen fun _ => spends_pure trivial

/-- A look at a register of 16 bits. -/
theorem spends_look16 (o : BitVec 32) (g : BitVec 16 → α) : Spends x n I 1 (do return g (← read16 o)) fun _ => True :=
  (spends_read16 o).andThen fun _ => spends_pure trivial

theorem spends_writeAddress (lower upper : BitVec 32) (address : BitVec 64) :
    Spends x n I 2 (writeAddress lower upper address) fun _ => True :=
  (spends_write _ _ _).seq (spends_write _ _ _)

/-! ### Memory -/

theorem spends_locate {r : Region} {offset size : Nat} {y : Nat → Procedure σ α} (hy : ∀ host, Spends x n I 0 (y host) R) :
    Spends x n I 0 (match r.locate offset size with
      | .ok host => y host
      | .error m => misuse m) R := by
  cases r.locate offset size with
  | ok host => exact hy host
  | error m => exact spends_misuse m

theorem spends_load32 (r : Region) (offset : Nat) : Spends x n I 0 (r.load32 offset) fun _ => True :=
  spends_locate fun _ => spends_aside rfl

theorem spends_store32 (r : Region) (offset : Nat) (v : BitVec 32) : Spends x n I 0 (r.store32 offset v) fun _ => True :=
  spends_locate fun _ => spends_aside rfl

theorem spends_store64 (r : Region) (offset : Nat) (v : BitVec 64) : Spends x n I 0 (r.store64 offset v) fun _ => True :=
  spends_locate fun _ => spends_aside rfl

theorem spends_fill (r : Region) (offset : Nat) (data : Array Byte) : Spends x n I 0 (r.fill offset data) fun _ => True :=
  spends_ite (fun _ => spends_misuse _) fun _ => spends_aside rfl

theorem spends_zero (r : Region) : Spends x n I 0 r.zero fun _ => True := spends_aside rfl

end Procedure
end AudioBringup
