import AudioBringup.Proofs.BufferSplit
import AudioBringup.Proofs.Confined
/-!
# Proofs.Candid — the failure a run ends with is the first it met

A procedure that meets a failure ends there, and with that failure.  Whatever it is answered, all its calls before the one
that ended it went well (`FirstFailure`).  Only where the rings get half of their memory may another failure take the place
of the first: giving the one half back may fail as well (`Masked`).
-/
namespace AudioBringup

namespace Error

/-- An error of the bring-up's own: no call has to fail for it. -/
def Own : Error → Prop
  | .deviceIo .. | .outOfResources => False
  | _ => True

end Error

/-- The failure in an answer, if it is one. -/
def failureOf {α : Type} : Except Error α → Option Error
  | .ok _ => none
  | .error e => some e

namespace Call

/-- The failure a call was answered by, if it was. -/
def failure? : (c : Call) → c.Answer → Option Error
  | .candidates, r => failureOf r
  | .identify _, r => failureOf r
  | .read .., r => failureOf r
  | .allocate _, r => failureOf r
  | .timerExpired, r => failureOf r
  | .bindExclusive _, r | .release, r | .write .., r | .free _, r | .stall _, r | .armTimer _, r | .cancelTimer, r =>
    failureOf r
  | .load32 _, _ | .load64 _, _ | .store32 .., _ | .store64 .., _ | .fill .., _ | .clear .., _ | .note _, _ => none

/-- Asks nothing of the bus itself. -/
def OffBus : Call → Prop
  | .candidates | .identify _ | .bindExclusive _ | .release => False
  | _ => True

end Call

/-- The failure a call was answered by, if it was. -/
def Made.failure? (m : Made) : Option Error := m.call.failure? m.answer

namespace History

/-- The failures that calls were answered by, the latest first. -/
def failures (h : History) : List Error := h.filterMap Made.failure?

/-- No call failed. -/
def Smooth (h : History) : Prop := ∀ m ∈ h, m.failure? = none

/-- `e` came up in the latest call or was found after it, and was the first failure of all. -/
inductive FirstFailure (e : Error) : History → Prop
  /-- nothing failed, but what was answered will not do -/
  | found {h : History} (own : e.Own) (smooth : h.Smooth) : FirstFailure e h
  | answered {m : Made} {h : History} (failed : m.failure? = some e) (smooth : h.Smooth) : FirstFailure e (m :: h)
  /-- there was no memory for the response ring, and that of the command ring went back -/
  | undone {g : Region} {h : History} (smooth : h.Smooth) :
    FirstFailure e (⟨.free g, Except.ok ()⟩ :: ⟨.allocate CommandRings.rirbLength, Except.error e⟩ ::
      ⟨.allocate CommandRings.corbLength, Except.ok g⟩ :: h)

/-- There was no memory for the response ring, for a reason that is lost: `e` came up when that of the command ring was to
go back. -/
def Masked (e : Error) (h : History) : Prop :=
  ∃ e' g h₀, Smooth h₀ ∧ h = ⟨.free g, Except.error e⟩ :: ⟨.allocate CommandRings.rirbLength, Except.error e'⟩ ::
    ⟨.allocate CommandRings.corbLength, Except.ok g⟩ :: h₀

theorem smooth_nil : Smooth [] := fun _ hm => absurd hm List.not_mem_nil

theorem Smooth.cons {m : Made} {h : History} (hm : m.failure? = none) (hs : h.Smooth) : Smooth (m :: h) :=
  List.forall_mem_cons.2 ⟨hm, hs⟩

theorem Smooth.failures_eq {h : History} (hs : h.Smooth) : h.failures = [] := List.filterMap_eq_nil_iff.2 hs

/-- A first failure that came from a call is the first of all failures. -/
theorem FirstFailure.first {e : Error} (he : ¬e.Own) : ∀ {h : History}, h.FirstFailure e → h.failures = [e]
  | _, .found own _ => absurd own he
  | _ :: _, .answered failed smooth => (List.filterMap_cons_some failed).trans (congrArg (e :: ·) smooth.failures_eq)
  | _, .undone smooth => congrArg (e :: ·) smooth.failures_eq

end History

/-- Calls come on top of those that were made before. -/
theorem Program.ensures_grown {α : Type} : ∀ {p : Program Call Call.Answer α} {h : History},
    p.Ensures recording (fun _ h' => ∃ later, h' = later ++ h) h
  | .pure _, _ | .misused _, _ | .stuck, _ => ⟨[], rfl⟩
  | .ask c next, h => by
    rintro a _ rfl
    refine ensures_grown.mono ?_
    rintro _ _ ⟨later, rfl⟩
    exact ⟨later ++ [⟨c, a⟩], by rw [List.append_assoc]; rfl⟩

theorem Call.nonempty_answer : ∀ c : Call, Nonempty c.Answer
  | .candidates | .identify _ | .bindExclusive _ | .release | .read .. | .write .. | .allocate _ | .free _ | .stall _
  | .armTimer _ | .timerExpired | .cancelTimer => ⟨Except.error .noController⟩
  | .load32 _ => ⟨(0 : BitVec 32)⟩
  | .load64 _ => ⟨(0 : BitVec 64)⟩
  | .store32 .. | .store64 .. | .fill .. | .clear .. | .note _ => ⟨()⟩

/-- Every program comes to some ending. -/
theorem Program.exists_ending {α : Type} {Q : Ending α → History → Prop} : ∀ {p : Program Call Call.Answer α} {h : History},
    p.Ensures recording Q h → ∃ e later, Q e (later ++ h)
  | .pure _, _, hp | .misused _, _, hp | .stuck, _, hp => ⟨_, [], hp⟩
  | .ask c next, h, hp => by
    obtain ⟨a⟩ := c.nonempty_answer
    obtain ⟨e, later, hq⟩ := exists_ending (hp a _ rfl)
    exact ⟨e, later ++ [⟨c, a⟩], by rwa [List.append_assoc]⟩

/-- What holds of all calls that were made holds of all calls that can be made. -/
theorem Program.asks_of_ensures {α : Type} {P : Call → Prop} : ∀ {p : Program Call Call.Answer α} {h : History},
    p.Ensures recording (fun _ h' => ∀ m ∈ h', P m.call) h → p.Asks P
  | .pure _, _, _ | .misused _, _, _ | .stuck, _, _ => trivial
  | .ask c next, h, hp => by
    refine ⟨?_, fun a => asks_of_ensures (hp a _ rfl)⟩
    obtain ⟨a⟩ := c.nonempty_answer
    obtain ⟨e, later, hq⟩ := exists_ending (hp a _ rfl)
    exact hq ⟨c, a⟩ (List.mem_append_right _ List.mem_cons_self)

namespace Procedure

open History

variable {σ τ α β : Type} {P P' : Call → Prop} {x : Procedure σ α} {n : Nat} {s : σ} {h h₁ : History}

/-- What is to hold of the calls on top of `h` when a procedure comes to each kind of ending. -/
def faithful (P : Call → Prop) (h : History) : Outcome σ α History where
  ok _ _ h' := h'.Smooth ∧ h.Grows P h'
  error e _ h' := (h'.FirstFailure e ∨ h'.Masked e) ∧ h.Grows P h'
  misused h' := h'.Smooth ∧ h.Grows P h'
  stuck h' := h'.Smooth ∧ h.Grows P h'

/-- Every call is `P`, and after calls that went well a failure is the first one. -/
def Candid (P : Call → Prop) (x : Procedure σ α) : Prop :=
  ∀ n s h, Smooth h → Ensures recording n x s h (faithful P h)

/-- What goes on from calls that went well. -/
theorem Candid.on_top (hx : Candid P x) (hh : h₁.Smooth ∧ h.Grows P h₁) : Ensures recording n x s h₁ (faithful P h) :=
  (hx n s h₁ hh.1).mono (fun _ _ _ h₂ => ⟨h₂.1, hh.2.trans h₂.2⟩) (fun _ _ _ h₂ => ⟨h₂.1, hh.2.trans h₂.2⟩)
    (fun _ h₂ => ⟨h₂.1, hh.2.trans h₂.2⟩) fun _ h₂ => ⟨h₂.1, hh.2.trans h₂.2⟩

/-- A candid procedure makes no other calls than those that are `P`. -/
theorem Candid.asks (hx : Candid P x) : (x n s).Asks P := by
  have hall : ∀ {h : History}, Grows P [] h → ∀ m ∈ h, P m.call := fun {h} hg => by
    refine hg.of_stable (K := fun h => ∀ m ∈ h, P m.call) (fun c a h hc hh => ?_) fun _ hm => absurd hm List.not_mem_nil
    exact List.forall_mem_cons.2 ⟨hc, hh⟩
  refine Program.asks_of_ensures (h := []) (Program.Ensures.mono (hx n s [] smooth_nil) ?_)
  rintro (⟨e | a, s⟩ | m | _) h hh
  · exact hall hh.2
  · exact hall hh.2
  · exact hall hh.2
  · exact hall hh.2

/-! ### One rule per way of building a procedure -/

theorem candid_pure (a : α) : Candid P (pure a : Procedure σ α) := fun _ _ _ hs => ⟨hs, .refl⟩

theorem candid_fail {e : Error} (he : e.Own) : Candid P (fail e : Procedure σ α) := fun _ _ _ hs =>
  ⟨.inl (.found he hs), .refl⟩

theorem candid_misuse (m : Misuse) : Candid P (misuse m : Procedure σ α) := fun _ _ _ hs => ⟨hs, .refl⟩

theorem candid_get : Candid P (get : Procedure σ σ) := fun _ _ _ hs => ⟨hs, .refl⟩

theorem candid_modify (f : σ → σ) : Candid P (modify f) := fun _ _ _ hs => ⟨hs, .refl⟩

theorem candid_bind {y : α → Procedure σ β} (hx : Candid P x) (hy : ∀ a, Candid P (y a)) : Candid P (x >>= y) :=
  fun n s h hs => ensures_bind.2 ((hx n s h hs).mono (fun a _ _ hh => (hy a).on_top hh) (fun _ _ _ => id) (fun _ => id)
    fun _ => id)

theorem candid_ite {c : Prop} [Decidable c] {y : Procedure σ α} (hx : Candid P x) (hy : Candid P y) :
    Candid P (if c then x else y) := by
  by_cases hc : c
  · rw [if_pos hc]
    exact hx
  · rw [if_neg hc]
    exact hy

theorem candid_when {c : Prop} [Decidable c] {x : Procedure σ Unit} {rest : Procedure σ α} (hx : Candid P x)
    (hrest : Candid P rest) : Candid P (if c then (do x; rest) else rest) :=
  candid_ite (candid_bind hx fun _ => hrest) hrest

theorem candid_on {t : τ} {put : τ → σ → σ} {y : Procedure τ α} (hy : Candid P y) : Candid P (on t put y) :=
  fun n _ h hs => ensures_on.2 ((hy n t h hs).mono (fun _ _ _ => id) (fun _ _ _ => id) (fun _ => id) fun _ => id)

theorem candid_waitUntil {site : WaitSite} {limit : WaitLimit} {check : Procedure σ Bool} (hcheck : Candid P check)
    (hgave : ∀ k, P (.note (.gaveUp site k))) : Candid P (waitUntil site limit check) := by
  intro n s h hs
  refine ensures_waitUntil (fun _ h' => Smooth h' ∧ h.Grows P h') (fun s h' hh => ?_) ?_ (fun _ _ => id) ⟨hs, .refl⟩
  · refine (hcheck.on_top hh).mono (fun holds _ _ hh => ?_) (fun _ _ _ => id) (fun _ => id) fun _ => id
    cases holds <;> exact hh
  · rintro k _ h' _ hh rfl
    exact ⟨.inl (.found trivial (hh.1.cons rfl)), .call (hgave k) hh.2⟩

/-! ### One rule per call -/

theorem candid_ask {c : Call} {k : c.Answer → Except Error α} (hc : P c) (hk : ∀ a, c.failure? a = failureOf (k a)) :
    Candid P (fun _ (s : σ) => .ask c fun a => .pure (k a, s)) := by
  rintro n s h hs a _ rfl
  have ha := hk a
  cases hr : k a with
  | ok r =>
    rw [hr] at ha
    simp only [Program.Ensures, hr]
    exact ⟨hs.cons (m := ⟨c, a⟩) ha, .call hc .refl⟩
  | error e =>
    rw [hr] at ha
    simp only [Program.Ensures, hr]
    exact ⟨.inl (.answered ha hs), .call hc .refl⟩

theorem candid_note {m : Notice} (hc : P (.note m)) : Candid P (note m : Procedure σ Unit) :=
  candid_ask (k := .ok) hc fun _ => rfl

theorem candid_read {w : Width} {o : BitVec 32} (hc : P (.read w o)) : Candid P (read w o : Procedure σ _) :=
  candid_ask hc fun _ => rfl

theorem candid_write {w : Width} {o v : BitVec 32} (hc : P (.write w o v)) : Candid P (write w o v : Procedure σ _) :=
  candid_ask hc fun _ => rfl

theorem candid_allocate {k : Nat} (hc : P (.allocate k)) : Candid P (allocate k : Procedure σ _) :=
  candid_ask hc fun _ => rfl

theorem candid_free {g : Region} (hc : P (.free g)) : Candid P (free g : Procedure σ _) := candid_ask hc fun _ => rfl

theorem candid_stall {k : Nat} (hc : P (.stall k)) : Candid P (stall k : Procedure σ _) := candid_ask hc fun _ => rfl

theorem candid_read8 {o : BitVec 32} (hc : P (.read .byte o)) : Candid P (read8 o : Procedure σ _) :=
  candid_bind (candid_read hc) fun _ => candid_pure _

theorem candid_read16 {o : BitVec 32} (hc : P (.read .word o)) : Candid P (read16 o : Procedure σ _) :=
  candid_bind (candid_read hc) fun _ => candid_pure _

theorem candid_look16 {o : BitVec 32} {g : BitVec 16 → α} (hc : P (.read .word o)) :
    Candid P (do return g (← read16 o) : Procedure σ α) := candid_bind (candid_read16 hc) fun _ => candid_pure _

theorem candid_writeAddress {lower upper : BitVec 32} {address : BitVec 64} (hc : ∀ o v, P (.write .dword o v)) :
    Candid P (writeAddress lower upper address : Procedure σ _) :=
  candid_bind (candid_write (hc _ _)) fun _ => candid_write (hc _ _)

/-- An access is made where the region admits it, or none is. -/
theorem candid_locate {r : Region} {offset size : Nat} {y : Nat → Procedure σ α} (hy : Candid P (y (r.host + offset))) :
    Candid P (match r.locate offset size with
      | .ok host => y host
      | .error m => misuse m) := by
  rcases r.locate_cases offset size with hlocated | ⟨m, hlocated⟩
  · rw [hlocated]
    exact hy
  · rw [hlocated]
    exact candid_misuse m

theorem candid_request {c : Call} (hc : P c) (ha : ∀ a, c.failure? a = none) :
    Candid P (request c : Procedure σ c.Answer) := candid_ask (k := .ok) hc ha

/-! ### Memory -/

theorem candid_load32 (r : Region) (offset : Nat) : Candid Call.OffBus (r.load32 offset : Procedure σ _) :=
  candid_locate (y := fun host => request (.load32 host)) (candid_request trivial fun _ => rfl)

theorem candid_store32 (r : Region) (offset : Nat) (v : BitVec 32) :
    Candid Call.OffBus (r.store32 offset v : Procedure σ _) :=
  candid_locate (y := fun host => request (.store32 host v)) (candid_request trivial fun _ => rfl)

theorem candid_store64 (r : Region) (offset : Nat) (v : BitVec 64) :
    Candid Call.OffBus (r.store64 offset v : Procedure σ _) :=
  candid_locate (y := fun host => request (.store64 host v)) (candid_request trivial fun _ => rfl)

theorem candid_fill (r : Region) (offset : Nat) (data : Array Byte) :
    Candid Call.OffBus (r.fill offset data : Procedure σ _) :=
  candid_ite (candid_misuse _) (candid_request trivial fun _ => rfl)

theorem candid_zero (r : Region) : Candid Call.OffBus (r.zero : Procedure σ _) := candid_request trivial fun _ => rfl

end Procedure
end AudioBringup
