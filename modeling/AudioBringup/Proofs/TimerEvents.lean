import Mathlib.Logic.Relation
import AudioBringup.Proofs.FirstFailure
import AudioBringup.Proofs.HostCalls
/-!
# Proofs.TimerEvents — one timer event for every exchange

The host has one timer event, which every exchange arms, looks at and cancels.  A timer that runs may fire at any moment, and
the event then stays signalled until a look reports it: neither arming nor cancelling clears it.  So an exchange is timed
out by its own timer, or by one that fired before and was not reported (`attemptEach_timedOut`); and where an answer and the
end of its time coincide, the exchange after that is timed out at its first look (`attemptEach_timedOut_early`).
-/
namespace AudioBringup
namespace Uefi

open Procedure Firmware Services

/-- What happens to the timer event and at the response register, each at its time. -/
inductive Happening
  | armed
  | fired
  /-- a look found the event signalled, which it is no longer -/
  | reported
  | cancelled
  | took (response : BitVec 32)
  deriving DecidableEq

/-- A timer event, and what happened to it. -/
structure TimerEvent where
  /-- there from when it was created -/
  event : Option Pointer := none
  /-- armed, and neither fired nor cancelled since -/
  runs : Bool := false
  signalled : Bool := false
  log : List Happening := []

namespace TimerEvent

/-- Its time is up. -/
def fire (s : TimerEvent) : TimerEvent := { s with runs := false, signalled := true, log := s.log ++ [.fired] }

/-- A timer that runs may fire at any moment. -/
def Fires (s s' : TimerEvent) : Prop := s.runs = true ∧ s' = s.fire

def set (s : TimerEvent) : TimerAction → TimerEvent
  | .relative => { s with runs := true, log := s.log ++ [.armed] }
  | .cancel => { s with runs := false, log := s.log ++ [.cancelled] }

def report (s : TimerEvent) : TimerEvent := { s with signalled := false, log := s.log ++ [.reported] }

def take (s : TimerEvent) (response : BitVec 32) : TimerEvent := { s with log := s.log ++ [.took response] }

/-- What a call does that is answered so.  A call that fails does nothing, and a look that does not fail reports a signal. -/
def Does : (c : Call) → TimerEvent → c.Answer → TimerEvent → Prop
  | .createTimer, s, (status, event), s' =>
    s' = if status.isError then s else { s with event := some event, runs := false, signalled := false }
  | .setTimer event action _, s, status, s' =>
    s' = if s.event = some event ∧ ¬Status.isError status then s.set action else s
  | .checkEvent event, s, status, s' =>
    if s.event = some event ∧ ¬Status.isError status then s.signalled = true ∧ s' = s.report else s' = s
  | .memRead _ w o, s, (status, v), s' =>
    s' = if o = Register.icii ∧ ¬status.isError then s.take (w.truncate v) else s
  | _, s, _, s' => s' = s

/-- The timer may fire, and then the call is answered: anything, but for what the call is to the timer event. -/
def world : World Call Call.Answer TimerEvent := fun c s a s' => ∃ s₁, Relation.ReflTransGen Fires s s₁ ∧ Does c s₁ a s'

/-! ### What an exchange comes to -/

/-- The timer fired, and no look has reported that. -/
def Pending (log : List Happening) : Prop := ∃ early late, log = early ++ .fired :: late ∧ .reported ∉ late

/-- The exchange armed its timer, and the timer fired after that. -/
def OwnFired (log log' : List Happening) : Prop :=
  ∃ before since, log' = log ++ before ++ .armed :: since ∧ .armed ∉ before ∧ .armed ∉ since ∧ .fired ∈ since

/-- The exchange armed its timer when an earlier one had fired, and no look had reported that. -/
def FoundPending (log log' : List Happening) : Prop :=
  ∃ before since, log' = log ++ before ++ .armed :: since ∧ .armed ∉ before ∧ .armed ∉ since ∧ Pending (log ++ before)

/-- An exchange is timed out by its own timer or by an earlier one, unless the response it took reads as if it were. -/
def Exchanged (log : List Happening) (_ : BitVec 64 × BitVec 32) (r : Except Error (BitVec 32)) (log' : List Happening) :
    Prop :=
  log <+: log' ∧ (r = .ok Response.timedOut →
    OwnFired log log' ∨ FoundPending log log' ∨ ∃ more, log' = log ++ more ∧ .took Response.timedOut ∈ more)

section
variable {log l base : List Happening} {m : Happening} {s s' : TimerEvent}

theorem pending_fired (log : List Happening) : Pending (log ++ [.fired]) := ⟨log, [], rfl, List.not_mem_nil⟩

theorem Pending.snoc (h : Pending log) (hm : m ≠ .reported) : Pending (log ++ [m]) := by
  obtain ⟨early, late, rfl, hlate⟩ := h
  refine ⟨early, late ++ [m], by simp, ?_⟩
  simp [hlate, hm.symm]

/-- What is pending fired after the timer was armed, or was pending when it was. -/
theorem Pending.since (h : Pending (log ++ .armed :: l)) : .fired ∈ l ∨ Pending log := by
  obtain ⟨early, late, heq, hlate⟩ := h
  rcases List.append_eq_append_iff.1 heq with ⟨more, hearly, hl⟩ | ⟨more, hlog, hl⟩
  · cases more with
    | nil => cases hl
    | cons m more =>
      cases hl
      exact .inl (by simp)
  · cases more with
    | nil => cases hl
    | cons m more =>
      cases hl
      exact .inr ⟨early, more, hlog, fun hmem => hlate (by simp [hmem])⟩

/-! ### Between two moments at which the timer is armed -/

/-- Nothing was armed since `base`, and a signal has a firing that is pending. -/
structure Since (base : List Happening) (s : TimerEvent) : Prop where
  due : s.signalled = true → Pending s.log
  unarmed : ∃ more, s.log = base ++ more ∧ .armed ∉ more

theorem Since.snoc (h : Since base s) (hm : m ≠ .armed) (hs' : s'.log = s.log ++ [m])
    (hdue : s'.signalled = true → Pending s'.log) : Since base s' := by
  obtain ⟨-, more, hlog, hmore⟩ := h
  refine ⟨hdue, more ++ [m], by rw [hs', hlog, List.append_assoc], ?_⟩
  simp [hmore, hm.symm]

theorem Since.fires (h : Since base s) (hfires : Relation.ReflTransGen Fires s s') : Since base s' := by
  induction hfires with
  | refl => exact h
  | tail _ hfire ih =>
    obtain ⟨-, rfl⟩ := hfire
    exact ih.snoc (m := .fired) (by decide) rfl fun _ => pending_fired _

theorem Since.cancel (h : Since base s) : Since base (s.set .cancel) :=
  h.snoc (m := .cancelled) (by decide) rfl fun hs => (h.due hs).snoc (by decide)

theorem Since.take (h : Since base s) (response : BitVec 32) : Since base (s.take response) :=
  h.snoc (m := .took response) nofun rfl fun hs => (h.due hs).snoc nofun

theorem Since.report (h : Since base s) : Since base s.report := h.snoc (m := .reported) (by decide) rfl nofun

theorem Since.arm (h : Since base s) : Since (s.log ++ [.armed]) (s.set .relative) :=
  ⟨fun hs => (h.due hs).snoc (by decide), [], (List.append_nil _).symm, List.not_mem_nil⟩

/-! ### What the services do to it -/

theorem event_fires (hfires : Relation.ReflTransGen Fires s s') : s'.event = s.event := by
  induction hfires with
  | refl => rfl
  | tail _ hfire ih => rw [hfire.2, fire, ih]

theorem log_fires (hfires : Relation.ReflTransGen Fires s s') : s.log <+: s'.log := by
  induction hfires with
  | refl => exact List.prefix_rfl
  | tail _ hfire ih => exact ih.trans (hfire.2 ▸ List.prefix_append _ _)

end

/-- The event of the function is this one, nothing was armed since `base`, and all of `start` has happened. -/
structure Fit (start base : List Happening) (f : Function) (s : TimerEvent) : Prop where
  event : f.timer = s.event
  since : Since base s
  started : start <+: s.log

section
variable {start base : List Happening} {f : Function} {s s' : TimerEvent} {event : Pointer}

theorem Fit.fires (h : Fit start base f s) (hfires : Relation.ReflTransGen Fires s s') : Fit start base f s' :=
  ⟨h.event.trans (event_fires hfires).symm, h.since.fires hfires, h.started.trans (log_fires hfires)⟩

theorem Fit.take (h : Fit start base f s) (response : BitVec 32) : Fit start base f (s.take response) :=
  ⟨h.event, h.since.take response, h.started.trans (List.prefix_append _ _)⟩

theorem Fit.cancel (h : Fit start base f s) : Fit start base f (s.set .cancel) :=
  ⟨h.event, h.since.cancel, h.started.trans (List.prefix_append _ _)⟩

theorem Fit.report (h : Fit start base f s) : Fit start base f s.report :=
  ⟨h.event, h.since.report, h.started.trans (List.prefix_append _ _)⟩

/-- A call that is nothing to the timer event. -/
theorem Fit.idle {c : Call} {a : c.Answer} (h : Fit start base f s) (hanswer : world c s a s')
    (hidle : ∀ s₁, Does c s₁ a s' → s' = s₁) : Fit start base f s' := by
  obtain ⟨s₁, hfires, hdoes⟩ := hanswer
  rw [hidle s₁ hdoes]
  exact h.fires hfires

/-- A read of the response is logged with what the exchange gets to see of it. -/
theorem read_fit {h : Host} (w : Width) (o : BitVec 32) (hf : h.bound = some f) (hfit : Fit start base f s) :
    Returns world (Host.answer (.read w o) h) s fun r s' => r.2 = h ∧ Fit start base f s' ∧
      (o = Register.icii → ∀ v, r.1 = .ok v → ∃ l, start <+: l ∧ Fit (l ++ [.took v]) base f s') := by
  refine (Host.returns_viaFunction hf).2 (returns_bind.2 (returns_toAnswer.2
    ((returns_service (c := .memRead f.handle w o) Prod.fst Prod.snd).2 ?_)))
  rintro ⟨status, v⟩ s' ⟨s₁, hfires, hdoes⟩
  have h₁ := hfit.fires hfires
  have hs' : s' = if o = Register.icii ∧ ¬status.isError then s₁.take (w.truncate v) else s₁ := hdoes
  by_cases htaken : o = Register.icii ∧ ¬status.isError
  · rw [if_pos htaken] at hs'
    subst hs'
    refine ⟨rfl, h₁.take _, fun _ v' hv => ?_⟩
    rw [judge, if_neg htaken.2] at hv
    cases hv
    exact ⟨s₁.log, h₁.started, h₁.event, h₁.since.take _, List.prefix_rfl⟩
  · rw [if_neg htaken] at hs'
    subst hs'
    refine ⟨rfl, h₁, fun ho v' hv => ?_⟩
    rw [judge, if_pos (by simpa [ho] using htaken)] at hv
    cases hv

theorem setTimer_fit (action : TimerAction) (time : BitVec 64) (hf : f.timer = some event) (hfit : Fit start base f s) :
    Returns world (setTimer event action time).run s fun r s' =>
      ∃ s₁, Fit start base f s₁ ∧ (r = .ok () ∧ s' = s₁.set action ∨ (∃ e, r = .error e) ∧ s' = s₁) := by
  refine (returns_plainService (c := .setTimer event action time) fun status : Status => status).2 ?_
  rintro (status : Status) s' ⟨s₁, hfires, hdoes⟩
  have h₁ := hfit.fires hfires
  obtain rfl : s' = if s₁.event = some event ∧ ¬status.isError then s₁.set action else s₁ := hdoes
  have hevent : s₁.event = some event := h₁.event.symm.trans hf
  refine ⟨s₁, h₁, ?_⟩
  cases hstatus : status.isError <;> simp [judge, hevent, hstatus]

/-- A look that finds the event signalled finds a firing that is pending. -/
theorem checkEvent_fit (hf : f.timer = some event) (hfit : Fit start base f s) :
    Returns world (checkEvent event).run s fun r s' => Fit start base f s' ∧
      (r = .ok true → ∃ l, base <+: l ∧ Pending l ∧ l ++ [.reported] <+: s'.log) := by
  refine returns_checkEvent.2 ?_
  rintro status s' ⟨s₁, hfires, hdoes⟩
  have h₁ := hfit.fires hfires
  have hevent : s₁.event = some event := h₁.event.symm.trans hf
  have hdoes : if s₁.event = some event ∧ ¬status.isError then s₁.signalled = true ∧ s' = s₁.report else s' = s₁ := hdoes
  cases hstatus : status.isError
  · simp only [hevent, hstatus, Bool.false_eq_true, not_false_eq_true, and_self, if_true] at hdoes
    obtain ⟨hsignalled, rfl⟩ := hdoes
    obtain ⟨more, hlog, -⟩ := h₁.since.unarmed
    exact ⟨h₁.report, fun _ => ⟨s₁.log, ⟨more, hlog.symm⟩, h₁.since.due hsignalled, List.prefix_rfl⟩⟩
  · simp only [hstatus, not_true_eq_false, and_false, if_false] at hdoes
    subst hdoes
    refine ⟨h₁, fun hr => ?_⟩
    by_cases hready : status = Status.notReady <;> simp [hready, judge, hstatus] at hr

theorem withTimer_fit (hfit : Fit start base f s) : Returns world f.withTimer s fun r s' =>
    Fit start base r.2 s' ∧ ∀ event, r.1 = .ok event → r.2.timer = some event := by
  unfold Function.withTimer
  cases hf : f.timer with
  | some event => exact ⟨hfit, by rintro _ ⟨⟩; exact hf⟩
  | none =>
    refine returns_bind.2 (returns_toAnswer.2 ((returns_service (c := .createTimer) Prod.fst Prod.snd).2 ?_))
    rintro ⟨status, event⟩ s' ⟨s₁, hfires, hdoes⟩
    have h₁ := hfit.fires hfires
    obtain rfl : s' = if status.isError then s₁ else { s₁ with event := some event, runs := false, signalled := false } :=
      hdoes
    cases hstatus : status.isError
    · simp only [judge, hstatus, Bool.false_eq_true, if_false]
      exact ⟨⟨rfl, ⟨(absurd · Bool.false_ne_true), h₁.since.unarmed⟩, h₁.started⟩, by rintro _ ⟨⟩; rfl⟩
    · simp only [judge, hstatus, if_true]
      exact ⟨h₁, by rintro _ ⟨⟩⟩

/-- What arming the timer leaves: it is armed, at a moment of its own, or nothing was. -/
theorem armTimer_fit {h : Host} (duration : BitVec 64) (hf : h.bound = some f) (hfit : Fit start base f s) :
    Returns world (Host.answer (.armTimer duration) h) s fun r s' => ∃ f', r.2.bound = some f' ∧
      match r.1 with
      | .ok _ => ∃ before, .armed ∉ before ∧ Fit start (base ++ before ++ [.armed]) f' s'
      | .error _ => Fit start base f' s' := by
  refine (Host.returns_updateFunction hf).2 (returns_bind.2 ((withTimer_fit hfit).mono ?_))
  rintro ⟨e | event, f'⟩ s₁ ⟨h₁, hevent⟩
  · exact ⟨f', rfl, h₁⟩
  refine returns_bind.2 (returns_toAnswer.2 ((setTimer_fit _ _ (hevent event rfl) h₁).mono ?_))
  rintro r s' ⟨s₂, h₂, ⟨rfl, rfl⟩ | ⟨⟨e, rfl⟩, rfl⟩⟩
  · obtain ⟨before, hlog, hbefore⟩ := h₂.since.unarmed
    exact ⟨f', rfl, before, hbefore, h₂.event, hlog ▸ h₂.since.arm, h₂.started.trans (List.prefix_append _ _)⟩
  · exact ⟨f', rfl, h₂⟩

theorem cancelTimer_fit {h : Host} (hf : h.bound = some f) (hfit : Fit start base f s) :
    Returns world (Host.answer .cancelTimer h) s fun r s' => r.2 = h ∧ Fit start base f s' := by
  refine (Host.returns_viaFunction hf).2 ?_
  unfold Function.cancelTimer
  cases hevent : f.timer with
  | none => exact ⟨rfl, hfit⟩
  | some event =>
    refine returns_toAnswer.2 ((setTimer_fit _ _ hevent hfit).mono ?_)
    rintro r s' ⟨s₁, h₁, ⟨-, rfl⟩ | ⟨-, rfl⟩⟩
    · exact ⟨rfl, h₁.cancel⟩
    · exact ⟨rfl, h₁⟩

theorem timerExpired_fit {h : Host} (hf : h.bound = some f) (hfit : Fit start base f s) :
    Returns world (Host.answer .timerExpired h) s fun r s' => ∃ f', r.2.bound = some f' ∧ Fit start base f' s' ∧
      (r.1 = .ok true → ∃ l, base <+: l ∧ Pending l ∧ l ++ [.reported] <+: s'.log) := by
  refine (Host.returns_updateFunction hf).2 (returns_bind.2 ((withTimer_fit hfit).mono ?_))
  rintro ⟨e | event, f'⟩ s₁ ⟨h₁, hevent⟩
  · exact ⟨f', rfl, h₁, nofun⟩
  refine returns_bind.2 (returns_toAnswer.2 ((checkEvent_fit (hevent event rfl) h₁).mono ?_))
  rintro r s' ⟨h', hreported⟩
  refine ⟨f', rfl, h', fun hr => ?_⟩
  cases r with
  | error e => cases hr
  | ok signalled => cases hr; exact hreported rfl

end

/-! ### Exchanges over the host -/

/-- The host has a function bound that fits the timer event. -/
def Ready (start base : List Happening) (t : Beneath Host TimerEvent) : Prop :=
  t.intact = true ∧ ∃ f, t.state.bound = some f ∧ Fit start base f t.world

/-- A result is `P`; a failure leaves the timer event as it may be left, and all of `start` behind. -/
def leaves {σ α : Type} (start : List Happening) (P : α → Beneath Host TimerEvent → Prop) : Outcome σ α (Beneath Host TimerEvent) :=
  .unlessStuck (fun a _ => P a) fun _ t => ∃ base, Ready start base t

section
variable {σ α β : Type} {n : Nat} {u : σ} {start base log : List Happening} {t t' : Beneath Host TimerEvent}

theorem Ready.of_upon {c : AudioBringup.Call} {a : c.Answer} (ht : t.intact = true) (hanswer : Host.upon world c t a t')
    (hready : Returns world (Host.answer c t.state) t.world fun r s' => Ready start base ⟨r.2, s', true⟩) :
    Ready start base t' := by
  obtain ⟨ht', hready⟩ := Host.of_upon hanswer ht hready
  rwa [← ht'] at hready

theorem Ready.restart {start' : List Happening} (h : Ready start base t) (hstart : start' <+: t.world.log) :
    Ready start' base t := by
  obtain ⟨ht, f, hf, hfit⟩ := h
  exact ⟨ht, f, hf, hfit.event, hfit.since, hstart⟩

/-- The next exchange starts from what happened so far. -/
theorem Ready.again (h : Ready start base t) : Ready t.world.log t.world.log t := by
  obtain ⟨ht, f, hf, hfit⟩ := h
  exact ⟨ht, f, hf, hfit.event, ⟨hfit.since.due, [], (List.append_nil _).symm, List.not_mem_nil⟩, List.prefix_rfl⟩

theorem Ready.started (h : Ready start base t) : start <+: t.world.log := by
  obtain ⟨-, f, -, hfit⟩ := h
  exact hfit.started

theorem Ready.weaken {start' : List Happening} (h : Ready start base t) (hstart : start' <+: start) :
    Ready start' base t := by
  obtain ⟨ht, f, hf, hfit⟩ := h
  exact ⟨ht, f, hf, hfit.event, hfit.since, hstart.trans hfit.started⟩

theorem leaves_weaken {start' : List Happening} {x : Procedure σ α} {P Q : α → Beneath Host TimerEvent → Prop}
    (hx : Ensures (Host.upon world) n x u t (leaves start P)) (hstart : start' <+: start) (hPQ : ∀ a t, P a t → Q a t) :
    Ensures (Host.upon world) n x u t (leaves start' Q) :=
  Ensures.weaken hx (fun a _ t => hPQ a t) fun _ _ ⟨base, h⟩ => ⟨base, h.weaken hstart⟩

theorem leaves_bind {x : Procedure σ α} {f : α → Procedure σ β} {P : α → Beneath Host TimerEvent → Prop}
    {Q : β → Beneath Host TimerEvent → Prop} (hx : Ensures (Host.upon world) n x u t (leaves start P))
    (hf : ∀ a u t, P a t → Ensures (Host.upon world) n (f a) u t (leaves start Q)) :
    Ensures (Host.upon world) n (x >>= f) u t (leaves start Q) := hx.orFailThen hf

theorem write_ready {w : Width} {o v : BitVec 32} (h : Ready start base t) :
    Ensures (Host.upon world) n (write w o v) u t (leaves start fun _ => Ready start base) := by
  obtain ⟨ht, f, hf, hfit⟩ := h
  refine ensures_write.2 fun r t' hanswer => ?_
  have hwritten : Returns world (Host.answer (.write w o v) t.state) t.world fun r s' => Ready start base ⟨r.2, s', true⟩ := by
    refine (Host.returns_viaFunction hf).2 (returns_toAnswer.2 ((returns_plainService
      (c := .memWrite f.handle w o (w.truncate v)) fun status : Status => status).2 ?_))
    exact fun _ _ hdoes => ⟨rfl, f, hf, hfit.idle hdoes fun _ => id⟩
  have hready := Ready.of_upon ht hanswer hwritten
  cases r with
  | ok _ => exact hready
  | error _ => exact ⟨base, hready⟩

theorem note_ready {m : Notice} (h : Ready start base t) :
    Ensures (Host.upon world) n (note m) u t (leaves start fun _ => Ready start base) := by
  obtain ⟨ht, f, hf, hfit⟩ := h
  refine ensures_note.2 fun t' hanswer => ?_
  have hnoted : Returns world (Host.answer (.note m) t.state) t.world fun r s' => Ready start base ⟨r.2, s', true⟩ := by
    refine returns_bind.2 (returns_ask.2 ?_)
    exact fun _ _ hdoes => ⟨rfl, f, hf, hfit.idle hdoes fun _ => id⟩
  exact Ready.of_upon ht hanswer hnoted

theorem read_ready {w : Width} {o : BitVec 32} (h : Ready start base t) :
    Ensures (Host.upon world) n (read w o) u t (leaves start fun v t' => Ready start base t' ∧
      (o = Register.icii → ∃ l, start <+: l ∧ Ready (l ++ [.took v]) base t')) := by
  obtain ⟨ht, f, hf, hfit⟩ := h
  refine ensures_read.2 fun r t' hanswer => ?_
  obtain ⟨ht', hhost, hfit', htook⟩ := Host.of_upon hanswer ht (read_fit w o hf hfit)
  have hbound : t'.1.bound = some f := (congrArg Host.bound hhost).trans hf
  cases r with
  | error _ => exact ⟨base, ht', f, hbound, hfit'⟩
  | ok v =>
    refine ⟨⟨ht', f, hbound, hfit'⟩, fun ho => ?_⟩
    obtain ⟨l, hl, hfit'⟩ := htook ho v rfl
    exact ⟨l, hl, ht', f, hbound, hfit'⟩

theorem read16_ready {o : BitVec 32} (h : Ready start base t) :
    Ensures (Host.upon world) n (read16 o) u t (leaves start fun _ => Ready start base) :=
  leaves_bind (read_ready h) fun _ _ _ h => h.1

theorem awaitResponse_ready : ∀ patience {u : σ} {t}, Ready start base t →
    Ensures (Host.upon world) n (ImmediateInterface.awaitResponse patience) u t (leaves start fun answered t' =>
      Ready start base t' ∧ (answered = false → ∃ l, base <+: l ∧ Pending l ∧ l ++ [.reported] <+: t'.world.log))
  | 0, _, _, _ => trivial
  | patience + 1, u, t, h => by
    refine leaves_bind (read16_ready h) fun status u t h => ?_
    dsimp only
    split
    · exact ⟨h, nofun⟩
    refine leaves_bind (P := fun expired t' => Ready start base t' ∧
      (expired = true → ∃ l, base <+: l ∧ Pending l ∧ l ++ [.reported] <+: t'.world.log)) ?_ ?_
    · obtain ⟨ht, f, hf, hfit⟩ := h
      refine ensures_timerExpired.2 fun r t' hanswer => ?_
      obtain ⟨ht', f', hf', hfit', hreported⟩ := Host.of_upon hanswer ht (timerExpired_fit hf hfit)
      cases r with
      | error _ => exact ⟨base, ht', f', hf', hfit'⟩
      | ok expired => exact ⟨⟨ht', f', hf', hfit'⟩, fun h => hreported (by rw [h])⟩
    · rintro expired u t ⟨h, hreported⟩
      cases expired with
      | true => exact ⟨h, fun _ => hreported rfl⟩
      | false => exact awaitResponse_ready patience h

theorem cancel_ready (h : Ready start base t) :
    Ensures (Host.upon world) n cancelTimer u t (leaves start fun _ => Ready start base) := by
  obtain ⟨ht, f, hf, hfit⟩ := h
  refine ensures_cancelTimer.2 fun r t' hanswer => ?_
  obtain ⟨ht', hhost, hfit'⟩ := Host.of_upon hanswer ht (cancelTimer_fit hf hfit)
  have hready : Ready start base t' := ⟨ht', f, (congrArg Host.bound hhost).trans hf, hfit'⟩
  cases r with
  | ok _ => exact hready
  | error _ => exact ⟨base, hready⟩

/-- An exchange whose event was reported was timed out by its own timer or by one that was pending when it was armed. -/
theorem exchanged_of_reported {before l : List Happening} {e : BitVec 64 × BitVec 32} {r : Except Error (BitVec 32)}
    (hbefore : .armed ∉ before) (hl : log ++ before ++ [.armed] <+: l) (hpending : Pending l)
    (h : Ready (l ++ [.reported]) (log ++ before ++ [.armed]) t) : Exchanged log e r t.world.log := by
  obtain ⟨-, f, -, -, ⟨-, more, hlog, hmore⟩, hstarted⟩ := h
  obtain ⟨since, rfl⟩ := hl
  have hlog' : t.world.log = log ++ before ++ .armed :: more := by simpa using hlog
  have hsince : since <+: more := by
    rw [hlog] at hstarted
    exact (List.prefix_append_right_inj _).1 ((List.prefix_append _ [.reported]).trans hstarted)
  refine ⟨⟨before ++ .armed :: more, by rw [hlog', List.append_assoc]⟩, fun _ => ?_⟩
  have hsplit : Pending (log ++ before ++ .armed :: since) := by simpa using hpending
  rcases hsplit.since with hfired | hfound
  · exact .inl ⟨before, more, hlog', hbefore, hmore, hsince.subset hfired⟩
  · exact .inr (.inl ⟨before, more, hlog', hbefore, hmore, hfound⟩)

/-- **An exchange is timed out by its own timer or by one that was pending**, unless the response reads like that. -/
theorem exchange_timedOut (e : BitVec 64 × BitVec 32) (h : Ready log log t) :
    Ensures (Host.upon world) n (ImmediateInterface.exchange e.1 e.2) u t (leaves log fun a t' =>
      (∃ base, Ready log base t') ∧ Exchanged log e (.ok a) t'.world.log) := by
  refine leaves_bind (write_ready h) fun _ u t h => leaves_bind (write_ready h) fun _ u t h => ?_
  refine leaves_bind (write_ready h) fun _ u t h => ?_
  refine leaves_bind (P := fun _ t' => ∃ before, .armed ∉ before ∧ Ready log (log ++ before ++ [.armed]) t') ?_ ?_
  · obtain ⟨ht, f, hf, hfit⟩ := h
    refine ensures_armTimer.2 fun r t' hanswer => ?_
    obtain ⟨ht', f', hf', hfit'⟩ := Host.of_upon hanswer ht (armTimer_fit e.1 hf hfit)
    cases r with
    | error _ => exact ⟨log, ht', f', hf', hfit'⟩
    | ok _ =>
      obtain ⟨before, hbefore, hfit'⟩ := hfit'
      exact ⟨before, hbefore, ht', f', hf', hfit'⟩
  rintro _ u t ⟨before, hbefore, h⟩
  refine leaves_bind (x := fun patience => ImmediateInterface.awaitResponse patience patience) (awaitResponse_ready n h) ?_
  rintro answered u t ⟨h, hreported⟩
  cases answered with
  | true =>
    refine leaves_bind (cancel_ready h) fun _ u t h => leaves_bind (read_ready h) fun response u t h => ?_
    obtain ⟨l, hl, h⟩ := h.2 rfl
    have hlog : log <+: l ++ [.took response] := hl.trans (List.prefix_append _ _)
    refine leaves_weaken (P := fun a t' => a = response ∧
      Ready (l ++ [.took response]) (log ++ before ++ [.armed]) t') ?_ hlog ?_
    · refine leaves_bind (read16_ready h) fun _ u t h => leaves_bind (write_ready h) fun _ u t h => ?_
      exact leaves_bind (note_ready h) fun _ u t h => ⟨rfl, h⟩
    · rintro _ t ⟨rfl, h⟩
      refine ⟨⟨_, h.weaken hlog⟩, ?_⟩
      obtain ⟨-, f, -, hfit⟩ := h
      refine ⟨hlog.trans hfit.started, fun hr => .inr (.inr ?_)⟩
      cases hr
      obtain ⟨more, rfl⟩ := hl
      obtain ⟨late, hlate⟩ := hfit.started
      exact ⟨more ++ .took Response.timedOut :: late, by rw [← hlate]; simp, by simp⟩
  | false =>
    obtain ⟨l, hl, hpending, hstart⟩ := hreported rfl
    have hlog : log <+: l ++ [.reported] := by
      rw [List.append_assoc] at hl
      exact ((List.prefix_append log _).trans hl).trans (List.prefix_append _ _)
    refine leaves_weaken (P := fun _ t' => Ready (l ++ [.reported]) (log ++ before ++ [.armed]) t') ?_ hlog ?_
    · refine leaves_bind (cancel_ready (h.restart hstart)) fun _ u t h => ?_
      exact leaves_bind (note_ready h) fun _ u t h => h
    · exact fun _ t h => ⟨⟨_, h.weaken hlog⟩, exchanged_of_reported hbefore hl hpending h⟩

/-- The exchanges ask nothing of the bus. -/
theorem asks_attemptEach {γ : Type} {x : γ → Procedure σ α} (hx : ∀ c, Candid AudioBringup.Call.OffBus (x c)) :
    ∀ (cs : List γ) (u : σ), (attemptEach x cs n u).Asks AudioBringup.Call.OffBus
  | [], _ => trivial
  | c :: cs, u => by
    have hfirst : (attempt (x c) n u).Asks AudioBringup.Call.OffBus :=
      Program.Asks.bind (fun r => by cases r; trivial) (hx c).asks
    refine Program.Asks.bind (fun r => ?_) hfirst
    obtain ⟨r, u⟩ := r
    cases r with
    | error _ => trivial
    | ok r =>
      refine Program.Asks.bind (fun q => ?_) (asks_attemptEach hx cs u)
      obtain ⟨q, u⟩ := q
      cases q <;> trivial

/-- How exchanges may end, one after the other: each of them comes to a result, or they wait for good. -/
def AllExchanged (exchanges : List (BitVec 64 × BitVec 32)) :
    Ending ((Except Error (List ((BitVec 64 × BitVec 32) × Except Error (BitVec 32))) × σ) × Host) → TimerEvent → Prop
  | .result ((.ok results, _), _), s => results.map (·.1) = exchanges ∧ Successively Exchanged [] results s.log
  | .result ((.error _, _), _), _ | .misused _, _ => False
  | .stuck, _ => True

/-- **Each of the exchanges is timed out by its own timer or by one that was pending**, whenever the firmware lets a timer
fire that runs. -/
theorem attemptEach_timedOut (image handle : Pointer) (exchanges : List (BitVec 64 × BitVec 32)) (u : σ) :
    ((attemptEach (fun e => ImmediateInterface.exchange e.1 e.2) exchanges n u).expand Host.answer
      ⟨image, some { handle }⟩).Ensures world (AllExchanged exchanges) {} := by
  have hready : Ready [] [] ⟨⟨image, some { handle }⟩, {}, true⟩ :=
    ⟨rfl, { handle }, rfl, rfl, ⟨nofun, [], rfl, nofun⟩, List.prefix_rfl⟩
  have hserves : Host.Serves (ω := TimerEvent) ⟨⟨image, some { handle }⟩, {}, true⟩ := ⟨rfl, _, rfl⟩
  have hkept := Program.ensures_kept (P := AudioBringup.Call.OffBus) (I := Host.Serves) (W := Host.upon world)
    (fun _ _ _ _ hc h hanswer => h.upon hc hanswer)
    (asks_attemptEach (n := n) (fun e => ImmediateInterface.exchange_candid e.1 e.2) exchanges u) hserves
  refine Program.ensures_expand (Program.Ensures.and (hkept.mono fun _ _ => And.left) ?_)
  refine Program.Ensures.mono (ensures_attemptEach (fun log _ t => t.world.log = log ∧ ∃ base, Ready log base t) Exchanged
    ?_ exchanges ⟨rfl, [], hready⟩) ?_
  · rintro e _ u t ⟨rfl, base, h⟩
    refine (exchange_timedOut e h.again).mono ?_ ?_ (fun _ => id) fun _ => id
    · rintro a u t' ⟨⟨base, h⟩, hexchanged⟩
      exact ⟨t'.world.log, ⟨rfl, _, h.again⟩, hexchanged⟩
    · rintro error u t' ⟨base, h⟩
      exact ⟨t'.world.log, ⟨rfl, _, h.again⟩, h.started, nofun⟩
  · intro e t h
    match e, h with
    | .result (.ok results, _), ⟨hexchanges, _, ⟨hlog, _⟩, hresults⟩ => exact ⟨hexchanges, hlog ▸ hresults⟩
    | .stuck, _ => trivial

end

/-! ### A timer that fires when its exchange is over -/

/-- The timer fires, if it is the first that was armed and runs. -/
def fireFirst (s : TimerEvent) : TimerEvent := if s.runs ∧ s.log.count .armed = 1 then s.fire else s

/-- A firmware whose first timer fires when it is told to cancel it, beside a controller that answers `response` to the first
word at once and nothing to the second. -/
def hasty (response : BitVec 32) : (c : Call) → TimerEvent → c.Answer × TimerEvent
  | .createTimer, s => ((.success, 0xe0), { s with event := some 0xe0, runs := false, signalled := false })
  | .setTimer event .relative _, s => (.success, if s.event = some event then s.set .relative else s)
  | .setTimer event .cancel _, s =>
    (.success, if s.fireFirst.event = some event then s.fireFirst.set .cancel else s.fireFirst)
  | .checkEvent event, s => if s.event = some event ∧ s.signalled then (.success, s.report) else (.notReady, s)
  | .memRead _ w o, s =>
    if o = Register.icii then ((.success, response), s.take (w.truncate response))
    else ((.success, if s.log.count .armed = 1 then 2 else 0), s)
  | .allocatePool .., s | .openProtocol .., s | .allocateBuffer .., s => ((.outOfResources, 0), s)
  | .locateHandles .., s => ((.notFound, .empty), s)
  | .configRead .., s => ((.success, 0), s)
  | .map .., s => ((.outOfResources, ⟨0, 0, 0⟩), s)
  | .freePool _, s | .closeEvent _, s | .stall _, s | .closeProtocol .., s | .memWrite .., s | .enableAttributes .., s
  | .freeBuffer .., s | .unmap .., s | .outputString _, s => (.success, s)
  | .load32 _, s => ((0 : BitVec 32), s)
  | .load64 _, s => ((0 : BitVec 64), s)
  | .store32 .., s | .store64 .., s | .fill .., s | .clear .., s | .note _, s => ((), s)

theorem fires_first (s : TimerEvent) : Relation.ReflTransGen Fires s s.fireFirst := by
  unfold fireFirst
  split
  · rename_i h
    exact .single ⟨h.1, rfl⟩
  · exact .refl

theorem world_hasty (response : BitVec 32) (c : Call) (s : TimerEvent) :
    world c s (hasty response c s).1 (hasty response c s).2 := by
  have hsuccess : Status.isError Status.success = false := by decide
  have hready : Status.isError Status.notReady = true := by decide
  cases c with
  | createTimer => exact ⟨s, .refl, by simp [Does, hasty, hsuccess]⟩
  | setTimer event action time =>
    cases action with
    | relative => exact ⟨s, .refl, by simp [Does, hasty, hsuccess]⟩
    | cancel => exact ⟨s.fireFirst, fires_first s, by simp [Does, hasty, hsuccess]⟩
  | checkEvent event =>
    refine ⟨s, .refl, ?_⟩
    by_cases hreported : s.event = some event ∧ s.signalled = true
    · simp [Does, hasty, hreported, hsuccess]
    · simp [Does, hasty, hreported, hready]
  | memRead handle w o =>
    refine ⟨s, .refl, ?_⟩
    by_cases ho : o = Register.icii <;> simp [Does, hasty, ho, hsuccess]
  | _ => exact ⟨s, .refl, rfl⟩

/-- The happenings since the timer was armed last. -/
def sinceArmed (log : List Happening) : List Happening := (log.reverse.takeWhile (· ≠ .armed)).reverse

theorem sinceArmed_append {before since : List Happening} (h : .armed ∉ since) :
    sinceArmed (before ++ .armed :: since) = since := by
  have hsince : ∀ m ∈ since.reverse, decide (m ≠ Happening.armed) = true := fun m hm => by
    refine decide_eq_true ?_
    rintro rfl
    exact h (List.mem_reverse.1 hm)
  rw [sinceArmed, List.reverse_append, List.reverse_cons, List.append_assoc, List.takeWhile_append_of_pos hsince]
  simp

theorem OwnFired.fired {log log' : List Happening} (h : OwnFired log log') : .fired ∈ sinceArmed log' := by
  obtain ⟨before, since, rfl, -, hsince, hfired⟩ := h
  rwa [sinceArmed_append hsince]

/-- The first of two exchanges gets its answer, and the second is timed out at its first look. -/
theorem run_hasty : ((attemptEach (fun e => ImmediateInterface.exchange e.1 e.2) [(10, 0x200f0000), (10, 0x200f0002)] 1
    ()).expand Host.answer ⟨1, some { handle := 0x1000 }⟩).run (hasty 0x11112222) {} =
      (.result ((.ok [((10, 0x200f0000), .ok 0x11112222), ((10, 0x200f0002), .ok Response.timedOut)], ()),
        ⟨1, some { handle := 0x1000, timer := some 0xe0 }⟩), ⟨some 0xe0, false, false,
          [.armed, .fired, .cancelled, .took 0x11112222, .armed, .reported, .cancelled]⟩) := by
  rfl

/-- **An exchange is timed out though its own timer has not fired**: where the timer of the one before it fires between its
last look at the status and the cancel, the signal is still there when the next exchange looks at its event. -/
theorem attemptEach_timedOut_early : ¬∀ exchanges : List (BitVec 64 × BitVec 32),
    ((attemptEach (fun e => ImmediateInterface.exchange e.1 e.2) exchanges 1 ()).expand Host.answer
      ⟨1, some { handle := 0x1000 }⟩).Ensures world (fun e s => ∀ results u h, e = .result ((.ok results, u), h) →
        Successively (fun log _ r log' => r = .ok Response.timedOut → OwnFired log log') [] results s.log) {} := by
  intro hown
  have hends := Program.ends_run (I := fun _ => True) (fun c s _ => ⟨world_hasty 0x11112222 c s, trivial⟩)
    (p := (attemptEach (fun e => ImmediateInterface.exchange e.1 e.2) [(10, 0x200f0000), (10, 0x200f0002)] 1 ()).expand
      Host.answer ⟨1, some { handle := 0x1000 }⟩) (w := {}) trivial
  rw [run_hasty] at hends
  cases Program.ensures_iff_ends.1 (hown _) _ _ hends _ _ _ rfl with
  | cons _ hrest =>
    cases hrest with
    | cons hsecond hnone =>
      cases hnone
      exact absurd (hsecond rfl).fired (by decide)

end TimerEvent
end Uefi
end AudioBringup
