import Mathlib.Logic.Relation
import AudioBringup.Controller.ImmediateInterface
import AudioBringup.Proofs.Ensures
/-!
# Proofs.LateAnswers — a device that answers when it likes

A device answers a word it was sent once at most: at any later moment, or never.  It does not say which word an answer is to.
The host drops what is shown before it sends a word, so an exchange never hands out an answer that came before
(`attemptEach_fresh`).  An answer to an earlier word that comes in the middle of an exchange is taken for its own
(`attemptEach_not_own`).
-/
namespace AudioBringup

open Procedure

/-- What happens at the registers, each at its time. -/
inductive Moment
  /-- the host dropped what was shown -/
  | cleared
  | sent (word : BitVec 32)
  /-- the device showed its answer to the word that so many were sent before -/
  | gave (verb : Nat) (answer : BitVec 32)
  | took (answer : BitVec 32)
  deriving DecidableEq

namespace Moment

/-- The words that were sent. -/
def sentIn (log : List Moment) : List (BitVec 32) := log.filterMap fun
  | .sent word => some word
  | _ => none

/-- The numbers of the words that were answered. -/
def answeredIn (log : List Moment) : List Nat := log.filterMap fun
  | .gave verb _ => some verb
  | _ => none

theorem sentIn_append (l l' : List Moment) : sentIn (l ++ l') = sentIn l ++ sentIn l' := List.filterMap_append

theorem answeredIn_append (l l' : List Moment) : answeredIn (l ++ l') = answeredIn l ++ answeredIn l' := List.filterMap_append

end Moment

open Moment

/-- A device behind an immediate interface, and what happened so far. -/
structure SlowDevice where
  output : BitVec 32 := 0
  input : BitVec 32 := 0
  valid : Bool := false
  busy : Bool := false
  log : List Moment := []

namespace SlowDevice

variable {s s' s₁ : SlowDevice}

/-- Shows the answer to one of the words. -/
def give (verb : Nat) (answer : BitVec 32) (s : SlowDevice) : SlowDevice :=
  { s with input := answer, valid := true, busy := false, log := s.log ++ [.gave verb answer] }

/-- The device answers a word that it has not answered yet. -/
def Gives (s s' : SlowDevice) : Prop :=
  ∃ verb answer, verb < (sentIn s.log).length ∧ verb ∉ answeredIn s.log ∧ s' = s.give verb answer

/-- Drops what is shown. -/
def clear (s : SlowDevice) : SlowDevice := { s with valid := false, log := s.log ++ [.cleared] }

/-- Sends the word in the output register. -/
def send (s : SlowDevice) : SlowDevice := { s with busy := true, log := s.log ++ [.sent s.output] }

/-- What a write does that is accepted. -/
def accept (s : SlowDevice) (o v : BitVec 32) : SlowDevice :=
  if o = Register.icis then
    let s := if v.getLsbD 1 then s.clear else s
    if v.getLsbD 0 then s.send else s
  else if o = Register.icoi then { s with output := v }
  else s

/-- What a read shows, and that the answer was taken. -/
def Shows (s : SlowDevice) (o v : BitVec 32) (s' : SlowDevice) : Prop :=
  if o = Register.icis then v.getLsbD 1 = s.valid ∧ v.getLsbD 0 = s.busy ∧ s' = s
  else if o = Register.icii then v = s.input ∧ s' = { s with log := s.log ++ [.took v] }
  else s' = s

/-- What a call does.  A write that fails may have been accepted. -/
def Does : (c : Call) → SlowDevice → c.Answer → SlowDevice → Prop
  | .read _ o, s, .ok v, s' => s.Shows o v s'
  | .write _ o v, s, a, s' => s' = s.accept o v ∨ s' = s ∧ a ≠ .ok ()
  | _, s, _, s' => s' = s

/-- Any answers, and then the call. -/
def world : World Call Call.Answer SlowDevice := fun c s a s' => ∃ s₁, Relation.ReflTransGen Gives s s₁ ∧ Does c s₁ a s'

/-! ### What an exchange comes to -/

/-- The answer was shown after `base`, is to a word that was not answered before, and no other was shown after it. -/
def ShownSince (base more : List Moment) (answer : BitVec 32) : Prop :=
  ∃ early verb late, more = early ++ .gave verb answer :: late ∧ answeredIn late = [] ∧
    verb < (sentIn (base ++ early)).length ∧ verb ∉ answeredIn (base ++ early)

/-- An exchange of `word` takes an answer that came after its own clear: to the word itself, or to an earlier one that was
overdue. -/
def Fresh (log : List Moment) (word answer : BitVec 32) (log' : List Moment) : Prop :=
  ∃ before early verb late after,
    log' = log ++ before ++ .cleared :: early ++ .gave verb answer :: late ++ .took answer :: after ∧
    sentIn before = [] ∧ answeredIn late = [] ∧
    (verb = (sentIn log).length ∧ sentIn early = [word] ∨ verb < (sentIn log).length ∧ verb ∉ answeredIn (log ++ before))

/-- An exchange of `word` hands out a fresh answer, or says that there was none, unless it fails. -/
def Exchanged (log : List Moment) (word : BitVec 32) (r : Except Error (BitVec 32)) (log' : List Moment) : Prop :=
  log <+: log' ∧ ∀ a, r = .ok a → a = Response.timedOut ∨ Fresh log word a log'

variable {σ α β : Type} {n : Nat} {t : σ} {s s' s₁ : SlowDevice} {base more log₀ : List Moment} {words : List (BitVec 32)}

/-! ### The time since a clear -/

/-- These words were sent since `base`, and what is shown came since. -/
def Window (base : List Moment) (words : List (BitVec 32)) (s : SlowDevice) : Prop :=
  ∃ more, s.log = base ++ more ∧ sentIn more = words ∧ (s.valid = true → ShownSince base more s.input)

theorem Window.gives (h : Window base words s) (hg : Relation.ReflTransGen Gives s s') : Window base words s' := by
  induction hg with
  | refl => exact h
  | tail _ hgive ih =>
    obtain ⟨more, hlog, hwords, -⟩ := ih
    obtain ⟨verb, answer, hsent, honce, rfl⟩ := hgive
    rw [hlog] at hsent honce
    refine ⟨more ++ [.gave verb answer], ?_, ?_, fun _ => ⟨more, verb, [], rfl, rfl, hsent, honce⟩⟩
    · rw [give, hlog, List.append_assoc]
    · rw [sentIn_append, hwords]
      exact List.append_nil words

/-- The device only gives answers by itself. -/
theorem of_gives (hg : Relation.ReflTransGen Gives s s') : s'.output = s.output ∧ (s.valid = true → s'.valid = true) ∧
    ∃ before, s'.log = s.log ++ before ∧ sentIn before = [] := by
  induction hg with
  | refl => exact ⟨rfl, id, [], (List.append_nil _).symm, rfl⟩
  | tail _ hgive ih =>
    obtain ⟨houtput, -, before, hlog, hbefore⟩ := ih
    obtain ⟨verb, answer, -, -, rfl⟩ := hgive
    refine ⟨houtput, fun _ => rfl, before ++ [.gave verb answer], ?_, ?_⟩
    · rw [give, hlog, List.append_assoc]
    · rw [sentIn_append, hbefore]
      rfl

theorem log_gives (hg : Relation.ReflTransGen Gives s s') : s.log <+: s'.log := by
  obtain ⟨-, -, before, hlog, -⟩ := of_gives hg
  exact ⟨before, hlog.symm⟩

theorem log_accept (o v : BitVec 32) : s.log <+: (s.accept o v).log := by
  have hclear : s.log <+: (if v.getLsbD 1 then s.clear else s).log := by
    split
    · exact List.prefix_append _ _
    · exact List.prefix_rfl
  unfold accept
  split
  · dsimp only
    split
    · exact hclear.trans (List.prefix_append _ _)
    · exact hclear
  · split <;> exact List.prefix_rfl

theorem ShownSince.snoc {answer : BitVec 32} {m : Moment} (h : ShownSince base more answer) (hm : answeredIn [m] = []) :
    ShownSince base (more ++ [m]) answer := by
  obtain ⟨early, verb, late, rfl, hlate, hdue⟩ := h
  refine ⟨early, verb, late ++ [m], by rw [List.append_assoc, List.cons_append], ?_, hdue⟩
  rw [answeredIn_append, hlate, hm]
  rfl

theorem Window.send (h : Window base words s) : Window base (words ++ [s.output]) s.send := by
  obtain ⟨more, hlog, rfl, hvalid⟩ := h
  refine ⟨more ++ [.sent s.output], ?_, sentIn_append _ _, fun hv => (hvalid hv).snoc rfl⟩
  rw [SlowDevice.send, hlog, List.append_assoc]

theorem window_clear (s : SlowDevice) : Window (s.log ++ [.cleared]) [] s.clear :=
  ⟨[], (List.append_nil _).symm, rfl, nofun⟩

/-! ### The calls of an exchange -/

/-- A result is `P`; a failure leaves what had happened. -/
def keeps (log₀ : List Moment) (P : α → SlowDevice → Prop) : Outcome σ α SlowDevice :=
  .unlessStuck (fun a _ => P a) fun _ s => log₀ <+: s.log

theorem keeps_bind {x : Procedure σ α} {f : α → Procedure σ β} {P : α → SlowDevice → Prop} {Q : β → SlowDevice → Prop}
    (hx : Ensures world n x t s (keeps log₀ P)) (hf : ∀ a t s, P a s → Ensures world n (f a) t s (keeps log₀ Q)) :
    Ensures world n (x >>= f) t s (keeps log₀ Q) := hx.orFailThen hf

theorem Window.began (h : Window base words s) : base <+: s.log := by
  obtain ⟨more, hlog, -⟩ := h
  exact ⟨more, hlog.symm⟩

theorem ensures_accept {w : Width} {o v : BitVec 32} {P : SlowDevice → Prop} (h₀ : log₀ <+: s.log)
    (hP : ∀ s₁, Relation.ReflTransGen Gives s s₁ → P (s₁.accept o v)) :
    Ensures world n (write w o v) t s (keeps log₀ fun _ => P) := by
  refine ensures_write.2 ?_
  rintro a s' ⟨s₁, hg, hdoes⟩
  have h₁ : log₀ <+: s₁.log := h₀.trans (log_gives hg)
  rcases hdoes with rfl | ⟨rfl, hfailed⟩
  · cases a with
    | ok _ => exact hP s₁ hg
    | error _ => exact h₁.trans (log_accept o v)
  · cases a with
    | ok _ => exact absurd rfl hfailed
    | error _ => exact h₁

theorem ensures_show {w : Width} {o : BitVec 32} {P : BitVec 32 → SlowDevice → Prop} (h₀ : log₀ <+: s.log)
    (hP : ∀ s₁ v s', Relation.ReflTransGen Gives s s₁ → s₁.Shows o v s' → P v s') :
    Ensures world n (read w o) t s (keeps log₀ P) := by
  refine ensures_read.2 ?_
  rintro (e | v) s' ⟨s₁, hg, hdoes⟩
  · obtain rfl : s' = s₁ := hdoes
    exact h₀.trans (log_gives hg)
  · exact hP s₁ v s' hg hdoes

/-- A call that is not to the registers leaves what the device keeps by itself. -/
theorem after_idle {a : Except Error α} {P : SlowDevice → Prop} (h₀ : log₀ <+: s.log)
    (hP : ∀ s', Relation.ReflTransGen Gives s s' → P s') (hg : Relation.ReflTransGen Gives s s') :
    (keeps log₀ fun (_ : α) => P).after a t s' :=
  match a with
  | .ok _ => hP s' hg
  | .error _ => h₀.trans (log_gives hg)

theorem ensures_clear : Ensures world n (write16 Register.icis ((ImmediateStatus.mk 0).withValid true).raw) t s
    (keeps s.log fun _ s' => ∃ before, sentIn before = [] ∧ Window (s.log ++ before ++ [.cleared]) [] s') := by
  refine ensures_accept List.prefix_rfl fun s₁ hg => ?_
  obtain ⟨-, -, before, hlog, hbefore⟩ := of_gives hg
  refine ⟨before, hbefore, ?_⟩
  rw [← hlog]
  exact window_clear s₁

theorem ensures_output (word : BitVec 32) (h₀ : log₀ <+: base) (h : Window base words s) :
    Ensures world n (write32 Register.icoi word) t s
      (keeps log₀ fun _ s' => Window base words s' ∧ s'.output = word) :=
  ensures_accept (h₀.trans h.began) fun s₁ hg =>
    have hs₁ : Window base words s₁ := h.gives hg
    ⟨hs₁, rfl⟩

theorem ensures_send {word : BitVec 32} (h₀ : log₀ <+: base) (h : Window base [] s) (hword : s.output = word) :
    Ensures world n (write16 Register.icis ((ImmediateStatus.mk 0).withBusy true).raw) t s
      (keeps log₀ fun _ s' => Window base [word] s') := by
  refine ensures_accept (h₀.trans h.began) fun s₁ hg => ?_
  rw [← hword, ← (of_gives hg).1]
  exact (h.gives hg).send

theorem ensures_status (h₀ : log₀ <+: base) (h : Window base words s) :
    Ensures world n (read16 Register.icis) t s
      (keeps log₀ fun v s' => Window base words s' ∧ (ImmediateStatus.mk v).valid = s'.valid) := by
  refine keeps_bind (ensures_show (h₀.trans h.began) (P := fun v s' => Window base words s' ∧ v.getLsbD 1 = s'.valid) ?_) ?_
  · rintro s₁ v _ hg ⟨hvalid, -, rfl⟩
    exact ⟨h.gives hg, hvalid⟩
  · rintro v _ s' ⟨h, hvalid⟩
    refine ⟨h, ?_⟩
    rw [← hvalid]
    simp [ImmediateStatus.valid]

/-- A look that shows an answer shows one from the window, and it stays. -/
theorem awaitResponse_window (h₀ : log₀ <+: base) : ∀ {patience s} {t : σ}, Window base words s →
    Ensures world n (ImmediateInterface.awaitResponse patience) t s
      (keeps log₀ fun answered s' => Window base words s' ∧ (answered = true → s'.valid = true))
  | 0, _, _, _ => trivial
  | patience + 1, s, t, h => by
    refine keeps_bind (ensures_status h₀ h) ?_
    rintro v t s ⟨h, hvalid⟩
    dsimp only
    split
    · rename_i hv
      exact ⟨h, fun _ => hvalid ▸ hv⟩
    · refine keeps_bind (P := fun _ => Window base words) (ensures_timerExpired.2 ?_) ?_
      · rintro a s' ⟨s₁, hg, rfl⟩
        exact after_idle (h₀.trans h.began) (fun _ => h.gives) hg
      · rintro expired t s h
        split
        · exact ⟨h, nofun⟩
        · exact awaitResponse_window h₀ h

/-- What is taken is the answer that was shown last. -/
theorem ensures_take (h₀ : log₀ <+: base) (h : Window base words s) (hvalid : s.valid = true) :
    Ensures world n (read32 Register.icii) t s (keeps log₀ fun v s' => ∃ more, sentIn more = words ∧
      ShownSince base more v ∧ base ++ more ++ [.took v] <+: s'.log) := by
  refine ensures_show (h₀.trans h.began) ?_
  rintro s₁ v _ hg ⟨rfl, rfl⟩
  obtain ⟨more, hlog, hwords, hshown⟩ := h.gives hg
  refine ⟨more, hwords, hshown ((of_gives hg).2.1 hvalid), ?_⟩
  exact hlog ▸ List.prefix_rfl

/-- The status is written back, which may send the word again. -/
theorem ensures_dismiss (h : log₀ <+: s.log) (m : Notice) (a : α) : Ensures world n (do
    let status ← read16 Register.icis
    write16 Register.icis status
    note m
    return a : Procedure σ α) t s (keeps log₀ fun a' s' => a' = a ∧ log₀ <+: s'.log) := by
  refine keeps_bind (P := fun _ s' => log₀ <+: s'.log) (keeps_bind (ensures_show h ?_) fun _ _ _ h => h) ?_
  · rintro s₁ v _ hg ⟨-, -, rfl⟩
    exact h.trans (log_gives hg)
  rintro status t s h
  refine keeps_bind (P := fun _ s' => log₀ <+: s'.log) (ensures_accept h fun s₁ hg => ?_) ?_
  · exact (h.trans (log_gives hg)).trans (log_accept _ _)
  rintro - t s h
  refine keeps_bind (P := fun _ s' => log₀ <+: s'.log) (ensures_note.2 ?_) fun _ _ _ h => ⟨rfl, h⟩
  rintro _ ⟨s₁, hg, rfl⟩
  exact h.trans (log_gives hg)

/-! ### Exchanges -/

/-- What is shown since a clear, where one word was sent since, is an answer to that word or to an overdue one. -/
theorem fresh_of_shown {log before log' : List Moment} {word answer : BitVec 32} (hbefore : sentIn before = [])
    (hmore : sentIn more = [word]) (h : ShownSince (log ++ before ++ [.cleared]) more answer)
    (htook : log ++ before ++ [.cleared] ++ more ++ [.took answer] <+: log') : Fresh log word answer log' := by
  obtain ⟨early, verb, late, rfl, hlate, hdue, honce⟩ := h
  obtain ⟨after, rfl⟩ := htook
  refine ⟨before, early, verb, late, after, by simp only [List.append_assoc, List.cons_append, List.nil_append], hbefore,
    hlate, ?_⟩
  have hsent : sentIn (log ++ before ++ [.cleared] ++ early) = sentIn log ++ sentIn early := by
    rw [sentIn_append, sentIn_append, sentIn_append, hbefore, List.append_nil]
    exact congrArg (· ++ _) (List.append_nil _)
  rw [hsent, List.length_append] at hdue
  rcases Nat.lt_or_ge verb (sentIn log).length with hlt | hge
  · refine .inr ⟨hlt, fun hmem => honce ?_⟩
    rw [List.append_assoc (log ++ before), answeredIn_append]
    exact List.mem_append_left _ hmem
  · rw [sentIn_append] at hmore
    rcases List.append_eq_singleton_iff.1 hmore with ⟨hearly, -⟩ | ⟨hearly, -⟩
    · rw [hearly, List.length_nil] at hdue
      omega
    · rw [hearly, List.length_singleton] at hdue
      exact .inl ⟨by omega, hearly⟩

theorem exchange_fresh (timeout : BitVec 64) (word : BitVec 32) : Ensures world n (ImmediateInterface.exchange timeout word) t s
    (keeps s.log fun a s' => s.log <+: s'.log ∧ (a = Response.timedOut ∨ Fresh s.log word a s'.log)) := by
  refine keeps_bind ensures_clear ?_
  rintro - t s₁ ⟨before, hbefore, h⟩
  have h₀ : s.log <+: s.log ++ before ++ [.cleared] := by
    rw [List.append_assoc]
    exact List.prefix_append _ _
  refine keeps_bind (ensures_output word h₀ h) ?_
  rintro - t s₂ ⟨h, hword⟩
  refine keeps_bind (ensures_send h₀ h hword) ?_
  rintro - t s₃ h
  refine keeps_bind (P := fun _ => Window (s.log ++ before ++ [.cleared]) [word]) (ensures_armTimer.2 ?_) ?_
  · rintro a s' ⟨s₁, hg, rfl⟩
    exact after_idle (h₀.trans h.began) (fun _ => h.gives) hg
  rintro - t s₄ h
  refine keeps_bind (x := fun patience => ImmediateInterface.awaitResponse patience patience) (awaitResponse_window h₀ h) ?_
  rintro answered t s₅ ⟨h, hvalid⟩
  refine keeps_bind (P := fun _ s' => Window (s.log ++ before ++ [.cleared]) [word] s' ∧ (answered = true → s'.valid = true))
    (ensures_cancelTimer.2 ?_) ?_
  · rintro a s' ⟨s₁, hg, rfl⟩
    exact after_idle (h₀.trans h.began) (fun s' hg => ⟨h.gives hg, fun ha => (of_gives hg).2.1 (hvalid ha)⟩) hg
  rintro - t s₆ ⟨h, hvalid⟩
  cases answered with
  | true =>
    refine keeps_bind (ensures_take h₀ h (hvalid rfl)) ?_
    rintro answer t s₇ ⟨more, hmore, hshown, htook⟩
    have hbegan : s.log <+: s.log ++ before ++ [.cleared] ++ more ++ [.took answer] := by
      rw [List.append_assoc _ more]
      exact h₀.trans (List.prefix_append _ _)
    refine (ensures_dismiss htook _ answer).weaken ?_ fun _ _ htook => hbegan.trans htook
    rintro _ _ s₈ ⟨rfl, htook⟩
    exact ⟨hbegan.trans htook, .inr (fresh_of_shown hbefore hmore hshown htook)⟩
  | false =>
    refine ensures_bind.2 (ensures_note.2 ?_)
    rintro _ ⟨s₁, hg, rfl⟩
    exact ⟨(h₀.trans h.began).trans (log_gives hg), .inl rfl⟩

/-- **Every exchange hands out a fresh answer, or says that there was none**: the last one that came between its own clear
and its look at it, which is the answer to its own word unless an earlier word is answered in that time. -/
theorem attemptEach_fresh (timeout : BitVec 64) (words : List (BitVec 32)) (t : σ) (s : SlowDevice) :
    Ensures world n (attemptEach (ImmediateInterface.exchange timeout) words) t s (.unlessStuck (fun exchanged _ s' =>
      exchanged.map (·.1) = words ∧ Successively Exchanged s.log exchanged s'.log) fun _ _ => False) := by
  refine (ensures_attemptEach (fun log _ s => s.log = log) Exchanged ?_ words rfl).weaken ?_ fun _ _ => id
  · rintro word _ t s rfl
    refine (exchange_fresh timeout word).mono ?_ ?_ (fun _ => id) fun _ => id
    · rintro a _ s' ⟨hlog, ha⟩
      exact ⟨s'.log, rfl, hlog, fun _ h => by cases h; exact ha⟩
    · exact fun e _ s' hlog => ⟨s'.log, rfl, hlog, nofun⟩
  · rintro exchanged _ s' ⟨hwords, _, rfl, hexchanged⟩
    exact ⟨hwords, hexchanged⟩

/-! ### An overdue answer -/

/-- What the status register reads as. -/
def statusOf (valid busy : Bool) : BitVec 32 := (if valid then 2 else 0) ||| (if busy then 1 else 0)

theorem getLsbD_statusOf : ∀ valid busy, (statusOf valid busy).getLsbD 1 = valid ∧ (statusOf valid busy).getLsbD 0 = busy := by
  decide

/-- The first of two words is answered once both were sent. -/
def overdue (answer : BitVec 32) (s : SlowDevice) : SlowDevice :=
  if (sentIn s.log).length = 2 ∧ answeredIn s.log = [] then s.give 0 answer else s

theorem gives_overdue (answer : BitVec 32) (s : SlowDevice) : Relation.ReflTransGen Gives s (s.overdue answer) := by
  unfold overdue
  split
  · rename_i h
    refine .single ⟨0, answer, ?_, ?_, rfl⟩
    · rw [h.1]
      decide
    · rw [h.2]
      exact List.not_mem_nil
  · exact .refl

/-- A device that answers the first of two words only, and only when the host looks for the answer to the second, beside a
timer that expires at once. -/
def tardy (answer : BitVec 32) : (c : Call) → SlowDevice → c.Answer × SlowDevice
  | .read _ o, s =>
    if o = Register.icis then
      let s := s.overdue answer
      (.ok (statusOf s.valid s.busy), s)
    else if o = Register.icii then (.ok s.input, { s with log := s.log ++ [.took s.input] })
    else (.ok 0, s)
  | .write _ o v, s => (.ok (), s.accept o v)
  | .timerExpired, s => (.ok true, s)
  | .candidates, s => (.ok [], s)
  | .identify _, s | .allocate _, s => (.error .noTransport, s)
  | .bindExclusive _, s | .release, s | .free _, s | .stall _, s | .armTimer _, s | .cancelTimer, s => (.ok (), s)
  | .load32 _, s => ((0 : BitVec 32), s)
  | .load64 _, s => ((0 : BitVec 64), s)
  | .store32 .., s | .store64 .., s | .fill .., s | .clear .., s | .note _, s => ((), s)

theorem world_tardy (answer : BitVec 32) (c : Call) (s : SlowDevice) : world c s (tardy answer c s).1 (tardy answer c s).2 := by
  cases c with
  | read w o =>
    have hne : Register.icii ≠ Register.icis := by decide
    by_cases hicis : o = Register.icis
    · obtain ⟨hvalid, hbusy⟩ := getLsbD_statusOf (s.overdue answer).valid (s.overdue answer).busy
      subst hicis
      exact ⟨s.overdue answer, gives_overdue answer s, hvalid, hbusy, rfl⟩
    · by_cases hicii : o = Register.icii
      · subst hicii
        exact ⟨s, .refl, rfl, rfl⟩
      · refine ⟨s, .refl, ?_⟩
        simp only [tardy, if_neg hicis, if_neg hicii, Does, Shows]
  | write w o v => exact ⟨s, .refl, .inl rfl⟩
  | _ => exact ⟨s, .refl, rfl⟩

/-- **An overdue answer is taken for one's own**: where the first of two words is answered only while the host waits for the
answer to the second, the second exchange hands it out. -/
theorem attemptEach_not_own : ¬∀ (words : List (BitVec 32)) (s : SlowDevice),
    Ensures world 1 (attemptEach (ImmediateInterface.exchange 10) words) () s (.unlessStuck (fun exchanged _ s' =>
      ∀ word a, (word, .ok a) ∈ exchanged → a = Response.timedOut ∨
        ∃ verb, (sentIn s'.log)[verb]? = some word ∧ .gave verb a ∈ s'.log) fun _ _ => False) := by
  intro hown
  have hrun : (attemptEach (ImmediateInterface.exchange 10) [0x200f0000, 0x200f0002] 1 ()).run (tardy 0x11112222) {} =
      (.result (.ok [(0x200f0000, .ok Response.timedOut), (0x200f0002, .ok 0x11112222)], ()), ⟨0x200f0002, 0x11112222,
        false, false, [.cleared, .sent 0x200f0000, .cleared, .sent 0x200f0002, .gave 0 0x11112222, .took 0x11112222,
        .cleared]⟩) := rfl
  have hends := Program.ends_run (I := fun _ => True) (fun c s _ => ⟨world_tardy 0x11112222 c s, trivial⟩)
    (p := attemptEach (ImmediateInterface.exchange 10) [0x200f0000, 0x200f0002] 1 ()) (w := {}) trivial
  rw [hrun] at hends
  have hexchanged := Program.ensures_iff_ends.1 (hown [0x200f0000, 0x200f0002] {}) _ _ hends
  rcases hexchanged 0x200f0002 0x11112222 (.tail _ (.head _)) with h | ⟨verb, hverb, hgave⟩
  · exact absurd h (by decide)
  · -- only the first word was answered
    have hverbs : verb ∈ answeredIn [.cleared, .sent 0x200f0000, .cleared, .sent 0x200f0002, .gave 0 0x11112222,
      .took 0x11112222, .cleared] := List.mem_filterMap.2 ⟨_, hgave, rfl⟩
    obtain rfl := List.mem_singleton.1 hverbs
    exact absurd hverb (by decide)

end SlowDevice
end AudioBringup
