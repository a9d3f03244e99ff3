import AudioBringup.Proofs.FirmwareCalls
import AudioBringup.Proofs.SideBySide
import AudioBringup.Uefi.Application
/-!
# Proofs.Unmoved — answers that nothing depends on

Some calls are made aside: whatever they are answered, a program goes on in the same way.  So it ends the same on every
two firmwares that differ in those answers only (`Unmoved`).  Lines that are printed, timer events that are closed and
pools that are given back are such calls of the application (`run_unmoved`).
-/
namespace AudioBringup
namespace Uefi

open Firmware

/-! ### Calls that are made aside -/

/-- A notice, or text on the console. -/
def Call.spoken : Call → Bool
  | .note _ | .outputString _ => true
  | _ => false

/-- A call whose failure goes no further. -/
def Call.idle : Call → Bool
  | .note _ | .outputString _ | .closeEvent _ | .freePool _ => true
  | _ => false

/-- The calls that were not made aside. -/
def Trace.but (aside : Call → Bool) (t : Trace) : Trace := t.filter fun m => !aside m.call

/-- A firmware that answers what is asked aside as it likes, and each other call by those it was asked before. -/
def heeding (aside : Call → Bool) (allowed : (c : Call) → Trace → c.Answer → Prop) : World Call Call.Answer Trace :=
  fun c t a t' => t' = ⟨c, a⟩ :: t ∧ (aside c = false → allowed c (t.but aside) a)

/-- A firmware of which it is settled what it answers, but for what it is asked aside. -/
def settled (aside : Call → Bool) (base : (c : Call) → Trace → c.Answer) : World Call Call.Answer Trace :=
  heeding aside fun c t a => a = base c t

section
variable {aside : Call → Bool} {c : Call} {a : c.Answer} {t : Trace}

theorem Trace.but_aside (hc : aside c = true) : Trace.but aside (⟨c, a⟩ :: t) = t.but aside :=
  List.filter_cons_of_neg (by simp [hc])

theorem Trace.but_cons (hc : aside c = false) : Trace.but aside (⟨c, a⟩ :: t) = ⟨c, a⟩ :: t.but aside :=
  List.filter_cons_of_pos (by simp [hc])

end

/-! ### Printing -/

namespace Console

variable {α : Type} {aside : Call → Bool} {allowed : (c : Call) → Trace → c.Answer → Prop} {limit : Option Level}
  {t t₀ t' : Trace}

theorem send_aside (haside : ∀ c : Call, c.spoken = true → aside c = true) : ∀ (runs : List (List (BitVec 16))) {t : Trace},
    Returns (heeding aside allowed) (send runs) t fun _ t' => t'.but aside = t.but aside
  | [], _ => rfl
  | run :: rest, t => by
    refine returns_bind.2 (returns_ask.2 ?_)
    rintro status _ ⟨rfl, -⟩
    have hsent := Trace.but_aside (a := status) (t := t) (haside (.outputString (run ++ [0])) rfl)
    split
    · exact hsent
    · exact (send_aside haside rest).mono fun _ _ h => h.trans hsent

theorem writeAll_aside (haside : ∀ c : Call, c.spoken = true → aside c = true) : ∀ (texts : List String) {t : Trace},
    Returns (heeding aside allowed) (writeAll texts) t fun _ t' => t'.but aside = t.but aside
  | [], _ => rfl
  | text :: rest, t => by
    refine returns_bind.2 ((send_aside haside _).mono fun sent t₁ h₁ => ?_)
    cases sent with
    | false => exact h₁
    | true => exact (writeAll_aside haside rest).mono fun _ _ h => h.trans h₁

theorem print_aside (haside : ∀ c : Call, c.spoken = true → aside c = true) (n : Notice) {t : Trace} :
    Returns (heeding aside allowed) (print limit n) t fun _ t' => t'.but aside = t.but aside := by
  unfold print
  split
  · exact returns_bind.2 (writeAll_aside haside _)
  · rfl

theorem answer_note_or_ask (limit : Option Level) (c : Call) :
    (∃ n, c = .note n) ∨ answer limit c () = Program.ask c fun a => .pure (a, ()) := by
  cases c <;> first | exact .inl ⟨_, rfl⟩ | exact .inr rfl

theorem printing_ask {c : Call} {next : c.Answer → Firmware α} :
    printing limit (Program.ask c next) = (answer limit c ()).bind fun r => printing limit (next r.1) :=
  Program.bind_assoc _ _ _

/-- **Printing changes nothing but what is printed.** -/
theorem ends_printing (haside : ∀ c : Call, c.spoken = true → aside c = true) : ∀ {p : Firmware α} {e : Ending α}
    {t t₀ t' : Trace}, t.but aside = t₀.but aside → (printing limit p).Ends (heeding aside allowed) t e t' →
      ∃ t₀', p.Ends (heeding aside allowed) t₀ e t₀' ∧ t'.but aside = t₀'.but aside
  | .pure a, _, _, t₀, _, hsame, ⟨he, ht⟩ => ⟨t₀, ⟨he, rfl⟩, ht ▸ hsame⟩
  | .misused m, _, _, t₀, _, hsame, ⟨he, ht⟩ => ⟨t₀, ⟨he, rfl⟩, ht ▸ hsame⟩
  | .stuck, _, _, t₀, _, hsame, ⟨he, ht⟩ => ⟨t₀, ⟨he, rfl⟩, ht ▸ hsame⟩
  | Program.ask c next, e, t, t₀, t', hsame, hends => by
    have ih : ∀ a {t t₀ : Trace}, t.but aside = t₀.but aside →
        (printing limit (next a)).Ends (heeding aside allowed) t e t' →
          ∃ t₀', (next a).Ends (heeding aside allowed) t₀ e t₀' ∧ t'.but aside = t₀'.but aside :=
      fun _ _ _ => ends_printing haside
    rw [printing_ask] at hends
    rcases answer_note_or_ask limit c with ⟨n, rfl⟩ | hasked
    · obtain ⟨e₁, t₁, hprinted, hends⟩ := Program.ends_bind hends
      have hreturns : Returns (heeding aside allowed) (answer limit (.note n) ()) t fun _ t' => t'.but aside = t.but aside :=
        returns_bind.2 (print_aside haside n)
      have hprinted := Program.ensures_iff_ends.1 hreturns _ _ hprinted
      have hnoted := Trace.but_aside (c := .note n) (a := ()) (t := t₀) (haside (.note n) rfl)
      cases e₁ with
      | result r =>
        obtain ⟨t₀', hp, hsame⟩ := ih r.1 (hprinted.trans (hsame.trans hnoted.symm)) hends
        exact ⟨t₀', ⟨(), _, ⟨rfl, fun h => by simp [haside (.note n) rfl] at h⟩, hp⟩, hsame⟩
      | misused m => exact hprinted.elim
      | stuck => exact hprinted.elim
    · rw [hasked] at hends
      obtain ⟨a, _, ⟨rfl, hallowed⟩, hends⟩ := hends
      have hcons : Trace.but aside (⟨c, a⟩ :: t) = Trace.but aside (⟨c, a⟩ :: t₀) := by
        cases hc : aside c with
        | true => rwa [Trace.but_aside hc, Trace.but_aside hc]
        | false => rw [Trace.but_cons hc, Trace.but_cons hc, hsame]
      obtain ⟨t₀', hp, hsame'⟩ := ih a hcons hends
      exact ⟨t₀', ⟨a, _, ⟨rfl, fun hc => hsame ▸ hallowed hc⟩, hp⟩, hsame'⟩

end Console

/-! ### Programs that no answer aside moves -/

/-- On every two firmwares that agree but for what they answer aside, the program ends the same, after the same calls but
for those. -/
def Unmoved {α : Type} (aside : Call → Bool) (base : (c : Call) → Trace → c.Answer) (x : Firmware α) : Prop :=
  ∀ t t', t.but aside = t'.but aside → ∀ e v e' v', x.Ends (settled aside base) t e v →
    x.Ends (settled aside base) t' e' v' → e = e' ∧ v.but aside = v'.but aside

section
variable {σ α β : Type} {aside : Call → Bool} {base : (c : Call) → Trace → c.Answer}

theorem unmoved_pure (a : α) : Unmoved aside base (.pure a) := by
  rintro t t' hsame _ _ _ _ ⟨rfl, rfl⟩ ⟨rfl, rfl⟩
  exact ⟨rfl, hsame⟩

theorem unmoved_misused (m : Misuse) : Unmoved aside base (.misused m : Firmware α) := by
  rintro t t' hsame _ _ _ _ ⟨rfl, rfl⟩ ⟨rfl, rfl⟩
  exact ⟨rfl, hsame⟩

theorem unmoved_stuck : Unmoved aside base (.stuck : Firmware α) := by
  rintro t t' hsame _ _ _ _ ⟨rfl, rfl⟩ ⟨rfl, rfl⟩
  exact ⟨rfl, hsame⟩

/-- What is not asked aside is answered the same. -/
theorem unmoved_ask {c : Call} {next : c.Answer → Firmware α} (hc : aside c = false)
    (hnext : ∀ a, Unmoved aside base (next a)) : Unmoved aside base (Program.ask c next) := by
  rintro t t' hsame e v e' v' ⟨a, _, ⟨rfl, ha⟩, h⟩ ⟨a', _, ⟨rfl, ha'⟩, h'⟩
  obtain rfl : a = a' := by rw [ha hc, ha' hc, hsame]
  exact hnext a _ _ (by rw [Trace.but_cons hc, Trace.but_cons hc, hsame]) e v e' v' h h'

theorem unmoved_bind {x : Firmware α} {f : α → Firmware β} (hx : Unmoved aside base x)
    (hf : ∀ a, Unmoved aside base (f a)) : Unmoved aside base (x >>= f) := by
  intro t t' hsame e v e' v' h h'
  obtain ⟨d, w, hd, h⟩ := Program.ends_bind h
  obtain ⟨d', w', hd', h'⟩ := Program.ends_bind h'
  obtain ⟨rfl, hsame'⟩ := hx t t' hsame d w d' w' hd hd'
  cases d with
  | result a => exact hf a w w' hsame' e v e' v' h h'
  | misused m => exact ⟨h.1.trans h'.1.symm, h.2 ▸ h'.2 ▸ hsame'⟩
  | stuck => exact ⟨h.1.trans h'.1.symm, h.2 ▸ h'.2 ▸ hsame'⟩

/-- What asks nothing but aside, and returns one thing. -/
theorem unmoved_of_returns {x : Firmware α} {a : α} (hx : ∀ t, Returns (settled aside base) x t
    fun b t' => b = a ∧ t'.but aside = t.but aside) : Unmoved aside base x := by
  have ends : ∀ {t e v}, x.Ends (settled aside base) t e v →
      e = .result a ∧ v.but aside = t.but aside := by
    intro t e v h
    have hreturned := Program.ensures_iff_ends.1 (hx t) e v h
    cases e with
    | result b => exact ⟨congrArg _ hreturned.1, hreturned.2⟩
    | misused m => exact hreturned.elim
    | stuck => exact hreturned.elim
  intro t t' hsame e v e' v' h h'
  exact ⟨(ends h).1.trans (ends h').1.symm, (ends h).2.trans (hsame.trans (ends h').2.symm)⟩

/-- Programs into which unmoved answers are put are unmoved. -/
theorem unmoved_expand {answer : (c : AudioBringup.Call) → σ → Firmware (c.Answer × σ)}
    (hanswer : ∀ c s, Unmoved aside base (answer c s)) : ∀ (p : Program AudioBringup.Call AudioBringup.Call.Answer α) {s : σ},
    Unmoved aside base (p.expand answer s)
  | .pure _, _ => unmoved_pure _
  | .misused _, _ => unmoved_misused _
  | .stuck, _ => unmoved_stuck
  | .ask c next, s => unmoved_bind (hanswer c s) fun r => unmoved_expand hanswer (next r.1)

end

/-! ### The host -/

section
variable {α β : Type} {base : (c : Call) → Trace → c.Answer}

namespace Services

/-- A service asks once, and makes something of the answer. -/
theorem unmoved_once {x : Services α} {c : Call} {k : c.Answer → Except Failure α} (hc : c.idle = false)
    (hx : ∀ {t : Trace} {Q : Except Failure α → Trace → Prop}, (∀ a t', settled Call.idle base c t a t' →
      Q (k a) t') → Returns (settled Call.idle base) x.run t Q) : Unmoved Call.idle base x.run := by
  have ends : ∀ {t e v}, x.run.Ends (settled Call.idle base) t e v →
      e = .result (k (base c (t.but Call.idle))) ∧ v.but Call.idle = ⟨c, base c (t.but Call.idle)⟩ :: t.but Call.idle := by
    intro t e v h
    have hreturned := Program.ensures_iff_ends.1 (hx (t := t) (Q := fun r t' => r = k (base c (t.but Call.idle)) ∧
      t'.but Call.idle = ⟨c, base c (t.but Call.idle)⟩ :: t.but Call.idle) ?_) e v h
    · cases e with
      | result r => exact ⟨congrArg _ hreturned.1, hreturned.2⟩
      | misused m => exact hreturned.elim
      | stuck => exact hreturned.elim
    · rintro a _ ⟨rfl, ha⟩
      rw [ha hc]
      exact ⟨rfl, Trace.but_cons hc⟩
  intro t t' hsame e v e' v' h h'
  rw [(ends h).1, (ends h').1, (ends h).2, (ends h').2, hsame]
  exact ⟨rfl, rfl⟩

theorem unmoved_andThen {x : Services α} {f : α → Services β} (hx : Unmoved Call.idle base x.run)
    (hf : ∀ a, Unmoved Call.idle base (f a).run) : Unmoved Call.idle base (x >>= f).run :=
  unmoved_bind hx fun r => match r with
    | .ok a => hf a
    | .error _ => unmoved_pure _

theorem unmoved_toAnswer {x : Services α} (hx : Unmoved Call.idle base x.run) : Unmoved Call.idle base x.toAnswer :=
  unmoved_bind hx fun _ => unmoved_pure _

theorem unmoved_service {c : Call} {op : String} {status : c.Answer → Status} {output : c.Answer → α} (hc : c.idle = false) :
    Unmoved Call.idle base (ExceptT.run do
      let a ← ask c
      check op (status a)
      return output a) := unmoved_once hc (returns_service status output).2

theorem unmoved_plainService {c : Call} {op : String} {status : c.Answer → Status} (hc : c.idle = false) :
    Unmoved Call.idle base (ExceptT.run do check op (status (← ask c))) := unmoved_once hc (returns_plainService status).2

/-- A service that is asked aside leaves nothing but its failure. -/
theorem returns_idle {c : Call} {op : String} {status : c.Answer → Status} (hc : c.idle = true) {t : Trace} :
    Returns (settled Call.idle base) (ExceptT.run do check op (status (← ask c))) t fun _ t' =>
      t'.but Call.idle = t.but Call.idle := by
  refine (returns_plainService status).2 ?_
  rintro a _ ⟨rfl, -⟩
  exact Trace.but_aside hc

theorem returns_note (n : Notice) {t : Trace} : Returns (settled Call.idle base)
    (Firmware.ask (.note n)) t fun _ t' => t'.but Call.idle = t.but Call.idle := by
  refine returns_ask.2 ?_
  rintro _ _ ⟨rfl, -⟩
  exact Trace.but_aside (c := .note n) rfl

theorem unmoved_openPciIo (handle agent : Pointer) (mode : OpenMode) :
    Unmoved Call.idle base (openPciIo handle agent mode).run :=
  unmoved_once (c := .openProtocol handle .pciIo agent mode) rfl fun h => returns_openPciIo.2 h

theorem unmoved_closePciIo (handle agent : Pointer) : Unmoved Call.idle base (closePciIo handle agent).run :=
  unmoved_plainService rfl

end Services

namespace Function

open Services

variable {f : Function}

theorem allocate_unmoved (length : Nat) : Unmoved Call.idle base (f.allocate length) := by
  refine unmoved_bind (unmoved_toAnswer (unmoved_service rfl)) fun r => ?_
  rcases r with e | _ | host
  · exact unmoved_pure _
  · exact unmoved_pure _
  refine unmoved_bind (unmoved_toAnswer (unmoved_service rfl)) fun r => ?_
  cases r with
  | error e => exact unmoved_bind (unmoved_plainService rfl) fun _ => unmoved_pure _
  | ok mapping =>
    dsimp only
    split
    · exact unmoved_bind (unmoved_plainService rfl) fun _ => unmoved_bind (unmoved_plainService rfl) fun _ => unmoved_pure _
    · exact unmoved_ask rfl fun _ => unmoved_pure _

theorem free_unmoved (region : Region) : Unmoved Call.idle base (f.free region).toAnswer :=
  unmoved_toAnswer (unmoved_andThen (unmoved_plainService rfl) fun _ => unmoved_plainService rfl)

theorem withTimer_unmoved : Unmoved Call.idle base f.withTimer := by
  unfold withTimer
  cases f.timer with
  | some event => exact unmoved_pure _
  | none =>
    refine unmoved_bind (unmoved_toAnswer (unmoved_service rfl)) fun r => ?_
    cases r with
    | error e => exact unmoved_pure _
    | ok event => exact unmoved_pure _

theorem unmoved_withTimer {x : Pointer → Services α} (hx : ∀ event, Unmoved Call.idle base (x event).run) :
    Unmoved Call.idle base (do
      match ← f.withTimer with
      | (.error e, f) => return (.error e, f)
      | (.ok event, f) => return (← (x event).toAnswer, f)) := by
  refine unmoved_bind withTimer_unmoved ?_
  rintro ⟨e | event, f'⟩
  · exact unmoved_pure _
  · exact unmoved_bind (unmoved_toAnswer (hx event)) fun _ => unmoved_pure _

theorem cancelTimer_unmoved : Unmoved Call.idle base f.cancelTimer := by
  unfold cancelTimer
  cases f.timer with
  | none => exact unmoved_pure _
  | some event => exact unmoved_toAnswer (unmoved_plainService rfl)

/-- Whether or not the timer event was closed, the same follows. -/
theorem drop_unmoved : Unmoved Call.idle base f.drop := by
  unfold drop
  cases f.timer with
  | none => exact unmoved_pure _
  | some event =>
    refine unmoved_of_returns (a := ()) fun t => returns_bind.2 ((returns_idle (c := .closeEvent event) rfl).mono ?_)
    rintro (e | _) t₁ h₁
    · exact (returns_note _).mono fun _ _ h => ⟨rfl, h.trans h₁⟩
    · exact ⟨rfl, h₁⟩

end Function

namespace Host

open Services

variable {h : Host}

theorem unmoved_viaFunction {x : Function → Firmware α} (hx : ∀ f, Unmoved Call.idle base (x f)) :
    Unmoved Call.idle base (h.viaFunction x) := by
  unfold viaFunction
  cases h.bound with
  | none => exact unmoved_misused _
  | some f => exact unmoved_bind (hx f) fun _ => unmoved_pure _

theorem unmoved_updateFunction {x : Function → Firmware (α × Function)} (hx : ∀ f, Unmoved Call.idle base (x f)) :
    Unmoved Call.idle base (h.updateFunction x) := by
  unfold updateFunction
  cases h.bound with
  | none => exact unmoved_misused _
  | some f => exact unmoved_bind (hx f) fun _ => unmoved_pure _

theorem freeHandles_unmoved (buffer : HandleBuffer) : Unmoved Call.idle base (freeHandles buffer) := by
  refine unmoved_of_returns (a := ()) fun t => ?_
  unfold freeHandles
  split
  · refine returns_bind.2 (returns_ask.2 ?_)
    rintro _ _ ⟨rfl, -⟩
    exact ⟨rfl, Trace.but_aside (c := .freePool buffer.pool) rfl⟩
  · exact ⟨rfl, rfl⟩

theorem candidates_unmoved : Unmoved Call.idle base candidates := by
  refine unmoved_bind (unmoved_toAnswer (unmoved_once (c := .locateHandles .byProtocol .pciIo) rfl fun h =>
    returns_locateHandles.2 h)) fun r => ?_
  cases r with
  | error e => exact unmoved_pure _
  | ok buffer => exact unmoved_bind (freeHandles_unmoved buffer) fun _ => unmoved_pure _

theorem identify_unmoved (image handle : Pointer) : Unmoved Call.idle base (identify image handle).run := by
  refine unmoved_andThen (unmoved_openPciIo _ _ _) fun _ => ?_
  refine unmoved_andThen (unmoved_bind (unmoved_service rfl) fun _ => unmoved_pure _) fun ids => ?_
  refine unmoved_andThen (unmoved_bind (unmoved_service rfl) fun _ => unmoved_pure _) fun classes => ?_
  refine unmoved_andThen (unmoved_closePciIo _ _) fun _ => ?_
  exact unmoved_andThen (unmoved_pure _) fun _ => unmoved_andThen (unmoved_pure _) fun _ => unmoved_pure _

theorem bindExclusive_unmoved (image handle : Pointer) : Unmoved Call.idle base (bindExclusive image handle).run := by
  refine unmoved_andThen (unmoved_openPciIo _ _ _) fun _ => ?_
  refine unmoved_andThen (unmoved_bind (unmoved_plainService rfl) fun _ => unmoved_pure _) fun r => ?_
  cases r with
  | error e => exact unmoved_andThen (unmoved_bind (unmoved_closePciIo _ _) fun _ => unmoved_pure _) fun _ => unmoved_pure _
  | ok _ =>
    refine unmoved_andThen (unmoved_of_returns (a := .ok ()) fun t => ?_) fun _ => unmoved_pure _
    exact returns_bind.2 ((returns_note _).mono fun _ _ h => ⟨rfl, h⟩)

theorem release_unmoved (image : Pointer) (f : Function) : Unmoved Call.idle base (release image f) :=
  unmoved_bind Function.drop_unmoved fun _ => unmoved_toAnswer (unmoved_closePciIo _ _)

/-- **No answer aside moves what a call of the bring-up is answered.** -/
theorem answer_unmoved (c : AudioBringup.Call) (h : Host) : Unmoved Call.idle base (answer c h) := by
  cases c with
  | candidates => exact unmoved_bind candidates_unmoved fun _ => unmoved_pure _
  | identify _ => exact unmoved_bind (unmoved_toAnswer (identify_unmoved _ _)) fun _ => unmoved_pure _
  | bindExclusive _ =>
    refine unmoved_bind (unmoved_toAnswer (bindExclusive_unmoved _ _)) fun r => ?_
    cases r with
    | error e => exact unmoved_pure _
    | ok f => exact unmoved_pure _
  | release => exact unmoved_bind (unmoved_viaFunction (release_unmoved h.image)) fun _ => unmoved_pure _
  | read _ _ => exact unmoved_viaFunction fun f => unmoved_bind (unmoved_toAnswer (unmoved_service rfl)) fun _ => unmoved_pure _
  | write _ _ _ => exact unmoved_viaFunction fun f => unmoved_toAnswer (unmoved_plainService rfl)
  | allocate length => exact unmoved_viaFunction fun f => f.allocate_unmoved length
  | free region => exact unmoved_viaFunction fun f => f.free_unmoved region
  | stall _ => exact unmoved_viaFunction fun f => unmoved_toAnswer (unmoved_plainService rfl)
  | armTimer _ => exact unmoved_updateFunction fun f => f.unmoved_withTimer fun _ => unmoved_plainService rfl
  | timerExpired =>
    refine unmoved_updateFunction fun f => f.unmoved_withTimer fun event => ?_
    exact unmoved_once (c := .checkEvent event) rfl fun h => returns_checkEvent.2 h
  | cancelTimer => exact unmoved_viaFunction fun f => f.cancelTimer_unmoved
  | load32 _ | load64 _ | store32 _ _ | store64 _ _ | fill _ _ | clear _ _ =>
    exact unmoved_bind (unmoved_ask rfl fun _ => unmoved_pure _) fun _ => unmoved_pure _
  | note n =>
    refine unmoved_bind (unmoved_of_returns (a := ()) fun t => ?_) fun _ => unmoved_pure _
    exact (returns_note n).mono fun _ _ h => ⟨rfl, h⟩

end Host

end

/-! ### The application -/

namespace Application

variable {base : (c : Call) → Trace → c.Answer} {image : Pointer} {patience : Nat}

/-- The heap is given back, and that it is not taken is only told. -/
theorem returns_freeHeap {ω : Type} {W : World Call Call.Answer ω} {w : ω} {heap : Pointer} {status : Status}
    {Q : Status → ω → Prop} (hfreed : ∀ freed w₁, W (.freePool heap) w freed w₁ →
      Q status w₁ ∧ ∀ n w₂, W (.note n) w₁ () w₂ → Q status w₂) : Returns W (do
        match ← (Services.freePool heap).run with
        | .ok () => pure ()
        | .error e => Firmware.ask (.note (.heapNotFreed e))
        return status : Firmware Status) w Q := by
  have hasked : Returns W (Services.freePool heap).run w fun _ w₁ => ∃ freed : Status, W (.freePool heap) w freed w₁ :=
    (Services.returns_plainService (c := .freePool heap) id).2 fun freed _ h => ⟨freed, h⟩
  refine returns_bind.2 (hasked.mono ?_)
  rintro (e | _) w₁ ⟨freed, h⟩
  · exact returns_bind.2 (returns_ask.2 fun _ w₂ hnoted => (hfreed freed w₁ h).2 _ w₂ hnoted)
  · exact (hfreed freed w₁ h).1

theorem body_unmoved : Unmoved Call.idle base (body image patience) := by
  refine unmoved_bind (Services.unmoved_service rfl) fun r => ?_
  cases r with
  | error e =>
    refine unmoved_of_returns (a := e.status) fun t => returns_bind.2 ?_
    exact (Services.returns_note _).mono fun _ _ h => ⟨rfl, h⟩
  | ok heap =>
    refine unmoved_bind (unmoved_expand Host.answer_unmoved _) ?_
    rintro ⟨⟨result, _⟩, _⟩
    apply unmoved_of_returns
    refine fun t => returns_freeHeap ?_
    rintro freed _ ⟨rfl, -⟩
    have hsame : Trace.but Call.idle (⟨.freePool heap, freed⟩ :: t) = t.but Call.idle :=
      Trace.but_aside (c := .freePool heap) rfl
    refine ⟨⟨rfl, hsame⟩, ?_⟩
    rintro n _ ⟨rfl, -⟩
    exact ⟨rfl, (Trace.but_aside (c := .note n) rfl).trans hsame⟩

/-- **Failures to print, to close the timer event or to give a pool back change nothing**: on two firmwares that differ in
the answers to these calls only, the application ends the same. -/
theorem run_unmoved : Unmoved Call.idle base (run image patience) := by
  have hspoken : ∀ c : Call, c.spoken = true → c.idle = true := by
    intro c hc
    cases c <;> first | rfl | cases hc
  intro t t' hsame e v e' v' h h'
  obtain ⟨w, hw, hv⟩ := Console.ends_printing hspoken (Eq.refl (t.but Call.idle)) h
  obtain ⟨w', hw', hv'⟩ := Console.ends_printing hspoken (Eq.refl (t'.but Call.idle)) h'
  obtain ⟨he, hsame'⟩ := body_unmoved t t' hsame e w e' w' hw hw'
  exact ⟨he, hv.trans (hsame'.trans hv'.symm)⟩

end Application

end Uefi
end AudioBringup
