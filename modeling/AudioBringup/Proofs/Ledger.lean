import AudioBringup.Proofs.Expansion
import AudioBringup.Proofs.FirstFailure
import AudioBringup.Proofs.HostCalls
/-!
# Proofs.Ledger — whatever a run takes from the firmware it gives back

The entries of a run read like this.  Handles are located once at most, and their buffer goes back.  One handle after the
other is looked at, each closed before the next.  The handle that was chosen is opened for sole use and used while it is
open and enabled; the timer event, if there is one, is closed before the handle is (`Held`).
-/
namespace AudioBringup
namespace Uefi

open Procedure Firmware

/-! ### What is entered -/

/-- What is entered while a function is in use: its timer event is created once at most. -/
inductive InUse (handle : Pointer) : Option Pointer → List Entry → Prop
  | bound : InUse handle none [.opened handle .exclusive, .enabled handle]
  | used {timer : Option Pointer} {l : List Entry} (before : InUse handle timer l) : InUse handle timer (l ++ [.used handle])
  | timed {event : Pointer} {l : List Entry} (before : InUse handle none l) :
    InUse handle (some event) (l ++ [.timerCreated event])

/-- What is entered of a handle that was chosen, from the one time it is claimed to when it is given up. -/
inductive Held (handle : Pointer) : List Entry → Prop
  | unclaimed {l : List Entry} (vain : Unclaimed handle l) : Held handle l
  | released {timer : Option Pointer} {l : List Entry} (use : InUse handle timer l) :
    Held handle (l ++ (timer.toList.map .timerClosed ++ [.closed handle]))

/-- What is entered where one handle after the other is looked at. -/
inductive Looks : List Entry → Prop
  | done : Looks []
  | look {handle : Pointer} {l rest : List Entry} (first : LookedAt handle l) (others : Looks rest) : Looks (l ++ rest)

/-- What discovery enters. -/
inductive Surveyed : List Entry → Prop
  | survey {located looks : List Entry} (handles : Located located) (one : Looks looks) : Surveyed (located ++ looks)

/-- **A balanced run**: what discovery took it gave back, and if it chose a handle, then that was claimed once after it, used
only while it was open and enabled, and given up. -/
inductive Balanced {σ : Type} (n : Nat) (s : σ) (image : Pointer) (start t : Trace) : Prop
  | unfound {e : Error} {h : Host} {survey : List Entry}
    (found : ((Pci.discover n s).expand Host.answer { image }).Ends tracing start (.result ((.error e, s), h)) t)
    (surveyed : Surveyed survey) (grew : start.Grew survey t)
  | chosen {candidate : Pci.Candidate} {identity : Pci.Identity} {h : Host} {before : Trace} {survey l : List Entry}
    (found : ((Pci.discover n s).expand Host.answer { image }).Ends tracing start
      (.result ((.ok (candidate, identity), s), h)) before)
    (surveyed : Surveyed survey) (grew : start.Grew survey before) (held : Held (Host.handleOf candidate) l)
    (after : before.Grew l t)

section
variable {handle : Pointer} {timer : Option Pointer} {l : List Entry}

theorem InUse.replicate (h : InUse handle timer l) : ∀ times, InUse handle timer (l ++ List.replicate times (.used handle))
  | 0 => by rwa [List.replicate_zero, List.append_nil]
  | times + 1 => by
    rw [List.replicate_succ', ← List.append_assoc]
    exact (h.replicate times).used

end

/-! ### The steps of a run -/

section
variable {σ α : Type} {c : AudioBringup.Call} {a : c.Answer} {t t' : Beneath Host Trace}

/-- A function is bound to the handle, and in use since `before`. -/
def Holding (before : Trace) (image handle : Pointer) (t : Beneath Host Trace) : Prop :=
  t.intact = true ∧ ∃ f l, t.state = ⟨image, some f⟩ ∧ f.handle = handle ∧ InUse handle f.timer l ∧ before.Grew l t.world

/-- The handle was given up. -/
def GivenUp (before : Trace) (handle : Pointer) (t : Beneath Host Trace) : Prop :=
  t.intact = true ∧ ∃ l, Held handle l ∧ before.Grew l t.world

variable {before : Trace} {image handle : Pointer}

theorem Holding.offBus (h : Holding before image handle t) (hc : c.OffBus) (hanswer : Host.upon tracing c t a t') :
    Holding before image handle t' := by
  obtain ⟨ht, f, l, hhost, rfl, huse, hgrew⟩ := h
  obtain ⟨ht', ⟨f', hhost', hkept⟩, -⟩ := Host.of_upon hanswer ht (Host.answer_keeps hc (congrArg Host.bound hhost))
  rw [hhost] at hhost'
  refine ⟨ht', ?_⟩
  rcases hkept with (⟨rfl, hmore⟩ | ⟨hnone, event, rfl, hmore⟩) | ⟨rfl, times, hmore⟩
  · exact ⟨f', l, hhost', rfl, huse, by simpa using hgrew.trans hmore⟩
  · rw [hnone] at huse
    exact ⟨_, _, hhost', rfl, huse.timed, hgrew.trans hmore⟩
  · exact ⟨f', _, hhost', rfl, huse.replicate times, hgrew.trans hmore⟩

theorem Holding.release {r : Except Error Unit} (h : Holding before image handle t) (hanswer : Host.upon tracing .release t r t') :
    GivenUp before handle t' := by
  obtain ⟨ht, f, l, hhost, rfl, huse, hgrew⟩ := h
  have hreleased : Returns tracing (Host.answer .release t.state) t.world fun _ t' =>
      t.world.Grew (f.timer.toList.map .timerClosed ++ [.closed f.handle]) t' := by
    rw [hhost]
    exact returns_bind.2 ((Host.returns_viaFunction rfl).2 ((Host.release_told image).mono fun _ _ => And.left))
  obtain ⟨ht', hmore⟩ := Host.of_upon hanswer ht hreleased
  exact ⟨ht', _, .released huse, hgrew.trans hmore⟩

/-! ### Discovery -/

/-- A step of discovery leaves the host as it is, and its calls are entered as some `P`. -/
def Surveys (P : List Entry → Prop) (t t' : Beneath Host Trace) : Prop :=
  t'.intact = true ∧ t'.state = t.state ∧ ∃ l, P l ∧ t.world.Grew l t'.world

theorem note_entered {m : Notice} (ht : t.intact = true) (hanswer : Host.upon tracing (.note m) t () t') :
    Surveys (· = []) t t' := by
  have hpassed : Returns tracing (Host.answer (.note m) t.state) t.world fun r t' =>
      r.2 = t.state ∧ ∃ l, l = [] ∧ t.world.Grew l t' := by
    refine returns_bind.2 (returns_ask.2 ?_)
    rintro _ _ rfl
    exact ⟨rfl, _, rfl, Trace.grew_cons rfl⟩
  exact Host.of_upon hanswer ht hpassed

theorem identify_entered {candidate : Pci.Candidate} {r : Except Error Pci.Identity} (ht : t.intact = true)
    (hanswer : Host.upon tracing (.identify candidate) t r t') : Surveys (LookedAt (Host.handleOf candidate)) t t' := by
  have hlooked : Returns tracing (Host.answer (.identify candidate) t.state) t.world fun r t' =>
      r.2 = t.state ∧ ∃ l, LookedAt (Host.handleOf candidate) l ∧ t.world.Grew l t' :=
    returns_bind.2 (Services.returns_toAnswer.2 ((Host.identify_told _ _).mono fun _ _ h => ⟨rfl, h.1⟩))
  exact Host.of_upon hanswer ht hlooked

theorem candidates_entered {r : Except Error (List Pci.Candidate)} (ht : t.intact = true)
    (hanswer : Host.upon tracing .candidates t r t') : Surveys Located t t' := by
  have hlocated : Returns tracing (Host.answer .candidates t.state) t.world fun r t' =>
      r.2 = t.state ∧ ∃ l, Located l ∧ t.world.Grew l t' :=
    returns_bind.2 (Host.candidates_told.mono fun _ _ h => ⟨rfl, h.1⟩)
  exact Host.of_upon hanswer ht hlocated

theorem Surveys.note {P : List Entry → Prop} {m : Notice} {t₁ : Beneath Host Trace} (h : Surveys P t t₁)
    (hanswer : Host.upon tracing (.note m) t₁ () t') : Surveys P t t' := by
  obtain ⟨ht, hhost, l, hl, hgrew⟩ := h
  obtain ⟨ht', hhost', _, rfl, hmore⟩ := note_entered ht hanswer
  exact ⟨ht', hhost'.trans hhost, l, hl, by simpa using hgrew.trans hmore⟩

/-- One thing after the other. -/
theorem Surveys.trans {P Q R : List Entry → Prop} {t₁ : Beneath Host Trace} (h : Surveys P t t₁) (h' : Surveys Q t₁ t')
    (hR : ∀ l l', P l → Q l' → R (l ++ l')) : Surveys R t t' := by
  obtain ⟨-, hhost, l, hl, hgrew⟩ := h
  obtain ⟨ht', hhost', l', hl', hgrew'⟩ := h'
  exact ⟨ht', hhost'.trans hhost, _, hR l l' hl hl', hgrew.trans hgrew'⟩

theorem Surveys.nothing {P : List Entry → Prop} (hP : P []) (ht : t.intact = true) : Surveys P t t :=
  ⟨ht, rfl, [], hP, .refl⟩

/-- Whether it succeeds or fails, what discovery does is entered as some `P`. -/
def surveys (P : List Entry → Prop) (s : σ) (t : Beneath Host Trace) : Outcome σ α (Beneath Host Trace) :=
  .always (fun s' t' => s' = s ∧ Surveys P t t') fun t' => t'.intact = true

theorem firstController_surveys {n : Nat} {s : σ} : ∀ (candidates : List Pci.Candidate) {t : Beneath Host Trace},
    t.intact = true → Ensures (Host.upon tracing) n (Pci.firstController candidates) s t (surveys Looks s t)
  | [], _, ht => ⟨rfl, .nothing .done ht⟩
  | candidate :: rest, t, ht => by
    refine Procedure.ensures_bind.2 (ensures_identify.2 fun r t₁ hanswer => ?_)
    have hlooked := identify_entered ht hanswer
    have hone : ∀ {t'}, Surveys (LookedAt (Host.handleOf candidate)) t t' → Surveys Looks t t' := fun h =>
      h.trans (.nothing (P := Looks) .done h.1) fun _ _ => .look
    cases r with
    | error e => exact ⟨rfl, hone hlooked⟩
    | ok identity =>
      refine Procedure.ensures_bind.2 (ensures_note.2 fun t₂ hanswer => ?_)
      have hseen := hlooked.note hanswer
      split
      · exact Procedure.ensures_bind.2 (ensures_note.2 fun t₃ hanswer => ⟨rfl, (hone hseen).note hanswer⟩)
      · have hrest : ∀ {t'}, Surveys Looks t₂ t' → Surveys Looks t t' := fun h => hseen.trans h fun _ _ => .look
        exact (firstController_surveys rest hseen.1).mono (fun _ _ _ h => ⟨h.1, hrest h.2⟩)
          (fun _ _ _ h => ⟨h.1, hrest h.2⟩) (fun _ => id) fun _ => id

theorem discover_surveys {n : Nat} {s : σ} (ht : t.intact = true) :
    Ensures (Host.upon tracing) n Pci.discover s t (surveys Surveyed s t) := by
  refine Procedure.ensures_bind.2 (ensures_candidates.2 fun r t₁ hanswer => ?_)
  have hlocated := candidates_entered ht hanswer
  cases r with
  | error e => exact ⟨rfl, hlocated.trans (.nothing (P := Looks) .done hlocated.1) fun _ _ => .survey⟩
  | ok all =>
    refine Procedure.ensures_bind.2 (ensures_note.2 fun t₂ hanswer => ?_)
    have hcounted := hlocated.note hanswer
    have hrest : ∀ {t'}, Surveys Looks t₂ t' → Surveys Surveyed t t' := fun h => hcounted.trans h fun _ _ => .survey
    exact (firstController_surveys all hcounted.1).mono (fun _ _ _ h => ⟨h.1, hrest h.2⟩)
      (fun _ _ _ h => ⟨h.1, hrest h.2⟩) (fun _ => id) fun _ => id

/-! ### The run -/

variable {n : Nat} {config : Config} {waveform : Array Byte} {start before : Trace} {image handle : Pointer}

/-- Whatever does not ask the bus goes on holding the function. -/
theorem ensures_holding {x : Procedure σ α} {s : σ} (hx : Candid AudioBringup.Call.OffBus x)
    (h : Holding before image handle t) : Ensures (Host.upon tracing) n x s t
      (.always (fun _ => Holding before image handle) fun t => t.intact = true) :=
  (Program.ensures_kept (fun _ _ _ _ hc h hanswer => h.offBus hc hanswer) hx.asks h).mono fun e _ h =>
    match e with
    | .result (.ok _, _) | .result (.error _, _) => h
    | .misused _ | .stuck => h.1

theorem Holding.note {m : Notice} (h : Holding before image handle t) (hanswer : Host.upon tracing (.note m) t () t') :
    Holding before image handle t' := h.offBus (c := .note m) trivial hanswer

theorem GivenUp.note {m : Notice} (h : GivenUp before handle t) (hanswer : Host.upon tracing (.note m) t () t') :
    GivenUp before handle t' := by
  obtain ⟨ht, l, hl, hgrew⟩ := h
  obtain ⟨ht', -, _, rfl, hmore⟩ := note_entered ht hanswer
  exact ⟨ht', l, hl, by simpa using hgrew.trans hmore⟩

/-- A step that comes to a result leaves what is `P`, and does not fail. -/
def unfailing (P : Beneath Host Trace → Prop) : Outcome σ α (Beneath Host Trace) :=
  ⟨fun _ _ => P, fun _ _ _ => False, fun t => t.intact = true, fun t => t.intact = true⟩

/-- A step of the cleanup that does not ask the bus, and is told of if it fails. -/
theorem tolerate_holding {x : Procedure Bringup Unit} (notice : Error → Notice) {b : Bringup}
    (hx : Candid AudioBringup.Call.OffBus x) (h : Holding before image handle t) :
    Ensures (Host.upon tracing) n (Bringup.tolerate x notice) b t (unfailing (Holding before image handle)) := by
  refine Procedure.ensures_bind.2 (ensures_attempt.2 ((ensures_holding hx h).mono (fun _ _ _ => id) ?_ (fun _ => id)
    fun _ => id))
  exact fun e b _ h => (ensures_note (n := n)).2 fun _ => h.note

/-- **The cleanup gives the function up**, whatever of it fails. -/
theorem abandon_gives_up {b : Bringup} (h : Holding before image handle t) :
    Ensures (Host.upon tracing) n Bringup.abandon b t (unfailing (GivenUp before handle)) := by
  have last : ∀ {b t}, Holding before image handle t → Ensures (Host.upon tracing) n (do
      Bringup.tolerate (Bringup.onController Controller.tearDownTransport) .transportNotTornDown
      Bringup.tolerate Procedure.release .controllerNotReleased) b t (unfailing (GivenUp before handle)) := by
    intro b t h
    have htorn := tolerate_holding (n := n) (b := b) .transportNotTornDown
      (Bringup.onController_candid Controller.tearDownTransport_candid) h
    refine Procedure.ensures_bind.2 (htorn.mono ?_ (fun _ _ _ => False.elim) (fun _ => id) fun _ => id)
    rintro ⟨⟩ b t h
    refine Procedure.ensures_bind.2 (ensures_attempt.2 (ensures_release.2 ?_))
    rintro (e | ⟨⟩) t' hanswer
    · exact (ensures_note (n := n)).2 fun _ => (h.release hanswer).note
    · exact h.release hanswer
  refine Procedure.ensures_bind.2 (ensures_get.2 ?_)
  obtain ⟨controller, streams⟩ := b
  cases streams with
  | none => exact last h
  | some streams =>
    have hfreed := tolerate_holding (n := n) (b := ⟨controller, some streams⟩) .streamsNotFreed
      (Bringup.onController_candid (Streams.release_candid streams)) h
    exact Procedure.ensures_bind.2 (hfreed.mono (fun _ _ _ => last) (fun _ _ _ => False.elim) (fun _ => id) fun _ => id)

/-- What a claim leaves: the function in use, or the handle given up again. -/
def Claimed (before : Trace) (image handle : Pointer) : Except Error Unit → Beneath Host Trace → Prop
  | .ok _ => Holding before image handle
  | .error _ => GivenUp before handle

theorem bindExclusive_entered {candidate : Pci.Candidate} {r : Except Error Unit} (ht : t.intact = true)
    (hhost : t.state.image = image) (hanswer : Host.upon tracing (.bindExclusive candidate) t r t') :
    Claimed t.world image (Host.handleOf candidate) r t' := by
  have hclaimed : Returns tracing (Host.answer (.bindExclusive candidate) t.state) t.world fun r t' =>
      Claimed t.world image (Host.handleOf candidate) r.1 ⟨r.2, t', true⟩ := by
    refine returns_bind.2 (Services.returns_toAnswer.2 ((Host.bindExclusive_told _ _).mono fun r t' h => ?_))
    cases r with
    | error f =>
      obtain ⟨⟨l, hvain, hgrew⟩, -⟩ := h
      exact ⟨rfl, l, .unclaimed hvain, hgrew⟩
    | ok f =>
      obtain ⟨rfl, hgrew⟩ := h
      exact ⟨rfl, _, _, by rw [← hhost], rfl, .bound, hgrew⟩
  obtain ⟨ht', hclaimed⟩ := Host.of_upon hanswer ht hclaimed
  rwa [← ht'] at hclaimed

/-- A run that comes back has left a balance, and no call of it was made while nothing was bound. -/
theorem run_keeps_balance {s : σ} : Ensures (Host.upon tracing) n (Bringup.run config waveform) s ⟨{ image }, start, true⟩
    (.always (fun _ t => t.intact = true ∧ Balanced n s image start t.world) fun t => t.intact = true) := by
  refine Procedure.ensures_bind.2 ((discover_surveys (t := ⟨{ image }, start, true⟩) rfl).withEnds ?_ (fun _ => id)
    fun _ => id)
  rintro (e | ⟨candidate, identity⟩) s' ⟨h, t₁, intact⟩ hends ⟨rfl, ht, rfl, survey, hsurveyed, hgrew⟩
  · exact ⟨ht, .unfound (Program.ends_expand ht hends).2 hsurveyed hgrew⟩
  have hfound := (Program.ends_expand ht hends).2
  have done : ∀ {t}, GivenUp t₁ (Host.handleOf candidate) t → t.intact = true ∧ Balanced n s' image start t.world :=
    fun ⟨ht, l, hheld, hafter⟩ => ⟨ht, .chosen hfound hsurveyed hgrew hheld hafter⟩
  refine Procedure.ensures_bind.2 (ensures_bindExclusive.2 ?_)
  rintro (e | ⟨⟩) t₂ hanswer
  · exact done (bindExclusive_entered ht rfl hanswer)
  have hholding : Holding t₁ image (Host.handleOf candidate) t₂ := bindExclusive_entered ht rfl hanswer
  refine Procedure.ensures_bind.2 (ensures_within.2 ((ensures_holding Bringup.playThrough_candid hholding).mono ?_ ?_
    (fun _ => id) fun _ => id))
  · rintro summary b t₃ h
    refine Procedure.ensures_bind.2 (ensures_release.2 ?_)
    rintro (e | ⟨⟩) t₄ hanswer
    · exact done (h.release hanswer)
    · exact Procedure.ensures_bind.2 (ensures_note.2 fun t₅ hnoted => done ((h.release hanswer).note hnoted))
  · rintro e b t₃ h
    refine Procedure.ensures_bind.2 (ensures_note.2 fun t₄ hanswer => ?_)
    refine Procedure.ensures_bind.2 (ensures_within.2 ((abandon_gives_up (h.note hanswer)).mono ?_ (fun _ _ _ => False.elim)
      (fun _ => id) fun _ => id))
    exact fun _ _ _ h => done h

/-- **Whatever the firmware answers, a run that comes back gave back all it had taken.** -/
theorem run_balanced (s : σ) : ((Bringup.run config waveform n s).expand Host.answer { image }).Ensures tracing
    (fun e t => match e with
      | .result _ => Balanced n s image [] t
      | .misused _ | .stuck => True) [] := by
  refine Program.ensures_expand (Program.Ensures.mono run_keeps_balance fun e t h => ?_)
  match e, h with
  | .result (.ok _, _), h | .result (.error _, _), h => exact h
  | .misused _, h | .stuck, h => exact ⟨h, trivial⟩

end

end Uefi
end AudioBringup
