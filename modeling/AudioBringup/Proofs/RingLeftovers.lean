import AudioBringup.Proofs.PositionBuffer
/-!
# Proofs.RingLeftovers — what is left of rings that could not be set up

Nobody holds rings whose setup failed, so nobody can take them down.  As long as not both of them have their memory
nothing is left behind.  After that the memory of both is, and a command ring that was started goes on running over it
(`setUp_leaves`).
-/
namespace AudioBringup

open Procedure History

namespace Call

/-- Neither has memory nor gives it back, starts no ring, and asks for no response interrupts. -/
def Preparing (c : Call) : Prop := c.Quiet ∧ (∀ o ∈ ringControls, ¬c.Starts o) ∧ ¬c.Writes Register.rintcnt

theorem preparing_of_not_writes {c : Call} (hc : c.Quiet) (hwrites : ∀ o, ¬c.Writes o) : c.Preparing := by
  refine ⟨hc, ?_, hwrites _⟩
  rintro o - ⟨w, v, he, -⟩
  exact hwrites o ⟨w, v, he⟩

theorem preparing_read {w : Width} {o : BitVec 32} : (Call.read w o).Preparing :=
  preparing_of_not_writes trivial (by simp [Writes])

theorem preparing_note {m : Notice} : (Call.note m).Preparing := preparing_of_not_writes trivial (by simp [Writes])

theorem preparing_clear {host length : Nat} : (Call.clear host length).Preparing :=
  preparing_of_not_writes trivial (by simp [Writes])

theorem preparing_write {w : Width} {o v : BitVec 32} (hr : o ≠ Register.rintcnt)
    (ho : o ∈ ringControls → v.getLsbD 1 = false) : (Call.write w o v).Preparing := by
  refine ⟨trivial, ?_, ?_⟩
  · rintro o' ho' ⟨_, _, he, hrun⟩
    obtain ⟨-, rfl, rfl⟩ := Call.write.inj he
    rw [ho ho'] at hrun
    cases hrun
  · rintro ⟨_, _, he⟩
    exact hr (Call.write.inj he).2.1

end Call

namespace History

/-- The latest write of a ring's control that went through set its run bit. -/
def Runs (control : BitVec 32) (h : History) : Prop := (h.left control).getLsbD 1 = true

/-- An interrupt after every response was asked for. -/
def Paced (h : History) : Prop := ∃ m ∈ h, m.call.Writes Register.rintcnt

/-- All memory that was had was given back, and no ring was left running. -/
structure LeavesNothing (h : History) : Prop where
  given : ∀ g, h.allocated.count g ≤ h.freed.count g
  still : ∀ control ∈ ringControls, ¬h.Runs control

/-- **What a failed setup leaves**: nothing as long as not both rings had their memory.  Once they had it, the memory of
both and a running command ring, if that had been started. -/
structure Abandoned (h : History) : Prop where
  early : h.allocated.length < 2 → h.LeavesNothing
  late : 2 ≤ h.allocated.length → h.allocated.length = 2 ∧ h.freed = [] ∧ ¬h.Runs Register.rirbctl ∧
    (h.Runs Register.corbctl ↔ h.Paced)

/-- So much memory was had and given back, and no ring was started. -/
structure Laid (had given : List Region) (h : History) : Prop where
  allocated : h.allocated = had
  freed : h.freed = given
  still : ∀ control ∈ ringControls, ¬h.Runs control
  unpaced : ¬h.Paced

/-- The command ring was started, and the response ring not yet. -/
structure HalfStarted (had : List Region) (h : History) : Prop where
  allocated : h.allocated = had
  freed : h.freed = []
  corb : h.Runs Register.corbctl
  rirb : ¬h.Runs Register.rirbctl

variable {h : History} {had given : List Region} {c : Call} {a : c.Answer} {control o : BitVec 32}

theorem runs_cons {m : Made} (hm : ¬m.Sets control) : Runs control (m :: h) ↔ h.Runs control := by
  unfold Runs
  rw [left_cons hm]

theorem not_sets_of_not_writes (hc : ¬c.Writes o) : ¬Made.Sets o ⟨c, a⟩ := by
  rintro ⟨w, v, hm⟩
  exact hc ⟨w, v, congrArg Made.call hm⟩

/-- What does not start a ring leaves it as it was, or stops it. -/
theorem runs_of_call (hc : ¬c.Starts control) (hrun : Runs control (⟨c, a⟩ :: h)) : h.Runs control := by
  by_cases hm : Made.Sets control ⟨c, a⟩
  · obtain ⟨w, v, hm⟩ := hm
    rw [hm, Runs, left_write] at hrun
    exact absurd ⟨w, v, congrArg Made.call hm, hrun⟩ hc
  · exact (runs_cons hm).1 hrun

theorem paced_cons {m : Made} : Paced (m :: h) ↔ m.call.Writes Register.rintcnt ∨ h.Paced := by
  simp only [Paced, List.mem_cons, exists_eq_or_imp]

theorem laid_nil : Laid [] [] [] := ⟨rfl, rfl, fun _ _ => by simp [Runs, left], by simp [Paced]⟩

theorem Laid.cons {had' given' : List Region} {m : Made} (hh : Laid had given h)
    (hallocated : History.allocated (m :: h) = had') (hfreed : History.freed (m :: h) = given')
    (hruns : ∀ control ∈ ringControls, Runs control (m :: h) → h.Runs control) (hpaced : ¬m.call.Writes Register.rintcnt) :
    Laid had' given' (m :: h) where
  allocated := hallocated
  freed := hfreed
  still control hc hrun := hh.still control hc (hruns control hc hrun)
  unpaced := by
    rw [paced_cons]
    exact fun hm => hm.elim hpaced hh.unpaced

theorem Laid.stable : Stable Call.Preparing (Laid had given) := by
  intro c a h ⟨hquiet, hstarts, hpaced⟩ hh
  exact hh.cons ((allocated_quiet hquiet).trans hh.allocated) ((freed_quiet hquiet).trans hh.freed)
    (fun o ho => runs_of_call (hstarts o ho)) hpaced

theorem Laid.allocate {k : Nat} {g : Region} (hh : Laid had given h) :
    Laid (g :: had) given (⟨.allocate k, Except.ok g⟩ :: h) :=
  hh.cons (congrArg (g :: ·) hh.allocated) hh.freed (fun _ _ => id) (by simp [Call.Writes])

theorem Laid.refused {k : Nat} {e : Error} (hh : Laid had given h) : Laid had given (⟨.allocate k, Except.error e⟩ :: h) :=
  hh.cons hh.allocated hh.freed (fun _ _ => id) (by simp [Call.Writes])

theorem Laid.free {g : Region} {r : Except Error Unit} (hh : Laid had given h) :
    Laid had (g :: given) (⟨.free g, r⟩ :: h) :=
  hh.cons hh.allocated (congrArg (g :: ·) hh.freed) (fun _ _ => id) (by simp [Call.Writes])

theorem Laid.leavesNothing (hh : Laid had had h) : h.LeavesNothing :=
  ⟨fun g => Nat.le_of_eq (by rw [hh.allocated, hh.freed]), hh.still⟩

/-- Nothing was had, or all of it was given back. -/
theorem Laid.abandoned (hh : Laid had had h) (hfew : had.length < 2) : h.Abandoned := by
  refine ⟨fun _ => hh.leavesNothing, fun htwo => ?_⟩
  rw [hh.allocated] at htwo
  exact absurd hfew (Nat.not_lt.2 htwo)

/-- Both rings have their memory, and it is not given back. -/
theorem abandoned_of_two (hallocated : h.allocated = had) (htwo : had.length = 2) (hfreed : h.freed = [])
    (hrirb : ¬h.Runs Register.rirbctl) (hcorb : h.Runs Register.corbctl ↔ h.Paced) : h.Abandoned := by
  have hlength : h.allocated.length = 2 := (congrArg List.length hallocated).trans htwo
  exact ⟨fun hfew => absurd hlength (Nat.ne_of_lt hfew), fun _ => ⟨hlength, hfreed, hrirb, hcorb⟩⟩

theorem Laid.stranded (hh : Laid had [] h) (htwo : had.length = 2) : h.Abandoned :=
  abandoned_of_two hh.allocated htwo hh.freed (hh.still _ (by decide)) (iff_of_false (hh.still _ (by decide)) hh.unpaced)

theorem HalfStarted.stranded (hh : HalfStarted had h) (htwo : had.length = 2) (hpaced : h.Paced) : h.Abandoned :=
  abandoned_of_two hh.allocated htwo hh.freed hh.rirb (iff_of_true hh.corb hpaced)

/-- A read, and a write of no ring control or one that was not taken, change nothing of that. -/
theorem HalfStarted.call (hh : HalfStarted had h) (hc : c.Quiet) (hcorb : ¬Made.Sets Register.corbctl ⟨c, a⟩)
    (hrirb : ¬Made.Sets Register.rirbctl ⟨c, a⟩) : HalfStarted had (⟨c, a⟩ :: h) where
  allocated := (allocated_quiet hc).trans hh.allocated
  freed := (freed_quiet hc).trans hh.freed
  corb := (runs_cons hcorb).2 hh.corb
  rirb := fun hrun => hh.rirb ((runs_cons hrirb).1 hrun)

end History

namespace CommandRings

variable {σ : Type} {n : Nat} {s : σ} {h : History} {poll : PollPolicy} {control : BitVec 32} {J K L : History → Prop}

theorem stop_preparing {limit : WaitLimit} (hr : control ≠ Register.rintcnt) :
    Confined Call.Preparing id (stop (σ := σ) control limit) :=
  stop_confined Call.preparing_read (fun _ hv => Call.preparing_write hr fun _ => hv) fun _ => Call.preparing_note

theorem resetPointers_preparing {limit : WaitLimit} : Confined Call.Preparing id (resetPointers (σ := σ) limit) := by
  refine resetPointers_confined Call.preparing_read (fun o v ho hv => Call.preparing_write ?_ fun _ => hv) fun _ =>
    Call.preparing_note
  simp only [List.mem_cons, List.not_mem_nil, or_false] at ho
  obtain rfl | rfl | rfl := ho <;> decide

theorem enlarge_preparing {size : BitVec 32} (hr : size ≠ Register.rintcnt) (ho : size ∉ ringControls) :
    Confined Call.Preparing id (enlarge (σ := σ) size) :=
  enlarge_confined Call.preparing_read fun _ => Call.preparing_write hr fun hmem => absurd hmem ho

/-- A ring is read before it is started, and started by the write that goes through. -/
theorem start_steady (hread : ∀ a, K (⟨.read .byte control, a⟩ :: h)) (hJ : ∀ h, K h → J h)
    (hrefused : ∀ v e h, K h → J (⟨.write .byte control v, Except.error e⟩ :: h))
    (hstarted : ∀ v h, K h → v.getLsbD 1 = true → L (⟨.write .byte control v, Except.ok ()⟩ :: h)) :
    Ensures recording n (start control) s h (steady J s fun _ => L) := by
  refine ensures_bind.2 (ensures_bind.2 (ensures_read.2 ?_))
  rintro (e | v) _ rfl
  · exact ⟨rfl, hJ _ (hread _)⟩
  · refine (ensures_write (n := n)).2 ?_
    rintro (e | ⟨⟩) _ rfl
    · exact ⟨rfl, hrefused _ e _ (hread _)⟩
    · refine ⟨rfl, hstarted _ _ (hread _) ?_⟩
      rw [RingControl.getLsbD_raw, RingControl.run_withRun]

theorem startCorb_steady {had : List Region} (htwo : had.length = 2) (hh : Laid had [] h) :
    Ensures recording n (start Register.corbctl) s h (steady Abandoned s fun _ => HalfStarted had) := by
  have hrefused : ∀ {v e h}, Laid had [] h → Laid had [] (⟨.write .byte Register.corbctl v, Except.error e⟩ :: h) := by
    intro v e h hh
    refine hh.cons hh.allocated hh.freed (fun o _ => (runs_cons Made.not_sets_refused).1) ?_
    rintro ⟨_, _, he⟩
    exact absurd (Call.write.inj he).2.1 (by decide)
  refine start_steady (K := Laid had []) (fun _ => Laid.stable _ _ _ Call.preparing_read hh) (fun h hh => hh.stranded htwo)
    (fun v e h hh => (hrefused hh).stranded htwo) fun v h hh hv => ⟨hh.allocated, hh.freed, ?_, ?_⟩
  · rw [Runs, left_write]
    exact hv
  · rw [runs_cons (Made.not_sets_other (by decide))]
    exact hh.still _ (by decide)

theorem startRirb_steady {had : List Region} (htwo : had.length = 2) (hh : HalfStarted had h) (hpaced : h.Paced) :
    Ensures recording n (start Register.rirbctl) s h (steady Abandoned s fun _ h' =>
      h'.allocated = had ∧ h'.freed = [] ∧ ∀ control ∈ ringControls, h'.Runs control) := by
  refine start_steady (K := fun h => HalfStarted had h ∧ h.Paced) (fun _ => ⟨?_, paced_cons.2 (.inr hpaced)⟩)
    (fun h hh => hh.1.stranded htwo hh.2) (fun v e h hh => ?_) fun v h hh hv => ⟨hh.1.allocated, hh.1.freed, ?_⟩
  · exact hh.call (c := .read _ _) trivial (not_sets_of_not_writes (by simp [Call.Writes]))
      (not_sets_of_not_writes (by simp [Call.Writes]))
  · exact (hh.1.call (c := .write _ _ _) trivial Made.not_sets_refused Made.not_sets_refused).stranded htwo
      (paced_cons.2 (.inr hh.2))
  · simp only [ringControls, List.mem_cons, List.not_mem_nil, or_false, forall_eq_or_imp, forall_eq]
    refine ⟨?_, ?_⟩
    · rw [runs_cons (Made.not_sets_other (by decide))]
      exact hh.1.corb
    · rw [Runs, left_write]
      exact hv

/-- What rings come to that are set up from where nothing was had. -/
theorem setUp_abandoned (hh : Laid [] [] h) : Ensures recording n (setUp poll) s h (steady Abandoned s fun r h' =>
    h'.allocated = [r.rirb, r.corb] ∧ h'.freed = [] ∧ ∀ control ∈ ringControls, h'.Runs control) := by
  have hbefore : ∀ h, Laid [] [] h → h.Abandoned := fun h hh => hh.abandoned (by decide)
  refine Confined.steadyThen Laid.stable hbefore (stop_preparing (by decide)) (fun _ h hh => ?_) hh
  refine Confined.steadyThen Laid.stable hbefore (stop_preparing (by decide)) (fun _ h hh => ?_) hh
  refine ensures_bind.2 (ensures_allocate.2 ?_)
  rintro (e | corb) _ rfl
  · exact ⟨rfl, hbefore _ hh.refused⟩
  refine ensures_bind.2 (ensures_attempt.2 (ensures_allocate.2 ?_))
  rintro (e | rirb) _ rfl
  · refine ensures_bind.2 (ensures_free.2 ?_)
    rintro (e' | ⟨⟩) _ rfl
    · exact ⟨rfl, hh.allocate.refused.free.abandoned (Nat.lt_succ_self 1)⟩
    · exact ⟨rfl, hh.allocate.refused.free.abandoned (Nat.lt_succ_self 1)⟩
  have hafter : ∀ h, Laid [rirb, corb] [] h → h.Abandoned := fun h hh => hh.stranded rfl
  have hwrite : ∀ {o v}, o ≠ Register.rintcnt → o ∉ ringControls → (Call.write .dword o v).Preparing := fun hr ho =>
    Call.preparing_write hr fun hmem => absurd hmem ho
  refine Confined.steadyThen Laid.stable hafter (confined_request Call.preparing_clear) (fun _ h hh => ?_)
    hh.allocate.allocate
  refine Confined.steadyThen Laid.stable hafter (confined_request Call.preparing_clear) (fun _ h hh => ?_) hh
  refine Confined.steadyThen Laid.stable hafter (confined_bind (confined_write (hwrite (by decide) (by decide))) fun _ =>
    confined_write (hwrite (by decide) (by decide))) (fun _ h hh => ?_) hh
  refine Confined.steadyThen Laid.stable hafter (confined_bind (confined_write (hwrite (by decide) (by decide))) fun _ =>
    confined_write (hwrite (by decide) (by decide))) (fun _ h hh => ?_) hh
  refine Confined.steadyThen Laid.stable hafter (enlarge_preparing (by decide) (by decide)) (fun corbEntries h hh => ?_) hh
  refine Confined.steadyThen Laid.stable hafter (enlarge_preparing (by decide) (by decide)) (fun rirbEntries h hh => ?_) hh
  refine Confined.steadyThen Laid.stable hafter (confined_note Call.preparing_note) (fun _ h hh => ?_) hh
  refine Confined.steadyThen Laid.stable hafter resetPointers_preparing (fun _ h hh => ?_) hh
  refine steady_bind (startCorb_steady rfl hh) fun _ h hh => ensures_bind.2 (ensures_write.2 ?_)
  have hpaced : ∀ {r : Except Error Unit}, HalfStarted [rirb, corb] (⟨.write .word Register.rintcnt 1, r⟩ :: h) ∧
      Paced (⟨.write .word Register.rintcnt 1, r⟩ :: h) := fun {r} =>
    ⟨hh.call (c := .write _ _ _) trivial (Made.not_sets_other (by decide)) (Made.not_sets_other (by decide)),
      paced_cons.2 (.inl ⟨_, _, rfl⟩)⟩
  rintro (e | ⟨⟩) _ rfl
  · exact ⟨rfl, hpaced.1.stranded rfl hpaced.2⟩
  · exact steady_bind (startRirb_steady rfl hpaced.1 hpaced.2) fun _ h hh => ⟨rfl, hh⟩

end CommandRings

/-! ### Rings that nobody holds -/

namespace Transport

theorem choose_preparing {σ : Type} : ∀ preference, Confined Call.Preparing id (choose (σ := σ) preference)
  | .immediate | .rings => confined_pure _
  | .auto => confined_bind (confined_read16 Call.preparing_read) fun _ =>
    confined_bind (confined_note Call.preparing_note) fun _ => confined_pure _

theorem establish_abandoned {σ : Type} {n : Nat} {s : σ} {config : Config} :
    Ensures recording n (establish config) s [] (steady Abandoned s fun t h =>
      h.allocated.Perm (t.held.map Prod.snd) ∧ h.freed = []) := by
  have hbefore : ∀ h, Laid [] [] h → h.Abandoned := fun h hh => hh.abandoned (by decide)
  refine Confined.steadyThen Laid.stable hbefore (choose_preparing _) (fun kind h hh => ?_) laid_nil
  refine Confined.steadyThen Laid.stable hbefore (confined_note Call.preparing_note) (fun _ h hh => ?_) hh
  cases kind with
  | immediate => exact ⟨rfl, List.Perm.of_eq hh.allocated, hh.freed⟩
  | rings =>
    refine steady_bind (CommandRings.setUp_abandoned hh) fun r h hh => ⟨rfl, ?_, hh.2.1⟩
    rw [hh.1]
    exact .swap ..

end Transport

namespace Controller

/-- Establishes the transport, and takes down what there is of it when that fails. -/
def establishOrTearDown : Procedure Controller Unit := do
  match ← attempt establishTransport with
  | .ok _ => pure ()
  | .error e =>
    tearDownTransport
    fail e

/-- A controller that has no transport comes to one that holds all that was had, or has none to take down. -/
theorem establishOrTearDown_abandoned {n : Nat} {config : Config} {codecs : BitVec 16} :
    Ensures recording n establishOrTearDown { config, presentCodecs := codecs } []
      ⟨fun _ c h => ∃ t, c.transport = some t ∧ h.allocated.Perm (t.held.map Prod.snd) ∧ h.freed = [],
        fun _ c h => c = { config, presentCodecs := codecs } ∧ h.Abandoned, Abandoned, Abandoned⟩ := by
  refine ensures_bind.2 (ensures_attempt.2 (ensures_bind.2 (ensures_get.2 (ensures_bind.2 ?_))))
  refine Transport.establish_abandoned.mono ?_ ?_ (fun _ => id) fun _ => id
  · rintro t _ h ⟨rfl, hh⟩
    exact ⟨t, rfl, hh⟩
  · rintro e _ h ⟨rfl, hh⟩
    exact ⟨rfl, hh⟩

end Controller

namespace CommandRings

variable {σ : Type} {n : Nat} {s : σ} {poll : PollPolicy}

/-- **What is left of rings that were not set up**, whatever the platform answers and wherever the setup fails: nothing as
long as not both have their memory, the memory of both and possibly a running command ring after that.  Rings that were set
up hold what was had, and both run.  Taking the transport down does not help where the setup failed: the controller has none
to take down, and what was left behind stays. -/
theorem setUp_leaves : Ensures recording n (setUp poll) s [] (steady Abandoned s fun r h =>
      h.allocated = [r.rirb, r.corb] ∧ h.freed = [] ∧ ∀ control ∈ ringControls, h.Runs control) ∧
    ∀ config codecs, Ensures recording n Controller.establishOrTearDown { config, presentCodecs := codecs } []
      ⟨fun _ c h => ∃ t, c.transport = some t ∧ h.allocated.Perm (t.held.map Prod.snd) ∧ h.freed = [],
        fun _ c h => c = { config, presentCodecs := codecs } ∧ h.Abandoned, Abandoned, Abandoned⟩ :=
  ⟨setUp_abandoned laid_nil, fun _ _ => Controller.establishOrTearDown_abandoned⟩

/-- Answers of a platform whose registers read back what was written, and which takes no request for interrupts. -/
def unpaced : (c : Call) → History → c.Answer
  | .read _ o, h => .ok (h.left o)
  | .write _ o _, _ => if o = Register.rintcnt then .error (.deviceIo "write" 7) else .ok ()
  | c, h => obliging c h

/-- The setup failed, nothing was given back, and the command ring was left running. -/
def leftRunning : Ending (Except Error CommandRings × Unit) × History → Bool
  | (.result (.error _, _), h) => h.freed.isEmpty && (h.left Register.corbctl).getLsbD 1
  | _ => false

/-- **A failed setup leaves something behind**: where the response interrupts cannot be asked for, the command ring runs over
memory that nobody holds. -/
theorem setUp_leaves_running : ¬Ensures recording 1 (setUp {}) () [] ⟨fun _ _ _ => True,
    fun _ _ h => h.Taken → h.LeavesNothing, fun _ => True, fun _ => True⟩ := by
  refine Procedure.refuted unpaced leftRunning (by decide +kernel) ?_
  rintro ⟨⟨e | rings, _⟩ | cause | _, h⟩ hleft hnothing
  · obtain ⟨hfreed, hruns⟩ := Bool.and_eq_true_iff.1 hleft
    have htaken : h.Taken := fun g e hmem => by
      have hg : g ∈ h.freed := List.mem_filterMap.2 ⟨_, hmem, rfl⟩
      rw [List.isEmpty_iff.1 hfreed] at hg
      exact List.not_mem_nil hg
    exact (hnothing htaken).still Register.corbctl (by decide) hruns
  · cases hleft
  · cases hleft
  · cases hleft

end CommandRings
end AudioBringup
