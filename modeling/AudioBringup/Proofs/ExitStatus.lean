import AudioBringup.Proofs.CausedRun
import AudioBringup.Proofs.Ledger
import AudioBringup.Proofs.Unmoved
/-!
# Proofs.ExitStatus — the firmware learns how the run went

A call of the bring-up is answered by a failure only where a firmware call failed, or where memory came short
(`Host.answer_honest`).  So an error of the run is a finding of its own or a failure of the firmware (`run_honest`), and the
status the application ends with is that failure's (`exitStatus_toError`).  The heap goes back after the run, as often as it
was had (`run_concludes`).
-/
namespace AudioBringup
namespace Uefi

open Firmware Services

namespace Host

variable {h : Host} {t : Trace}

/-- What is answered is asked of the firmware, a failure is one of a firmware call, and memory is as long as was asked for. -/
def Honest (c : AudioBringup.Call) (t : Trace) (r : c.Answer × Host) (t' : Trace) : Prop :=
  t <:+ t' ∧ (∀ e, c.failure? r.1 = some e → t'.Blamed e) ∧ c.Provides r.1

/-- What holds of whatever is returned. -/
def Returning {α : Type} (x : Firmware α) (t : Trace) (Q : α → Trace → Prop) : Prop :=
  x.Ensures tracing (Program.Then (fun (_ : Ending Unit) _ => True) Q) t

theorem Keeps.calls {f : Function} {h' : Host} {t' : Trace} (hkept : h.Keeps f t h' t') : t <:+ t' := by
  obtain ⟨_, -, (⟨-, hgrew⟩ | ⟨-, _, -, hgrew⟩) | ⟨-, _, hgrew⟩⟩ := hkept
  · exact hgrew.calls
  · exact hgrew.calls
  · exact hgrew.calls

theorem honest_of_returns {c : AudioBringup.Call} (hx : Returns tracing (answer c h) t (Honest c t)) :
    Returning (answer c h) t (Honest c t) := hx.ensures

theorem honest_of_bound {c : AudioBringup.Call} {f : Function} (hc : c.OffBus) (hprovides : ∀ a, c.Provides a)
    (hf : h.bound = some f) : Returning (answer c h) t (Honest c t) :=
  honest_of_returns ((answer_keeps hc hf).mono fun _ _ hkept => ⟨hkept.1.calls, hkept.2, hprovides _⟩)

/-- **Whatever a call is answered is honest**, if it is answered. -/
theorem answer_honest (c : AudioBringup.Call) (h : Host) (t : Trace) : Returning (answer c h) t (Honest c t) := by
  cases c with
  | candidates =>
    refine honest_of_returns (returns_bind.2 (candidates_told.mono fun r t' hr => ?_))
    obtain ⟨⟨_, -, hgrew⟩, hblamed⟩ := hr
    exact ⟨hgrew.calls, blamed_of_failureOf hblamed, trivial⟩
  | identify _ =>
    refine honest_of_returns (returns_bind.2 (returns_toAnswer.2 ((identify_told _ _).mono fun r t' hr => ?_)))
    obtain ⟨⟨entries, -, hgrew⟩, hmet⟩ := hr
    exact ⟨hgrew.calls, blamed_of_failureOf fun e => Told.blamed ⟨hgrew, hmet⟩, trivial⟩
  | bindExclusive _ =>
    refine honest_of_returns (returns_bind.2 (returns_toAnswer.2 ((bindExclusive_told _ _).mono fun r t' hr => ?_)))
    cases r with
    | error f =>
      obtain ⟨⟨entries, -, hgrew⟩, hmet⟩ := hr
      refine ⟨hgrew.calls, ?_, trivial⟩
      rintro _ ⟨⟩
      exact .inr ⟨f, hmet, rfl⟩
    | ok f => exact ⟨hr.2.calls, nofun, trivial⟩
  | release =>
    cases hbound : h.bound with
    | none =>
      simp only [answer, viaFunction, hbound]
      trivial
    | some f =>
      refine honest_of_returns (returns_bind.2 ((returns_viaFunction hbound).2 ((release_told _).mono fun r t' hr => ?_)))
      exact ⟨hr.1.calls, blamed_of_failureOf hr.2, trivial⟩
  | load32 _ | load64 _ | store32 _ _ | store64 _ _ | fill _ _ | clear _ _ | note _ =>
    refine honest_of_returns (returns_bind.2 (returns_ask.2 ?_))
    rintro a _ rfl
    exact ⟨List.suffix_cons _ _, nofun, trivial⟩
  | allocate length =>
    cases hbound : h.bound with
    | none =>
      simp only [answer, viaFunction, hbound]
      trivial
    | some f =>
      refine honest_of_returns ((returns_viaFunction hbound).2 ((f.allocate_used length).mono fun r t' hr => ?_))
      obtain ⟨⟨⟨_, hgrew⟩, hblamed⟩, hlength⟩ := hr
      refine ⟨hgrew.calls, blamed_of_failureOf hblamed, ?_⟩
      cases r with
      | error e => trivial
      | ok g => exact hlength g rfl
  | read _ _ | write _ _ _ | free _ | stall _ | armTimer _ | timerExpired | cancelTimer =>
    cases hbound : h.bound with
    | none =>
      simp only [answer, viaFunction, updateFunction, hbound]
      trivial
    | some f => exact honest_of_bound trivial (fun _ => trivial) hbound

end Host

/-! ### The run over the firmware -/

section
variable {σ : Type} {n : Nat} {config : Config} {waveform : Array Byte} {image : Pointer} {start : Trace}

/-- Every failure that the bring-up saw is one of a firmware call. -/
def Blames (h : History) (t : Trace) : Prop := ∀ m ∈ h, ∀ e, m.failure? = some e → t.Blamed e

theorem blames_nil (t : Trace) : Blames [] t := fun _ hm => absurd hm List.not_mem_nil

theorem Trace.Blamed.foreign {t : Trace} {e : Error} (h : t.Blamed e) : ¬e.Own := by
  rcases h with ⟨rfl, -⟩ | ⟨f, -, rfl⟩
  · exact id
  · unfold Failure.toError
    split
    · exact id
    · exact id

/-- What was reported was found by the bring-up itself, or was the failure of a call. -/
theorem reported_met {j : Job} {e : Error} {h : History} (hreported : Bringup.Reported (fun e h => j.Because h e) e h) :
    e.Own ∨ h.Met e := by
  obtain ⟨h', hh, hbecause⟩ := hreported.came
  cases e with
  | deviceIo _ _ | outOfResources => exact .inr (History.Met.mono hbecause hh)
  | _ => exact .inl trivial

/-- Whatever is returned to the bring-up is an answer of a platform that fails with errors of its own kind only. -/
theorem Blames.step {j : Job} {h : History} {c : AudioBringup.Call} {a : c.Answer} {t t' : Beneath Host Trace}
    (hblames : Blames h t.world) (hanswer : Program.returning Host.answer tracing c t a t') :
    j.world c h a (⟨c, a⟩ :: h) ∧ Blames (⟨c, a⟩ :: h) t'.world := by
  obtain ⟨hgrew, hblamed, hprovides⟩ := Program.ensures_iff_ends.1 (Host.answer_honest c t.state t.world) _ _ hanswer.2
  refine ⟨⟨rfl, fun e he => (hblamed e he).foreign, fun _ => hprovides⟩, ?_⟩
  exact List.forall_mem_cons.2 ⟨hblamed, fun m hm e he => (hblames m hm e he).mono hgrew⟩

/-- What the bring-up reports is its own finding or a failure of the firmware, and nothing is misused. -/
theorem run_blames {s : σ} :
    Procedure.Ensures (Program.returning Host.answer tracing) n (Bringup.run config waveform) s ⟨{ image }, start, true⟩
      ⟨fun _ _ _ => True, fun e _ t => e.Own ∨ t.world.Blamed e, fun _ => False, fun _ => True⟩ := by
  refine Program.Ensures.mono (Program.Ensures.along (W := Job.world ⟨config, waveform, True⟩)
    (R := fun h (t : Beneath Host Trace) => Blames h t.world)
    (fun _ _ _ _ _ _ hblames hanswer => ⟨_, Blames.step hblames hanswer⟩) (Program.asks_anything _)
    (Bringup.run_accounted ⟨config, waveform, True⟩) (blames_nil start)) ?_
  rintro (⟨e | summary, s⟩ | m | _) t ⟨h, hblames, hended⟩
  · rcases reported_met hended.2 with own | ⟨m, hm, hfailed⟩
    · exact .inl own
    · exact .inr (hblames m hm e hfailed)
  · trivial
  · exact hended.2 trivial
  · trivial

/-- **A run that comes back left a balance**, and an error that it did not find itself is a failure of the firmware. -/
theorem run_honest {s : σ} :
    Procedure.Ensures (Host.upon tracing) n (Bringup.run config waveform) s ⟨{ image }, start, true⟩
      ⟨fun _ _ t => t.intact = true ∧ Balanced n s image start t.world,
        fun e _ t => t.intact = true ∧ Balanced n s image start t.world ∧ (e.Own ∨ t.world.Blamed e),
        fun _ => False, fun t => t.intact = true⟩ := by
  have hbalanced : Procedure.Ensures (Host.upon tracing) n (Bringup.run config waveform) s ⟨{ image }, start, true⟩ _ :=
    run_keeps_balance
  have hblames : Procedure.Ensures (Host.upon tracing) n (Bringup.run config waveform) s ⟨{ image }, start, true⟩ _ :=
    Program.ensures_of_returning (Program.Ensures.mono hbalanced fun e t h => ?_) run_blames
  · exact (hbalanced.and hblames).mono (fun _ _ _ h => h.1) (fun _ _ _ h => ⟨h.1.1, h.1.2, h.2⟩) (fun _ h => h.2)
      fun _ h => h.1
  · match e, h with
    | .result (.ok _, _), h | .result (.error _, _), h => exact h.1
    | .misused _, h | .stuck, h => exact h

end

/-! ### Pools -/

/-- Each pool was given back as often as it was had. -/
def Paired (l : List Entry) : Prop := ∀ pool, l.count (.freed pool) = l.count (.located pool)

section
variable {handle : Pointer} {l l' : List Entry}

theorem Paired.append (h : Paired l) (h' : Paired l') : Paired (l ++ l') := fun pool => by
  rw [List.count_append, List.count_append, h pool, h' pool]

theorem Located.paired (h : Located l) : Paired l := by
  intro pool
  cases h with
  | nothing => rfl
  | buffer there => simp [List.count_cons]

theorem LookedAt.paired (h : LookedAt handle l) : Paired l := by
  intro pool
  cases h with
  | refused => simp
  | opened => simp

theorem Looks.paired (h : Looks l) : Paired l := by
  induction h with
  | done => exact fun _ => rfl
  | look first _ ih => exact first.paired.append ih

theorem Surveyed.paired : Surveyed l → Paired l
  | .survey handles one => handles.paired.append one.paired

theorem InUse.paired {timer : Option Pointer} (h : InUse handle timer l) : Paired l := by
  induction h with
  | bound => simp [Paired]
  | used _ ih => exact ih.append (by simp [Paired])
  | timed _ ih => exact ih.append (by simp [Paired])

theorem Held.paired (h : Held handle l) : Paired l := by
  cases h with
  | unclaimed vain => cases vain <;> simp [Paired]
  | @released timer l use => exact use.paired.append (by cases timer <;> simp [Paired])

/-- A balanced run gives back each pool it had. -/
theorem Balanced.pools {σ : Type} {n : Nat} {s : σ} {image : Pointer} {start t : Trace} (h : Balanced n s image start t)
    (hstart : Paired start.ledger) : Paired t.ledger := by
  cases h with
  | unfound _ surveyed grew =>
    rw [grew.ledger]
    exact hstart.append surveyed.paired
  | chosen _ surveyed grew held after =>
    rw [after.ledger, grew.ledger]
    exact (hstart.append surveyed.paired).append held.paired

end

/-! ### The status -/

theorem Served.failed_isError {m : Served} {f : Failure} (h : m.failure? = some f) : f.status.isError = true := by
  have ofStatus : ∀ {op : String} {status : Status}, Failure.ofStatus op status = some f → f.status.isError = true := by
    intro op status h
    unfold Failure.ofStatus at h
    split at h
    · cases h
      assumption
    · cases h
  obtain ⟨c, a⟩ := m
  cases c
  case openProtocol =>
    change (if ¬a.1.isError ∧ a.2 = 0 then some ⟨"OpenProtocol", Status.unsupported⟩
      else Failure.ofStatus "OpenProtocol" a.1) = some f at h
    split at h
    · cases h
      decide
    · exact ofStatus h
  all_goals first | exact ofStatus h | cases h

namespace Application

theorem isError_exitStatus (e : Error) : (exitStatus e).isError = true := by
  cases e with
  | deviceIo op status =>
    change Status.isError (if Status.isError status then status else Status.deviceError) = true
    split
    · assumption
    · decide
  | _ =>
    simp only [exitStatus]
    decide

/-- **A failing status goes through the bring-up and comes back as it was.** -/
theorem exitStatus_toError {f : Failure} (hf : f.status.isError = true) : exitStatus f.toError = f.status := by
  unfold Failure.toError
  split
  · exact (by assumption : f.status = _).symm
  · exact if_pos hf

/-- What the application asks of the bring-up. -/
def sequence : Procedure Unit Summary :=
  Bringup.run (config Tone.standard) (Tone.standard.render (config Tone.standard).format)

/-- The status tells what came of the run, if these calls were made during it. -/
structure Tells (during : Trace) (r : Except Error Summary) (status : Status) : Prop where
  success : status = .success ↔ ∃ summary, r = .ok summary
  error : status ≠ .success → status.isError = true
  told : ∀ e, r = .error e → status = exitStatus e
  /-- a failure of the firmware is told as it was -/
  kept : ∀ e f, r = .error e → during.Met f → e = f.toError → status = f.status
  source : ∀ e, r = .error e → e.Own ∨ e = .outOfResources ∧ during.Short ∨ ∃ f, during.Met f ∧ e = f.toError

/-- **How the application ends**: without a heap, or with what its one run came to, or waiting in it without end.  The heap
is given back after the run. -/
inductive Concluded (image : Pointer) (patience : Nat) : Ending Status → Trace → Prop
  | refused {status : Status} {pool : Pointer} {t : Trace} (failed : status.isError = true)
    (calls : t.but Call.spoken = [⟨.allocatePool .loaderData heapSize, (status, pool)⟩]) :
    Concluded image patience (.result status) t
  | ran {had freed status : Status} {heap : Pointer} {r : Except Error Summary} {host : Host} {during t : Trace}
    (granted : had.isError = false)
    (run : ((sequence patience ()).expand Host.answer { image }).Ends tracing
      [⟨.allocatePool .loaderData heapSize, (had, heap)⟩] (.result ((r, ()), host)) during)
    (calls : t.but Call.spoken = ⟨.freePool heap, freed⟩ :: during.but Call.spoken) (pools : Paired during.ledger)
    (tells : Tells during r status) : Concluded image patience (.result status) t
  | waiting {had : Status} {heap : Pointer} {t during : Trace} (granted : had.isError = false)
    (run : ((sequence patience ()).expand Host.answer { image }).Ends tracing
      [⟨.allocatePool .loaderData heapSize, (had, heap)⟩] .stuck during)
    (calls : t.but Call.spoken = during.but Call.spoken) : Concluded image patience .stuck t

theorem Concluded.printed {image : Pointer} {patience : Nat} {e : Ending Status} {t t' : Trace}
    (h : Concluded image patience e t) (hsame : t'.but Call.spoken = t.but Call.spoken) : Concluded image patience e t' := by
  cases h with
  | refused failed calls => exact .refused failed (hsame.trans calls)
  | ran granted run calls pools tells => exact .ran granted run (hsame.trans calls) pools tells
  | waiting granted run calls => exact .waiting granted run (hsame.trans calls)

/-- The status of a result. -/
def statusOf : Except Error Summary → Status
  | .ok _ => .success
  | .error e => exitStatus e

/-- What is told of the run after it. -/
def afterwards : Except Error Summary → Procedure Unit Status
  | .ok summary => do
    summary.report
    return .success
  | .error e => do
    Procedure.note (.runFailed e)
    return exitStatus e

theorem expand_play {patience : Nat} {host : Host} : (play patience ()).expand Host.answer host =
    ((sequence patience ()).expand Host.answer host).bind fun r => (afterwards r.1.1 patience r.1.2).expand Host.answer r.2 := by
  change (((sequence patience ()).bind _).bind _).expand Host.answer host = _
  rw [Program.expand_bind, Program.expand_bind, Program.bind_assoc]
  rfl

theorem afterwards_tells {patience : Nat} {host : Host} {t : Trace} (r : Except Error Summary) :
    Returns tracing ((afterwards r patience ()).expand Host.answer host) t fun a t' =>
      a.1.1 = .ok (statusOf r) ∧ t'.but Call.spoken = t.but Call.spoken := by
  cases r with
  | ok summary =>
    rintro _ _ rfl _ _ rfl
    exact ⟨rfl, rfl⟩
  | error e =>
    rintro _ _ rfl
    exact ⟨rfl, rfl⟩

theorem tells_statusOf {during : Trace} {r : Except Error Summary} (hblamed : ∀ e, r = .error e → e.Own ∨ during.Blamed e) :
    Tells during r (statusOf r) := by
  cases r with
  | ok summary => exact ⟨⟨fun _ => ⟨summary, rfl⟩, fun _ => rfl⟩, fun h => absurd rfl h, nofun, nofun, nofun⟩
  | error e =>
    have herror := isError_exitStatus e
    refine ⟨⟨fun h => ?_, nofun⟩, fun _ => herror, by rintro _ ⟨⟩; rfl, ?_, hblamed⟩
    · rw [show exitStatus e = .success from h] at herror
      cases herror
    · rintro _ f ⟨⟩ ⟨m, -, hfailed⟩ rfl
      exact exitStatus_toError (Served.failed_isError hfailed)

/-- What the run comes to over the firmware. -/
theorem sequence_tells {patience : Nat} {image : Pointer} {start : Trace} (hstart : Paired start.ledger) :
    ((sequence patience ()).expand Host.answer { image }).Ensures tracing (fun e t =>
      match e with
      | .result ((r, _), _) => Paired t.ledger ∧ Tells t r (statusOf r)
      | .misused _ => False
      | .stuck => True) start := by
  refine Program.ensures_expand (Program.Ensures.mono (run_honest (s := ())) fun e t h => ?_)
  match e, h with
  | .result (.ok _, _), h => exact ⟨h.1, h.2.pools hstart, tells_statusOf nofun⟩
  | .result (.error e, _), h =>
    refine ⟨h.1, h.2.1.pools hstart, tells_statusOf ?_⟩
    rintro _ ⟨⟩
    exact h.2.2
  | .stuck, h => exact ⟨h, trivial⟩

theorem allocatePool_returns : Returns tracing (allocatePool .loaderData heapSize).run [] fun r t =>
    ∃ (had : Status) (heap : Pointer), t = [⟨.allocatePool .loaderData heapSize, (had, heap)⟩] ∧
      r = judge "AllocatePool" had heap := by
  refine (returns_service (c := .allocatePool .loaderData heapSize) Prod.fst Prod.snd).2 ?_
  rintro ⟨had, heap⟩ _ rfl
  exact ⟨had, heap, rfl, rfl⟩

theorem body_concludes (image : Pointer) (patience : Nat) :
    (body image patience).Ensures tracing (Concluded image patience) [] := by
  refine allocatePool_returns.followed ?_
  rintro _ _ ⟨had, heap, rfl, rfl⟩
  cases hstatus : had.isError with
  | true =>
    simp only [judge, hstatus, if_true]
    rintro _ _ rfl
    exact .refused hstatus rfl
  | false =>
    simp only [judge, hstatus, Bool.false_eq_true, if_false]
    rw [expand_play]
    change Program.Ensures tracing _ (Program.bind (Program.bind _ _) _) _
    rw [Program.bind_assoc]
    refine Program.ensures_bind.2 (Program.ensures_iff_ends.2 fun e during hends => ?_)
    have hends' := Program.ensures_iff_ends.1 (sequence_tells fun _ => rfl) e during hends
    cases e with
    | misused m => exact hends'.elim
    | stuck => exact .waiting hstatus hends rfl
    | result r =>
      obtain ⟨⟨r, ⟨⟩⟩, host⟩ := r
      refine (afterwards_tells r).followed ?_
      rintro ⟨⟨result, ⟨⟩⟩, host'⟩ t ⟨rfl, hsame⟩
      refine (returns_freeHeap ?_).ensures
      rintro freed _ rfl
      have hcalls := congrArg (⟨.freePool heap, freed⟩ :: ·) hsame
      refine ⟨.ran hstatus hends hcalls hends'.1 hends'.2, ?_⟩
      rintro n _ rfl
      exact .ran hstatus hends hcalls hends'.1 hends'.2

theorem run_concludes (image : Pointer) (patience : Nat) :
    (run image patience).Ensures tracing (Concluded image patience) [] := by
  refine Program.ensures_iff_ends.2 fun e t hends => ?_
  have hheeding : (run image patience).Ends (heeding Call.spoken fun _ _ _ => True) [] e t :=
    hends.mono fun _ _ _ _ h => ⟨h, fun _ => trivial⟩
  obtain ⟨t₀, hbody, hsame⟩ := Console.ends_printing (fun _ => id) rfl hheeding
  exact (Program.ensures_iff_ends.1 (body_concludes image patience) e t₀ (hbody.mono fun _ _ _ _ h => h.1)).printed hsame

/-- **The exit status tells the truth**, whatever the firmware answers: it is success if and only if there was a heap and the
run completed, and the status of the call that failed where one did.  The heap is given back once, after the run.  Failures
to print, to close the timer event or to give a pool back change nothing of that. -/
theorem run_tells_truth (image : Pointer) (patience : Nat) :
    (run image patience).Ensures tracing (Concluded image patience) [] ∧
      ∀ base, Unmoved Call.idle base (run image patience) :=
  ⟨run_concludes image patience, fun _ => run_unmoved⟩

end Application

end Uefi
end AudioBringup
