import AudioBringup.Proofs.Engine
import AudioBringup.Proofs.Sessions
import AudioBringup.Proofs.StreamMemory
/-!
# Proofs.Reprogramming — an engine that is programmed again while it runs

Programming puts the engine through its reset first.  The reset tells it to stop, but waits for the reset bit only, and then
writes the control back as it reads it.  An engine that has come to a stop by then was seen to, and nothing is given back
before; one that has not is told to run again, and its sample buffer is given back all the same (`program_waits`).
-/
namespace AudioBringup

open Procedure

namespace History

variable {P : Call → Prop} {h h' new post pre : History} {o : BitVec 32}

/-! ### What is to be waited for -/

/-- Some read of the register at `o` found its run bit clear. -/
def FoundStopped (o : BitVec 32) (new : History) : Prop :=
  ∃ w v, (⟨.read w o, Except.ok v⟩ : Made) ∈ new ∧ v.getLsbD 1 = false

/-- No call wrote the register at `o` with its run bit set. -/
def NeverStarts (o : BitVec 32) (new : History) : Prop := ∀ m ∈ new, ¬m.call.Starts o

/-- Nothing was given back before the engine was found stopped, and the engine was not told to run. -/
structure Waited (o : BitVec 32) (new : History) : Prop where
  frees : AtEachFree (fun _ pre => FoundStopped o pre) new
  starts : NeverStarts o new

/-- The control with its run bit as it was read, and out of reset. -/
def letGo (v : BitVec 32) : BitVec 32 := ((StreamControl.ofLow (v.setWidth 16)).withReset false).low.setWidth 32

/-- The engine was told to stop, still ran when its control was read again, and was told to run by the control being written
back.  Nothing else told it to. -/
def Restarted (o : BitVec 32) (new : History) : Prop :=
  ∃ post a v pre told, new = post ++ (⟨.write .word o (letGo v), a⟩ :: ⟨.read .word o, Except.ok v⟩ :: pre : History) ∧
    v.getLsbD 1 = true ∧ (⟨.write .word o told, Except.ok ()⟩ : Made) ∈ pre ∧ told.getLsbD 1 = false ∧
      NeverStarts o (post ++ pre)

/-- Calls were made on top of `h` of which `Q` holds. -/
def Adds (Q : History → Prop) (h h' : History) : Prop := ∃ new, h' = new ++ h ∧ Q new

/-- The call neither tells the engine to run nor gives anything back. -/
def Passive (o : BitVec 32) (c : Call) : Prop := ¬c.Starts o ∧ ∀ g, c ≠ .free g

theorem Grows.adds (hg : h.Grows P h') : Adds (fun new => ∀ m ∈ new, P m.call) h h' := by
  induction hg with
  | refl => exact ⟨[], rfl, nofun⟩
  | call hc _ ih =>
    obtain ⟨new, rfl, hnew⟩ := ih
    exact ⟨_ :: new, rfl, List.forall_mem_cons.2 ⟨hc, hnew⟩⟩

theorem Grows.passive {old : History} (hg : Grows (Passive o) (old ++ h) h') (hold : ∀ m ∈ old, Passive o m.call) :
    ∃ new, h' = new ++ h ∧ old <:+ new ∧ ∀ m ∈ new, Passive o m.call := by
  obtain ⟨new, rfl, hnew⟩ := hg.adds
  exact ⟨new ++ old, (List.append_assoc new old h).symm, List.suffix_append new old, List.forall_mem_append.2 ⟨hnew, hold⟩⟩

theorem getLsbD_letGo (v : BitVec 32) : (letGo v).getLsbD 1 = v.getLsbD 1 := by
  unfold letGo
  rw [StreamControl.getLsbD_low, StreamControl.run_withReset, StreamControl.run_ofLow]

theorem starts_write {w : Width} {o v : BitVec 32} : (Call.write w o v).Starts o ↔ v.getLsbD 1 = true := by
  constructor
  · rintro ⟨_, _, he, hrun⟩
    obtain ⟨-, -, rfl⟩ := Call.write.inj he
    exact hrun
  · exact fun hrun => ⟨w, v, rfl, hrun⟩

theorem not_starts {c : Call} (hc : ∀ w v, c ≠ .write w o v) : ¬c.Starts o := fun ⟨w, v, he, _⟩ => hc w v he

theorem passive_read {w : Width} {o' : BitVec 32} : Passive o (.read w o') := ⟨not_starts nofun, nofun⟩

theorem passive_note {m : Notice} : Passive o (.note m) := ⟨not_starts nofun, nofun⟩

theorem passive_write {w : Width} {v : BitVec 32} (hrun : v.getLsbD 1 = false) : Passive o (.write w o v) :=
  ⟨fun h => absurd (starts_write.1 h) (Bool.eq_false_iff.1 hrun), nofun⟩

theorem atEachFree_of_none {R : Region → History → Prop} (hnew : ∀ m ∈ new, ∀ g, m.call ≠ .free g) : AtEachFree R new := by
  rintro post g a pre rfl
  exact absurd rfl (hnew _ (List.mem_append_right post List.mem_cons_self) g)

theorem NeverStarts.append (hpost : NeverStarts o post) (hnew : NeverStarts o new) : NeverStarts o (post ++ new) :=
  List.forall_mem_append.2 ⟨hpost, hnew⟩

theorem FoundStopped.append (h : FoundStopped o new) : FoundStopped o (post ++ new) := by
  obtain ⟨w, v, hmem, hrun⟩ := h
  exact ⟨w, v, List.mem_append_right post hmem, hrun⟩

theorem Restarted.append (h : Restarted o new) (hpost : NeverStarts o post) : Restarted o (post ++ new) := by
  obtain ⟨post', a, v, pre, told, rfl, hrun, htold, hstop, hnever⟩ := h
  refine ⟨post ++ post', a, v, pre, told, (List.append_assoc _ _ _).symm, hrun, htold, hstop, ?_⟩
  rw [List.append_assoc]
  exact hpost.append hnever

end History

namespace Streams

open History

variable {σ : Type} {n : Nat} {s : σ} {h : History} {o base : BitVec 32} {limit : WaitLimit}

/-! ### The reset -/

/-- A reset gives nothing back, and tells the engine to run only where it restarts it. -/
def Resetting (o : BitVec 32) (new : History) : Prop :=
  (∀ m ∈ new, ∀ g, m.call ≠ .free g) ∧ (NeverStarts o new ∨ Restarted o new)

/-- At the end of a reset the engine has been found stopped, or was restarted. -/
def WasReset (o : BitVec 32) (new : History) : Prop :=
  (∀ m ∈ new, ∀ g, m.call ≠ .free g) ∧ (NeverStarts o new ∧ FoundStopped o new ∨ Restarted o new)

theorem resetting_of_passive {new : History} (hnew : ∀ m ∈ new, Passive o m.call) : Resetting o new :=
  ⟨fun m hm => (hnew m hm).2, .inl fun m hm => (hnew m hm).1⟩

theorem WasReset.resetting {new : History} (h : WasReset o new) : Resetting o new := ⟨h.1, h.2.imp_left And.left⟩

theorem WasReset.append {new post : History} (h : WasReset o new) (hpost : ∀ m ∈ post, Passive o m.call) :
    WasReset o (post ++ new) := by
  have hnever : NeverStarts o post := fun m hm => (hpost m hm).1
  refine ⟨List.forall_mem_append.2 ⟨fun m hm => (hpost m hm).2, h.1⟩, ?_⟩
  rcases h.2 with ⟨hstarts, hfound⟩ | hrestarted
  · exact .inl ⟨hnever.append hstarts, hfound.append⟩
  · exact .inr (hrestarted.append hnever)

/-- What the control was read as decides: it was clear, or the engine is restarted. -/
theorem wasReset_letGo {pre : History} {told v : BitVec 32} {a : Except Error Unit} (hpre : ∀ m ∈ pre, Passive o m.call)
    (htold : (⟨.write .word o told, Except.ok ()⟩ : Made) ∈ pre) (hstop : told.getLsbD 1 = false) :
    WasReset o (⟨.write .word o (letGo v), a⟩ :: ⟨.read .word o, Except.ok v⟩ :: pre) := by
  have hnever : NeverStarts o pre := fun m hm => (hpre m hm).1
  refine ⟨List.forall_mem_cons.2 ⟨nofun, List.forall_mem_cons.2 ⟨nofun, fun m hm => (hpre m hm).2⟩⟩, ?_⟩
  cases hrun : v.getLsbD 1 with
  | true => exact .inr ⟨[], a, v, pre, told, rfl, hrun, htold, hstop, hnever⟩
  | false =>
    have hwrite : Passive o (.write .word o (letGo v)) := passive_write ((getLsbD_letGo v).trans hrun)
    refine .inl ⟨List.forall_mem_cons.2 ⟨hwrite.1, List.forall_mem_cons.2 ⟨passive_read.1, hnever⟩⟩, ?_⟩
    exact ⟨.word, v, List.mem_cons_of_mem _ List.mem_cons_self, hrun⟩

/-- How a reset ends. -/
def resets (o : BitVec 32) (h : History) : Outcome σ Unit History :=
  ⟨fun _ _ => Adds (WasReset o) h, fun _ _ => Adds (Resetting o) h, Adds (Resetting o) h, Adds (Resetting o) h⟩

/-- The second half of a reset, after the engine was told to stop. -/
theorem letGo_resets {pre : History} {told : BitVec 32} (hpre : ∀ m ∈ pre, Passive o m.call)
    (htold : (⟨.write .word o told, Except.ok ()⟩ : Made) ∈ pre) (hstop : told.getLsbD 1 = false) :
    Ensures recording n (do
      let control := StreamControl.ofLow (← read16 o)
      write16 o (control.withReset false).low
      waitUntil .streamReset limit do return !(StreamControl.ofLow (← read16 o)).reset : Procedure σ Unit) s (pre ++ h)
      (resets o h) := by
  refine ensures_bind.2 (ensures_bind.2 (ensures_read.2 ?_))
  rintro (e | v) _ rfl
  · exact ⟨_ :: pre, rfl, resetting_of_passive (List.forall_mem_cons.2 ⟨passive_read, hpre⟩)⟩
  refine ensures_bind.2 (ensures_write.2 ?_)
  rintro r _ rfl
  have hwas := wasReset_letGo (v := v) (a := r) hpre htold hstop
  cases r with
  | error e => exact ⟨_, rfl, hwas.resetting⟩
  | ok u =>
    have hwait : Confined (Passive o) id
        (waitUntil .streamReset limit do return !(StreamControl.ofLow (← read16 o)).reset : Procedure σ Unit) :=
      confined_waitUntil (confined_look16 passive_read) fun _ => passive_note
    have hgrown : ∀ h', History.Grows (Passive o)
        (⟨.write .word o (letGo v), Except.ok u⟩ :: ⟨.read .word o, Except.ok v⟩ :: (pre ++ h)) h' → Adds (WasReset o) h h' := by
      intro h' hg
      obtain ⟨post, rfl, hpost⟩ := hg.adds
      exact ⟨post ++ _, (List.append_assoc post (_ :: _ :: pre) h).symm, hwas.append hpost⟩
    have hcut : ∀ h', Adds (WasReset o) h h' → Adds (Resetting o) h h' := by
      rintro _ ⟨new, rfl, hnew⟩
      exact ⟨new, rfl, hnew.resetting⟩
    exact (hwait n s _).mono (fun _ _ h' hg => hgrown h' hg.2) (fun _ _ h' hg => hcut h' (hgrown h' hg.2))
      (fun h' hg => hcut h' (hgrown h' hg)) fun h' hg => hcut h' (hgrown h' hg)

/-- **A reset** ends with the engine found stopped, or restarts it. -/
theorem resetEngine_resets : Ensures recording n (resetEngine base limit) s h (resets (base + Register.sdctl) h) := by
  refine ensures_bind.2 (ensures_bind.2 (ensures_read.2 ?_))
  rintro (e | v) _ rfl
  · exact ⟨[_], rfl, resetting_of_passive (List.forall_mem_singleton.2 passive_read)⟩
  have hstop : ((((StreamControl.ofLow (v.setWidth 16)).withRun false).withReset true).low.setWidth 32).getLsbD 1 = false := by
    rw [StreamControl.getLsbD_low, StreamControl.run_withReset, StreamControl.run_withRun]
  generalize htold : (((StreamControl.ofLow (v.setWidth 16)).withRun false).withReset true).low.setWidth 32 = told at hstop
  refine ensures_bind.2 (ensures_write.2 ?_)
  rintro r _ rfl
  have hpassive : ∀ m ∈ ([⟨.write .word (base + Register.sdctl) told, r⟩, ⟨.read .word (base + Register.sdctl), Except.ok v⟩] :
      History), Passive (base + Register.sdctl) m.call :=
    List.forall_mem_cons.2 ⟨passive_write hstop, List.forall_mem_singleton.2 passive_read⟩
  rw [htold]
  cases r with
  | error e => exact ⟨_, rfl, resetting_of_passive hpassive⟩
  | ok u =>
    have hwait : Confined (Passive (base + Register.sdctl)) id (waitUntil .streamReset limit do
        return (StreamControl.ofLow (← read16 (base + Register.sdctl))).reset : Procedure σ Unit) :=
      confined_waitUntil (confined_look16 passive_read) fun _ => passive_note
    have hcut : ∀ h', History.Grows (Passive (base + Register.sdctl))
        ([⟨.write .word (base + Register.sdctl) told, Except.ok u⟩, ⟨.read .word (base + Register.sdctl), Except.ok v⟩] ++ h) h' →
        Adds (Resetting (base + Register.sdctl)) h h' := by
      intro h' hg
      obtain ⟨pre, rfl, -, hpre⟩ := hg.passive hpassive
      exact ⟨pre, rfl, resetting_of_passive hpre⟩
    refine ensures_bind.2 ((hwait n s _).mono (fun _ s' h' hg => ?_) (fun _ _ h' hg => hcut h' hg.2) hcut hcut)
    obtain ⟨pre, rfl, hsuffix, hpre⟩ := Grows.passive hg.2 hpassive
    exact letGo_resets hpre (hsuffix.subset List.mem_cons_self) hstop

/-! ### Programming -/

/-- The call does not tell the engine to run. -/
def Silent (o : BitVec 32) (c : Call) : Prop := ¬c.Starts o

section
variable {α : Type} {e : StreamEngine} {waveform : Array Byte}

theorem silent_write {w : Width} {o v : BitVec 32} (ho : o ≠ Register.sdctl) :
    Silent (e.base + Register.sdctl) (.write w (e.base + o) v) := by
  rintro ⟨_, _, he, -⟩
  exact ho ((BitVec.add_right_inj _).1 (Call.write.inj he).2.1)

theorem silent_free {g : Region} : Silent o (.free g) := not_starts nofun

theorem silent_of_routine {c : Call} (hlow : e.descriptor < 64) (hc : c.Routine) : Silent (e.base + Register.sdctl) c := by
  rintro ⟨w, v, rfl, -⟩
  have hcontrol : (e.base + Register.sdctl).toNat = 0x80 + 0x20 * e.descriptor := Simulation.Station.toNat_control hlow
  have hdplbase : (e.base + Register.sdctl).toNat < 0x70 := hc
  omega

/-- Nothing that points an engine at a waveform, or the converters at the engine, tells the engine to run. -/
theorem load_silent {config : Config} {addrs : List NodeAddr} (hlow : e.descriptor < 64) :
    Confined (Silent (e.base + Register.sdctl)) (fun _ => ()) (load config e waveform addrs) := by
  refine confined_load (fun c hwrite _ => not_starts fun w v => hwrite w _ v) (fun w o v hcontrol _ _ _ => silent_write ?_)
    (fun _ _ _ => rfl) ?_
  · rintro rfl
    exact absurd hcontrol (by decide)
  · exact confined_onController ((formatConverters_routine addrs).mono fun c => silent_of_routine hlow) fun _ _ _ => rfl

end

/-- However programming ends, the engine was waited for, or restarted. -/
def waits (α : Type) (o : BitVec 32) (h : History) : Outcome (Controller × Streams) α History :=
  .always (fun _ => Adds (fun new => Waited o new ∨ Restarted o new) h) (Adds (fun new => Waited o new ∨ Restarted o new) h)

theorem adds_of_resetting {h' : History} (hadds : Adds (Resetting o) h h') :
    Adds (fun new => Waited o new ∨ Restarted o new) h h' := by
  obtain ⟨new, rfl, hfree, hstarts⟩ := hadds
  exact ⟨new, rfl, hstarts.imp_left fun hnever => ⟨atEachFree_of_none hfree, hnever⟩⟩

/-- What follows a reset has found the engine stopped, whatever it gives back. -/
theorem WasReset.waited {new post : History} (h : WasReset o new) (hpost : ∀ m ∈ post, Silent o m.call) :
    Waited o (post ++ new) ∨ Restarted o (post ++ new) := by
  rcases h.2 with ⟨hnever, hfound⟩ | hrestarted
  · refine .inl ⟨?_, NeverStarts.append hpost hnever⟩
    clear hpost
    induction post with
    | nil => exact atEachFree_of_none h.1
    | cons m post ih => exact atEachFree_cons (fun _ _ => hfound.append) ih
  · exact .inr (hrestarted.append hpost)

theorem waits_of_silent {α : Type} {x : Procedure (Controller × Streams) α} {t : Controller × Streams} {new : History}
    (hx : Confined (Silent o) (fun _ => ()) x) (hnew : WasReset o new) : Ensures recording n x t (new ++ h) (waits α o h) := by
  have hgrown : ∀ h', History.Grows (Silent o) (new ++ h) h' → Adds (fun new => Waited o new ∨ Restarted o new) h h' := by
    intro h' hg
    obtain ⟨post, rfl, hpost⟩ := hg.adds
    exact ⟨post ++ new, (List.append_assoc post new h).symm, hnew.waited hpost⟩
  exact (hx n t _).mono (fun _ _ h' hg => hgrown h' hg.2) (fun _ _ h' hg => hgrown h' hg.2) hgrown hgrown

/-- **An engine that is programmed again** is found stopped before anything is given back, and is not told to run, unless it
still runs when its control is read for the second time: then it is told to run again. -/
theorem program_waits {c : Controller} {s : Streams} {e : StreamEngine} {topology : Topology} {waveform : Array Byte}
    (he : s.output[c.config.outputStream]? = some e) (hlow : e.descriptor < 64) :
    Ensures recording n (program topology waveform) (c, s) h (waits _ (e.base + Register.sdctl) h) := by
  rw [program_eq, ensures_bind, ensures_get, Outcome.withOk]
  dsimp only
  rw [he]
  refine ensures_bind.2 (resetEngine_resets.mono ?_ (fun _ _ _ => adds_of_resetting) (fun _ => adds_of_resetting)
    fun _ => adds_of_resetting)
  rintro _ t _ ⟨new, rfl, hwas⟩
  refine waits_of_silent ?_ hwas
  refine confined_bind (confined_modify fun _ => rfl) fun _ => ?_
  exact confined_bind (confined_dropSample fun _ _ => silent_free) fun _ => load_silent hlow

/-- The engine of a controller with one output stream and no other. -/
def soleEngine : StreamEngine :=
  { streamClass := .output, index := 0, descriptor := 0, list := ⟨0x1000, 0x1000, BufferList.length, 1⟩ }

/-- That engine, playing a sample buffer. -/
def solo : Streams where
  input := []
  output := [soleEngine]
  bidirectional := []
  positions := ⟨0x2000, 0x2000, positionSlot, 2⟩
  sample := some ⟨0x3000, 0x3000, 256, 3⟩
  programmed := some 0

theorem program_waits_solo : solo.output[0]? = some soleEngine ∧ soleEngine.descriptor < 64 ∧
    Ensures recording 8 (program {} (Array.replicate 256 0)) ({ config := {} }, solo) []
      (waits _ (soleEngine.base + Register.sdctl) []) :=
  ⟨rfl, by decide, program_waits rfl (by decide)⟩

/-! ### An engine that does not stop -/

/-- Writes the register at `o` with its run bit set. -/
def startsAt (o : BitVec 32) : Made → Bool
  | ⟨.write _ o' v, _⟩ => o' == o && v.getLsbD 1
  | _ => false

/-- An engine that was told to run goes on running, whatever it is told then.  Any other register reads as it was written, and
there is one output stream. -/
def runaway : (c : Call) → History → c.Answer
  | .read _ o, h =>
    if o = Register.gcap then .ok 0x1000
    else if h.any (startsAt o) then .ok (left o h ||| 2)
    else .ok (left o h)
  | c, h => obliging c h

/-- Whoever waits tells the engine to run no more often than it was told before. -/
theorem countP_of_waited {h' : History} (hadds : Adds (Waited o) h h') : h'.countP (startsAt o) = h.countP (startsAt o) := by
  obtain ⟨new, rfl, hwaited⟩ := hadds
  rw [List.countP_append, List.countP_eq_zero.2, Nat.zero_add]
  rintro ⟨c, a⟩ hm hstarts
  refine hwaited.starts _ hm ?_
  unfold startsAt at hstarts
  split at hstarts
  · next heq =>
    obtain ⟨rfl, -⟩ := Made.mk.inj heq
    obtain ⟨ho, hrun⟩ := Bool.and_eq_true_iff.1 hstarts
    obtain rfl := eq_of_beq ho
    exact ⟨_, _, rfl, hrun⟩
  · cases hstarts

/-- What is executed is one of the runs on a platform that may answer whatever it likes. -/
theorem ends_askOf {α : Type} (platform : (c : Call) → History → c.Answer) (p : Program Call Call.Answer α) (h : History) :
    p.Ends recording h (p.run (askOf platform) h).1 (p.run (askOf platform) h).2 :=
  Program.ends_run (I := fun _ => True) (fun _ _ _ => ⟨rfl, trivial⟩) trivial

theorem adds_of_holds {α τ : Type} {Q : History → Prop} : ∀ {e : Ending (Except Error α × τ)} {h' : History},
    (Outcome.always (fun _ => Adds Q h) (Adds Q h)).holds e h' → Adds Q h h'
  | .result (.ok _, _), _, hadds | .result (.error _, _), _, hadds | .misused _, _, hadds | .stuck, _, hadds => hadds

/-- Programming an engine once more tells it to run. -/
def toldAgain (waveform : Array Byte) (t : Controller × Streams) (h : History) (e : StreamEngine) : Bool :=
  ((program {} waveform 8 t).run (askOf runaway) h).2.countP (startsAt (e.base + Register.sdctl)) !=
    h.countP (startsAt (e.base + Register.sdctl))

/-- A session leaves an engine programmed that is told to run if it is programmed once more. -/
def leavesToldAgain (waveform : Array Byte) : Ending (Except Error (Controller × Streams) × Controller) × History → Bool
  | (.result (.ok t, _), h) => t.2.programmedEngine.any (toldAgain waveform t h)
  | _ => false

/-- **A running engine is not always waited for**: one that goes on running while it is reset is told to run again. -/
theorem program_waits_runaway : ¬∀ (t : Controller × Streams) (c : Controller) (h : History) (e : StreamEngine),
    Ends recording 8 (session [.program {} (Array.replicate 256 0), .start]) { config := {} } [] (.ok t) c h →
      t.2.programmedEngine = some e →
      Ensures recording 8 (program {} (Array.replicate 256 0)) t h (.always
        (fun _ => Adds (Waited (e.base + Register.sdctl)) h) (Adds (Waited (e.base + Register.sdctl)) h)) := by
  intro hwaits
  have hrun : leavesToldAgain (Array.replicate 256 0)
      ((session [.program {} (Array.replicate 256 0), .start] 8 { config := {} }).run (askOf runaway) []) = true := by
    decide +kernel
  have hends := ends_askOf runaway (session [.program {} (Array.replicate 256 0), .start] 8 { config := {} }) []
  generalize (session [.program {} (Array.replicate 256 0), .start] 8 { config := {} }).run (askOf runaway) [] = ended
    at hends hrun
  obtain ⟨(⟨error | t, c⟩ | cause | _), h⟩ := ended
  · cases hrun
  · obtain ⟨e, he, htold⟩ := (Option.any_eq_true _ _).1 hrun
    have hprogram := ends_askOf runaway (program {} (Array.replicate 256 0) 8 t) h
    have hadds := adds_of_holds (Program.ensures_iff_ends.1 (hwaits t c h e hends he) _ _ hprogram)
    exact absurd (countP_of_waited hadds) (bne_iff_ne.1 htold)
  · cases hrun
  · cases hrun

end Streams
end AudioBringup
