import AudioBringup.Proofs.Cleanup
import AudioBringup.Proofs.FirstFailure
import AudioBringup.Proofs.Shortage
/-!
# Proofs.StrandedMemory — memory for streams that never come to be

A run gives back what it holds, and it holds streams from when all of them have their memory.  Where there is memory for
some of them only, nobody holds what was had, and it is never given back (`run_strands`).  Nothing else stays behind where
nothing else goes wrong.
-/
namespace AudioBringup

open Procedure History

/-! ### Streams without memory -/

/-- How many engines a controller has that answered `v`. -/
def engineCount (v : BitVec 32) : Nat := (GlobalCaps.mk (v.setWidth 16)).totalStreams

namespace History

/-- All went well so far: the engines were counted, this memory was had, and none was given back. -/
structure Gathered (v : BitVec 32) (had : List Region) (h : History) : Prop where
  allocated : h.allocated = had
  freed : h.freed = []
  smooth : h.Smooth
  counted : (⟨.read .word Register.gcap, Except.ok v⟩ : Made) ∈ h

/-- **How streams fail to be allocated**: the engines are not counted, or one of them or the position buffer gets no memory,
or the address of that is not taken.  Whatever was had until then stays had. -/
inductive CutShort (e : Error) : History → Prop
  | uncounted : CutShort e [⟨.read .word Register.gcap, Except.error e⟩]
  | refused {v : BitVec 32} {had : List Region} {k : Nat} {h : History} (gathered : Gathered v had h)
    (few : had.length ≤ engineCount v) : CutShort e (⟨.allocate k, Except.error e⟩ :: h)
  | unwritten {v : BitVec 32} {had : List Region} {o x : BitVec 32} {h : History} (gathered : Gathered v had h)
    (all : had.length = engineCount v + 1) (half : o = Register.dplbase ∨ o = Register.dpubase) :
    CutShort e (⟨.write .dword o x, Except.error e⟩ :: h)

variable {h : History} {v : BitVec 32} {had : List Region} {e : Error} {c : Call} {a : c.Answer}

/-- Nothing of it is given back. -/
theorem CutShort.freed : h.CutShort e → h.freed = []
  | .uncounted => rfl
  | .refused gathered _ => gathered.freed
  | .unwritten gathered _ _ => gathered.freed

theorem Gathered.call (hg : Gathered v had h) (hc : c.Quiet) (ha : c.failure? a = none) : Gathered v had (⟨c, a⟩ :: h) where
  allocated := (allocated_quiet hc).trans hg.allocated
  freed := (freed_quiet hc).trans hg.freed
  smooth := hg.smooth.cons ha
  counted := List.mem_cons_of_mem _ hg.counted

theorem Gathered.allocate {k : Nat} {g : Region} (hg : Gathered v had h) :
    Gathered v (g :: had) (⟨.allocate k, Except.ok g⟩ :: h) where
  allocated := congrArg (g :: ·) hg.allocated
  freed := hg.freed
  smooth := hg.smooth.cons rfl
  counted := List.mem_cons_of_mem _ hg.counted

end History

namespace Streams

variable {σ : Type} {n : Nat} {s : σ} {h : History} {v : BitVec 32} {had : List Region}

/-- What is to hold of a step in the allocation of streams. -/
def gathering (s : σ) {α : Type} (ok : α → History → Prop) : Outcome σ α History := still s ok CutShort fun _ => False

theorem allocate_gathering {k : Nat} (hg : Gathered v had h) (hfew : had.length ≤ engineCount v) :
    Ensures recording n (Procedure.allocate k) s h (gathering s fun g => Gathered v (g :: had)) := by
  refine ensures_allocate.2 ?_
  rintro (e | g) _ rfl
  · exact ⟨rfl, .refused hg hfew⟩
  · exact ⟨rfl, hg.allocate⟩

theorem zero_gathering {r : Region} (hg : Gathered v had h) :
    Ensures recording n r.zero s h (gathering s fun _ => Gathered v had) := by
  refine ensures_request.2 ?_
  rintro _ _ rfl
  exact ⟨rfl, hg.call (c := .clear _ _) trivial rfl⟩

theorem allocateEngines_gathering {streamClass : StreamClass} :
    ∀ {count index descriptor : Nat} {had : List Region} {h : History}, Gathered v had h →
    had.length + count ≤ engineCount v → Ensures recording n (allocateEngines streamClass index descriptor count) s h
      (gathering s fun engines h' => ((engines.map (·.list)).reverse ++ had).length = had.length + count ∧
        Gathered v ((engines.map (·.list)).reverse ++ had) h')
  | 0, _, _, _, _, hg, _ => ⟨rfl, rfl, hg⟩
  | count + 1, index, descriptor, had, h, hg, hfew => by
    refine still_bind (allocate_gathering hg (by omega)) fun list h hg => ?_
    refine still_bind (zero_gathering hg) fun _ h hg => ?_
    refine still_bind (allocateEngines_gathering hg (by rw [List.length_cons]; omega)) fun rest h ⟨hlength, hg⟩ => ?_
    have hgathered : ∀ e : StreamEngine, e.list = list →
        ((e :: rest).map (·.list)).reverse ++ had = (rest.map (·.list)).reverse ++ (list :: had) := by
      rintro e rfl
      simp
    refine ⟨rfl, ?_, ?_⟩
    · rw [hgathered _ rfl, hlength, List.length_cons]
      omega
    · rw [hgathered _ rfl]
      exact hg

theorem write_gathering {o x : BitVec 32} (hg : Gathered v had h) (hall : had.length = engineCount v + 1)
    (hhalf : o = Register.dplbase ∨ o = Register.dpubase) :
    Ensures recording n (write32 o x) s h (gathering s fun _ => Gathered v had) := by
  refine (ensures_write (n := n)).2 ?_
  rintro (e | ⟨⟩) _ rfl
  · exact ⟨rfl, .unwritten hg hall hhalf⟩
  · exact ⟨rfl, hg.call (c := .write _ _ _) trivial rfl⟩

/-- **What there is of streams that were allocated, and of those that were not**: all they need, or whatever was had until
something failed.  None of it is given back. -/
theorem allocate_cutShort {c : Controller} : Ensures recording n allocate c [] (gathering c fun streams h =>
    h.allocated.reverse = (streams.input ++ streams.output ++ streams.bidirectional).map (·.list) ++ [streams.positions] ∧
      h.freed = []) := by
  refine ensures_bind.2 (ensures_bind.2 (ensures_bind.2 (ensures_read.2 ?_)))
  rintro (e | v) _ rfl
  · exact ⟨rfl, .uncounted⟩
  refine ensures_bind.2 (ensures_note.2 ?_)
  rintro _ rfl
  have hg : Gathered v [] [⟨.read .word Register.gcap, Except.ok v⟩] :=
    ⟨rfl, rfl, smooth_nil.cons rfl, List.mem_singleton.2 rfl⟩
  generalize hcaps : GlobalCaps.mk (v.setWidth 16) = caps
  have hcount : engineCount v = caps.inputStreams + caps.outputStreams + caps.bidirectionalStreams := by
    rw [engineCount, hcaps]
    rfl
  refine still_bind (allocateEngines_gathering (hg.call (c := .note _) trivial rfl) ?_) fun input h ⟨hinput, hg⟩ => ?_
  · rw [List.length_nil]
    omega
  rw [List.length_nil] at hinput
  refine still_bind (allocateEngines_gathering hg (by omega)) fun output h ⟨houtput, hg⟩ => ?_
  refine still_bind (allocateEngines_gathering hg (by omega)) fun bidirectional h ⟨hbidirectional, hg⟩ => ?_
  refine still_bind (allocate_gathering hg (by omega)) fun positions h hg => ?_
  refine still_bind (zero_gathering hg) fun _ h hg => ?_
  refine still_bind (still_bind (write_gathering hg ?_ (.inl rfl)) fun _ h hg =>
    write_gathering hg ?_ (.inr rfl)) fun _ h hg => ?_
  · rw [List.length_cons]
    omega
  · rw [List.length_cons]
    omega
  refine ensures_bind.2 (ensures_note.2 ?_)
  rintro _ rfl
  refine ⟨rfl, ?_, hg.freed⟩
  rw [show allocated (⟨.note (.positionsPlaced positions.address), ()⟩ :: h) = _ from hg.allocated]
  simp

end Streams

/-! ### The run -/

namespace Controller

variable {n : Nat} {c : Controller} {h : History} {u : Option (List Region)} {l : List Region}

/-- A controller without a transport holds no memory. -/
theorem memory_of_held (hheld : c.held = none) : c.memory = [] := by
  rw [memory, hheld]
  rfl

theorem establishTransport_open (hheld : c.held = none) (ho : Open none c.memory h) :
    Ensures recording n establishTransport c h
    ⟨fun _ c' h' => Open none c'.memory h', fun _ c' h' => Open none c'.memory h', fun _ => True, fun _ => True⟩ := by
  have hnil := memory_of_held hheld
  rw [hnil] at ho
  refine ensures_bind.2 (ensures_get.2 (ensures_bind.2 ((Transport.establish_open ho).mono ?_ ?_ (fun _ => id)
    fun _ => id)))
  · rintro t _ h ⟨rfl, hopen⟩
    rw [List.append_nil] at hopen
    exact hopen
  · rintro e _ h ⟨rfl, hopen⟩
    rw [← hnil] at hopen
    exact hopen

theorem tearDownTransport_open (ho : Open u (c.memory ++ l) h) : Ensures recording n tearDownTransport c h
    ⟨fun _ c' h' => c'.held = none ∧ Open u l h', fun _ c' h' => c'.held = none ∧ Open u l h', fun _ => True,
      fun _ => True⟩ := by
  obtain ⟨config, codecs, _ | t⟩ := c
  · exact ⟨rfl, ho⟩
  · refine ensures_bind.2 (ensures_get.2 (ensures_bind.2 (ensures_modify.2 (ensures_bind.2 (ensures_note.2 ?_)))))
    rintro _ rfl
    have ho := Open.stable (.note (.tearingDown t.kind)) () h trivial ho
    refine (Transport.tearDown_open ho).mono ?_ ?_ (fun _ => id) fun _ => id
    · rintro _ _ h ⟨rfl, ho⟩
      exact ⟨rfl, ho⟩
    · rintro _ _ h ⟨rfl, ho⟩
      exact ⟨rfl, ho⟩

end Controller

namespace Bringup

variable {σ α β : Type} {n : Nat} {config : Config} {waveform : Array Byte} {identity : Pci.Identity} {b : Bringup}
  {h : History} {u : Option (List Region)} {l : List Region}

/-- The memory a run gives back when it is abandoned. -/
def memory (b : Bringup) : List Region := b.streams.elim [] Streams.regions ++ b.controller.memory

/-- What is to hold of a step of the run: where it fails, all that is open is held, or stranded. -/
def settling (α : Type) (ok : α → Bringup → History → Prop) : Outcome Bringup α History :=
  ⟨ok, fun _ b => Unfinished b.memory, fun _ => True, fun _ => True⟩

/-- What leaves the transport in its place leaves the memory of the run as it is. -/
theorem memory_of_held {c : Controller} (hc : c.held = b.controller.held) :
    memory { b with controller := c } = b.memory := by
  unfold memory Controller.memory
  rw [hc]

/-- A step that leaves memory alone, with what follows it. -/
theorem plain_step {P : Call → Prop} {x : Procedure Controller α} {f : α → Procedure Bringup β}
    {ok : β → Bringup → History → Prop} (hx : Confined P Controller.held x) (hP : ∀ c, P c → c.Plain)
    (ho : Open none b.memory h) (hf : ∀ a c h, Controller.held c = b.controller.held →
      Open none (memory { b with controller := c }) h →
      Ensures recording n (f a) { b with controller := c } h (settling β ok)) :
    Ensures recording n (onController x >>= f) b h (settling β ok) := by
  refine ensures_bind.2 (onController_of (hx.keeps (Open.stable.mono hP) ho) ?_ (fun _ _ => trivial) fun _ _ => trivial)
  rintro (e | a) c h' - ⟨hc, ho⟩
  · rw [← memory_of_held hc] at ho
    exact .of_open ho
  · rw [← memory_of_held hc] at ho
    exact hf a c h' hc ho

/-- Programming the output stream, with what follows it. -/
theorem program_step_open {f : List NodeAddr × Streams → Procedure Bringup β} {ok : β → Bringup → History → Prop}
    {controller : Controller} {streams : Streams} {topology : Topology}
    (ho : Open none (memory ⟨controller, some streams⟩) h) (hf : ∀ outputs c streams h,
      Open none (memory ⟨c, some streams⟩) h →
      Ensures recording n (f (outputs, streams)) ⟨c, some streams⟩ h (settling β ok)) :
    Ensures recording n (onStreams streams (do return (← Streams.program topology waveform, (← get).2)) >>= f)
      ⟨controller, some streams⟩ h (settling β ok) := by
  have hmemory : ∀ {c : Controller} {streams : Streams}, c.held = controller.held →
      memory ⟨c, some streams⟩ = streams.regions ++ controller.memory := by
    intro c streams hc
    rw [memory_of_held (b := ⟨controller, some streams⟩) hc]
    rfl
  refine ensures_bind.2 (ensures_bind.2 (ensures_get.2 (ensures_on.2 (ensures_bind.2 ?_))))
  refine (Streams.program_open ho).mono ?_ ?_ (fun _ => id) fun _ => id
  · rintro outputs ⟨c, t⟩ h ⟨hc, ho⟩
    rw [← hmemory hc] at ho
    exact hf outputs c t h ho
  · rintro e ⟨c, t⟩ h ⟨hc, ho⟩
    rw [← hmemory hc] at ho
    exact .of_open ho

/-- What is left of the sequence once the stream runs. -/
theorem linger_open {summary : Summary} (ho : Open none b.memory h) :
    Ensures recording n (if 0 < b.controller.config.playbackLinger then
        stall b.controller.config.playbackLinger >>= fun _ => pure summary else pure summary) b h
      (settling _ fun _ b h => Open none b.memory h) := by
  by_cases hwanted : 0 < b.controller.config.playbackLinger
  · rw [if_pos hwanted]
    refine ensures_bind.2 (ensures_stall.2 ?_)
    rintro (e | ⟨⟩) _ rfl
    · exact .of_open (Open.stable (.stall _) _ _ trivial ho)
    · exact Open.stable (.stall _) _ _ trivial ho
  · rw [if_neg hwanted]
    exact ho

theorem play_open (hstreams : b.streams = none) (hheld : b.controller.held = none) (ho : Open none b.memory h) :
    Ensures recording n (play identity waveform) b h (settling _ fun _ b h => Open none b.memory h) := by
  have plain : ∀ c : Call, c.Routine → c.Plain := fun _ => Call.Routine.plain
  obtain ⟨controller, _⟩ := b
  obtain rfl := hstreams
  refine plain_step Controller.reset_routine plain ho fun _ c h hreset ho => ?_
  refine plain_step Controller.waitForCodecs_routine plain ho fun _ c h hwait ho => ?_
  refine plain_step Controller.scanCodecs_routine plain ho fun codecs c h hscan ho => ?_
  refine plain_step Controller.suppressInterrupts_routine plain ho fun _ c h hsuppress ho => ?_
  have hheld : c.held = none := (((hsuppress.trans hscan).trans hwait).trans hreset).trans hheld
  refine ensures_bind.2 (onController_of (Controller.establishTransport_open hheld ho) ?_ (fun _ => id) fun _ => id)
  rintro (e | kind) c h - ho
  · exact .of_open ho
  refine ensures_bind.2 (onController_of (Streams.allocate_open ho) ?_ (fun _ => id) fun _ => id)
  rintro (e | streams) _ h - ⟨rfl, ho⟩
  · exact ho
  refine ensures_bind.2 (ensures_modify.2 ?_)
  refine plain_step Topology.walk_routine plain ho fun topology c h _ ho => ?_
  refine ensures_bind.2 (ensures_note.2 ?_)
  rintro _ rfl
  refine program_step_open (Open.stable (.note (.topologyWalked ..)) () _ trivial ho) fun outputs c streams h ho => ?_
  refine plain_step (Streams.start_sparing.map Controller.held) (fun _ hc => hc.1) ho fun _ c h _ ho => ?_
  refine ensures_bind.2 (ensures_get.2 ?_)
  exact linger_open ho

theorem playThrough_open (hstreams : b.streams = none) (hheld : b.controller.held = none) (ho : Open none b.memory h) :
    Ensures recording n (playThrough identity waveform) b h (settling _ fun _ _ h => Open none [] h) := by
  refine ensures_bind.2 ((play_open hstreams hheld ho).mono ?_ (fun _ _ _ => id) (fun _ => id) fun _ => id)
  intro summary b h ho
  have takeDown : ∀ {c : Controller} {h : History}, Open none c.memory h →
      Ensures recording n (onController Controller.tearDownTransport >>= fun _ => Pure.pure summary) ⟨c, none⟩ h
        (settling _ fun _ _ h => Open none [] h) := by
    intro c h ho
    rw [← List.append_nil c.memory] at ho
    refine ensures_bind.2 (onController_of (Controller.tearDownTransport_open ho) ?_ (fun _ => id) fun _ => id)
    rintro (e | ⟨⟩) c h - ⟨hc, hopen⟩
    · rw [← Controller.memory_of_held hc] at hopen
      exact .of_open hopen
    · exact hopen
  refine ensures_bind.2 (ensures_get.2 ?_)
  obtain ⟨controller, _ | streams⟩ := b
  · exact takeDown ho
  · refine ensures_bind.2 (ensures_modify.2 (ensures_bind.2 (onController_of (Streams.release_open ho) ?_ (fun _ => id)
      fun _ => id)))
    rintro (e | ⟨⟩) _ h - ⟨rfl, hopen⟩
    · exact .of_open hopen
    · exact takeDown hopen

/-- **What a run leaves behind when it is abandoned** is what nobody holds: the memory of streams that never came to be. -/
theorem abandon_open (ho : Unfinished b.memory h) :
    Ensures recording n abandon b h ⟨fun _ _ => Unfinished [], fun _ _ => Unfinished [], fun _ => True, fun _ => True⟩ := by
  obtain ⟨u, ho⟩ := ho
  have takeDown : ∀ {b : Bringup} {h : History}, Open u (b.controller.memory ++ u.getD []) h →
      Ensures recording n (do
        tolerate (onController Controller.tearDownTransport) .transportNotTornDown
        tolerate Procedure.release .controllerNotReleased) b h
      ⟨fun _ _ => Unfinished [], fun _ _ => Unfinished [], fun _ => True, fun _ => True⟩ := by
    intro b h ho
    have released : ∀ {b : Bringup} {h : History}, Open u (u.getD []) h →
        Ensures recording n (tolerate Procedure.release .controllerNotReleased) b h
          ⟨fun _ _ => Unfinished [], fun _ _ => Unfinished [], fun _ => True, fun _ => True⟩ := by
      intro b h ho
      rw [← List.append_nil (u.getD [])] at ho
      refine ensures_tolerate (ensures_release.2 ?_)
      rintro (e | ⟨⟩) _ rfl
      · exact ⟨u, Open.stable (.note _) () _ trivial ho.release⟩
      · exact ⟨u, ho.release⟩
    refine ensures_bind.2 (ensures_tolerate (onController_of (Controller.tearDownTransport_open ho) ?_ (fun _ => id)
      fun _ => id))
    rintro (e | ⟨⟩) c h - ⟨-, hopen⟩
    · exact released (Open.stable (.note _) () _ trivial hopen)
    · exact released hopen
  refine ensures_bind.2 (ensures_get.2 ?_)
  obtain ⟨controller, _ | streams⟩ := b
  · exact takeDown (ho.perm List.perm_append_comm)
  · have hopen : Open u (streams.regions ++ (controller.memory ++ u.getD [])) h := by
      rw [← List.append_assoc]
      exact ho.perm List.perm_append_comm
    refine ensures_bind.2 (ensures_tolerate (onController_of (Streams.release_open hopen) ?_ (fun _ => id) fun _ => id))
    rintro (e | ⟨⟩) _ h - ⟨rfl, hopen⟩
    · exact takeDown (Open.stable (.note _) () _ trivial hopen)
    · exact takeDown hopen

/-- **What a run leaves behind** as long as nothing goes wrong but that memory is short. -/
theorem run_open {t : σ} : Ensures recording n (run config waveform) t []
    ⟨fun _ _ => Unfinished [], fun _ _ => Unfinished [], fun _ => True, fun _ => True⟩ := by
  have hdiscover : Confined Call.Plain id (Pci.discover (σ := σ)) := Pci.discover_routine.mono fun _ hc => hc.plain
  refine ensures_bind.2 ((hdiscover.keeps Open.stable open_nil).mono ?_ ?_ (fun _ _ => trivial) fun _ _ => trivial)
  case refine_2 =>
    rintro e _ h ⟨-, ho⟩
    exact .of_open ho
  rintro ⟨candidate, identity⟩ _ h ⟨rfl, ho⟩
  refine ensures_bind.2 (ensures_bindExclusive.2 ?_)
  rintro r _ rfl
  have ho := Open.stable (.bindExclusive candidate) r h trivial ho
  rcases r with e | ⟨⟩
  · exact .of_open ho
  refine ensures_bind.2 (ensures_within.2 ((playThrough_open (b := { controller := { config } }) rfl rfl ho).mono ?_ ?_
    (fun _ _ => trivial) fun _ _ => trivial))
  · rintro summary _ h ho
    refine ensures_bind.2 (ensures_release.2 ?_)
    rintro (e | ⟨⟩) _ rfl
    · exact .of_open ho.release
    · refine ensures_bind.2 (ensures_note.2 ?_)
      rintro _ rfl
      exact .of_open (Open.stable (.note _) () _ trivial ho.release)
  · rintro e b h ho
    refine ensures_bind.2 (ensures_note.2 ?_)
    rintro _ rfl
    have ho := Unfinished.stable (.note (.failed e)) () h trivial ho
    exact ensures_bind.2 (ensures_within.2 ((abandon_open ho).mono (fun _ _ _ => id) (fun _ _ _ => id) (fun _ => id)
      fun _ => id))

/-- **What streams that were not allocated leave behind**: all they had until something failed, whatever that was.  A run in
which nothing went wrong but that memory was short leaves that behind in the end, and nothing else. -/
theorem run_strands {t : σ} :
    (∀ c : Controller, Ensures recording n Streams.allocate c []
      ⟨fun streams c' h => c' = c ∧ h.freed = [] ∧
          h.allocated.reverse =
            (streams.input ++ streams.output ++ streams.bidirectional).map (·.list) ++ [streams.positions],
        fun e c' h => c' = c ∧ h.freed = [] ∧ h.CutShort e, fun _ => False, fun _ => False⟩) ∧
    Ensures recording n (run config waveform) t []
      (.always (fun _ h => h.Unspoilt → h.allocated.Perm (h.stranded ++ h.freed)) fun _ => True) := by
  refine ⟨fun c => Streams.allocate_cutShort.mono ?_ ?_ (fun _ => id) fun _ => id, run_open.mono ?_ ?_ (fun _ => id)
    fun _ => id⟩
  · rintro streams c' h ⟨hc, hallocated, hfreed⟩
    exact ⟨hc, hfreed, hallocated⟩
  · rintro e c' h ⟨hc, hcut⟩
    exact ⟨hc, hcut.freed, hcut⟩
  · exact fun _ _ h ho => ho.stranded
  · exact fun _ _ h ho => ho.stranded

/-! ### Streams that nobody holds -/

/-- Answers of a platform that has memory once only, for a controller with one output engine. -/
def meagre : (c : Call) → History → c.Answer
  | .read _ o, _ => .ok (if o = Register.gcap then 0x1000 else 1)
  | .allocate length, h => if h.allocated.isEmpty then .ok ⟨0, 0, length, 0⟩ else .error .outOfResources
  | c, h => obliging c h

/-- There is memory that was had and not given back, and nothing failed but one request for more. -/
def unreturned {α σ : Type} : Ending (Except Error α × σ) × History → Bool
  | (.result (.error _, _), h) => !h.allocated.isEmpty && h.freed.isEmpty && h.all (!·.spoils) && h.failures.length == 1
  | _ => false

theorem unreturned_sound {α σ : Type} {ended : Ending (Except Error α × σ) × History} (hended : unreturned ended = true) :
    ¬Outcome.holds ⟨fun _ _ _ => True, fun _ _ h => h.Unspoilt → h.failures.length = 1 → h.allocated.Perm h.freed,
      fun _ => True, fun _ => True⟩ ended.1 ended.2 := by
  obtain ⟨⟨e | a, _⟩ | cause | _, h⟩ := ended
  · simp only [unreturned, Bool.and_eq_true, Bool.not_eq_true', List.isEmpty_iff, List.all_eq_true, beq_iff_eq] at hended
    obtain ⟨⟨⟨hallocated, hfreed⟩, hunspoilt⟩, hfailures⟩ := hended
    intro hperm
    have hnil := hperm hunspoilt hfailures
    rw [hfreed] at hnil
    rw [hnil.eq_nil] at hallocated
    cases hallocated
  · cases hended
  · cases hended
  · cases hended

/-- **Memory for some streams only is never given back**: where there is memory for the one engine and none for the position
buffer, neither the allocation nor the run gives back what was had. -/
theorem run_strands_memory :
    ¬Ensures recording 1 Streams.allocate { config := {} } [] ⟨fun _ _ _ => True,
      fun _ _ h => h.Unspoilt → h.failures.length = 1 → h.allocated.Perm h.freed, fun _ => True, fun _ => True⟩ ∧
    ¬Ensures recording 1 (run { transport := .immediate } #[]) () [] ⟨fun _ _ _ => True,
      fun _ _ h => h.Unspoilt → h.failures.length = 1 → h.allocated.Perm h.freed, fun _ => True, fun _ => True⟩ :=
  ⟨Procedure.refuted meagre unreturned (by decide +kernel) fun _ => unreturned_sound,
    Procedure.refuted meagre unreturned (by decide +kernel) fun _ => unreturned_sound⟩

end Bringup
end AudioBringup
