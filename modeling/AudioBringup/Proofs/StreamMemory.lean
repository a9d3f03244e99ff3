import AudioBringup.Proofs.StreamCalls
import AudioBringup.Proofs.TransportMemory
/-!
# Proofs.StreamMemory — the memory of the streams is given back once no engine can reach it

The streams have all their memory from when position reporting is turned on (`allocate_keeping`).  From then on no engine
runs but the one that was programmed (`Streams.Ready`), and `release` sees that one stand still and turns position
reporting off before it gives anything back (`release_keeping`).
-/
namespace AudioBringup

open Procedure History

namespace History

variable {h : History} {b : Bool} {l : List (Use × Region)} {o : BitVec 32}

/-- What is written beside a stream's control is not written to the control of a stream. -/
theorem not_isStreamControl_high (k : Nat) : ¬IsStreamControl (Register.stream k + Register.sdctlHigh) := by
  rintro ⟨-, j, hj⟩
  simp only [Register.stream, Register.streams, Register.streamLength, Register.sdctl, Register.sdctlHigh] at hj
  bv_omega

theorem StreamsStopped.free {g : Region} {a : Except Error Unit} (hs : h.StreamsStopped) :
    StreamsStopped (⟨.free g, a⟩ :: h) := by
  obtain ⟨hlower, hupper, hhalted⟩ := hs
  refine ⟨.later ?_ hlower, .later ?_ hupper, fun o ho => .later ?_ (hhalted o ho)⟩
  · simp [Call.Writes]
  · simp [Call.Writes]
  · simp [Call.Starts]

end History

/-- The memory an engine holds. -/
def StreamEngine.held (e : StreamEngine) : Use × Region := (.stream, e.list)

namespace Streams

/-- The memory the streams hold. -/
def held (s : Streams) : List (Use × Region) := s.regions.map (Use.stream, ·)

/-- The streams have their memory, and no engine runs but the programmed one. -/
structure Ready (s : Streams) (h : History) : Prop where
  counted : h.Counted
  placed : h.Placed
  halted : ∀ o, IsStreamControl o → (∀ e, s.programmedEngine = some e → o ≠ e.base + Register.sdctl) → Halted o h

/-- A plain call that starts no engine but the programmed one. -/
def Sparing (s : Streams) (c : Call) : Prop :=
  c.Plain ∧ ∀ o, IsStreamControl o → c.Starts o → ∃ e, s.programmedEngine = some e ∧ o = e.base + Register.sdctl

theorem sparing_of_routine {s : Streams} {c : Call} (hc : c.Routine) : s.Sparing c := by
  refine ⟨hc.plain, ?_⟩
  rintro o ⟨ho, -⟩ ⟨w, v, rfl, -⟩
  have hlow : o < Register.dplbase := hc
  simp only [Register.dplbase, Register.streams] at hlow ho
  bv_omega

theorem Ready.stable {s : Streams} : Stable s.Sparing s.Ready := by
  refine fun c a h hc hr => ⟨counted_cons.2 (.inr hr.counted), placed_cons.2 (.inr hr.placed), fun o ho he => ?_⟩
  refine .later (fun hstarts => ?_) (hr.halted o ho he)
  obtain ⟨e, hprogrammed, rfl⟩ := hc.2 o ho hstarts
  exact he e hprogrammed rfl

variable {σ : Type} {n : Nat} {s : σ} {h : History} {b : Bool} {l new : List (Use × Region)}

/-! ### Having the memory -/

theorem allocateEngines_keeping {streamClass : StreamClass} :
    ∀ {count index descriptor : Nat} {new : List (Use × Region)} {h : History}, Accounts b (new ++ l) h → h.Filling →
    Ensures recording n (allocateEngines streamClass index descriptor count) s h (keeping (Accounts false l) s
      fun engines h' => Accounts b (engines.map StreamEngine.held ++ new ++ l) h' ∧ h'.Filling)
  | 0, _, _, _, _, hl, hh => ⟨rfl, hl, hh⟩
  | count + 1, index, descriptor, new, h, hl, hh => by
    refine keeping_bind (Procedure.allocate_keeping (u := .stream) hh.1 hl fun _ hl => hl.lose _) ?_
    rintro list _ ⟨rfl, hl⟩
    have hK : Stable Call.Plain fun h => Accounts b ((.stream, list) :: new ++ l) h ∧ h.Filling :=
      Accounts.stable_plain.and Filling.stable
    refine Confined.then hK (fun _ hk => hk.1.lost _) (confined_request (c := .clear _ _) trivial) (fun _ h hk => ?_) _
      ⟨hl, hh.allocate⟩
    refine keeping_bind (allocateEngines_keeping hk.1 hk.2) fun rest h hk => ?_
    refine ⟨rfl, hk.1.perm ?_, hk.2⟩
    rw [List.map_cons, List.append_assoc, List.append_assoc]
    exact List.perm_middle

/-- The regions in the order they were had, against the order they are given back in. -/
theorem held_perm {input output bidirectional : List StreamEngine} {positions : Region} :
    ([(Use.stream, positions)] ++ (bidirectional.map StreamEngine.held ++
      (output.map StreamEngine.held ++ (input.map StreamEngine.held ++ [])))).Perm
      (held { input, output, bidirectional, positions }) := by
  rw [List.perm_iff_count]
  intro p
  simp only [held, regions, Option.toList, List.nil_append, List.map_append, List.map_map, List.map_reverse,
    List.append_nil, List.count_append, List.count_reverse, List.map_cons, List.map_nil, Function.comp_def,
    show StreamEngine.held = fun e => (Use.stream, e.list) from rfl]
  omega

theorem ready_of_filled {s : Streams} (hh : h.Filled) : s.Ready h :=
  ⟨hh.1.1, hh.2, fun _ _ _ => .unprogrammed hh.1.2⟩

/-- **Streams that were allocated hold all that was had for them**, with no engine running yet. -/
theorem allocate_keeping {c : Controller} (hl : Accounts b l h) (hfresh : h.Fresh) :
    Ensures recording n Streams.allocate c h (keeping (Accounts false l) c fun s h' => Accounts b (s.held ++ l) h' ∧
      h'.Filled ∧ s.sample = none ∧ s.programmed = none) := by
  have hJ : ∀ {new} (h : History), Accounts b (new ++ l) h ∧ h.Filling → Accounts false l h ∧ h.Sound :=
    fun _ hk => hk.1.lost _
  have hK : ∀ new, Stable Call.Plain fun h => Accounts b (new ++ l) h ∧ h.Filling := fun _ =>
    Accounts.stable_plain.and Filling.stable
  have capabilities : Confined Call.Routine id Controller.capabilities :=
    confined_bind (confined_read16 trivial) fun _ => confined_pure _
  refine keeping_bind (capabilities.keeping (Accounts.stable_routine.and Fresh.stable_routine)
    (fun _ hk => hk.1.lost []) ⟨hl, hfresh⟩) fun caps h hk => ?_
  refine ensures_bind.2 (ensures_note.2 ?_)
  rintro _ rfl
  have counted : ∀ i o k, Accounts b ([] ++ l) (⟨.note (.streamsCounted i o k), ()⟩ :: h) := fun _ _ _ => hk.1.call trivial
  refine keeping_bind (allocateEngines_keeping (counted _ _ _) hk.2.filling) fun input h hk => ?_
  refine keeping_bind (allocateEngines_keeping hk.1 hk.2) fun output h hk => ?_
  refine keeping_bind (allocateEngines_keeping hk.1 hk.2) fun bidirectional h hk => ?_
  refine keeping_bind (Procedure.allocate_keeping (u := .stream) hk.2.1 hk.1 fun _ hl => hl.lose _) ?_
  rintro positions _ ⟨rfl, hl⟩
  refine Confined.then (hK ((.stream, positions) :: _)) hJ (confined_request (c := .clear _ _) trivial) (fun _ => ?_) _
    ⟨hl, hk.2.allocate⟩
  refine Confined.then (hK _) hJ (confined_bind (confined_write trivial) fun _ => confined_write trivial) fun _ h hk => ?_
  refine ensures_bind.2 (ensures_note.2 ?_)
  rintro _ rfl
  refine ⟨rfl, (hk.1.perm ?_).call trivial, hk.2.placed, rfl, rfl⟩
  exact held_perm.append_right l

/-! ### Programming and starting an engine -/

theorem resetEngine_plain {base : BitVec 32} {limit : WaitLimit} : Confined Call.Plain id (resetEngine (σ := σ) base limit) :=
  confined_resetEngine (fun _ _ => trivial) (fun _ => trivial) fun _ => trivial

theorem writePieces_plain {list : Region} {index : Nat} {pieces : List BufferPiece} :
    Confined Call.Plain id (writePieces (σ := σ) list index pieces) :=
  confined_writePieces (fun _ _ => trivial) fun _ _ => trivial

theorem allocateSample_keeping {waveform : Array Byte} {parts : Nat} (hl : Accounts b l h) (hh : h.Filled) :
    Ensures recording n (allocateSample waveform parts) s h
      (keeping (fun h => Accounts false l h ∧ h.Filled) s fun r h' => Accounts b ((.stream, r.1) :: l) h' ∧ h'.Filled) := by
  unfold allocateSample
  cases hshape : BufferList.checkShape waveform.size parts with
  | error e => exact ⟨rfl, hl.inexact, hh⟩
  | ok _ =>
    refine keeping_bind (Procedure.allocate_keeping (u := .stream) hh.1.1 hl fun _ hl => ⟨hl.inexact, hh.allocate⟩) ?_
    rintro sample _ ⟨rfl, hl⟩
    rw [BufferList.split_of_ok sample.address hshape]
    have hK : Stable Call.Plain fun h => Accounts b ([(.stream, sample)] ++ l) h ∧ h.Filled :=
      Accounts.stable_plain.and Filled.stable
    refine Confined.then hK (fun _ hk => ⟨⟨hk.1.lose _, hk.2⟩, hk.1.sound⟩) (confined_fill trivial) (fun _ h hk => ?_) _
      ⟨hl, hh.allocate⟩
    exact ⟨rfl, hk⟩

/-- What is to hold of the streams and their memory once an attempt was made to program an engine. -/
def afterProgram (b : Bool) (l : List (Use × Region)) (c : Controller) (α : Type) :
    Outcome (Controller × Streams) α History :=
  ⟨fun _ t h => t.1.held = c.held ∧ Accounts b (t.2.held ++ l) h ∧ t.2.Ready h,
    fun _ t h => t.1.held = c.held ∧ Accounts false (t.2.held ++ l) h ∧ t.2.Ready h, Sound, Sound⟩

theorem onController_holds {α : Type} {c : Controller} {s : Streams} {x : Procedure Controller α}
    (hx : Confined Call.Routine Controller.held x) (hl : Accounts b (s.held ++ l) h) (hready : s.Ready h) :
    Ensures recording n (onController x) (c, s) h (afterProgram b l c α) := by
  have hK : Stable Call.Routine fun h => Accounts b (s.held ++ l) h ∧ s.Ready h :=
    Accounts.stable_routine.and (Ready.stable.mono fun _ => sparing_of_routine)
  refine ensures_bind.2 (ensures_get.2 (ensures_on.2 ?_))
  exact (hx.keeps hK ⟨hl, hready⟩).mono (fun _ _ _ => id) (fun _ _ _ hk => ⟨hk.1, hk.2.1.inexact, hk.2.2⟩)
    (fun _ hk => hk.1.sound) (fun _ hk => hk.1.sound)

theorem program_holds {c : Controller} {s : Streams} {topology : Topology} {waveform : Array Byte}
    (hl : Accounts b (s.held ++ l) h) (hh : h.Filled) (hsample : s.sample = none) (hnone : s.programmed = none) :
    Ensures recording n (program topology waveform) (c, s) h (afterProgram b l c _) := by
  obtain ⟨input, output, bidirectional, positions, _, _⟩ := s
  cases hsample
  cases hnone
  generalize hs : ({ input, output, bidirectional, positions } : Streams) = s at hl
  have hK : ∀ new, Stable Call.Plain fun h => Accounts b (new ++ (s.held ++ l)) h ∧ h.Filled := fun _ =>
    Accounts.stable_plain.and Filled.stable
  have hJ : ∀ {new} (h : History), Accounts b (new ++ (s.held ++ l)) h ∧ h.Filled →
      (Accounts false (s.held ++ l) h ∧ h.Filled) ∧ h.Sound := fun _ hk => ⟨⟨hk.1.lose _, hk.2⟩, hk.1.sound⟩
  have hQ : Allows (fun h => Accounts false (s.held ++ l) h ∧ h.Filled) (c, s) (afterProgram b l c (List NodeAddr)) :=
    ⟨fun _ _ hj => ⟨rfl, hj.1, ready_of_filled hj.2⟩, fun _ => id, fun _ => id⟩
  unfold program
  rw [ensures_bind, ensures_get, Outcome.withOk]
  dsimp only
  subst hs
  cases he : output[c.config.outputStream]? with
  | none => exact ⟨rfl, hl.inexact, ready_of_filled hh⟩
  | some engine =>
    dsimp only
    refine keeping_andThen (resetEngine_plain.keeping (hK []) hJ ⟨hl, hh⟩) hQ fun _ h hk => ?_
    refine ensures_bind.2 (ensures_modify.2 ?_)
    refine keeping_andThen (allocateSample_keeping hk.1 hk.2) hQ ?_
    rintro ⟨sample, pieces⟩ h hk
    have hK := hK [(.stream, sample)]
    refine keeping_andThen (writePieces_plain.keeping hK hJ hk) hQ fun _ h hk => ?_
    refine keeping_andThen ((confined_write trivial).keeping hK hJ hk) hQ fun _ h hk => ?_
    refine keeping_andThen ((confined_write trivial).keeping hK hJ hk) hQ fun _ h hk => ?_
    refine keeping_andThen ((confined_bind (confined_write trivial) fun _ => confined_write trivial).keeping hK hJ hk) hQ
      fun _ h hk => ?_
    refine keeping_andThen ((confined_write trivial).keeping hK hJ hk) hQ fun _ h hk => ?_
    refine ensures_bind.2 (ensures_note.2 ?_)
    rintro _ rfl
    refine ensures_bind.2 (ensures_modify.2 (ensures_bind.2 ?_))
    have hready : ∀ {s : Streams} {i d k p : Nat}, s.Ready (⟨.note (.streamProgrammed i d k p), ()⟩ :: h) :=
      ⟨counted_cons.2 (.inr hk.2.1.1), placed_cons.2 (.inr hk.2.2), fun o _ _ =>
        .later (by simp [Call.Starts]) (.unprogrammed hk.2.1.2)⟩
    exact onController_holds (formatConverters_routine _) (hk.1.call (c := .note _) trivial) hready

theorem sparing_of_not_starts {s : Streams} {c : Call} (hc : c.Plain) (hstarts : ∀ o, ¬c.Starts o) : s.Sparing c :=
  ⟨hc, fun o _ ho => (hstarts o ho).elim⟩

theorem sparing_read {s : Streams} {w : Width} {o : BitVec 32} : s.Sparing (.read w o) :=
  sparing_of_not_starts trivial (by simp [Call.Starts])

theorem sparing_write {s : Streams} {w : Width} {o v : BitVec 32}
    (ho : IsStreamControl o → ∃ e, s.programmedEngine = some e ∧ o = e.base + Register.sdctl) :
    s.Sparing (.write w o v) := by
  refine ⟨trivial, ?_⟩
  rintro o' ho' ⟨_, _, he, -⟩
  obtain ⟨-, rfl, -⟩ := Call.write.inj he
  exact ho ho'

theorem sparing_note {s : Streams} {m : Notice} (hm : Call.Plain (.note m)) : s.Sparing (.note m) :=
  sparing_of_not_starts hm (by simp [Call.Starts])

theorem start_sparing {s : Streams} : Confined s.Sparing id s.start := by
  refine confined_start (fun _ _ => sparing_read) (fun _ => ?_) (fun e _ he => ?_) (fun _ _ _ => ?_) fun _ _ => ?_
  · exact sparing_of_routine (show Register.ssync < Register.dplbase by decide)
  · exact sparing_write fun _ => ⟨e, he, rfl⟩
  · exact sparing_write fun ho => (not_isStreamControl_high _ ho).elim
  · exact sparing_note trivial

/-! ### Giving the memory back -/

theorem stopEngine_sparing {s : Streams} {engine : StreamEngine} {limit : WaitLimit}
    (he : s.programmedEngine = some engine) : Confined s.Sparing id (stopEngine (σ := σ) engine limit) := by
  refine confined_bind (confined_read16 sparing_read) fun _ => ?_
  refine confined_bind (confined_write (sparing_write fun _ => ⟨engine, he, rfl⟩)) fun _ => ?_
  refine confined_bind (confined_waitUntil (confined_look16 sparing_read) fun _ => sparing_note trivial) fun _ => ?_
  exact confined_note (sparing_note trivial)

/-- An engine that was stopped was seen to stand still. -/
theorem stopEngine_halted {engine : StreamEngine} {limit : WaitLimit} : Ensures recording n (stopEngine engine limit) s h
    ⟨fun _ _ => Halted (engine.base + Register.sdctl), fun _ _ _ => True, fun _ => True, fun _ => True⟩ := by
  refine ensures_bind.2 (ensures_bind.2 (ensures_read.2 ?_))
  rintro (e | v) h _
  · trivial
  · refine ensures_bind.2 (ensures_write.2 ?_)
    rintro (e | ⟨⟩) h _
    · trivial
    · refine ensures_bind.2 (ensures_waitUntil (fun _ _ => True) (fun s h _ => ?_) (fun _ _ _ _ _ _ => trivial)
        (fun _ _ _ => trivial) trivial)
      refine ensures_bind.2 (ensures_bind.2 (ensures_read.2 ?_))
      rintro (e | v) h rfl
      · trivial
      · change if (!(StreamControl.ofLow (v.setWidth 16)).run) = true then
          Ensures recording n (note (.streamStopped engine.index)) s
            (⟨.read .word (engine.base + Register.sdctl), Except.ok v⟩ :: h) _ else True
        rw [StreamControl.run_ofLow]
        cases hrun : v.getLsbD 1
        · refine ensures_note.2 ?_
          rintro _ rfl
          exact .later (by simp [Call.Starts]) (.read hrun)
        · trivial

theorem stopEngine_keeping {s : Streams} {engine : StreamEngine} {limit : WaitLimit} {c : Controller}
    (hl : Accounts b (s.held ++ l) h) (hready : s.Ready h) (he : s.programmedEngine = some engine) :
    Ensures recording n (stopEngine engine limit) c h (keeping (Accounts false l) c fun _ h' =>
      Accounts b (s.held ++ l) h' ∧ h'.Placed ∧ ∀ o, IsStreamControl o → Halted o h') := by
  have hK : Stable s.Sparing fun h => Accounts b (s.held ++ l) h ∧ s.Ready h :=
    (Accounts.stable_plain.mono fun _ hc => hc.1).and Ready.stable
  refine (((stopEngine_sparing he).keeping hK (fun _ hk => hk.1.lost _) ⟨hl, hready⟩).and stopEngine_halted).mono
    (fun _ _ h hk => ?_) (fun _ _ _ hk => hk.1) (fun _ hk => hk.1) (fun _ hk => hk.1)
  obtain ⟨⟨hc, hl, hready⟩, hhalted⟩ := hk
  refine ⟨hc, hl, hready.placed, fun o ho => ?_⟩
  by_cases heo : o = engine.base + Register.sdctl
  · rw [heo]
    exact hhalted
  · refine hready.halted o ho fun e he' => ?_
    obtain rfl := Option.some.inj (he.symm.trans he')
    exact heo

theorem freeAll_keeping : ∀ {regions : List Region} {h : History}, Accounts b (regions.map (Use.stream, ·) ++ l) h →
    h.StreamsStopped → Ensures recording n (freeAll regions) s h (keeping (Accounts false l) s fun _ => Accounts b l)
  | [], _, hl, _ => ⟨rfl, hl⟩
  | region :: rest, h, hl, hs => by
    refine keeping_bind (free_keeping (u := .stream) hs hl fun _ hl => hl.lose _) ?_
    rintro _ _ ⟨rfl, hl⟩
    exact freeAll_keeping hl hs.free

theorem giveBack_keeping {s : Streams} {c : Controller} (hl : Accounts b (s.held ++ l) h) (hplaced : h.Placed)
    (hhalted : ∀ o, IsStreamControl o → Halted o h) : Ensures recording n (do
      writeAddress Register.dplbase Register.dpubase 0
      freeAll s.regions) c h (keeping (Accounts false l) c fun _ => Accounts b l) := by
  have hzero : ∀ {o o' : BitVec 32}, ¬(Call.write .dword o 0).Starts o' := by
    rintro o o' ⟨_, _, he, hrun⟩
    obtain ⟨-, -, rfl⟩ := Call.write.inj he
    cases hrun
  refine ensures_bind.2 (ensures_bind.2 (ensures_write.2 ?_))
  rintro (e | ⟨⟩) _ rfl
  · exact ⟨rfl, (hl.call (c := .write _ _ _) trivial).lose _⟩
  · have hl := hl.call (c := .write .dword Register.dplbase 0) (a := .ok ()) trivial
    refine (ensures_write (n := n)).2 ?_
    rintro (e | ⟨⟩) _ rfl
    · exact ⟨rfl, (hl.call (c := .write _ _ _) trivial).lose _⟩
    · refine freeAll_keeping (hl.call (c := .write .dword Register.dpubase 0) trivial) ⟨?_, ?_, ?_⟩
      · refine .later ?_ (.write hplaced)
        rintro ⟨_, _, he⟩
        exact absurd (Call.write.inj he).2.1 (by decide)
      · exact .write (placed_cons.2 (.inr hplaced))
      · exact fun o ho => .later hzero (.later hzero (hhalted o ho))

/-- **The memory of the streams** is given back after the programmed engine was seen to stand still and position reporting
was turned off. -/
theorem release_keeping {s : Streams} {c : Controller} (hl : Accounts b (s.held ++ l) h) (hready : s.Ready h) :
    Ensures recording n s.release c h (keeping (Accounts false l) c fun _ => Accounts b l) := by
  unfold release
  cases he : s.programmedEngine with
  | none => exact giveBack_keeping hl hready.placed fun o ho => hready.halted o ho fun e he' => by cases he.symm.trans he'
  | some engine =>
    refine ensures_bind.2 (ensures_get.2 (keeping_bind (stopEngine_keeping hl hready he) fun _ h hk => ?_))
    exact giveBack_keeping hk.1 hk.2.1 hk.2.2

end Streams
end AudioBringup
