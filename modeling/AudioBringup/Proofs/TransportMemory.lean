import AudioBringup.Proofs.Accounts
import AudioBringup.Proofs.Routine
/-!
# Proofs.TransportMemory — the memory of the rings is given back once they stand still

Stopping a ring sees it stand still (`stop_keeping`), and nothing that is done to two stopped rings starts either of them,
so that both still stand still when their memory goes (`tearDown_keeping`).  The immediate interface has no memory.
-/
namespace AudioBringup

open Procedure History

/-- A routine call that reads no register but `o`, and sets nothing running. -/
def Call.Still (o : BitVec 32) (c : Call) : Prop := c.Routine ∧ (∀ o', c.Reads o' → o' = o) ∧ ∀ o', ¬c.Starts o'

namespace History

variable {h : History} {b : Bool} {l : List (Use × Region)} {o o' : BitVec 32}

theorem Stopped.stable (ho : o ≠ o') : Stable (Call.Still o') (Stopped ringControls o) := by
  intro c a h ⟨_, hreads, hstarts⟩ hs
  exact .later (fun hr => ho (hreads o hr)) (fun o _ => hstarts o) hs

theorem RingsStopped.call {c : Call} {a : c.Answer} (hreads : ∀ o, ¬c.Reads o) (hstarts : ∀ o, ¬c.Starts o)
    (hs : h.RingsStopped) : RingsStopped (⟨c, a⟩ :: h) := fun o ho => .later (hreads o) (fun o _ => hstarts o) (hs o ho)

theorem RingsStopped.allocate {k : Nat} {a : Except Error Region} (hs : h.RingsStopped) :
    RingsStopped (⟨.allocate k, a⟩ :: h) := hs.call (by simp [Call.Reads]) (by simp [Call.Starts])

theorem RingsStopped.free {g : Region} {a : Except Error Unit} (hs : h.RingsStopped) : RingsStopped (⟨.free g, a⟩ :: h) :=
  hs.call (by simp [Call.Reads]) (by simp [Call.Starts])

theorem ringsStopped_iff : h.RingsStopped ↔
    Stopped ringControls Register.corbctl h ∧ Stopped ringControls Register.rirbctl h := by
  simp only [RingsStopped, ringControls, List.mem_cons, List.not_mem_nil, or_false, forall_eq_or_imp, forall_eq]

theorem RingsStopped.stable (hcorb : Register.corbctl ≠ o') (hrirb : Register.rirbctl ≠ o') :
    Stable (Call.Still o') RingsStopped := fun c a h hc hs => by
  obtain ⟨hs, hs'⟩ := ringsStopped_iff.1 hs
  exact ringsStopped_iff.2 ⟨Stopped.stable hcorb c a h hc hs, Stopped.stable hrirb c a h hc hs'⟩

end History

namespace CommandRings

variable {σ : Type} {n : Nat} {s : σ} {h : History} {b : Bool} {l : List (Use × Region)}
  {J K : History → Prop} {control : BitVec 32} {limit : WaitLimit}

theorem still_write {w : Width} {o o' v : BitVec 32} (ho' : o' < Register.dplbase) (hv : v.getLsbD 1 = false) :
    (Call.write w o' v).Still o := by
  refine ⟨ho', by simp [Call.Reads], ?_⟩
  rintro o ⟨_, _, he, hrun⟩
  obtain ⟨-, -, rfl⟩ := Call.write.inj he
  rw [hv] at hrun
  cases hrun

theorem still_read {w : Width} {o : BitVec 32} : (Call.read w o).Still o := by
  refine ⟨trivial, ?_, by simp [Call.Starts]⟩
  rintro o' ⟨_, he⟩
  exact (Call.read.inj he).2.symm

theorem still_gaveUp {site : WaitSite} {k : Nat} {o : BitVec 32} : (Call.note (.gaveUp site k)).Still o :=
  ⟨trivial, by simp [Call.Reads], by simp [Call.Starts]⟩

theorem stop_confined {P : Call → Prop} (hread : P (.read .byte control))
    (hwrite : ∀ v, v.getLsbD 1 = false → P (.write .byte control v)) (hgave : ∀ k, P (.note (.gaveUp .ringReset k))) :
    Confined P id (stop (σ := σ) control limit) := by
  refine confined_bind (confined_read8 hread) fun v => ?_
  have hclear : (((RingControl.mk v).withRun false).raw.setWidth 32).getLsbD 1 = false := by
    rw [RingControl.getLsbD_raw, RingControl.run_withRun]
  refine confined_bind (confined_write (hwrite _ hclear)) fun _ => ?_
  exact confined_waitUntil (confined_bind (confined_read8 hread) fun _ => confined_pure _) hgave

theorem stop_still (ho : control < Register.dplbase) : Confined (Call.Still control) id (stop (σ := σ) control limit) :=
  stop_confined still_read (fun _ => still_write ho) fun _ => still_gaveUp

/-- A ring that was stopped was seen to stand still. -/
theorem stop_stopped : Ensures recording n (stop control limit) s h
    ⟨fun _ _ => Stopped ringControls control, fun _ _ _ => True, fun _ => True, fun _ => True⟩ := by
  refine ensures_bind.2 (ensures_bind.2 (ensures_read.2 ?_))
  rintro (e | v) h _
  · trivial
  · refine ensures_bind.2 (ensures_write.2 ?_)
    rintro (e | ⟨⟩) h _
    · trivial
    · refine ensures_waitUntil (fun _ _ => True) (fun s h _ => ?_) (fun _ _ _ _ _ _ => trivial) (fun _ _ _ => trivial)
        trivial
      refine ensures_bind.2 (ensures_bind.2 (ensures_read.2 ?_))
      rintro (e | v) h rfl
      · trivial
      · change if (!(RingControl.mk (v.setWidth 8)).run) = true then
          Stopped ringControls control (⟨.read .byte control, Except.ok v⟩ :: h) else True
        rw [RingControl.run_mk]
        cases hrun : v.getLsbD 1
        · exact Stopped.read hrun
        · trivial

theorem resetPointers_confined {P : Call → Prop} (hread : P (.read .word Register.corbrp))
    (hwrite : ∀ o v, o ∈ [Register.corbwp, Register.corbrp, Register.rirbwp] → v.getLsbD 1 = false → P (.write .word o v))
    (hgave : ∀ k, P (.note (.gaveUp .ringReset k))) : Confined P id (resetPointers (σ := σ) limit) := by
  have hwait : ∀ {check : BitVec 16 → Bool}, Confined (σ := σ) P id (waitUntil .ringReset limit do
      return check (← read16 Register.corbrp)) := confined_waitUntil (confined_look16 hread) hgave
  refine confined_bind (confined_write (hwrite _ _ (by decide) (by decide))) fun _ => ?_
  refine confined_bind (confined_write (hwrite _ _ (by decide) (by decide))) fun _ => confined_bind hwait fun _ => ?_
  refine confined_bind (confined_write (hwrite _ _ (by decide) (by decide))) fun _ => confined_bind hwait fun _ => ?_
  exact confined_write (hwrite _ _ (by decide) (by decide))

theorem resetPointers_still : Confined (Call.Still Register.corbrp) id (resetPointers (σ := σ) limit) := by
  refine resetPointers_confined still_read (fun o v ho => still_write ?_) fun _ => still_gaveUp
  simp only [List.mem_cons, List.not_mem_nil, or_false] at ho
  obtain rfl | rfl | rfl := ho <;> decide

theorem start_routine (ho : control < Register.dplbase) : Confined Call.Routine id (start (σ := σ) control) :=
  confined_bind (confined_read8 trivial) fun _ => confined_write_routine ho

theorem enlarge_confined {P : Call → Prop} {size : BitVec 32} (hread : P (.read .byte size))
    (hwrite : ∀ v, P (.write .byte size v)) : Confined P id (enlarge (σ := σ) size) := by
  refine confined_bind (confined_read8 hread) fun _ => confined_bind (confined_write (hwrite _)) fun _ => ?_
  exact confined_pure _

theorem enlarge_routine {size : BitVec 32} (ho : size < Register.dplbase) :
    Confined Call.Routine id (enlarge (σ := σ) size) := enlarge_confined trivial fun _ => ho

/-- **A stopped ring stands still**, and what no stopping ends holds after it. -/
theorem stop_keeping (ho : control < Register.dplbase) (hK : Stable (Call.Still control) K)
    (hJ : ∀ h, K h → J h ∧ Sound h) (hh : K h) : Ensures recording n (stop control limit) s h
      (keeping J s fun _ h' => K h' ∧ Stopped ringControls control h') :=
  (((stop_still ho).keeping hK hJ hh).and stop_stopped).mono (fun _ _ _ hk => ⟨hk.1.1, hk.1.2, hk.2⟩)
    (fun _ _ _ hk => hk.1) (fun _ hk => hk.1) (fun _ hk => hk.1)

/-- Both rings stopped, one after the other. -/
theorem stopBoth_keeping {α : Type} {y : Procedure σ α} {ok : α → History → Prop} (hK : Stable Call.Routine K)
    (hJ : ∀ h, K h → J h ∧ Sound h) (hy : ∀ h, K h → RingsStopped h → Ensures recording n y s h (keeping J s ok))
    (hh : K h) : Ensures recording n (do
      stop Register.corbctl limit
      stop Register.rirbctl limit
      y) s h (keeping J s ok) := by
  have hstill : ∀ o, Stable (Call.Still o) K := fun o => hK.mono fun _ hc => hc.1
  refine keeping_bind (stop_keeping (by decide) (hstill _) hJ hh) fun _ h ⟨hh, hcorb⟩ => ?_
  refine keeping_bind (stop_keeping (by decide) ((hstill _).and (Stopped.stable (by decide))) (fun h hk => hJ h hk.1)
    ⟨hh, hcorb⟩) fun _ h ⟨⟨hh, hcorb⟩, hrirb⟩ => ?_
  exact hy h hh (ringsStopped_iff.2 ⟨hcorb, hrirb⟩)

/-- **Rings that were set up hold their memory**; rings that were not hold none, and give none back too early. -/
theorem setUp_keeping {poll : PollPolicy} (hl : Accounts b l h) (hfresh : h.Fresh) :
    Ensures recording n (setUp poll) s h (keeping (Accounts false l) s fun r h' =>
      Accounts b (Transport.held (.rings r) ++ l) h' ∧ h'.Fresh) := by
  have stable : ∀ {l}, Stable Call.Routine fun h => Accounts b l h ∧ h.Fresh := fun {l} =>
    Accounts.stable_routine.and Fresh.stable_routine
  refine stopBoth_keeping stable (fun _ hk => hk.1.lost []) (fun h ⟨hl, hfresh⟩ hs => ?_) ⟨hl, hfresh⟩
  refine keeping_bind (allocate_keeping (u := .ring) hfresh.1 hl fun _ => Accounts.inexact) ?_
  rintro corb _ ⟨rfl, hl⟩
  have hs := hs.allocate (k := corbLength) (a := .ok corb)
  have hfresh := hfresh.allocate (k := corbLength) (a := .ok corb)
  refine ensures_bind.2 (ensures_attempt.2 (ensures_allocate.2 ?_))
  rintro (e | rirb) _ rfl
  · refine keeping_bind (free_keeping (u := .ring) hs.allocate hl.refused fun _ => Accounts.inexact) ?_
    rintro _ _ ⟨-, hl⟩
    exact ⟨rfl, hl.inexact⟩
  · have hJ : ∀ h, Accounts b ([(.ring, rirb), (.ring, corb)] ++ l) h ∧ h.Fresh → Accounts false l h ∧ h.Sound :=
      fun _ hk => hk.1.lost _
    refine Confined.then stable hJ (confined_request (c := .clear _ _) trivial) (fun _ => ?_) _
      ⟨hl.allocate hfresh.1, hfresh.allocate⟩
    refine Confined.then stable hJ (confined_request (c := .clear _ _) trivial) fun _ => ?_
    refine Confined.then stable hJ (confined_writeAddress (by decide) (by decide)) fun _ => ?_
    refine Confined.then stable hJ (confined_writeAddress (by decide) (by decide)) fun _ => ?_
    refine Confined.then stable hJ (enlarge_routine (by decide)) fun corbEntries => ?_
    refine Confined.then stable hJ (enlarge_routine (by decide)) fun rirbEntries => ?_
    refine Confined.then stable hJ (confined_note trivial) fun _ => ?_
    refine Confined.then stable hJ (resetPointers_still.mono fun _ hc => hc.1) fun _ => ?_
    refine Confined.then stable hJ (start_routine (by decide)) fun _ => ?_
    refine Confined.then stable hJ (confined_write_routine (by decide)) fun _ => ?_
    refine Confined.then stable hJ (start_routine (by decide)) fun _ h hk => ?_
    exact ⟨rfl, hk.1.perm (.swap ..), hk.2⟩

/-- **The memory of rings that are taken down** is given back after both were seen to stand still. -/
theorem tearDown_keeping {r : CommandRings} (hl : Accounts b (Transport.held (.rings r) ++ l) h) :
    Ensures recording n r.tearDown s h (keeping (Accounts false l) s fun _ => Accounts b l) := by
  have stable : ∀ {o}, Stable (Call.Still o) (Accounts b (Transport.held (.rings r) ++ l)) :=
    Accounts.stable_routine.mono fun _ hc => hc.1
  refine stopBoth_keeping Accounts.stable_routine (fun _ hl => hl.lost _)
    (fun h hl hs => ?_) hl
  have hstill : Stable (Call.Still Register.corbrp) fun h => Accounts b (Transport.held (.rings r) ++ l) h ∧ h.RingsStopped :=
    stable.and (RingsStopped.stable (by decide) (by decide))
  refine keeping_bind (resetPointers_still.keeping hstill (fun _ hk => hk.1.lost _) ⟨hl, hs⟩) fun _ h ⟨hl, hs⟩ => ?_
  refine keeping_bind (free_keeping (u := .ring) hs hl fun _ hl => hl.lose [(.ring, r.rirb)]) ?_
  rintro _ _ ⟨rfl, hl⟩
  exact (free_keeping (u := .ring) hs.free hl fun _ => Accounts.inexact).mono (fun _ _ _ hk => ⟨hk.1, hk.2.2⟩)
    (fun _ _ _ => id) (fun _ => id) (fun _ => id)

end CommandRings

namespace Transport

variable {σ : Type} {n : Nat} {s : σ} {h : History} {b : Bool} {l : List (Use × Region)}

theorem choose_routine : ∀ preference, Confined Call.Routine id (choose (σ := σ) preference)
  | .immediate | .rings => confined_pure _
  | .auto => by
    refine confined_bind (confined_read16 trivial) fun _ => confined_bind (confined_note trivial) fun _ => ?_
    exact confined_pure _

theorem establish_keeping {config : Config} (hl : Accounts b l h) (hfresh : h.Fresh) :
    Ensures recording n (establish config) s h (keeping (Accounts false l) s fun t h' =>
      Accounts b (t.held ++ l) h' ∧ h'.Fresh) := by
  have stable : Stable Call.Routine fun h => Accounts b l h ∧ h.Fresh :=
    Accounts.stable_routine.and Fresh.stable_routine
  refine Confined.then stable (fun _ hk => hk.1.lost []) (choose_routine _) (fun kind => ?_) h ⟨hl, hfresh⟩
  refine Confined.then stable (fun _ hk => hk.1.lost []) (confined_note trivial) fun _ h hk => ?_
  cases kind with
  | immediate => exact ⟨rfl, hk⟩
  | rings => exact keeping_bind (CommandRings.setUp_keeping hk.1 hk.2) fun r h hk => ⟨rfl, hk⟩

theorem tearDown_keeping : ∀ {t : Transport}, Accounts b (t.held ++ l) h →
    Ensures recording n t.tearDown s h (keeping (Accounts false l) s fun _ => Accounts b l)
  | .immediate _, hl => ⟨rfl, hl⟩
  | .rings _, hl => CommandRings.tearDown_keeping hl

end Transport

namespace Controller

variable {n : Nat} {c : Controller} {h : History} {b : Bool} {l : List (Use × Region)}

theorem establishTransport_holds (hl : Accounts b l h) (hfresh : h.Fresh) :
    Ensures recording n establishTransport c h ⟨fun _ c' h' => ∃ t, c' = { c with transport := some t } ∧
      Accounts b (t.held ++ l) h' ∧ h'.Fresh, fun _ c' h' => c' = c ∧ Accounts false l h', Sound, Sound⟩ := by
  refine ensures_bind.2 (ensures_get.2 (ensures_bind.2 ?_))
  refine (Transport.establish_keeping hl hfresh).mono ?_ (fun _ _ _ => id) (fun _ => id) (fun _ => id)
  rintro t _ h' ⟨rfl, hk⟩
  exact ⟨t, rfl, hk⟩

/-- Whether it fails or not, there is no transport after it was taken down. -/
theorem tearDownTransport_holds (hl : Accounts b (c.held.getD [] ++ l) h) :
    Ensures recording n tearDownTransport c h ⟨fun _ c' h' => c' = { c with transport := none } ∧ Accounts b l h',
      fun _ c' h' => c' = { c with transport := none } ∧ Accounts false l h', Sound, Sound⟩ := by
  obtain ⟨config, codecs, _ | t⟩ := c
  · exact ⟨rfl, hl⟩
  · refine ensures_bind.2 (ensures_get.2 (ensures_bind.2 (ensures_modify.2 (ensures_bind.2 (ensures_note.2 ?_)))))
    rintro _ rfl
    exact Transport.tearDown_keeping (hl.call trivial)

end Controller
end AudioBringup
