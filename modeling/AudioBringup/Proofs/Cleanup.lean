import AudioBringup.Proofs.Underway
/-!
# Proofs.Cleanup — whatever fails, everything is undone once and nothing too early

Each step of the cleanup takes what is due one step further (`freeStreams_step`, `tearDown_step`, `release_step`), so what
was played through and what was given up both come to an end with nothing due (`run_finished`).  From there come what a run
gives back and when (`run_frees_stopped`), and in which order it cleans up and what it fails with (`run_orderly`).
-/
namespace AudioBringup
namespace Bringup

open Procedure History Step

variable {σ α β : Type} {n : Nat} {config : Config} {waveform : Array Byte} {s s' : Holding} {b : Bringup}
  {h h' : History} {step : Step} {failed : Option Error} {forward back : List (Step × Option Error)}

/-! ### The cleanup -/

theorem Underway.note {m : Notice} (hm : Call.Plain (.note m))
    (hu : Underway n config waveform failed forward back s h) :
    Underway n config waveform failed forward back s (⟨.note m, ()⟩ :: h) :=
  ⟨⟨hu.performed.note, hu.ordered, hu.went, hu.first⟩, hu.due, hu.accounts.call (c := .note m) trivial,
    fun t ht => Streams.Ready.stable (.note m) () h (Streams.sparing_note hm) (hu.ready t ht)⟩

/-- One more step of the cleanup; what it failed with counts if nothing failed before it. -/
theorem Underway.then {r : Except Error Unit} (hu : Underway n config waveform failed forward back s h)
    (goes : Goes n waveform step s h (failureOf r) s' h') (hpends : pending s.toBringup = step :: pending s'.toBringup)
    (hl : Accounts (failed.or (failureOf r)).isNone s'.held h')
    (hready : ∀ streams, s'.streams = some streams → streams.Ready h') :
    Underway n config waveform (failed.or (failureOf r)) forward (back ++ [(step, failureOf r)]) s' h' where
  performed := by
    rw [← List.append_assoc]
    exact hu.performed.step goes
  ordered := hu.ordered
  went := hu.went
  first := by
    rw [← List.append_assoc, firstFailure_append, hu.first, firstFailure_singleton]
  due := by
    rw [← hu.due, hpends, List.map_append, List.append_assoc]
    rfl
  accounts := hl
  ready := hready

/-- After a step that failed the books need not balance. -/
theorem accounts_or {l : List (Use × Region)} (e : Error) (hl : Accounts false l h) :
    Accounts (failed.or (some e)).isNone l h := by
  cases failed with
  | none => exact hl
  | some _ => exact hl

theorem freeStreams_step {streams : Streams} (hu : Underway n config waveform failed forward back s h)
    (there : s.streams = some streams) :
    Ensures recording n streams.release s.controller h
      ⟨fun _ c h' => ∃ back, Underway n config waveform failed forward back { s with controller := c, streams := none } h',
        fun e c h' => ∃ back, Underway n config waveform (failed.or (some e)) forward back
          { s with controller := c, streams := none } h', Sound, Sound⟩ := by
  obtain ⟨⟨controller, _⟩, found, topology⟩ := s
  obtain rfl := there
  refine (Streams.release_keeping (l := controller.held.getD []) hu.accounts (hu.ready _ rfl)).withEnds ?_ (fun _ => id)
    fun _ => id
  rintro (e | ⟨⟩) c h' he ⟨rfl, hl⟩
  · exact ⟨_, hu.then (.freeStreams rfl he) rfl (accounts_or e hl) nofun⟩
  · rw [← failed.or_none] at hl ⊢
    exact ⟨_, hu.then (r := .ok ()) (.freeStreams rfl he) rfl hl nofun⟩

theorem tearDown_step (hu : Underway n config waveform failed forward back s h) (hnone : s.streams = none) :
    Ensures recording n Controller.tearDownTransport s.controller h
      ⟨fun _ c h' => c.held = none ∧ ∃ back, Underway n config waveform failed forward back { s with controller := c } h',
        fun e c h' => c.held = none ∧
          ∃ back, Underway n config waveform (failed.or (some e)) forward back { s with controller := c } h',
        Sound, Sound⟩ := by
  obtain ⟨⟨⟨limits, codecs, transport⟩, streams⟩, found, topology⟩ := s
  obtain rfl : streams = none := hnone
  cases transport with
  | none => exact ⟨rfl, back, hu⟩
  | some t =>
    have hl : Accounts failed.isNone (t.held ++ []) h := by
      rw [List.append_nil]
      exact hu.accounts
    refine (Controller.tearDownTransport_holds (c := ⟨limits, codecs, some t⟩) hl).withEnds ?_ (fun _ => id) fun _ => id
    rintro (e | ⟨⟩) c h' he ⟨rfl, hl⟩
    · exact ⟨rfl, _, hu.then (.tearDown rfl he) rfl (accounts_or e hl) nofun⟩
    · rw [← failed.or_none] at hl ⊢
      exact ⟨rfl, _, hu.then (r := .ok ()) (.tearDown rfl he) rfl hl nofun⟩

/-- **Plays, and cleans up what it can**: what is left to be done when it comes to its end is what is due and was not done. -/
theorem playThrough_underway {identity : Pci.Identity}
    (hs : Playing n config waveform Fresh [.release] [.discover, .bind] s h) :
    Ensures recording n (playThrough identity waveform) s.toBringup h (playing n config waveform fun _ b h =>
      ∃ back s, s.toBringup = b ∧ pending b = [.release] ∧
        Underway n config waveform none (order.map (·, none)) back s h) := by
  refine ensures_bind.2 ((play_underway hs).mono ?_ (fun _ _ _ => id) (fun _ => id) fun _ => id)
  rintro summary _ h ⟨s, rfl, hu⟩
  have take : ∀ {back s h}, s.streams = none → Underway n config waveform none (order.map (·, none)) back s h →
      Ensures recording n (onController Controller.tearDownTransport >>= fun _ => Pure.pure summary) s.toBringup h
        (playing n config waveform fun _ b h => ∃ back s, s.toBringup = b ∧ pending b = [.release] ∧
          Underway n config waveform none (order.map (·, none)) back s h) := by
    intro back s h hnone hu
    refine ensures_bind.2 (onController_of (tearDown_step hu hnone) ?_ (fun _ => id) fun _ => id)
    rintro (e | ⟨⟩) c h' - ⟨hc, back, hu⟩
    · exact ⟨_, back, _, rfl, hu⟩
    · exact ⟨back, _, rfl, pending_release.2 ⟨hnone, hc⟩, hu⟩
  refine ensures_bind.2 (ensures_get.2 ?_)
  obtain ⟨⟨controller, streams⟩, found, topology⟩ := s
  cases streams with
  | none => exact take rfl hu
  | some streams =>
    refine ensures_bind.2 (ensures_modify.2 (ensures_bind.2 (onController_of (freeStreams_step hu rfl) ?_ (fun _ => id)
      fun _ => id)))
    rintro (e | ⟨⟩) c h' - ⟨back, hu⟩
    · exact ⟨_, back, _, rfl, hu⟩
    · exact take rfl hu

/-! ### The end of a run -/

/-- The controller was given up once, and nothing but notices came after that. -/
def Released (h : History) : Prop :=
  ∃ notes a h₀, h = notes ++ ⟨.release, a⟩ :: h₀ ∧ (∀ m ∈ notes, ∃ notice, m.call = .note notice) ∧
    ∀ m ∈ h₀, m.call ≠ .release

/-- **An orderly run**: it took some of its steps in their order, none after one that failed, and then the cleanup that is
due after those; the first step of either kind to fail did so with `failed`, or none did; it gave up the controller at its
end if it had claimed it, and not otherwise. -/
structure Orderly (n : Nat) (config : Config) (waveform : Array Byte) (failed : Option Error)
    (forward back : List (Step × Option Error)) (s : Holding) (h : History) : Prop
    extends Took n config waveform failed forward back s h where
  cleaned : back.map Prod.fst = cleanup forward
  released : (.bind, none) ∈ forward → Released h
  unbound : (.bind, none) ∉ forward → ∀ m ∈ h, m.call ≠ .release

/-- A run that came to its end with its books kept. -/
structure Finished (n : Nat) (config : Config) (waveform : Array Byte) (failed : Option Error)
    (forward back : List (Step × Option Error)) (s : Holding) (h : History) : Prop
    extends Orderly n config waveform failed forward back s h where
  books : Books failed.isNone [] h

/-- A run that came to its end without a result, for the error. -/
def Ended (n : Nat) (config : Config) (waveform : Array Byte) (e : Error) (h : History) : Prop :=
  ∃ forward back s, Finished n config waveform (some e) forward back s h

theorem Finished.note {m : Notice}
    (hf : Finished n config waveform failed forward back s h) (hbound : (.bind, none) ∈ forward) :
    Finished n config waveform failed forward back s (⟨.note m, ()⟩ :: h) := by
  refine ⟨⟨⟨hf.performed.note, hf.ordered, hf.went, hf.first⟩, hf.cleaned, fun _ => ?_, fun hb => (hb hbound).elim⟩,
    hf.books.skip rfl rfl⟩
  obtain ⟨notes, a, h₀, rfl, hnotes, h₀s⟩ := hf.released hbound
  exact ⟨⟨.note m, ()⟩ :: notes, a, h₀, rfl, List.forall_mem_cons.2 ⟨⟨m, rfl⟩, hnotes⟩, h₀s⟩

/-- Whoever is to give up the controller has claimed it. -/
theorem Underway.bound (hu : Underway n config waveform failed forward back s h) :
    (.bind, none) ∈ forward := by
  have hrelease : Step.release ∈ cleanup forward := by
    rw [← hu.due]
    exact List.mem_append_right _ (List.mem_append_right _ (List.mem_singleton.2 rfl))
  by_cases hbound : (.bind, none) ∈ forward
  · exact hbound
  · have hother : ∀ {c : Prop} [Decidable c] {step}, Step.release ≠ step → Step.release ∉ if c then [step] else [] := by
      intro c _ step hne
      split
      · exact fun hm => hne (List.mem_singleton.1 hm)
      · exact List.not_mem_nil
    rw [cleanup, if_neg hbound, List.append_nil] at hrelease
    rcases List.mem_append.1 hrelease with hm | hm
    · exact (hother (by decide) hm).elim
    · exact (hother (by decide) hm).elim

theorem release_step (r : Except Error Unit) (hu : Underway n config waveform failed forward back s h)
    (hpends : pending s.toBringup = [.release]) :
    Finished n config waveform (failed.or (failureOf r)) forward (back ++ [(.release, failureOf r)]) s
      (⟨.release, r⟩ :: h) := by
  obtain ⟨hstreams, hnone⟩ := pending_release.1 hpends
  have hl := hu.accounts
  rw [held, hstreams, hnone] at hl
  have hl : Accounts (failed.or (failureOf r)).isNone [] h := by
    rcases r with e | ⟨⟩
    · exact accounts_or e hl.inexact
    · rw [failureOf, Option.or_none]
      exact hl
  refine ⟨⟨⟨?_, hu.ordered, hu.went, ?_⟩, ?_, fun _ => ⟨[], r, h, rfl, fun _ hm => (List.not_mem_nil hm).elim, hl.bound⟩,
    fun hb => (hb hu.bound).elim⟩, hl.skip rfl rfl⟩
  · rw [← List.append_assoc]
    exact hu.performed.step (.release (t := ()) ⟨r, _, rfl, rfl, rfl⟩)
  · rw [← List.append_assoc, firstFailure_append, hu.first, firstFailure_singleton]
  · rw [← hu.due, hpends, List.map_append]
    rfl

theorem ensures_tolerate {x : Procedure Bringup Unit} {notice : Error → Notice} {Q : Outcome Bringup Unit History}
    (hx : Ensures recording n x b h ⟨Q.ok, fun e b h => Q.ok () b (⟨.note (notice e), ()⟩ :: h), Q.misused, Q.stuck⟩) :
    Ensures recording n (tolerate x notice) b h Q := by
  refine ensures_bind.2 (ensures_attempt.2 (hx.mono (fun _ _ _ => id) (fun e b h hh => ?_) (fun _ => id) fun _ => id))
  refine (ensures_note (n := n)).2 ?_
  rintro _ rfl
  exact hh

/-- **What is left of the cleanup when a run fails is all made**, whatever of it fails as well: the run fails with what it
failed with before. -/
theorem abandon_ended {e : Error} (hu : Underway n config waveform (some e) forward back s h) :
    Ensures recording n abandon s.toBringup h (.always (fun _ => Ended n config waveform e) Sound) := by
  have last : ∀ {back s b h}, s.streams = none → s.controller = b.controller →
      Underway n config waveform (some e) forward back s h → Ensures recording n (do
        tolerate (onController Controller.tearDownTransport) .transportNotTornDown
        tolerate Procedure.release .controllerNotReleased) b h (.always (fun _ => Ended n config waveform e) Sound) := by
    intro back s b h hnone hcontroller hu
    have released : ∀ {c h back}, Controller.held c = none →
        Underway n config waveform (some e) forward back { s with controller := c } h →
        Ensures recording n (tolerate Procedure.release .controllerNotReleased) { b with controller := c } h
          (.always (fun _ => Ended n config waveform e) Sound) := by
      intro c h back hc hu
      refine ensures_tolerate (ensures_release.2 ?_)
      rintro (e' | ⟨⟩) _ rfl
      · exact ⟨_, _, _, (release_step _ hu (pending_release.2 ⟨hnone, hc⟩)).note hu.bound⟩
      · exact ⟨_, _, _, release_step _ hu (pending_release.2 ⟨hnone, hc⟩)⟩
    refine ensures_bind.2 (ensures_tolerate (onController_of (hcontroller ▸ tearDown_step hu hnone) ?_ (fun _ => id)
      fun _ => id))
    rintro (e' | ⟨⟩) c h' - ⟨hc, back, hu⟩
    · exact released hc (hu.note trivial)
    · exact released hc hu
  refine ensures_bind.2 (ensures_get.2 ?_)
  obtain ⟨⟨controller, streams⟩, found, topology⟩ := s
  cases streams with
  | none => exact last rfl rfl hu
  | some streams =>
    refine ensures_bind.2 (ensures_tolerate (onController_of (freeStreams_step hu rfl) ?_ (fun _ => id) fun _ => id))
    rintro (e' | ⟨⟩) c h' - ⟨back, hu⟩
    · exact last rfl rfl (hu.note trivial)
    · exact last rfl rfl hu

/-- A run from when it has claimed the controller: it plays, and either gives the controller up or abandons it. -/
theorem claimed_ended {t : σ} {identity : Pci.Identity}
    (hs : Playing n config waveform Fresh [.release] [.discover, .bind] s h) :
    Ensures recording n (do
      match ← within s.toBringup (playThrough identity waveform) with
      | (.ok summary, _) =>
        Procedure.release
        note .completed
        return summary
      | (.error e, state) =>
        note (.failed e)
        let _ ← within state abandon
        fail e) t h
      ⟨fun _ _ h => ∃ back s, Finished n config waveform none (order.map (·, none)) back s h,
        fun e _ => Ended n config waveform e, Sound, Sound⟩ := by
  refine ensures_bind.2 (ensures_within.2 ((playThrough_underway hs).mono ?_ ?_ (fun _ => id) fun _ => id))
  · rintro summary _ h ⟨back, s, rfl, hpends, hu⟩
    refine ensures_bind.2 (ensures_release.2 ?_)
    rintro (e | ⟨⟩) _ rfl
    · exact ⟨_, _, _, release_step (.error e) hu hpends⟩
    · refine ensures_bind.2 (ensures_note.2 ?_)
      rintro _ rfl
      exact ⟨_, _, (release_step (.ok ()) hu hpends).note hu.bound⟩
  · rintro e _ h ⟨forward, back, s, rfl, hu⟩
    refine ensures_bind.2 (ensures_note.2 ?_)
    rintro _ rfl
    have hu := hu.note (m := .failed e) trivial
    exact ensures_bind.2 (ensures_within.2 ((abandon_ended hu).mono (fun _ _ _ => id) (fun _ _ _ => id) (fun _ => id)
      fun _ => id))

theorem unbound_finished (ht : Took n config waveform failed forward [] s h) (hbound : (.bind, none) ∉ forward)
    (hcleaned : cleanup forward = []) (hl : Accounts failed.isNone [] h) :
    Finished n config waveform failed forward [] s h :=
  ⟨⟨ht, hcleaned.symm, fun hb => (hbound hb).elim, fun _ => hl.bound⟩, hl.toBooks⟩

/-- **A run takes some of its steps and the cleanup that is due**, and fails with what the first of them to fail failed with;
if it comes to a result it took them all, and its books balance. -/
theorem run_finished {t : σ} : Ensures recording n (run config waveform) t []
    ⟨fun _ _ h => ∃ back s, Finished n config waveform none (order.map (·, none)) back s h,
      fun e _ => Ended n config waveform e, Sound, Sound⟩ := by
  have hK : Stable Call.Plain fun h => Accounts true [] h ∧ h.Fresh := Accounts.stable_plain.and Fresh.stable
  have hdiscover : Confined Call.Plain id (Pci.discover (σ := σ)) := Pci.discover_routine.mono fun _ hc => hc.plain
  refine ensures_bind.2 ((hdiscover.keeps hK ⟨.nil, fresh_nil⟩).withEnds ?_ (fun _ hk => hk.1.sound)
    fun _ hk => hk.1.sound)
  rintro (e | ⟨candidate, identity⟩) _ h he ⟨rfl, hl, hfresh⟩
  · -- no controller was found
    have hp : Performed n waveform config ([(.discover, some e)] ++ []) _ h := Performed.begin.step (.discover he)
    exact ⟨_, _, _, unbound_finished ⟨hp, ⟨_, rfl⟩, by simp, rfl⟩ (by simp) rfl hl.inexact⟩
  · have hp : Performed n waveform config [(.discover, none)] _ h := Performed.begin.step (.discover he)
    refine ensures_bind.2 (ensures_bindExclusive.2 ?_)
    rintro r _ rfl
    have hgoes : Goes n waveform .bind { controller := { config }, found := some (candidate, identity) } h (failureOf r)
        { controller := { config }, found := some (candidate, identity) } (⟨.bindExclusive candidate, r⟩ :: h) :=
      .bind (t := ()) rfl ⟨r, _, rfl, rfl, rfl⟩
    have hl := hl.call (c := .bindExclusive candidate) (a := r) trivial
    rcases r with e | ⟨⟩
    · -- it could not be claimed
      have hp : Performed n waveform config ([(.discover, none), (.bind, some e)] ++ []) _ _ := hp.step hgoes
      exact ⟨_, _, _, unbound_finished ⟨hp, ⟨_, rfl⟩, by simp, rfl⟩ (by simp) rfl hl.inexact⟩
    · exact claimed_ended ⟨hp.step hgoes, hl, rfl, nofun, Fresh.stable (.bindExclusive _) _ _ trivial hfresh⟩

/-- **No memory is given back while the hardware may still use it**, whatever the platform answers and however the run
ends: a ring's not before both rings were seen to stand still, the streams' not before position reporting was turned off and
every engine that was set running was seen to stand still. -/
theorem run_frees_stopped {t : σ} :
    Ensures recording n (run config waveform) t [] (.always (fun _ => Sound) Sound) := by
  refine run_finished.mono ?_ ?_ (fun _ => id) fun _ => id
  · exact fun _ _ _ ⟨_, _, hf⟩ => hf.books.sound
  · exact fun _ _ _ ⟨_, _, _, hf⟩ => hf.books.sound

/-- **Every run that comes back is orderly and gives no memory back twice**; one that comes back with a result took every
step, none of which failed, and gave back all it had, and one that comes back with an error comes back with what the first of
its steps to fail failed with. -/
theorem run_orderly {t : σ} : Ensures recording n (run config waveform) t []
    ⟨fun _ _ h => (∃ back s, Orderly n config waveform none (order.map (·, none)) back s h) ∧ h.Once ∧
        (h.allocated.Nodup → h.freed.Nodup) ∧ h.freed.Perm h.allocated ∧ h.Taken,
      fun e _ h => (∃ forward back s, Orderly n config waveform (some e) forward back s h) ∧ h.Once ∧
        (h.allocated.Nodup → h.freed.Nodup), fun _ => True, fun _ => True⟩ := by
  refine run_finished.mono ?_ ?_ (fun _ _ => trivial) fun _ _ => trivial
  · rintro _ _ h ⟨back, s, hf⟩
    refine ⟨⟨back, s, hf.toOrderly⟩, hf.books.once, hf.books.freed_nodup, List.perm_iff_count.2 fun g => ?_,
      hf.books.taken rfl⟩
    exact hf.books.balanced rfl g
  · rintro _ _ h ⟨forward, back, s, hf⟩
    exact ⟨⟨forward, back, s, hf.toOrderly⟩, hf.books.once, hf.books.freed_nodup⟩

end Bringup
end AudioBringup
