import AudioBringup.Proofs.Steps
/-!
# Proofs.Underway — what a run owes at every step

A run is underway (`Underway`) when the cleanup it has made and the cleanup its state still asks for are together the
cleanup that is due after its steps, and its books are kept.  As long as no step fails nothing of it has been made
(`Playing`); whichever step fails, the run is underway (`confined_step` to `linger_step`), and so it is when it has played
(`play_underway`).
-/
namespace AudioBringup
namespace Bringup

open Procedure History Step

/-- The memory a run holds. -/
def held (b : Bringup) : List (Use × Region) := b.streams.elim [] Streams.held ++ b.controller.held.getD []

/-- The cleanup that is still to be made from a state. -/
def pending (b : Bringup) : List Step :=
  (if b.streams.isSome then [.freeStreams] else []) ++ (if b.controller.held.isSome then [.tearDown] else []) ++ [.release]

section
variable (n : Nat) (config : Config) (waveform : Array Byte)

/-- A run that took the steps `forward` in their order, none of them after one that failed, and then the steps `back`; the
first of all of them to fail did so with `failed`, or none did. -/
structure Took (failed : Option Error) (forward back : List (Step × Option Error)) (s : Holding) (h : History) : Prop where
  performed : Performed n waveform config (forward ++ back) s h
  ordered : forward.map Prod.fst <+: order
  went : ∀ p ∈ forward.dropLast, p.2 = none
  first : firstFailure (forward ++ back) = failed

/-- A run that made the part `back` of its cleanup, and still holds what asks for the rest. -/
structure Underway (failed : Option Error) (forward back : List (Step × Option Error)) (s : Holding) (h : History) : Prop
    extends Took n config waveform failed forward back s h where
  due : back.map Prod.fst ++ pending s.toBringup = cleanup forward
  accounts : Accounts failed.isNone s.held h
  ready : ∀ streams, s.streams = some streams → streams.Ready h

/-- A run that took the steps `steps`, none of which failed, after which `E` holds and the cleanup `p` is to be made. -/
structure Playing (E : History → Prop) (p steps : List Step) (s : Holding) (h : History) : Prop where
  performed : Performed n waveform config (steps.map (·, none)) s h
  accounts : Accounts true s.held h
  pends : pending s.toBringup = p
  ready : ∀ h, E h → ∀ streams, s.streams = some streams → streams.Ready h
  holds : E h

/-- What there is when a run fails before it is cleaned up, or while it is. -/
def playing {α : Type} (ok : α → Bringup → History → Prop) : Outcome Bringup α History where
  ok := ok
  error e b h := ∃ forward back s, s.toBringup = b ∧ Underway n config waveform (some e) forward back s h
  misused := Sound
  stuck := Sound

end

variable {σ α β : Type} {n : Nat} {config : Config} {waveform : Array Byte} {s s' : Holding} {b : Bringup}
  {h h' : History} {steps p : List Step} {step : Step} {failed : Option Error} {E : History → Prop}

/-- The run when a step fails, with nothing of the cleanup made. -/
theorem underway_of_failed {e : Error} (hs : Performed n waveform config (steps.map (·, none)) s h)
    (goes : Goes n waveform step s h (some e) s' h') (hordered : steps ++ [step] <+: order)
    (hdue : pending s'.toBringup = cleanup (steps.map (·, none))) (hl : Accounts false s'.held h')
    (hready : ∀ streams, s'.streams = some streams → streams.Ready h') :
    Underway n config waveform (some e) (steps.map (·, none) ++ [(step, some e)]) [] s' h' where
  performed := by
    rw [List.append_nil]
    exact hs.step goes
  ordered := by
    rw [List.map_append, List.map_map, List.map_id'']
    · exact hordered
    · exact fun _ => rfl
  went q hq := by
    rw [List.dropLast_concat] at hq
    obtain ⟨_, -, rfl⟩ := List.mem_map.1 hq
    rfl
  first := by
    rw [List.append_nil, firstFailure_append, firstFailure_fine]
    rfl
  due := hdue.trans (cleanup_failed _ _ e).symm
  accounts := hl
  ready := hready

/-- A procedure of the controller within a run, by what it ensures and how it ends. -/
theorem onController_of {x : Procedure Controller α} {P : Outcome Controller α History} {Q : Outcome Bringup α History}
    (hx : Ensures recording n x b.controller h P)
    (hafter : ∀ r c h', Ends recording n x b.controller h r c h' → P.after r c h' →
      Q.after r { b with controller := c } h')
    (hmisused : ∀ h, P.misused h → Q.misused h) (hstuck : ∀ h, P.stuck h → Q.stuck h) :
    Ensures recording n (onController x) b h Q := by
  refine ensures_bind.2 (ensures_get.2 (ensures_on.2 (hx.withEnds (fun r c h' he hp => ?_) hmisused hstuck)))
  cases r with
  | ok a => exact hafter _ c h' he hp
  | error e => exact hafter _ c h' he hp

/-- **A step that is confined to calls that leave memory alone**, and keeps what the transport holds. -/
theorem confined_step {P : Call → Prop} {x : Procedure Controller α} {g : α → Procedure Bringup β}
    {next : Except Error α → Controller → Holding} {ok : β → Bringup → History → Prop}
    (hx : Confined P Controller.held x) (hP : ∀ c, P c → c.Plain) (hE : Stable P E)
    (hs : Playing n config waveform E p steps s h)
    (hgoes : ∀ {r c h'}, Ends recording n x s.controller h r c h' → Goes n waveform step s h (failureOf r) (next r c) h')
    (hnext : ∀ r c, (next r c).toBringup = { s.toBringup with controller := c })
    (hordered : steps ++ [step] <+: order) (hdue : p = cleanup (steps.map (·, none)))
    (hok : ∀ a s' h', s'.streams = s.streams → (∃ c, s' = next (.ok a) c) →
      Playing n config waveform E p (steps ++ [step]) s' h' →
      Ensures recording n (g a) s'.toBringup h' (playing n config waveform ok)) :
    Ensures recording n (onController x >>= g) s.toBringup h (playing n config waveform ok) := by
  have hK : Stable P fun h => Accounts true s.held h ∧ E h := (Accounts.stable_plain.mono hP).and hE
  refine ensures_bind.2 (onController_of (hx.keeps hK ⟨hs.accounts, hs.holds⟩) ?_ (fun _ hk => hk.1.sound)
    fun _ hk => hk.1.sound)
  have hheld : ∀ {r c}, c.held = s.controller.held → (next r c).held = s.held ∧ pending (next r c).toBringup = p := by
    intro r c hc
    rw [hnext, held, pending, hc]
    exact ⟨rfl, hs.pends⟩
  have hstreams : ∀ {r c streams}, (next r c).streams = some streams → s.streams = some streams := by
    intro r c streams ht
    rw [hnext] at ht
    exact ht
  rintro (e | a) c h' he ⟨hc, hl, hh⟩
  · exact ⟨_, _, _, hnext (.error e) c, underway_of_failed hs.performed (hgoes he) hordered ((hheld hc).2.trans hdue)
      ((hheld hc).1 ▸ hl.inexact) fun t ht => hs.ready h' hh t (hstreams ht)⟩
  · have hp := hs.performed.step (hgoes he)
    rw [← hnext (.ok a) c]
    refine hok a _ h' (by rw [hnext]) ⟨c, rfl⟩ ⟨?_, (hheld hc).1 ▸ hl, (hheld hc).2,
      fun h hh t ht => hs.ready h hh t (hstreams ht), hh⟩
    rw [List.map_append]
    exact hp

theorem Playing.note {m : Notice} (hE : E (⟨.note m, ()⟩ :: h)) (hs : Playing n config waveform E p steps s h) :
    Playing n config waveform E p steps s (⟨.note m, ()⟩ :: h) :=
  ⟨hs.performed.note, hs.accounts.call (c := .note m) trivial, hs.pends, hs.ready, hE⟩

theorem Playing.underway (hs : Playing n config waveform E p order s h) (hdue : p = cleanup (order.map (·, none))) :
    Underway n config waveform none (order.map (·, none)) [] s h where
  performed := by
    rw [List.append_nil]
    exact hs.performed
  ordered := by decide
  went := by decide
  first := rfl
  due := hs.pends.trans hdue
  accounts := hs.accounts
  ready := hs.ready h hs.holds

theorem pending_release : pending b = [.release] ↔ b.streams = none ∧ b.controller.held = none := by
  unfold pending
  cases b.streams <;> cases b.controller.held <;> simp

theorem pending_tearDown : pending b = [.tearDown, .release] ↔ b.streams = none ∧ b.controller.held.isSome := by
  unfold pending
  cases b.streams <;> cases b.controller.held <;> simp

theorem establish_step {g : TransportKind → Procedure Bringup β} {ok : β → Bringup → History → Prop}
    (hs : Playing n config waveform Fresh [.release] steps s h) (hordered : steps ++ [.establish] <+: order)
    (hdue : [.release] = cleanup (steps.map (·, none)))
    (hok : ∀ kind s' h', Playing n config waveform Fresh [.tearDown, .release] (steps ++ [.establish]) s' h' →
      Ensures recording n (g kind) s'.toBringup h' (playing n config waveform ok)) :
    Ensures recording n (onController Controller.establishTransport >>= g) s.toBringup h (playing n config waveform ok) := by
  obtain ⟨⟨controller, streams⟩, found, topology⟩ := s
  obtain ⟨hstreams, hnone⟩ := pending_release.1 hs.pends
  obtain rfl : streams = none := hstreams
  have hl : Accounts true [] h := by
    have hl := hs.accounts
    rw [held, hnone] at hl
    exact hl
  refine ensures_bind.2 (onController_of (Controller.establishTransport_holds hl hs.holds) ?_ (fun _ => id) fun _ => id)
  rintro (e | kind) c h' he hk
  · obtain ⟨rfl, hl⟩ := hk
    refine ⟨_, _, _, rfl, underway_of_failed hs.performed (.establish he) hordered (hs.pends.trans hdue) ?_ nofun⟩
    rw [held, hnone]
    exact hl
  · obtain ⟨t, rfl, hl, hfresh⟩ := hk
    refine hok kind ⟨⟨_, none⟩, found, topology⟩ h' ⟨?_, ?_, rfl, nofun, hfresh⟩
    · rw [List.map_append]
      exact hs.performed.step (.establish he)
    · rw [List.append_nil] at hl
      exact hl

theorem allocate_step {g : Streams → Procedure Bringup β} {ok : β → Bringup → History → Prop}
    (hs : Playing n config waveform Fresh [.tearDown, .release] steps s h) (hordered : steps ++ [.allocate] <+: order)
    (hdue : [.tearDown, .release] = cleanup (steps.map (·, none)))
    (hok : ∀ streams b s' h', streams.sample = none → streams.programmed = none → s'.streams = some streams →
      s'.toBringup = { b with streams := some streams } →
      Playing n config waveform Filled [.freeStreams, .tearDown, .release] (steps ++ [.allocate]) s' h' →
      Ensures recording n (g streams) b h' (playing n config waveform ok)) :
    Ensures recording n (onController Streams.allocate >>= g) s.toBringup h (playing n config waveform ok) := by
  obtain ⟨⟨controller, streams⟩, found, topology⟩ := s
  obtain ⟨hstreams, hsome⟩ := pending_tearDown.1 hs.pends
  obtain rfl : streams = none := hstreams
  refine ensures_bind.2 (onController_of (Streams.allocate_keeping (l := controller.held.getD []) hs.accounts hs.holds) ?_
    (fun _ => id) fun _ => id)
  rintro (e | streams) c h' he hk
  · obtain ⟨rfl, hl⟩ := hk
    exact ⟨_, _, _, rfl, underway_of_failed hs.performed (.allocate he) hordered (hs.pends.trans hdue) hl nofun⟩
  · obtain ⟨rfl, hl, hfilled, hsample, hprogrammed⟩ := hk
    refine hok streams _ ⟨⟨c, some streams⟩, found, topology⟩ h' hsample hprogrammed rfl rfl ⟨?_, hl, ?_, ?_, hfilled⟩
    · rw [List.map_append]
      exact hs.performed.step (.allocate he)
    · simp [pending, hsome]
    · exact fun _ hh _ _ => Streams.ready_of_filled hh

theorem program_step {g : List NodeAddr × Streams → Procedure Bringup β} {ok : β → Bringup → History → Prop}
    {streams : Streams} (hs : Playing n config waveform Filled [.freeStreams, .tearDown, .release] steps s h)
    (there : s.streams = some streams) (hsample : streams.sample = none) (hprogrammed : streams.programmed = none)
    (hordered : steps ++ [.program] <+: order)
    (hdue : [.freeStreams, .tearDown, .release] = cleanup (steps.map (·, none)))
    (hok : ∀ outputs streams s' h', s'.streams = some streams →
      Playing n config waveform streams.Ready [.freeStreams, .tearDown, .release] (steps ++ [.program]) s' h' →
      Ensures recording n (g (outputs, streams)) s'.toBringup h' (playing n config waveform ok)) :
    Ensures recording n (onStreams streams (do return (← Streams.program s.topology waveform, (← get).2)) >>= g)
      s.toBringup h (playing n config waveform ok) := by
  obtain ⟨⟨controller, _⟩, found, topology⟩ := s
  obtain rfl := there
  have hpends : ∀ {c : Controller} {streams : Streams}, c.held = controller.held →
      pending ⟨c, some streams⟩ = [.freeStreams, .tearDown, .release] := by
    rintro c streams hc
    rw [← hs.pends, pending, pending, hc]
    rfl
  refine ensures_bind.2 (ensures_bind.2 (ensures_get.2 (ensures_on.2 (ensures_bind.2 ?_))))
  refine (Streams.program_holds (l := controller.held.getD []) hs.accounts hs.holds hsample hprogrammed).withEnds ?_
    (fun _ => id) fun _ => id
  have hheld : ∀ {exact c streams h}, Controller.held c = controller.held →
      Accounts exact (Streams.held streams ++ controller.held.getD []) h → Accounts exact (held ⟨c, some streams⟩) h := by
    intro exact c streams h hc hl
    rw [← hc] at hl
    exact hl
  rintro (e | outputs) ⟨c, t⟩ h' he ⟨hc, hl, hready⟩
  · refine ⟨_, _, _, rfl, underway_of_failed hs.performed (.program rfl he) hordered ((hpends hc).trans hdue) (hheld hc hl) ?_⟩
    · rintro _ ⟨⟩
      exact hready
  · refine hok outputs t ⟨⟨c, some t⟩, found, topology⟩ h' rfl ⟨?_, ?_, hpends hc, ?_, hready⟩
    · rw [List.map_append]
      exact hs.performed.step (.program rfl he)
    · exact hheld hc hl
    · rintro h hh _ ⟨⟩
      exact hh

theorem linger_step {g : Unit → Procedure Bringup β} {ok : β → Bringup → History → Prop}
    (hE : ∀ k a h, E h → E (⟨.stall k, a⟩ :: h)) (hs : Playing n config waveform E p steps s h)
    (hordered : steps ++ [.linger] <+: order) (hdue : p = cleanup (steps.map (·, none)))
    (hok : ∀ h', Playing n config waveform E p (steps ++ [.linger]) s h' →
      Ensures recording n (g ()) s.toBringup h' (playing n config waveform ok)) :
    Ensures recording n (if 0 < s.controller.config.playbackLinger then
      stall s.controller.config.playbackLinger >>= g else g ()) s.toBringup h (playing n config waveform ok) := by
  have hperformed : ∀ {h'}, Goes n waveform Step.linger s h none s h' →
      Performed n waveform config ((steps ++ [Step.linger]).map (·, none)) s h' := by
    intro h' hgoes
    rw [List.map_append]
    exact hs.performed.step hgoes
  by_cases hwanted : 0 < s.controller.config.playbackLinger
  · rw [if_pos hwanted]
    refine ensures_bind.2 (ensures_stall.2 ?_)
    rintro r _ rfl
    have hgoes : Goes n waveform .linger s h (failureOf r) s (⟨.stall s.controller.config.playbackLinger, r⟩ :: h) :=
      .linger hwanted ⟨r, _, rfl, rfl, rfl⟩
    have hl := hs.accounts.call (c := .stall s.controller.config.playbackLinger) (a := r) trivial
    have hh := hE s.controller.config.playbackLinger r h hs.holds
    cases r with
    | error e => exact ⟨_, _, _, rfl, underway_of_failed hs.performed hgoes hordered (hs.pends.trans hdue) hl.inexact
        (hs.ready _ hh)⟩
    | ok _ => exact hok _ ⟨hperformed hgoes, hl, hs.pends, hs.ready, hh⟩
  · rw [if_neg hwanted]
    exact hok h ⟨hperformed (.noLinger (Nat.eq_zero_of_not_pos hwanted)), hs.accounts, hs.pends, hs.ready, hs.holds⟩

theorem play_underway {identity : Pci.Identity}
    (hs : Playing n config waveform Fresh [.release] [.discover, .bind] s h) :
    Ensures recording n (play identity waveform) s.toBringup h (playing n config waveform fun _ b h =>
      ∃ s, s.toBringup = b ∧ Underway n config waveform none (order.map (·, none)) [] s h) := by
  have plain : ∀ c : Call, c.Routine → c.Plain := fun _ => Call.Routine.plain
  refine confined_step Controller.reset_routine plain Fresh.stable_routine hs .reset (fun _ _ => rfl) (by decide)
    (by decide) fun _ s h _ _ hs => ?_
  refine confined_step Controller.waitForCodecs_routine plain Fresh.stable_routine hs .settle (fun _ _ => rfl) (by decide)
    (by decide) fun _ s h _ _ hs => ?_
  refine confined_step Controller.scanCodecs_routine plain Fresh.stable_routine hs .scan (fun _ _ => rfl) (by decide)
    (by decide) fun codecs s h _ _ hs => ?_
  refine confined_step Controller.suppressInterrupts_routine plain Fresh.stable_routine hs .suppress (fun _ _ => rfl)
    (by decide) (by decide) fun _ s h _ _ hs => ?_
  refine establish_step hs (by decide) (by decide) fun kind s h hs => ?_
  refine allocate_step hs (by decide) (by decide) fun streams b s h hsample hprogrammed hstreams hb hs => ?_
  refine ensures_bind.2 (ensures_modify.2 ?_)
  change Ensures recording n _ { b with streams := some streams } h _
  rw [← hb]
  refine confined_step Topology.walk_routine plain (Filled.stable.mono fun _ => Call.Routine.plain) hs .walk
    (fun _ _ => rfl) (by decide) (by decide) fun topology s' h hstreams' hnext hs => ?_
  obtain rfl : topology = s'.topology := by
    obtain ⟨c, rfl⟩ := hnext
    rfl
  clear hnext
  refine ensures_bind.2 (ensures_note.2 ?_)
  rintro _ rfl
  refine program_step (hs.note (Filled.stable (.note _) () _ trivial hs.holds)) (hstreams'.trans hstreams) hsample
    hprogrammed (by decide) (by decide) fun outputs streams s h hstreams hs => ?_
  refine confined_step (Streams.start_sparing.map Controller.held) (fun _ hc => hc.1) Streams.Ready.stable hs
    (.start hstreams) (fun _ _ => rfl) (by decide) (by decide) fun _ s h _ _ hs => ?_
  refine ensures_bind.2 (ensures_get.2 ?_)
  refine linger_step (fun k a h hready => ?_) hs (by decide) (by decide) fun h hs => ?_
  · exact Streams.Ready.stable (.stall k) a h
      (Streams.sparing_of_not_starts trivial (by simp [Call.Starts])) hready
  · exact ⟨_, rfl, hs.underway (by decide)⟩

end Bringup
end AudioBringup
