import AudioBringup.Proofs.PositionBuffer
/-!
# Proofs.PositionReports — where the controller is told to write stream positions

The address of the position buffer is written in two halves, the lower one first and with it the bit that turns reporting
on.  So reporting is on for a while with half an address, and for good where the other half does not go through
(`run_reports_astray`); apart from that it is on for a live position buffer only (`run_reports_live`).
-/
namespace AudioBringup

open Procedure History

/-! ### The run -/

/-- What is known of a controller once reporting may be on. -/
def Controller.Kept (c : Controller) (h : History) : Prop := History.Kept c.memory h

namespace Controller

variable {n : Nat} {c c' : Controller} {h : History}

theorem Kept.of_held (hheld : c'.held = c.held) (hk : c.Kept h) : c'.Kept h := by
  unfold Controller.Kept memory
  rw [hheld]
  exact hk

theorem kept_of_not_held (hheld : c.held = none) (hk : History.Kept [] h) : c.Kept h := by
  unfold Controller.Kept memory
  rw [hheld]
  exact hk

/-- A controller whose transport could not be set up has none to take down. -/
theorem establishTransport_unlit (hheld : c.held = none) (hu : Unlit [] h) : Ensures recording n establishTransport c h
    ⟨fun _ c h => Unlit c.memory h, fun _ => Controller.Kept, History.Kept [], History.Kept []⟩ := by
  refine ensures_bind.2 (ensures_get.2 (ensures_bind.2 ((Transport.establish_unlit hu).mono ?_ ?_ (fun _ => id) fun _ => id)))
  · rintro t _ h ⟨rfl, hu⟩
    exact hu
  · rintro e _ h ⟨rfl, hk⟩
    exact kept_of_not_held hheld hk

theorem tearDownTransport_kept (hk : c.Kept h) :
    Ensures recording n tearDownTransport c h (.always Controller.Kept (History.Kept [])) := by
  obtain ⟨config, codecs, _ | t⟩ := c
  · exact hk
  · refine ensures_bind.2 (ensures_get.2 (ensures_bind.2 (ensures_modify.2 (ensures_bind.2 (ensures_note.2 ?_)))))
    rintro _ rfl
    have hk : History.Kept (t.memory ++ []) (⟨.note (.tearingDown t.kind), ()⟩ :: h) := by
      rw [List.append_nil]
      exact Kept.calm (.note _) () h trivial hk
    refine (Transport.tearDown_kept hk).mono ?_ ?_ (fun _ => id) fun _ => id
    · rintro _ _ h' ⟨rfl, hk⟩
      exact hk
    · rintro _ _ h' ⟨rfl, hk⟩
      exact hk

end Controller

namespace Bringup

variable {σ α β : Type} {n : Nat} {config : Config} {waveform : Array Byte} {identity : Pci.Identity} {b : Bringup} {h : History}

/-- What is known of a run once reporting may be on. -/
def Kept (b : Bringup) (h : History) : Prop := b.controller.Kept h

/-- From what is known of the run, `x` leads to the same, however it ends. -/
def Careful (x : Procedure Bringup α) : Prop :=
  ∀ n b h, Kept b h → Ensures recording n x b h (.always Kept (History.Kept []))

theorem Careful.then {x : Procedure Bringup α} {f : α → Procedure Bringup β} (hx : Careful x) (hk : Kept b h)
    (hf : ∀ a b h, Kept b h → Ensures recording n (f a) b h (.always Kept (History.Kept []))) :
    Ensures recording n (x >>= f) b h (.always Kept (History.Kept [])) :=
  ensures_bind.2 ((hx n b h hk).mono hf (fun _ _ _ => id) (fun _ => id) fun _ => id)

theorem careful_bind {x : Procedure Bringup α} {f : α → Procedure Bringup β} (hx : Careful x) (hf : ∀ a, Careful (f a)) :
    Careful (x >>= f) := fun n _ _ hk => hx.then hk fun a b h hk => hf a n b h hk

theorem careful_pure (a : α) : Careful (pure a) := fun _ _ _ hk => hk

theorem careful_get : Careful get := fun _ _ _ hk => hk

/-- Streams come and go. -/
theorem careful_modify {f : Bringup → Bringup} (hf : ∀ b, (f b).controller = b.controller) : Careful (modify f) :=
  fun _ b h hk => show (f b).controller.Kept h from (hf b).symm ▸ hk

theorem careful_ask {c : Call} {k : c.Answer → Except Error α} (hc : c.Calm) :
    Careful (fun _ s => .ask c fun a => .pure (k a, s)) := by
  rintro n b h hk a _ rfl
  have hk : Kept b (⟨c, a⟩ :: h) := Kept.calm c a h hc hk
  cases hr : k a <;> simp only [Program.Ensures, hr] <;> exact hk

theorem careful_tolerate {x : Procedure Bringup Unit} {notice : Error → Notice} (hx : Careful x) :
    Careful (tolerate x notice) := fun n b h hk => by
  refine ensures_bind.2 (ensures_attempt.2 ((hx n b h hk).mono (fun _ _ _ => id) (fun e b h hk => ?_) (fun _ => id) fun _ => id))
  exact careful_ask (c := .note (notice e)) (k := .ok) trivial n b h hk

/-- A procedure of the controller that is careful by itself. -/
theorem careful_onController {x : Procedure Controller α}
    (hx : ∀ n c h, c.Kept h → Ensures recording n x c h (.always Controller.Kept (History.Kept []))) :
    Careful (onController x) := fun n b h hk =>
  ensures_bind.2 (ensures_get.2 (ensures_on.2 ((hx n b.controller h hk).mono (fun _ _ _ => id) (fun _ _ _ => id) (fun _ => id)
    fun _ => id)))

theorem careful_calm {x : Procedure Controller α} (hx : Confined Call.Calm Controller.held x) : Careful (onController x) := by
  refine careful_onController fun n c h hk => (hx.keeps Kept.calm hk).mono ?_ ?_ (fun _ => Kept.nil) fun _ => Kept.nil
  · rintro _ c' h' ⟨hheld, hk⟩
    exact .of_held hheld hk
  · rintro _ c' h' ⟨hheld, hk⟩
    exact .of_held hheld hk

theorem careful_when {c : Prop} [Decidable c] {x : Procedure Bringup Unit} {rest : Procedure Bringup α} (hx : Careful x)
    (hrest : Careful rest) : Careful (if c then (do x; rest) else rest) := by
  by_cases hc : c
  · rw [if_pos hc]
    exact careful_bind hx fun _ => hrest
  · rw [if_neg hc]
    exact hrest

/-- Streams that have no sample buffer yet are set up without giving anything back. -/
theorem careful_program {streams : Streams} {topology : Topology} (hsample : streams.sample = none) :
    Careful (onStreams streams do return (← Streams.program topology waveform, (← get).2)) := fun n b h hk => by
  refine ensures_bind.2 (ensures_get.2 (ensures_on.2 (ensures_bind.2 ((Streams.program_calm hsample hk).mono ?_ ?_
    (fun _ => Kept.nil) fun _ => Kept.nil))))
  · rintro outputs t h ⟨hheld, hk⟩
    exact Controller.Kept.of_held hheld hk
  · rintro e t h ⟨hheld, hk⟩
    exact Controller.Kept.of_held hheld hk

theorem careful_release {streams : Streams} : Careful (onController streams.release) :=
  careful_onController fun n c h hk => by
    refine (Streams.release_kept hk).mono ?_ ?_ (fun _ => Kept.nil) fun _ => Kept.nil
    · rintro _ _ h ⟨rfl, hk⟩
      exact hk
    · rintro _ _ h ⟨rfl, hk⟩
      exact hk

theorem careful_tearDown : Careful (onController Controller.tearDownTransport) :=
  careful_onController fun _ _ _ => Controller.tearDownTransport_kept

/-- A step before anything is reported, with what follows it. -/
theorem unlit_then {x : Procedure Controller α} {f : α → Procedure Bringup β} (hx : Confined Call.Routine Controller.held x)
    (hheld : b.controller.held = none) (hu : Unlit [] h) (hf : ∀ a b h, b.controller.held = none → Unlit [] h →
      Ensures recording n (f a) b h (.always Kept (History.Kept []))) :
    Ensures recording n (onController x >>= f) b h (.always Kept (History.Kept [])) := by
  have hcalm : Confined Call.Calm Controller.held x := hx.mono fun _ hc => hc.calm
  refine ensures_bind.2 (ensures_bind.2 (ensures_get.2 (ensures_on.2 ((hcalm.keeps Unlit.calm hu).mono ?_ ?_
    (fun _ => Unlit.kept) fun _ => Unlit.kept))))
  · rintro a c h ⟨hc, hu⟩
    exact hf a _ h (hc.trans hheld) hu
  · rintro e c h ⟨hc, hu⟩
    exact Controller.kept_of_not_held (hc.trans hheld) hu.kept

theorem play_kept (hheld : b.controller.held = none) (hu : Unlit [] h) :
    Ensures recording n (play identity waveform) b h (.always Kept (History.Kept [])) := by
  refine unlit_then Controller.reset_routine hheld hu fun _ b h hheld hu => ?_
  refine unlit_then Controller.waitForCodecs_routine hheld hu fun _ b h hheld hu => ?_
  refine unlit_then Controller.scanCodecs_routine hheld hu fun codecs b h hheld hu => ?_
  refine unlit_then Controller.suppressInterrupts_routine hheld hu fun _ b h hheld hu => ?_
  refine ensures_bind.2 (ensures_bind.2 (ensures_get.2 (ensures_on.2 ((Controller.establishTransport_unlit hheld hu).mono ?_
    (fun _ _ _ => id) (fun _ => id) fun _ => id))))
  intro transport c h hu
  -- the streams are the first to write the address of a position buffer
  refine ensures_bind.2 (ensures_bind.2 (ensures_get.2 (ensures_on.2 ((Streams.allocate_kept hu).mono ?_ ?_ (fun _ => Kept.nil)
    fun _ => Kept.nil))))
  · rintro streams c h ⟨rfl, hsample, hk⟩
    refine ensures_bind.2 (ensures_modify.2 ?_)
    refine (careful_calm (Topology.walk_routine.mono fun _ hc => hc.calm)).then hk fun topology b h hk => ?_
    refine (careful_ask (c := .note _) trivial).then hk fun _ b h hk => ?_
    refine (careful_program hsample).then hk fun programmed b h hk => ?_
    refine (careful_calm ((Streams.start_calm).map Controller.held)).then hk fun _ b h hk => ?_
    refine ensures_bind.2 (ensures_get.2 ?_)
    exact careful_when (careful_ask (c := .stall _) trivial) (careful_pure _) n b h hk
  · rintro e c h ⟨rfl, hk⟩
    exact hk

theorem playThrough_kept (hheld : b.controller.held = none) (hu : Unlit [] h) :
    Ensures recording n (playThrough identity waveform) b h (.always Kept (History.Kept [])) := by
  have hdown : ∀ summary : Summary, Careful (do
      onController Controller.tearDownTransport
      return summary) := fun _ => careful_bind careful_tearDown fun _ => careful_pure _
  refine ensures_bind.2 ((play_kept hheld hu).mono (fun summary b h hk => ?_) (fun _ _ _ => id) (fun _ => id) fun _ => id)
  refine careful_get.then hk fun b' b h hk => ?_
  cases b'.streams with
  | none => exact hdown summary n b h hk
  | some streams =>
    refine (careful_modify fun _ => rfl).then hk fun _ b h hk => ?_
    exact careful_release.then hk fun _ => hdown summary n

theorem careful_abandon : Careful abandon := by
  have hrest : Careful (do
      tolerate (onController Controller.tearDownTransport) .transportNotTornDown
      tolerate Procedure.release .controllerNotReleased) :=
    careful_bind (careful_tolerate careful_tearDown) fun _ => careful_tolerate (careful_ask (c := .release) trivial)
  refine careful_bind careful_get fun b => ?_
  cases b.streams with
  | none => exact hrest
  | some streams => exact careful_bind (careful_tolerate careful_release) fun _ => hrest

theorem unlit_nil : Unlit [] [] where
  lower := by simp [Wrote]
  upper := by simp [Wrote]
  unspent _ := Nat.le_refl _

theorem run_kept {t : σ} :
    Ensures recording n (run config waveform) t [] (.always (fun _ => History.Kept []) (History.Kept [])) := by
  have hdiscover : Confined Call.Calm id (Pci.discover (σ := σ)) := Pci.discover_routine.mono fun _ hc => hc.calm
  refine ensures_bind.2 ((hdiscover.keeps Unlit.calm unlit_nil).mono ?_ (fun _ _ _ hk => hk.2.kept) (fun _ => Unlit.kept)
    fun _ => Unlit.kept)
  rintro ⟨candidate, identity⟩ s h ⟨-, hu⟩
  refine ensures_bind.2 (ensures_bindExclusive.2 ?_)
  have hbind : ∀ r : Except Error Unit, Unlit [] (⟨.bindExclusive candidate, r⟩ :: h) := fun r =>
    Unlit.calm (.bindExclusive candidate) r h trivial hu
  rintro (e | ⟨⟩) _ rfl
  · exact (hbind _).kept
  refine ensures_bind.2 (ensures_within.2 ((playThrough_kept rfl (hbind _)).mono ?_ ?_ (fun _ => id) fun _ => id))
  · intro summary b h hk
    refine ensures_bind.2 (ensures_release.2 ?_)
    have hk : ∀ r : Except Error Unit, History.Kept [] (⟨.release, r⟩ :: h) := fun r => Kept.calm .release r h trivial hk.nil
    rintro (e | ⟨⟩) _ rfl
    · exact hk _
    · refine ensures_bind.2 (ensures_note.2 ?_)
      rintro _ rfl
      exact Kept.calm (.note .completed) () _ trivial (hk _)
  · intro e b h hk
    refine ensures_bind.2 (ensures_note.2 ?_)
    rintro _ rfl
    have hk : Kept b (⟨.note (.failed e), ()⟩ :: h) := Kept.calm (.note (.failed e)) () h trivial hk
    exact ensures_bind.2 (ensures_within.2 ((careful_abandon n b _ hk).mono (fun _ _ _ => Kept.nil) (fun _ _ _ => Kept.nil)
      (fun _ => id) fun _ => id))

end Bringup

namespace History

/-- Aligned memory has an address without the flags. -/
theorem aligned_bits {address : BitVec 64} (haligned : address &&& positionFlags = 0) :
    ∀ i < 7, address.getLsbD i = false := by
  intro i hi
  have hflag : positionFlags.getLsbD i = true := by
    revert i
    decide
  have hbit := congrArg (BitVec.getLsbD · i) haligned
  rw [BitVec.getLsbD_and, hflag, Bool.and_true] at hbit
  exact hbit.trans BitVec.getLsbD_zero

theorem getLsbD_without_flags {v : BitVec 64} {i : Nat} (hi : i < 64) :
    (v &&& ~~~positionFlags).getLsbD i = (v.getLsbD i && decide (7 ≤ i)) := by
  have hflag : ∀ i < 64, (!positionFlags.getLsbD i) = decide (7 ≤ i) := by decide
  rw [BitVec.getLsbD_and, BitVec.getLsbD_not, hflag i hi, decide_eq_true hi, Bool.true_and]

/-- The flags apart, the bit that turns reporting on does not change an address. -/
theorem getLsbD_enabled {address : BitVec 64} (haligned : address &&& positionFlags = 0) {i : Nat} (hi : i < 64) :
    ((address ||| Streams.positionEnable).getLsbD i && decide (7 ≤ i)) = address.getLsbD i := by
  have henable : ∀ i < 64, 7 ≤ i → Streams.positionEnable.getLsbD i = false := by decide
  by_cases hflag : i < 7
  · rw [aligned_bits haligned i hflag, decide_eq_false (by omega), Bool.and_false]
  · rw [BitVec.getLsbD_or, henable i hi (by omega), decide_eq_true (by omega), Bool.or_false, Bool.and_true]

theorem address_of_halves {address : BitVec 64} (haligned : address &&& positionFlags = 0) :
    (Bits.field (address ||| Streams.positionEnable) 32 32 ++ Bits.field (address ||| Streams.positionEnable) 0 32) &&&
      ~~~positionFlags = address := by
  have hwhole : Bits.field (address ||| Streams.positionEnable) 32 32 ++ Bits.field (address ||| Streams.positionEnable) 0 32 =
      address ||| Streams.positionEnable := by
    unfold Bits.field
    rw [BitVec.extractLsb'_append_extractLsb'_eq_extractLsb' (show 32 = 0 + 32 from rfl)]
    simp
  apply BitVec.eq_of_getLsbD_eq
  intro i hi
  rw [hwhole, getLsbD_without_flags hi, getLsbD_enabled haligned hi]

theorem address_of_half {address : BitVec 64} (haligned : address &&& positionFlags = 0) :
    ((0 : BitVec 32) ++ Bits.field (address ||| Streams.positionEnable) 0 32) &&& ~~~positionFlags =
      (address.setWidth 32).setWidth 64 := by
  apply BitVec.eq_of_getLsbD_eq
  intro i hi
  rw [getLsbD_without_flags hi, BitVec.getLsbD_append, BitVec.getLsbD_setWidth, BitVec.getLsbD_setWidth, ← getLsbD_enabled haligned hi]
  unfold Bits.field
  by_cases hlow : i < 32
  · simp [hlow, hi]
  · simp [hlow]

theorem Guarded.reportsLiveHalf {h : History} (hg : Guarded [] h) (hh : h.HonestMemory) : h.ReportsLiveHalf := by
  intro hr
  obtain ⟨g, hshows, hs⟩ := hg hr
  obtain ⟨caps, k, htold, hk, hle⟩ := hshows.asked
  have hhonest : k ≤ g.length ∧ g.address &&& positionFlags = 0 := by simpa [Made.honest] using hh _ hk
  obtain ⟨hlength, haligned⟩ := hhonest
  refine ⟨g, hs.live, ⟨caps, htold, Nat.le_trans hle hlength⟩, ?_⟩
  unfold reportsTo
  rw [hshows.lower]
  rcases hshows.upper with hupper | hnone
  · rw [hupper]
    exact .inl (address_of_halves haligned)
  · rw [left_of_not_wrote hnone]
    exact .inr ⟨hnone, address_of_half haligned⟩

end History

namespace Bringup

variable {σ : Type} {n : Nat} {config : Config} {waveform : Array Byte} {t : σ}

/-- **Positions are reported to live memory only**: whatever the platform answers, at every moment of a run at which
reporting is on, the registers hold the address of a position buffer that was not given back and has a slot for every
engine, or at least its lower half while the upper half has not been taken. -/
theorem run_reports_live : Ensures recording n (run config waveform) t [] (.always
    (fun _ h => h.HonestMemory → Throughout ReportsLiveHalf h) fun h => h.HonestMemory → Throughout ReportsLiveHalf h) := by
  have hlive : ∀ h, History.Kept [] h → h.HonestMemory → Throughout ReportsLiveHalf h := by
    rintro h hk hh pre ⟨post, rfl⟩
    exact (hk.always pre ⟨post, rfl⟩).reportsLiveHalf fun m hm => hh m (List.mem_append_right post hm)
  exact run_kept.mono (fun _ _ => hlive) (fun _ _ => hlive) hlive hlive

/-! ### Half an address -/

/-- Answers of a platform whose registers all read 1, which has memory above 4 GiB and does not take the upper half of the
position buffer's address. -/
def torn : (c : Call) → History → c.Answer
  | .candidates, _ => .ok [.slot 0]
  | .identify _, _ => .ok { vendor := 0x8086, device := 0x2668, classCode := 4, subclass := 3 }
  | .read .., _ => .ok 1
  | .write _ o _, _ => if o = Register.dpubase then .error (.deviceIo "write" 7) else .ok ()
  | .allocate length, h => .ok ⟨0, 0x100000000 + BitVec.ofNat 64 (0x1000 * h.allocated.length), length, 0⟩
  | .timerExpired, _ => .ok true
  | .bindExclusive _, _ | .release, _ | .free _, _ | .stall _, _ | .armTimer _, _ | .cancelTimer, _ => .ok ()
  | .load32 _, _ => (0 : BitVec 32)
  | .load64 _, _ => (0 : BitVec 64)
  | .store32 .., _ | .store64 .., _ | .fill .., _ | .clear .., _ | .note _, _ => ()

/-- The run failed, and left reporting on to where there is no memory. -/
def astray : Ending (Except Error Summary × Unit) × History → Bool
  | (.result (.error _, _), h) => h.all Made.honest && (h.left Register.dplbase).getLsbD 0 &&
      h.allocated.all (·.address != h.reportsTo)
  | _ => false

/-- **Half an address is reported to**: where the upper half of the position buffer's address is not taken, the run fails
and leaves reporting on to an address at which there is nothing. -/
theorem run_reports_astray : ¬Ensures recording 1 (run { transport := .immediate } #[]) () [] (.always
    (fun _ h => h.HonestMemory → Throughout ReportsLive h) fun h => h.HonestMemory → Throughout ReportsLive h) := by
  refine Procedure.refuted torn astray (by decide +kernel) ?_
  rintro ⟨⟨e | summary, _⟩ | cause | _, h⟩ hastray hreports
  · obtain ⟨hon, haddress⟩ := Bool.and_eq_true_iff.1 hastray
    obtain ⟨hhonest, hon⟩ := Bool.and_eq_true_iff.1 hon
    obtain ⟨g, hg, -, hto⟩ := hreports (List.all_eq_true.1 hhonest) h List.suffix_rfl hon
    have hmem : g ∈ h.allocated := List.count_pos_iff.1 (Nat.lt_of_le_of_lt (Nat.zero_le _) hg)
    have hne := List.all_eq_true.1 haddress g hmem
    rw [hto] at hne
    simp at hne
  · cases hastray
  · cases hastray
  · cases hastray

end Bringup
end AudioBringup
