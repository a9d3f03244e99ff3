import AudioBringup.Proofs.CommandWords
import AudioBringup.Proofs.FirstFailure
import AudioBringup.Proofs.Performance
import AudioBringup.Simulation.Bus
/-!
# Proofs.Completion — a run on a bus comes to its end

The first controller on a bus is found and bound.  If it is a rig, every call to it goes as it goes at a `Station`
(`Shows.step`), so what succeeds there succeeds on the bus, and the whole run comes to its end (`run_succeeds`).
-/
namespace AudioBringup
namespace Simulation

open Procedure

/-! ### A machine without faults -/

section
variable {u : Rig} {c : Call} {d : Device} {t : Countdown} {checks allocated : Nat} {notices : List Notice}

/-- What a machine has counted and was told has no say in its answers. -/
theorem Machine.answer_used (d : Device) (t : Countdown) (checks allocated : Nat) (notices : List Notice) (hc : c.OffBus) :
    ∃ budget allocated' notices',
    Machine.answer c { device := d, timer := t, timerChecks := checks, budget := 1, allocated, notices } =
      ((Machine.answer c { device := d, timer := t, timerChecks := checks, budget := 1 }).1,
        { device := (Machine.answer c { device := d, timer := t, timerChecks := checks, budget := 1 }).2.device
          timer := (Machine.answer c { device := d, timer := t, timerChecks := checks, budget := 1 }).2.timer
          timerChecks := checks, budget, allocated := allocated', notices := notices' }) := by
  cases c
  case candidates | identify | bindExclusive | release => exact hc.elim
  all_goals exact ⟨_, _, _, rfl⟩

theorem Device.leaves_seen {P : Nat → Prop} (events : List Event) : d.Leaves P { d with events } :=
  leaves_of_fields rfl rfl rfl rfl rfl rfl

theorem Rig.Fits.seen (hd : u.Fits d) (events : List Event) : u.Fits { d with events } := { hd with }

theorem Rig.Fits.answer (hd : u.Fits d) (t : Countdown) (checks : Nat) (c : Call) :
    u.Fits (Machine.answer c { device := d, timer := t, timerChecks := checks, budget := 1 }).2.device := by
  cases c with
  | read w o => exact hd.read w o.toNat
  | write w o v => exact hd.write w o.toNat v
  | allocate | free | stall | armTimer | timerExpired | cancelTimer | store32 | store64 | fill | clear => exact { hd with }
  | _ => exact hd

end

namespace Bus

variable {σ : Type} {n : Nat} {t : σ} {b b' : Bus} {f : BusFunction} {u : Rig}

/-- Answers one call, with another check to spend. -/
def tireless (c : Call) (b : Bus) : c.Answer × Bus := answer c { b with machine := { b.machine with budget := 1 } }

/-- Calls are answered by the bus. -/
def world : World Call Call.Answer Bus := fun c b a b' => (a, b') = tireless c b

/-- A bus with some functions on it, where nothing fails. -/
structure Carries (functions : List BusFunction) (b : Bus) : Prop where
  functions : b.functions = functions
  faults : b.faults = []

/-- The bus, once it has seen an event. -/
def seen (b : Bus) (e : Event) : Bus := { b with machine := { b.machine with budget := 1 }.observe e }

theorem guarded_of_faults {α : Type} {e : Event} {call : String} {slot : Option Nat} {effect : Bus → Except Error α × Bus}
    (hb : b.faults = []) :
    guarded { b with machine := { b.machine with budget := 1 } } e call slot effect = effect (b.seen e) := by
  obtain ⟨functions, faults, machine, released⟩ := b
  cases hb
  rfl

/-! ### Calls to the bus itself -/

theorem tireless_candidates (hb : b.faults = []) : tireless .candidates b =
    (.ok ((List.range b.functions.length).map .slot), b.seen .candidates) := by
  unfold tireless answer
  exact guarded_of_faults hb

theorem tireless_identify {k : Nat} (hb : b.faults = []) (hf : b.functions[k]? = some f) :
    tireless (.identify (.slot k)) b = (.ok (.ofConfig f.ids f.classes), b.seen (.identified k)) := by
  have hseen : (b.seen (.identified k)).functions[k]? = some f := hf
  unfold tireless answer Bus.identify
  refine (guarded_of_faults hb).trans ?_
  rw [slotOf, hseen]
  rfl

theorem tireless_bindExclusive {k : Nat} {m : Machine} (hb : b.faults = []) (hf : b.functions[k]? = some f)
    (hm : f.machine = some m) :
    tireless (.bindExclusive (.slot k)) b = (.ok (), (b.seen (.bound k)).bindMachine m) := by
  have hseen : (b.seen (.bound k)).functions[k]? = some f := hf
  unfold tireless answer Bus.bindExclusive
  refine (guarded_of_faults hb).trans ?_
  rw [slotOf, hseen, Option.bind_some, hm]
  rfl

theorem tireless_release (hb : b.faults = []) : tireless .release b =
    (.ok (), { b.seen .released with released := some (b.seen .released).machine }) := by
  unfold tireless answer
  exact guarded_of_faults hb

theorem tireless_note (m : Notice) : tireless (.note m) b =
    ((), { b with machine := { b.machine with budget := 1, notices := m :: b.machine.notices } }) := rfl

/-! ### Finding the controller -/

/-- What a function says it is. -/
def identityOf (f : BusFunction) : Pci.Identity := .ofConfig f.ids f.classes

section
variable {functions : List BusFunction}

theorem ensures_note_carries (m : Notice) (hb : b.Carries functions) : Ensures world n (note m) t b
    (.succeeds fun _ _ b' => b'.Carries functions) := by
  refine ensures_note.2 fun b' h => ?_
  obtain ⟨-, rfl⟩ := Prod.ext_iff.1 (h.trans (tireless_note m))
  exact ⟨hb.functions, hb.faults⟩

theorem ensures_identify_slot {k : Nat} (hb : b.Carries functions) (hf : functions[k]? = some f) :
    Ensures world n (Procedure.identify (.slot k)) t b
      (.succeeds fun r _ b' => r = identityOf f ∧ b'.Carries functions) := by
  refine ensures_identify.2 fun r b' h => ?_
  obtain ⟨rfl, rfl⟩ := Prod.ext_iff.1 (h.trans (tireless_identify hb.faults (hb.functions ▸ hf)))
  exact ⟨rfl, hb.functions, hb.faults⟩

/-- The first controller is found, with all functions before it skipped. -/
theorem firstController_succeeds {after : List BusFunction} (hf : (identityOf f).isController = true) :
    ∀ {before skipped : List BusFunction} {t : σ} {b : Bus}, b.Carries (skipped ++ (before ++ f :: after)) →
      (∀ g ∈ before, (identityOf g).isController = false) →
      Ensures world n (Pci.firstController ((List.range' skipped.length (before ++ f :: after).length).map .slot)) t b
        (.succeeds fun r _ b' => r = (.slot (skipped ++ before).length, identityOf f) ∧
          b'.Carries (skipped ++ (before ++ f :: after)))
  | [], skipped, _, b, hb, _ => by
    refine (ensures_identify_slot hb (f := f) (by simp)).andThen ?_
    rintro _ _ b₁ ⟨rfl, hb₁⟩
    refine (ensures_note_carries _ hb₁).andThen ?_
    rintro _ _ b₂ hb₂
    rw [if_pos hf]
    refine (ensures_note_carries _ hb₂).andThen ?_
    rintro _ _ b₃ hb₃
    exact ensures_pure.2 ⟨by rw [List.append_nil], hb₃⟩
  | g :: before, skipped, _, b, hb, hbefore => by
    refine (ensures_identify_slot hb (f := g) (by simp)).andThen ?_
    rintro _ _ b₁ ⟨rfl, hb₁⟩
    refine (ensures_note_carries _ hb₁).andThen ?_
    rintro _ t b₂ hb₂
    rw [if_neg (Bool.eq_false_iff.1 (hbefore g List.mem_cons_self))]
    have hb₂ : b₂.Carries ((skipped ++ [g]) ++ (before ++ f :: after)) := by rwa [List.append_assoc]
    have hrest := firstController_succeeds hf (t := t) hb₂ fun g' hg' => hbefore g' (List.mem_cons_of_mem _ hg')
    rw [List.length_append, List.append_assoc, List.append_assoc] at hrest
    exact hrest

theorem discover_succeeds {before after : List BusFunction} (hf : (identityOf f).isController = true)
    (hbefore : ∀ g ∈ before, (identityOf g).isController = false) (hb : b.Carries (before ++ f :: after)) :
    Ensures world n Pci.discover t b (.succeeds fun r _ b' => r = (.slot before.length, identityOf f) ∧
      b'.Carries (before ++ f :: after)) := by
  have hcandidates : Ensures world n candidates t b (.succeeds fun r _ b' =>
      r = (List.range' 0 (before ++ f :: after).length).map .slot ∧ b'.Carries (before ++ f :: after)) := by
    refine ensures_candidates.2 fun r b' h => ?_
    obtain ⟨rfl, rfl⟩ := Prod.ext_iff.1 (h.trans (tireless_candidates hb.faults))
    exact ⟨by rw [← List.range_eq_range', hb.functions], hb.functions, hb.faults⟩
  refine hcandidates.andThen ?_
  rintro _ _ b₁ ⟨rfl, hb₁⟩
  refine (ensures_note_carries _ hb₁).andThen ?_
  rintro _ _ b₂ hb₂
  have hb₂ : b₂.Carries ([] ++ (before ++ f :: after)) := hb₂
  exact firstController_succeeds hf hb₂ hbefore

end

/-! ### A rig that was bound -/

/-- The bound function is a station: its machine has nothing more to it than what it counted and was told. -/
structure Shows (s : Station u) (b : Bus) : Prop where
  machine : ∃ budget allocated notices, b.machine = { s.machine with budget, allocated, notices }
  faults : b.faults = []

/-- **A call to the bound function goes as at the station.** -/
theorem Shows.step {s : Station u} {c : Call} {a : c.Answer} (hc : c.OffBus) (h : Shows s b) (hw : world c b a b') :
    ∃ s', Station.world c s a s' ∧ Shows s' b' := by
  obtain ⟨⟨budget, allocated, notices, hmachine⟩, hfaults⟩ := h
  have hanswer : tireless c b = ((Machine.answer c { b.machine with budget := 1 }).1,
      { b with machine := (Machine.answer c { b.machine with budget := 1 }).2 }) := by
    cases c
    case candidates | identify | bindExclusive | release => exact hc.elim
    all_goals rfl
  obtain ⟨budget', allocated', notices', hused⟩ :=
    Machine.answer_used s.device s.timer u.timerChecks allocated notices hc
  rw [hmachine, Station.machine] at hanswer
  rw [hused] at hanswer
  obtain ⟨rfl, rfl⟩ := Prod.ext_iff.1 (hw.trans hanswer)
  refine ⟨⟨_, s.fits.answer s.timer u.timerChecks c, _⟩, ?_, ⟨⟨budget', allocated', notices', rfl⟩, hfaults⟩⟩
  cases c
  case candidates | identify | bindExclusive | release => exact hc.elim
  all_goals exact ⟨rfl, rfl, rfl⟩

/-- A function that has just been bound is a station. -/
theorem shows_bindMachine {d : Device} (hd : u.Fits d) (hb : b.faults = []) : ∃ s : Station u,
    Shows s (b.bindMachine { device := d, timerChecks := u.timerChecks }) ∧ d.Leaves (fun _ => True) s.device :=
  ⟨⟨_, hd.seen b.machine.device.events, none⟩, ⟨⟨_, _, _, rfl⟩, hb⟩, Device.leaves_seen _⟩

/-- The function was left as it is to be: no memory is in use, and neither a ring nor the stream with a descriptor is told to
run. -/
structure AtRest (k : Nat) (m : Machine) : Prop where
  memory : m.device.memory.blocks = []
  corb : (m.device.load .byte Register.corbctl.toNat).getLsbD 1 = false
  rirb : (m.device.load .byte Register.rirbctl.toNat).getLsbD 1 = false
  stream : (m.device.load .word (0x80 + 0x20 * k)).getLsbD 1 = false

/-- The function is given up as it is. -/
theorem release_succeeds {α : Type} {a : α} {s : Station u} {k : Nat} (hb : Shows s b) (hhalted : s.Halted) (hidle : s.Idle k)
    (hshape : s.device.memory.shape = []) : Ensures world n (do
      Procedure.release
      note .completed
      return a) t b (.succeeds fun r _ b' => r = a ∧ ∃ m, b'.released = some m ∧ AtRest k m) := by
  obtain ⟨⟨budget, allocated, notices, hmachine⟩, hfaults⟩ := hb
  have hrest : AtRest k (b.seen .released).machine := by
    rw [seen, hmachine]
    exact ⟨List.map_eq_nil_iff.1 hshape, hhalted.1, hhalted.2, hidle.run⟩
  have hrelease : Ensures world n Procedure.release t b (.succeeds fun _ _ b' => ∃ m, b'.released = some m ∧ AtRest k m) := by
    refine ensures_release.2 fun r b' hw => ?_
    obtain ⟨rfl, rfl⟩ := Prod.ext_iff.1 (hw.trans (tireless_release hfaults))
    exact ⟨_, rfl, hrest⟩
  refine hrelease.andThen ?_
  rintro _ _ b₁ hreleased
  refine ensures_bind.2 (ensures_note.2 fun b' hw => ?_)
  obtain ⟨-, rfl⟩ := Prod.ext_iff.1 (hw.trans (tireless_note _))
  exact ⟨rfl, hreleased⟩

variable {config : Config} {waveform : Array Byte} {before after : List BusFunction}

/-- **A run succeeds whenever it should**: on a bus where nothing fails and whose first controller is a rig that suits what is
to be played, it comes to a result that tells what there is, and leaves nothing in use and nothing running. -/
theorem run_succeeds (hb : b.Carries (before ++ f :: after)) (hbefore : ∀ g ∈ before, (identityOf g).isController = false)
    (hf : (identityOf f).isController = true) (hmachine : f.machine = some u.machine) (h : u.Suits config waveform)
    (hn : u.Outlasted n) : Ensures world n (Bringup.run config waveform) t b (.succeeds fun summary _ b' =>
      u.Told config (identityOf f) summary ∧ ∃ m, b'.released = some m ∧ AtRest (u.descriptor config) m) := by
  refine (discover_succeeds hf hbefore hb).andThen ?_
  rintro _ t b₁ ⟨rfl, hb₁⟩
  have hbind : Ensures world n (Procedure.bindExclusive (.slot before.length)) t b₁ (.succeeds fun _ _ b' =>
      ∃ s : Station u, Shows s b' ∧ u.device.Leaves (fun _ => True) s.device) := by
    refine ensures_bindExclusive.2 fun r b' hw => ?_
    have hfound : b₁.functions[before.length]? = some f := by rw [hb₁.functions]; simp
    obtain ⟨rfl, rfl⟩ := Prod.ext_iff.1 (hw.trans (tireless_bindExclusive hb₁.faults hfound hmachine))
    exact shows_bindMachine u.fits_device hb₁.faults
  refine hbind.andThen ?_
  rintro _ t b₂ ⟨s, hshows, hs⟩
  have hplay := (Station.playThrough_succeeds (identityOf f) h hn hs).along Bringup.playThrough_candid.asks
    (fun _ _ _ _ _ hc hr hw => hr.step hc hw) hshows
  refine ensures_bind.2 (ensures_within.2 (hplay.of_succeeds ?_))
  rintro summary _ b₃ ⟨s', hshows', htold, hhalted, hidle, hshape⟩
  refine (release_succeeds hshows' hhalted hidle hshape).of_succeeds ?_
  rintro _ _ b' ⟨rfl, hrest⟩
  exact ⟨htold, hrest⟩

/-- A rig without the immediate interface, with one codec whose root has one child, a converter. -/
def soloRig : Rig where
  immediate := false
  stateChanges := 1
  codecs := [{ address := 0, params := [((0, 0x00), 0x10ec0887), ((0, 0x04), 0x00010001), ((1, 0x09), 0x00000411)] }]

/-- A function that is no controller. -/
def hostBridge : BusFunction := { ids := 0x12378086, classes := 0x06000002 }

/-- The controller with that rig behind it. -/
def soloFunction : BusFunction := { ids := 0x26688086, classes := 0x04030001, machine := some soloRig.machine }

/-- Only the codec at the lowest address reports in. -/
theorem soloRig_reports {codec : BitVec 8} (h : soloRig.Reports codec) : codec = 0 := by
  obtain ⟨hlt, hreports⟩ := h
  refine BitVec.eq_of_toNat_eq ?_
  generalize codec.toNat = i at hlt hreports
  have hall : ∀ i, i < Controller.maxCodecs → soloRig.stateChanges.getLsbD i = true → i = 0 := by decide
  exact hall i hlt hreports

theorem soloRig_suits : soloRig.Suits {} (Array.replicate 256 0) where
  output := by decide
  pieces := by decide
  long := Nat.le_of_eq Array.size_replicate.symm
  short := Nat.le_trans (Nat.le_of_eq Array.size_replicate) (by decide)
  limits := by
    intro site checks h
    cases site <;> cases h
  trees := by
    rintro codec hreports -
    obtain rfl := soloRig_reports hreports
    have hleaf : Replies.Unfolds (soloRig.replies {}) 0 ((soloRig.replies {}).nodeAt 0 1).children [] := by
      rw [show ((soloRig.replies {}).nodeAt 0 1).children = [] from by decide]
      exact .nil
    exact ⟨[1], .node (by decide) hleaf .nil, by decide⟩
  answered := by
    rintro - cmd hreports
    have haddress : cmd.encode.extractLsb' 28 4 = 0 := by
      rw [← Bits.field, cmd.codec_field, soloRig_reports hreports]
      rfl
    rw [Rig.answer?, haddress]
    change (if _ then some _ else some _).isSome = true
    rw [← apply_ite some]
    rfl
  room := by decide

theorem run_succeeds_soloRig : Ensures world 4 (Bringup.run {} (Array.replicate 256 0)) ()
    { functions := [hostBridge, soloFunction] } (.succeeds fun summary _ b' =>
      soloRig.Told {} (identityOf soloFunction) summary ∧ ∃ m, b'.released = some m ∧ AtRest (soloRig.descriptor {}) m) :=
  run_succeeds (show Carries ([hostBridge] ++ soloFunction :: []) _ from ⟨rfl, rfl⟩) (by decide) (by decide) rfl soloRig_suits
    ⟨by decide, by decide, by decide⟩

end Bus
end Simulation
end AudioBringup
