import AudioBringup.Proofs.StreamMemory
/-!
# Proofs.PositionBuffer — the address of the position buffer, from its allocation to its release

What a register holds is what was written to it last and went through (`History.left`).  `Kept` says that the controller
is told to write positions to memory that is still there, or to nothing, and that it always was; every procedure of the
transports and the streams keeps it so, whatever the platform answers.
-/
namespace AudioBringup

open Procedure History

/-- Writes the register at `o`, and it goes through. -/
def Made.Sets (o : BitVec 32) (m : Made) : Prop := ∃ w v, m = ⟨.write w o v, Except.ok ()⟩

/-- The bits of the position buffer's address that are no address. -/
def positionFlags : BitVec 64 := 0x7f

/-- Memory that was had is no shorter than it was asked for, and aligned as the position buffer has to be. -/
def Made.honest : Made → Bool
  | ⟨.allocate k, .ok g⟩ => k ≤ g.length && g.address &&& positionFlags == 0
  | _ => true

namespace History

/-! ### What two registers hold -/

/-- A write of the register at `o` went through. -/
def Wrote (o : BitVec 32) (h : History) : Prop := ∃ m ∈ h, m.Sets o

/-- Position reporting is on. -/
def Reporting (h : History) : Prop := (h.left Register.dplbase).getLsbD 0 = true

/-- Where positions are reported to. -/
def reportsTo (h : History) : BitVec 64 := (h.left Register.dpubase ++ h.left Register.dplbase) &&& ~~~positionFlags

/-- Had once more often than given back. -/
def Live (g : Region) (h : History) : Prop := h.freed.count g < h.allocated.count g

/-- The controller said what it is capable of. -/
def Told (caps : GlobalCaps) (h : History) : Prop :=
  ∃ v : BitVec 32, caps = ⟨v.setWidth 16⟩ ∧ (⟨.read .word Register.gcap, Except.ok v⟩ : Made) ∈ h

/-- Has a slot for every stream engine that the controller said it has. -/
def HoldsPositions (g : Region) (h : History) : Prop :=
  ∃ caps, Told caps h ∧ Streams.positionSlot * caps.totalStreams ≤ g.length

/-- If positions are reported, then to a live position buffer. -/
def ReportsLive (h : History) : Prop := h.Reporting → ∃ g, Live g h ∧ HoldsPositions g h ∧ h.reportsTo = g.address

/-- If positions are reported, then to a live position buffer; or to where the lower half of its address alone leads,
while the upper half was never taken. -/
def ReportsLiveHalf (h : History) : Prop := h.Reporting → ∃ g, Live g h ∧ HoldsPositions g h ∧
  (h.reportsTo = g.address ∨ ¬h.Wrote Register.dpubase ∧ h.reportsTo = (g.address.setWidth 32).setWidth 64)

/-- All memory that was had is as it was asked for. -/
def HonestMemory (h : History) : Prop := ∀ m ∈ h, m.honest = true

/-- `K` holds now and held after every call before. -/
def Throughout (K : History → Prop) (h : History) : Prop := ∀ pre, pre <:+ h → K pre

/-! ### What keeps it so -/

/-- The regions in `l` were each had once more often than they were given back. -/
def Unspent (l : List Region) (h : History) : Prop := ∀ g, h.freed.count g + l.count g ≤ h.allocated.count g

/-- The registers were not written yet, and `l` is there to be given back. -/
structure Unlit (l : List Region) (h : History) : Prop where
  lower : ¬h.Wrote Register.dplbase
  upper : ¬h.Wrote Register.dpubase
  unspent : Unspent l h

/-- Was asked for with a slot for every stream engine. -/
def Asked (g : Region) (h : History) : Prop :=
  ∃ caps k, Told caps h ∧ (⟨.allocate k, Except.ok g⟩ : Made) ∈ h ∧ Streams.positionSlot * caps.totalStreams ≤ k

/-- The address of `g` was written, at least its lower half with the bit that turns reporting on. -/
structure Shows (g : Region) (h : History) : Prop where
  lower : h.left Register.dplbase = Bits.field (g.address ||| Streams.positionEnable) 0 32
  upper : h.left Register.dpubase = Bits.field (g.address ||| Streams.positionEnable) 32 32 ∨ ¬h.Wrote Register.dpubase
  asked : Asked g h

/-- If positions are reported, then to a buffer that is still there when all of `l` has been given back. -/
def Guarded (l : List Region) (h : History) : Prop := h.Reporting → ∃ g, Shows g h ∧ Unspent (g :: l) h

/-- So it is now for `l`, and so it always was. -/
structure Kept (l : List Region) (h : History) : Prop where
  always : Throughout (Guarded []) h
  now : Guarded l h

end History

/-- Neither gives memory back nor writes the address of the position buffer. -/
def Call.Calm : Call → Prop
  | .free _ => False
  | .write _ o _ => o ≠ Register.dplbase ∧ o ≠ Register.dpubase
  | _ => True

theorem Call.Routine.calm : ∀ {c : Call}, c.Routine → c.Calm
  | .write _ o _, h => by
    have ho : o < Register.dplbase := h
    simp only [Register.dplbase] at ho
    constructor
    · rintro rfl
      exact absurd ho (by decide)
    · rintro rfl
      exact absurd ho (by decide)
  | .candidates, _ | .identify _, _ | .bindExclusive _, _ | .read .., _ | .stall _, _ | .armTimer _, _ | .timerExpired, _
  | .cancelTimer, _ | .load32 _, _ | .load64 _, _ | .store32 .., _ | .store64 .., _ | .fill .., _ | .clear .., _
  | .note _, _ => trivial

theorem Call.Calm.not_free {c : Call} (hc : c.Calm) (g : Region) : c ≠ .free g := by
  rintro rfl
  exact hc

theorem Call.Calm.not_sets {c : Call} {a : c.Answer} (hc : c.Calm) :
    ¬Made.Sets Register.dplbase ⟨c, a⟩ ∧ ¬Made.Sets Register.dpubase ⟨c, a⟩ := by
  constructor
  · rintro ⟨w, v, hm⟩
    cases congrArg Made.call hm
    exact hc.1 rfl
  · rintro ⟨w, v, hm⟩
    cases congrArg Made.call hm
    exact hc.2 rfl

theorem Made.not_sets_free {o : BitVec 32} {g : Region} {a : Except Error Unit} : ¬Made.Sets o ⟨.free g, a⟩ := by
  rintro ⟨w, v, hm⟩
  cases congrArg Made.call hm

theorem Made.not_sets_refused {w : Width} {o o' v : BitVec 32} {e : Error} :
    ¬Made.Sets o ⟨.write w o' v, Except.error e⟩ := by
  rintro ⟨w', v', hm⟩
  cases hm

theorem Made.not_sets_other {w : Width} {o o' v : BitVec 32} {a : Except Error Unit} (ho : o' ≠ o) :
    ¬Made.Sets o ⟨.write w o' v, a⟩ := by
  rintro ⟨w', v', hm⟩
  cases hm
  exact ho rfl

namespace History

variable {h : History} {l l' : List Region} {g : Region} {o : BitVec 32} {m : Made} {c : Call} {a : c.Answer}

theorem left_cons (hm : ¬m.Sets o) : left o (m :: h) = left o h := by
  obtain ⟨c, a⟩ := m
  cases c with
  | write w o' v =>
    rcases a with e | ⟨⟩
    · rfl
    · refine if_neg ?_
      rintro rfl
      exact hm ⟨w, v, rfl⟩
  | _ => rfl

theorem left_write {w : Width} {v : BitVec 32} : left o (⟨.write w o v, Except.ok ()⟩ :: h) = v := if_pos rfl

theorem wrote_cons : Wrote o (m :: h) ↔ m.Sets o ∨ h.Wrote o := by simp only [Wrote, List.mem_cons, exists_eq_or_imp]

theorem reporting_cons (hm : ¬m.Sets Register.dplbase) : Reporting (m :: h) ↔ h.Reporting := by
  unfold Reporting
  rw [left_cons hm]

theorem left_of_not_wrote : ∀ {h : History}, ¬h.Wrote o → left o h = 0
  | [], _ => rfl
  | m :: h, hh => by
    rw [wrote_cons, not_or] at hh
    rw [left_cons hh.1]
    exact left_of_not_wrote hh.2

theorem not_reporting_of_not_wrote (hh : ¬h.Wrote Register.dplbase) : ¬h.Reporting := by
  unfold Reporting
  rw [left_of_not_wrote hh]
  decide

/-! ### Memory that is there to be given back -/

theorem Unspent.mono (hl : ∀ g, l'.count g ≤ l.count g) (hs : Unspent l h) : Unspent l' h := fun g =>
  Nat.le_trans (Nat.add_le_add_left (hl g) _) (hs g)

theorem Unspent.call (hc : ∀ g, c ≠ .free g) (hs : Unspent l h) : Unspent l (⟨c, a⟩ :: h) := by
  have hfreed : freed (⟨c, a⟩ :: h) = h.freed := by
    apply List.filterMap_cons_none
    cases c <;> first | rfl | exact absurd rfl (hc _)
  intro g
  rw [hfreed]
  have hallocated : h.allocated.count g ≤ (allocated (⟨c, a⟩ :: h)).count g := by
    unfold allocated
    rw [List.filterMap_cons]
    split
    · exact Nat.le_refl _
    · exact List.count_le_count_cons
  exact Nat.le_trans (hs g) hallocated

theorem Unspent.allocate {k : Nat} (hs : Unspent l h) : Unspent (g :: l) (⟨.allocate k, Except.ok g⟩ :: h) := by
  intro g'
  change h.freed.count g' + (g :: l).count g' ≤ (g :: h.allocated).count g'
  have := hs g'
  rw [List.count_cons, List.count_cons]
  omega

theorem Unspent.free {a : Except Error Unit} (hs : Unspent (g :: l) h) : Unspent l (⟨.free g, a⟩ :: h) := by
  intro g'
  change (g :: h.freed).count g' + l.count g' ≤ h.allocated.count g'
  have := hs g'
  rw [List.count_cons] at this ⊢
  omega

theorem Unspent.live (hs : Unspent (g :: l) h) : Live g h := by
  have := hs g
  rw [List.count_cons_self] at this
  unfold Live
  omega

/-! ### Reports to memory that is there -/

theorem Told.cons {caps : GlobalCaps} (ht : Told caps h) : Told caps (m :: h) := by
  obtain ⟨v, hcaps, hv⟩ := ht
  exact ⟨v, hcaps, List.mem_cons_of_mem _ hv⟩

theorem Asked.cons (ha : Asked g h) : Asked g (m :: h) := by
  obtain ⟨caps, k, ht, hk, hle⟩ := ha
  exact ⟨caps, k, ht.cons, List.mem_cons_of_mem _ hk, hle⟩

theorem Shows.cons (hlower : ¬m.Sets Register.dplbase) (hupper : ¬m.Sets Register.dpubase) (hs : Shows g h) :
    Shows g (m :: h) where
  lower := (left_cons hlower).trans hs.lower
  upper := by
    rw [left_cons hupper, wrote_cons, or_iff_right hupper]
    exact hs.upper
  asked := hs.asked.cons

theorem Guarded.mono (hl : ∀ g, l'.count g ≤ l.count g) (hg : Guarded l h) : Guarded l' h := by
  intro hr
  obtain ⟨g, hshows, hs⟩ := hg hr
  refine ⟨g, hshows, hs.mono fun g' => ?_⟩
  rw [List.count_cons, List.count_cons]
  exact Nat.add_le_add_right (hl g') _

/-- A call that sets neither register and gives no memory back. -/
theorem Guarded.cons (hlower : ¬Made.Sets Register.dplbase ⟨c, a⟩) (hupper : ¬Made.Sets Register.dpubase ⟨c, a⟩)
    (hfree : ∀ g, c ≠ .free g) (hg : Guarded l h) : Guarded l (⟨c, a⟩ :: h) := by
  intro hr
  obtain ⟨g, hshows, hs⟩ := hg ((reporting_cons hlower).1 hr)
  exact ⟨g, hshows.cons hlower hupper, hs.call hfree⟩

theorem Guarded.free {a : Except Error Unit} (hg : Guarded (g :: l) h) : Guarded l (⟨.free g, a⟩ :: h) := by
  intro hr
  obtain ⟨g', hshows, hs⟩ := hg ((reporting_cons Made.not_sets_free).1 hr)
  -- regions are counted, so this holds of one that was had twice as well
  refine ⟨g', hshows.cons Made.not_sets_free Made.not_sets_free, Unspent.free (hs.mono fun g'' => ?_)⟩
  exact Nat.le_of_eq ((List.Perm.swap g' g l).count_eq g'')

/-- What holds of the latest call has always held if it had before. -/
theorem Kept.cons (hk : Kept l h) (hg : Guarded l' (m :: h)) : Kept l' (m :: h) where
  always := by
    intro pre hpre
    rcases List.suffix_cons_iff.1 hpre with rfl | hpre
    · exact hg.mono fun g => Nat.zero_le _
    · exact hk.always pre hpre
  now := hg

theorem Kept.mono (hl : ∀ g, l'.count g ≤ l.count g) (hk : Kept l h) : Kept l' h := ⟨hk.always, hk.now.mono hl⟩

theorem Kept.nil (hk : Kept l h) : Kept [] h := hk.mono fun _ => Nat.zero_le _

theorem Kept.free {a : Except Error Unit} (hk : Kept (g :: l) h) : Kept l (⟨.free g, a⟩ :: h) := hk.cons hk.now.free

theorem Kept.calm : Stable Call.Calm (Kept l) := fun _ _ _ hc hk =>
  hk.cons (hk.now.cons hc.not_sets.1 hc.not_sets.2 hc.not_free)

theorem Kept.refused {w : Width} {v : BitVec 32} {e : Error} (hk : Kept l h) :
    Kept l (⟨.write w o v, Except.error e⟩ :: h) :=
  hk.cons (hk.now.cons Made.not_sets_refused Made.not_sets_refused (by simp))

theorem Unlit.kept (hu : Unlit l h) : Kept l h where
  always := by
    rintro pre ⟨post, rfl⟩ hr
    have hnone : ¬Wrote Register.dplbase pre := fun ⟨m, hm, hs⟩ => hu.lower ⟨m, List.mem_append_right _ hm, hs⟩
    exact absurd hr (not_reporting_of_not_wrote hnone)
  now hr := absurd hr (not_reporting_of_not_wrote hu.lower)

theorem Unlit.cons (hc : c.Calm) (hs : Unspent l' (⟨c, a⟩ :: h)) (hu : Unlit l h) : Unlit l' (⟨c, a⟩ :: h) :=
  ⟨fun hw => hu.lower ((wrote_cons.1 hw).resolve_left hc.not_sets.1),
    fun hw => hu.upper ((wrote_cons.1 hw).resolve_left hc.not_sets.2), hs⟩

theorem Unlit.calm : Stable Call.Calm (Unlit l) := fun _ _ _ hc hu => hu.cons hc (hu.unspent.call hc.not_free)

theorem Unlit.swap {g' : Region} (hu : Unlit (g :: g' :: l) h) : Unlit (g' :: g :: l) h :=
  ⟨hu.lower, hu.upper, hu.unspent.mono fun g'' => Nat.le_of_eq ((List.Perm.swap g g' l).count_eq g'')⟩

theorem Unlit.refused {k : Nat} {e : Error} (hu : Unlit l h) : Unlit l (⟨.allocate k, Except.error e⟩ :: h) :=
  Unlit.calm (.allocate k) _ _ trivial hu

theorem Unlit.allocate {k : Nat} (hu : Unlit l h) : Unlit (g :: l) (⟨.allocate k, Except.ok g⟩ :: h) :=
  hu.cons trivial hu.unspent.allocate

/-- Reporting is off, whatever is given back from now on. -/
def Dark (h : History) : Prop := Throughout (Guarded []) h ∧ ¬h.Reporting

theorem Dark.kept (hd : h.Dark) : Kept l h := ⟨hd.1, fun hr => absurd hr hd.2⟩

theorem Dark.cons (hm : ¬m.Sets Register.dplbase) (hd : h.Dark) : Dark (m :: h) := by
  have hr : ¬Reporting (m :: h) := fun hr => hd.2 ((reporting_cons hm).1 hr)
  have hguarded : Guarded [] (m :: h) := fun h => absurd h hr
  exact ⟨(Kept.cons (hd.kept (l := [])) hguarded).always, hr⟩

/-- **Reporting is turned off** by the write of the lower half alone. -/
theorem Kept.dark {w : Width} (hk : Kept l h) : Dark (⟨.write w Register.dplbase 0, Except.ok ()⟩ :: h) := by
  have hr : ¬Reporting (⟨.write w Register.dplbase 0, Except.ok ()⟩ :: h) := by
    unfold Reporting
    rw [left_write]
    decide
  have hguarded : Guarded [] (⟨.write w Register.dplbase 0, Except.ok ()⟩ :: h) := fun h => absurd h hr
  exact ⟨(hk.cons hguarded).always, hr⟩

/-- **Reporting is turned on** by the write of the lower half, for memory that is there. -/
theorem Unlit.shows {w : Width} (hu : Unlit (g :: l) h) (ha : Asked g h) :
    Shows g (⟨.write w Register.dplbase (Bits.field (g.address ||| Streams.positionEnable) 0 32), Except.ok ()⟩ :: h) where
  lower := left_write
  upper := .inr fun hw => hu.upper ((wrote_cons.1 hw).resolve_left (Made.not_sets_other (by decide)))
  asked := ha.cons

theorem Shows.complete {w : Width} (hs : Shows g h) :
    Shows g (⟨.write w Register.dpubase (Bits.field (g.address ||| Streams.positionEnable) 32 32), Except.ok ()⟩ :: h) where
  lower := (left_cons (Made.not_sets_other (by decide))).trans hs.lower
  upper := .inl left_write
  asked := hs.asked.cons

end History

/-! ### The rings -/

namespace CommandRings

variable {σ : Type} {n : Nat} {s : σ} {h : History} {l : List Region}

theorem routine_calm {σ τ α : Type} {f : σ → τ} {x : Procedure σ α} (hx : Confined Call.Routine f x) :
    Confined Call.Calm f x := hx.mono fun _ hc => hc.calm

theorem stop_calm {control : BitVec 32} {limit : WaitLimit} (ho : control < Register.dplbase) :
    Confined Call.Calm id (stop (σ := σ) control limit) := (stop_still ho).mono fun _ hc => hc.1.calm

theorem resetPointers_calm {limit : WaitLimit} : Confined Call.Calm id (resetPointers (σ := σ) limit) :=
  resetPointers_still.mono fun _ hc => hc.1.calm

theorem allocate_unlit {k : Nat} (hu : Unlit l h) : Ensures recording n (allocate k) s h
    (steady (Kept []) s fun g h' => h' = ⟨.allocate k, Except.ok g⟩ :: h ∧ Unlit (g :: l) h') := by
  refine ensures_allocate.2 ?_
  rintro (e | g) _ rfl
  · exact ⟨rfl, hu.refused.kept.nil⟩
  · exact ⟨rfl, rfl, hu.allocate⟩

theorem setUp_unlit {poll : PollPolicy} (hu : Unlit [] h) :
    Ensures recording n (setUp poll) s h (steady (Kept []) s fun r => Unlit [r.corb, r.rirb]) := by
  have hJ : ∀ {l} (h : History), Unlit l h → Kept [] h := fun _ hu => hu.kept.nil
  refine Confined.steadyThen Unlit.calm hJ (stop_calm (by decide)) (fun _ h hu => ?_) hu
  refine Confined.steadyThen Unlit.calm hJ (stop_calm (by decide)) (fun _ h hu => ?_) hu
  refine steady_bind (allocate_unlit hu) ?_
  rintro corb _ ⟨rfl, hu⟩
  refine ensures_bind.2 (ensures_attempt.2 (ensures_allocate.2 ?_))
  rintro (e | rirb) _ rfl
  · -- without memory for the response ring, that of the command ring is given back
    refine ensures_bind.2 (ensures_free.2 ?_)
    rintro (e' | ⟨⟩) _ rfl
    · exact ⟨rfl, hu.refused.kept.free⟩
    · exact ⟨rfl, hu.refused.kept.free⟩
  · refine Confined.steadyThen Unlit.calm hJ (confined_request (c := .clear _ _) trivial) (fun _ h hu => ?_) hu.allocate
    refine Confined.steadyThen Unlit.calm hJ (confined_request (c := .clear _ _) trivial) (fun _ h hu => ?_) hu
    refine Confined.steadyThen Unlit.calm hJ (routine_calm (confined_writeAddress (by decide) (by decide))) (fun _ h hu => ?_) hu
    refine Confined.steadyThen Unlit.calm hJ (routine_calm (confined_writeAddress (by decide) (by decide))) (fun _ h hu => ?_) hu
    refine Confined.steadyThen Unlit.calm hJ (routine_calm (enlarge_routine (by decide))) (fun corbEntries h hu => ?_) hu
    refine Confined.steadyThen Unlit.calm hJ (routine_calm (enlarge_routine (by decide))) (fun rirbEntries h hu => ?_) hu
    refine Confined.steadyThen Unlit.calm hJ (confined_note trivial) (fun _ h hu => ?_) hu
    refine Confined.steadyThen Unlit.calm hJ resetPointers_calm (fun _ h hu => ?_) hu
    refine Confined.steadyThen Unlit.calm hJ (routine_calm (start_routine (by decide))) (fun _ h hu => ?_) hu
    refine Confined.steadyThen Unlit.calm hJ (routine_calm (confined_write_routine (by decide))) (fun _ h hu => ?_) hu
    refine Confined.steadyThen Unlit.calm hJ (routine_calm (start_routine (by decide))) (fun _ h hu => ?_) hu
    exact ⟨rfl, hu.swap⟩

/-- Rings that are taken down are given back one after the other, without the position buffer. -/
theorem tearDown_kept {r : CommandRings} (hk : Kept ([r.corb, r.rirb] ++ l) h) :
    Ensures recording n r.tearDown s h (steady (Kept l) s fun _ => Kept l) := by
  have hJ : ∀ h, Kept ([r.corb, r.rirb] ++ l) h → Kept l h := fun h hk => hk.mono fun g => by
    rw [List.count_append]
    exact Nat.le_add_left _ _
  refine Confined.steadyThen Kept.calm hJ (stop_calm (by decide)) (fun _ h hk => ?_) hk
  refine Confined.steadyThen Kept.calm hJ (stop_calm (by decide)) (fun _ h hk => ?_) hk
  refine Confined.steadyThen Kept.calm hJ resetPointers_calm (fun _ h hk => ?_) hk
  refine ensures_bind.2 (ensures_free.2 ?_)
  rintro (e | ⟨⟩) _ rfl
  · -- the command ring could not be given back, and the response ring stays too
    exact ⟨rfl, (hk.mono fun g => (List.sublist_cons_self r.rirb l).cons_cons r.corb |>.count_le g).free⟩
  · refine (ensures_free (n := n)).2 ?_
    rintro (e | ⟨⟩) _ rfl
    · exact ⟨rfl, hk.free.free⟩
    · exact ⟨rfl, hk.free.free⟩

end CommandRings

/-- The memory that a transport gives back when it is taken down. -/
def Transport.memory (t : Transport) : List Region := t.held.map Prod.snd

/-- The memory that a controller gives back when its transport is taken down. -/
def Controller.memory (c : Controller) : List Region := (c.held.getD []).map Prod.snd

section
variable {σ : Type} {n : Nat} {s : σ} {h : History} {l : List Region}

theorem Transport.establish_unlit {config : Config} (hu : Unlit [] h) :
    Ensures recording n (establish config) s h (steady (Kept []) s fun t => Unlit t.memory) := by
  have hJ : ∀ h, Unlit [] h → Kept [] h := fun _ hu => hu.kept
  refine Confined.steadyThen Unlit.calm hJ (CommandRings.routine_calm (choose_routine _)) (fun kind h hu => ?_) hu
  refine Confined.steadyThen Unlit.calm hJ (confined_note trivial) (fun _ h hu => ?_) hu
  cases kind with
  | immediate => exact ⟨rfl, hu⟩
  | rings => exact steady_bind (CommandRings.setUp_unlit hu) fun r h hu => ⟨rfl, hu⟩

theorem Transport.tearDown_kept : ∀ {t : Transport}, Kept (t.memory ++ l) h →
    Ensures recording n t.tearDown s h (steady (Kept l) s fun _ => Kept l)
  | .immediate _, hk => ⟨rfl, hk⟩
  | .rings _, hk => CommandRings.tearDown_kept hk

end

namespace Streams

variable {σ : Type} {n : Nat} {s : σ} {h : History} {l : List Region}

theorem allocateEngines_calm (streamClass : StreamClass) : ∀ index descriptor count,
    Confined Call.Calm id (allocateEngines streamClass index descriptor count : Procedure σ _)
  | _, _, 0 => confined_pure _
  | index, descriptor, count + 1 => by
    refine confined_bind (confined_ask (c := .allocate _) trivial) fun list => ?_
    refine confined_bind (confined_request (c := .clear _ _) trivial) fun _ => ?_
    exact confined_bind (allocateEngines_calm streamClass _ _ count) fun _ => confined_pure _

/-- **Reporting is turned on** in two steps, both of them to memory that is there. -/
theorem turnOn_kept {g : Region} (hu : Unlit (g :: l) h) (ha : Asked g h) :
    Ensures recording n (writeAddress Register.dplbase Register.dpubase (g.address ||| positionEnable)) s h
      (steady (Kept l) s fun _ => Kept l) := by
  have hkept : Kept l h := hu.kept.mono fun g' => List.count_le_count_cons
  refine ensures_bind.2 (ensures_write.2 ?_)
  rintro (e | ⟨⟩) _ rfl
  · exact ⟨rfl, hkept.refused⟩
  -- reporting is on now, and the upper half of the address has still to come
  have hshows := hu.shows (w := .dword) ha
  have hunspent := hu.unspent.call (a := Except.ok ()) (c := .write .dword Register.dplbase
    (Bits.field (g.address ||| positionEnable) 0 32)) (by simp)
  have hguarded : Guarded l (⟨.write .dword Register.dplbase (Bits.field (g.address ||| positionEnable) 0 32),
      Except.ok ()⟩ :: h) := fun _ => ⟨g, hshows, hunspent⟩
  have hon := hkept.cons hguarded
  refine (ensures_write (n := n)).2 ?_
  rintro (e | ⟨⟩) _ rfl
  · exact ⟨rfl, hon.refused⟩
  · exact ⟨rfl, hon.cons fun _ => ⟨g, hshows.complete, hunspent.call (by simp)⟩⟩

theorem capabilities_unlit {c : Controller} (hu : Unlit l h) : Ensures recording n Controller.capabilities c h
    (steady (Kept l) c fun caps h' => Unlit l h' ∧ Told caps h') := by
  refine ensures_bind.2 (ensures_bind.2 (ensures_read.2 ?_))
  rintro (e | v) _ rfl
  · exact ⟨rfl, (Unlit.calm (.read .word Register.gcap) (Except.error e) _ trivial hu).kept⟩
  · exact ⟨rfl, Unlit.calm (.read .word Register.gcap) (Except.ok v) _ trivial hu, v, rfl, List.mem_cons_self⟩

/-- **The streams are given their memory**, and nothing is reported before it is all there. -/
theorem allocate_kept {c : Controller} (hu : Unlit l h) :
    Ensures recording n allocate c h (steady (Kept l) c fun s h' => s.sample = none ∧ Kept l h') := by
  refine steady_bind (capabilities_unlit hu) fun caps h hk => ?_
  have hK : Stable Call.Calm fun h => Unlit l h ∧ Told caps h := Unlit.calm.and fun _ _ _ _ => Told.cons
  have hJ : ∀ h, Unlit l h ∧ Told caps h → Kept l h := fun _ hk => hk.1.kept
  refine Confined.steadyThen hK hJ (confined_note trivial) (fun _ h hk => ?_) hk
  refine Confined.steadyThen hK hJ (allocateEngines_calm _ _ _ _) (fun input h hk => ?_) hk
  refine Confined.steadyThen hK hJ (allocateEngines_calm _ _ _ _) (fun output h hk => ?_) hk
  refine Confined.steadyThen hK hJ (allocateEngines_calm _ _ _ _) (fun bidirectional h hk => ?_) hk
  refine ensures_bind.2 (ensures_allocate.2 ?_)
  rintro (e | positions) _ rfl
  · exact ⟨rfl, hk.1.refused.kept⟩
  -- the buffer is there before any register leads to it
  have hasked : Asked positions (⟨.allocate (max caps.totalStreams 1 * positionSlot), Except.ok positions⟩ :: h) := by
    refine ⟨caps, _, hk.2.cons, List.mem_cons_self, ?_⟩
    rw [Nat.mul_comm]
    exact Nat.mul_le_mul_right _ (Nat.le_max_left _ _)
  have hK : Stable Call.Calm fun h => Unlit (positions :: l) h ∧ Asked positions h :=
    Unlit.calm.and fun _ _ _ _ => Asked.cons
  have hJ : ∀ h, Unlit (positions :: l) h ∧ Asked positions h → Kept l h := fun _ hk =>
    hk.1.kept.mono fun g => List.count_le_count_cons
  refine Confined.steadyThen hK hJ (confined_request (c := .clear _ _) trivial) (fun _ h hk => ?_) ⟨hk.1.allocate, hasked⟩
  refine steady_bind (turnOn_kept hk.1 hk.2) fun _ h hk => ?_
  refine Confined.steadyThen Kept.calm (fun _ => id) (confined_note trivial) (fun _ h hk => ?_) hk
  exact ⟨rfl, rfl, hk⟩

/-! ### While reporting is on -/

/-- A register of a stream descriptor is neither half of the position buffer's address. -/
theorem calm_write {w : Width} {k : Nat} {o v : BitVec 32}
    (ho : o.toNat % Register.streamLength ≠ 0x10 ∧ o.toNat % Register.streamLength ≠ 0x14) :
    (Call.write w (Register.stream k + o) v).Calm := by
  -- descriptors begin at multiples of their length
  have hmod : (Register.stream k + o).toNat % Register.streamLength = o.toNat % Register.streamLength := by
    simp only [Register.stream, Register.streams, Register.streamLength, BitVec.toNat_add, BitVec.toNat_ofNat,
      BitVec.reduceToNat]
    omega
  constructor
  · intro he
    rw [he] at hmod
    exact ho.1 hmod.symm
  · intro he
    rw [he] at hmod
    exact ho.2 hmod.symm

/-- Streams without an earlier sample buffer give nothing back. -/
theorem program_calm {topology : Topology} {waveform : Array Byte} {c : Controller} {streams : Streams}
    (hsample : streams.sample = none) (hk : Kept l h) : Ensures recording n (program topology waveform) (c, streams) h
      (.always (fun t h' => t.1.held = c.held ∧ Kept l h') (Kept l)) := by
  rw [program_eq, ensures_bind, ensures_get, Outcome.withOk]
  dsimp only
  cases streams.output[c.config.outputStream]? with
  | none => exact ⟨rfl, hk⟩
  | some engine =>
    refine Confined.keeps (f := fun t : Controller × Streams => t.1.held) ?_ Kept.calm hk
    have hreset : Confined Call.Calm (fun t : Controller × Streams => t.1.held)
        (resetEngine engine.base (c.config.poll.limit .streamReset)) :=
      confined_resetEngine (fun _ _ => trivial) (fun _ => calm_write (by decide)) fun _ => trivial
    refine confined_bind hreset fun _ => confined_bind (confined_modify fun _ => rfl) fun _ => ?_
    rw [hsample]
    refine confined_bind (confined_dropSample fun _ hg => absurd hg (Option.not_mem_none _)) fun _ => ?_
    refine confined_load (fun c hwrite hfree => ?_) (fun w o v h4 hlong hlower hupper => ?_) (fun _ _ _ => rfl) ?_
    · cases c <;> first | trivial | exact absurd rfl (hwrite _ _ _) | exact absurd rfl (hfree _)
    · have hmod : o.toNat % Register.streamLength = o.toNat := by
        have hbytes := w.bytes_pos
        exact Nat.mod_eq_of_lt (by omega)
      exact calm_write (hmod.symm ▸ ⟨hlower, hupper⟩)
    · exact confined_onController ((formatConverters_routine _).mono fun _ hc => hc.calm) fun _ _ => id

theorem start_calm {streams : Streams} : Confined Call.Calm id streams.start :=
  confined_start (fun _ _ => trivial) (fun _ => ⟨by decide, by decide⟩) (fun _ _ _ => calm_write (by decide))
    (fun _ _ _ => calm_write (by decide)) fun _ _ => trivial

theorem stopEngine_calm {engine : StreamEngine} {limit : WaitLimit} :
    Confined Call.Calm id (stopEngine engine limit : Procedure σ _) := by
  refine confined_bind (confined_read16 trivial) fun _ => confined_bind (confined_write (calm_write (by decide))) fun _ => ?_
  exact confined_bind (confined_waitUntil (confined_look16 trivial) fun _ => trivial) fun _ => confined_note trivial

theorem freeAll_kept : ∀ {regions : List Region} {h : History}, h.Dark →
    Ensures recording n (freeAll regions) s h (steady (Kept l) s fun _ => Kept l)
  | [], _, hd => ⟨rfl, hd.kept⟩
  | region :: rest, h, hd => by
    refine ensures_bind.2 (ensures_free.2 ?_)
    rintro (e | ⟨⟩) _ rfl
    · exact ⟨rfl, (hd.cons Made.not_sets_free).kept⟩
    · exact freeAll_kept (hd.cons Made.not_sets_free)

/-- **Nothing is given back before reporting is off.** -/
theorem giveBack_kept {streams : Streams} {c : Controller} (hk : Kept l h) : Ensures recording n (do
      writeAddress Register.dplbase Register.dpubase 0
      freeAll streams.regions) c h (steady (Kept l) c fun _ => Kept l) := by
  refine ensures_bind.2 (ensures_bind.2 (ensures_write.2 ?_))
  rintro (e | ⟨⟩) _ rfl
  · exact ⟨rfl, hk.refused⟩
  -- reporting is off now, whatever becomes of the upper half
  have hd := hk.dark (w := .dword)
  refine (ensures_write (n := n)).2 ?_
  rintro (e | ⟨⟩) _ rfl
  · exact ⟨rfl, (hd.cons Made.not_sets_refused).kept⟩
  · exact freeAll_kept (hd.cons (Made.not_sets_other (by decide)))

theorem release_kept {streams : Streams} {c : Controller} (hk : Kept l h) :
    Ensures recording n streams.release c h (steady (Kept l) c fun _ => Kept l) := by
  unfold release
  cases streams.programmedEngine with
  | none => exact giveBack_kept hk
  | some engine =>
    refine ensures_bind.2 (ensures_get.2 ?_)
    exact Confined.steadyThen Kept.calm (fun _ => id) stopEngine_calm (fun _ h hk => giveBack_kept hk) hk

end Streams

end AudioBringup
