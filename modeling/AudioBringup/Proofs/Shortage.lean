import AudioBringup.Proofs.Candid
import AudioBringup.Proofs.PositionBuffer
/-!
# Proofs.Shortage — runs in which nothing goes wrong but that memory is short

A run is unspoilt as long as no call fails but for want of memory and no wait is given up.  A procedure that has no memory
of its own to ask for then comes to its result (`Excused`), so whatever is outstanding is known all the way (`Open`): a
failed setup of the rings has given back what it had (`setUp_open`), but streams that were not allocated have not
(`allocate_open`).
-/
namespace AudioBringup

open Procedure History

/-- A call failed, and not for want of memory; or a wait was given up. -/
def Made.spoils : Made → Bool
  | ⟨.allocate _, _⟩ => false
  | ⟨.note (.gaveUp _ _), _⟩ => true
  | ⟨c, a⟩ => (c.failure? a).isSome

namespace History

/-- Nothing went wrong but that memory was short. -/
def Unspoilt (h : History) : Prop := ∀ m ∈ h, m.spoils = false

/-- The regions that were had since the streams were counted, if their position buffer is not in its place yet. -/
def unplaced : History → Option (List Region)
  | [] => none
  | ⟨.note (.streamsCounted ..), _⟩ :: _ => some []
  | ⟨.note (.positionsPlaced _), _⟩ :: _ => none
  | m :: h => (unplaced h).map ((had? m).toList ++ ·)

/-- The regions of streams that were counted and never came to have all their memory. -/
def stranded (h : History) : List Region := h.unplaced.getD []

/-- As long as nothing is spoilt, `l` is all that was had and not given back; `u` is what there is of streams without a
position buffer. -/
structure Open (u : Option (List Region)) (l : List Region) (h : History) : Prop where
  outstanding : h.Unspoilt → h.allocated.Perm (l ++ h.freed)
  unplaced : h.unplaced = u

variable {h h' : History} {u : Option (List Region)} {l l' new : List Region} {g : Region} {c : Call} {a : c.Answer}

theorem Unspoilt.of_cons {m : Made} (hu : Unspoilt (m :: h)) : h.Unspoilt := fun m' hm => hu m' (List.mem_cons_of_mem _ hm)

theorem not_unspoilt {m : Made} (hm : m.spoils = true) : ¬Unspoilt (m :: h) := fun hu => by
  have hm' := hu m List.mem_cons_self
  rw [hm] at hm'
  cases hm'

theorem unplaced_plain (hc : c.Plain) : unplaced (⟨c, a⟩ :: h) = h.unplaced := by
  have hid : h.unplaced.map (([] : List Region) ++ ·) = h.unplaced := by simp
  cases c with
  | note m => cases m <;> first | exact hid | exact hc.elim
  | allocate _ | free _ | release => exact hc.elim
  | _ => exact hid

theorem open_nil : Open none [] [] := ⟨fun _ => .refl _, rfl⟩

/-- What goes on while nothing is had. -/
theorem Open.cons {m : Made} (ho : Open u l h) (hallocated : allocated (m :: h) = h.allocated)
    (hfreed : (l ++ h.freed).Perm (l' ++ freed (m :: h))) (hunplaced : History.unplaced (m :: h) = h.unplaced) :
    Open u l' (m :: h) := by
  refine ⟨fun hu => ?_, hunplaced.trans ho.unplaced⟩
  rw [hallocated]
  exact (ho.outstanding hu.of_cons).trans hfreed

theorem Open.stable : Stable Call.Plain (Open u l) := fun _ _ _ hc ho =>
  ho.cons (allocated_quiet hc.quiet) (.of_eq (congrArg (l ++ ·) (freed_quiet hc.quiet).symm)) (unplaced_plain hc)

theorem unplaced_cons_silent {m : Made} (hm : ∀ n, m.call ≠ .note n) :
    History.unplaced (m :: h) = h.unplaced.map ((had? m).toList ++ ·) := by
  obtain ⟨c, a⟩ := m
  cases c with
  | note n => exact absurd rfl (hm n)
  | _ => rfl

theorem Open.allocate {k : Nat} (ho : Open u l h) :
    Open (u.map (g :: ·)) (g :: l) (⟨.allocate k, Except.ok g⟩ :: h) where
  outstanding hu := (ho.outstanding hu.of_cons).cons g
  unplaced := (unplaced_cons_silent (by simp)).trans (congrArg (Option.map (g :: ·)) ho.unplaced)

theorem Open.refused {k : Nat} {e : Error} (ho : Open u l h) : Open u l (⟨.allocate k, Except.error e⟩ :: h) :=
  ho.cons rfl (.refl _) ((unplaced_cons_silent (by simp)).trans (by simp [had?]))

theorem Open.free {r : Except Error Unit} (ho : Open u (g :: l) h) : Open u l (⟨.free g, r⟩ :: h) :=
  ho.cons rfl List.perm_middle.symm ((unplaced_cons_silent (by simp)).trans (by simp [had?]))

theorem Open.release {r : Except Error Unit} (ho : Open u l h) : Open u l (⟨.release, r⟩ :: h) :=
  ho.cons rfl (.refl _) ((unplaced_cons_silent (by simp)).trans (by simp [had?]))

theorem Open.counted {i o k : Nat} (ho : Open u l h) : Open (some []) l (⟨.note (.streamsCounted i o k), ()⟩ :: h) :=
  ⟨fun hu => ho.outstanding hu.of_cons, rfl⟩

theorem Open.placed {address : BitVec 64} (ho : Open u l h) : Open none l (⟨.note (.positionsPlaced address), ()⟩ :: h) :=
  ⟨fun hu => ho.outstanding hu.of_cons, rfl⟩

theorem Open.programmed {i d k p : Nat} (ho : Open u l h) : Open u l (⟨.note (.streamProgrammed i d k p), ()⟩ :: h) :=
  ho.cons rfl (.refl _) (by simp [History.unplaced, had?])

theorem Open.perm (hl : l.Perm l') (ho : Open u l h) : Open u l' h :=
  ⟨fun hu => (ho.outstanding hu).trans (hl.append_right _), ho.unplaced⟩

/-- Of a spoilt run nothing is said. -/
theorem Open.spoilt (ho : Open u l h) (hh : ¬h.Unspoilt) : Open u l' h := ⟨fun hu => absurd hu hh, ho.unplaced⟩

/-- Beside `l`, all that is open is what there is of streams without a position buffer. -/
def Unfinished (l : List Region) (h : History) : Prop := ∃ u, Open u (u.getD [] ++ l) h

theorem Unfinished.of_open (ho : Open none l h) : Unfinished l h := ⟨none, ho⟩

theorem Unfinished.stable : Stable Call.Plain (Unfinished l) := fun c a h hc ⟨u, ho⟩ => ⟨u, Open.stable c a h hc ho⟩

/-- What is open in the end of an unspoilt run is stranded. -/
theorem Unfinished.stranded (ho : Unfinished [] h) (hu : h.Unspoilt) : h.allocated.Perm (h.stranded ++ h.freed) := by
  obtain ⟨u, ho⟩ := ho
  have hperm := ho.outstanding hu
  rw [List.append_nil, ← ho.unplaced] at hperm
  exact hperm

end History

namespace Procedure

variable {σ α β : Type} {n : Nat} {s : σ} {h : History} {x : Procedure σ α} {P : Call → Prop}
  {u : Option (List Region)} {l l' : List Region}

/-- A failure has an excuse: the run is spoilt by then. -/
def Excused (x : Procedure σ α) : Prop :=
  ∀ n s h, Ensures recording n x s h ⟨fun _ _ _ => True, fun _ _ h' => ¬h'.Unspoilt, fun _ => True, fun _ => True⟩

theorem excused_pure (a : α) : Excused (pure a : Procedure σ α) := fun _ _ _ => trivial

theorem excused_bind {f : α → Procedure σ β} (hx : Excused x) (hf : ∀ a, Excused (f a)) : Excused (x >>= f) := fun n s h =>
  ensures_bind.2 ((hx n s h).mono (fun a s h _ => hf a n s h) (fun _ _ _ => id) (fun _ => id) fun _ => id)

theorem excused_ite {c : Prop} [Decidable c] {y : Procedure σ α} (hx : Excused x) (hy : Excused y) :
    Excused (if c then x else y) := by
  by_cases hc : c
  · rw [if_pos hc]
    exact hx
  · rw [if_neg hc]
    exact hy

theorem excused_ask {c : Call} {k : c.Answer → Except Error α}
    (hk : ∀ a e, k a = .error e → Made.spoils ⟨c, a⟩ = true) :
    Excused (fun _ (s : σ) => .ask c fun a => .pure (k a, s)) := by
  rintro n s h a _ rfl
  cases hr : k a with
  | ok r => simp only [Program.Ensures, hr, Outcome.holds, Outcome.after]
  | error e =>
    simp only [Program.Ensures, hr]
    exact not_unspoilt (hk a e hr)

theorem excused_request {c : Call} : Excused (request c : Procedure σ c.Answer) := excused_ask (k := .ok) nofun

theorem excused_note (m : Notice) : Excused (note m : Procedure σ Unit) := excused_request

theorem excused_read (w : Width) (o : BitVec 32) : Excused (read w o : Procedure σ _) :=
  excused_ask (c := .read w o) fun a e he => by cases he; rfl

theorem excused_write (w : Width) (o v : BitVec 32) : Excused (write w o v : Procedure σ _) :=
  excused_ask (c := .write w o v) fun a e he => by cases he; rfl

theorem excused_read8 (o : BitVec 32) : Excused (read8 o : Procedure σ _) :=
  excused_bind (excused_read _ _) fun _ => excused_pure _

theorem excused_read16 (o : BitVec 32) : Excused (read16 o : Procedure σ _) :=
  excused_bind (excused_read _ _) fun _ => excused_pure _

theorem excused_writeAddress (lower upper : BitVec 32) (address : BitVec 64) :
    Excused (writeAddress lower upper address : Procedure σ _) :=
  excused_bind (excused_write _ _ _) fun _ => excused_write _ _ _

theorem excused_waitUntil {site : WaitSite} {limit : WaitLimit} {check : Procedure σ Bool} (hcheck : Excused check) :
    Excused (waitUntil site limit check) := by
  intro n s h
  refine ensures_waitUntil (fun _ _ => True) (fun s h _ => ?_) ?_ (fun _ _ => id) trivial
  · refine (hcheck n s h).mono (fun holds _ _ _ => ?_) (fun _ _ _ => id) (fun _ => id) fun _ => id
    cases holds <;> trivial
  · rintro k s h _ - rfl
    exact not_unspoilt rfl

/-- An access either is made or ends everything. -/
theorem excused_locate {r : Region} {offset size : Nat} {y : Nat → Procedure σ α} (hy : ∀ host, Excused (y host)) :
    Excused (match r.locate offset size with
      | .ok host => y host
      | .error m => misuse m) := by
  cases r.locate offset size with
  | ok host => exact hy host
  | error m => exact fun _ _ _ => trivial

/-! ### A step with what follows it -/

/-- A step that leaves its state as it is: a result satisfies `ok`, and `J` holds after a failure. -/
def leaving (J : History → Prop) (s : σ) (ok : α → History → Prop) : Outcome σ α History :=
  still s ok (fun _ => J) fun _ => True

/-- A step that leaves memory alone and fails with an excuse only. -/
structure Harmless (x : Procedure σ α) : Prop where
  excused : Excused x
  plain : Confined Call.Plain id x

/-- What was open still is after a harmless step, and anything is after its failure. -/
theorem Harmless.leaving {J : History → Prop} (hx : Harmless x) (hJ : ∀ h, (∀ l', Open u l' h) → J h) (ho : Open u l h) :
    Ensures recording n x s h (leaving J s fun _ => Open u l) :=
  ((hx.excused n s h).and (hx.plain.keeps Open.stable ho)).mono (fun _ _ _ hk => hk.2)
    (fun _ _ h hk => ⟨hk.2.1, hJ h fun _ => hk.2.2.spoilt hk.1⟩) (fun _ _ => trivial) fun _ _ => trivial

theorem Harmless.stays (hx : Harmless x) (ho : Open u l h) :
    Ensures recording n x s h (Procedure.leaving (Open u l') s fun _ => Open u l) :=
  hx.leaving (fun _ ho => ho l') ho

theorem Harmless.then {f : α → Procedure σ β} {ok : β → History → Prop} (hx : Harmless x) (ho : Open u l h)
    (hf : ∀ a h, Open u l h → Ensures recording n (f a) s h (Procedure.leaving (Open u l') s ok)) :
    Ensures recording n (x >>= f) s h (Procedure.leaving (Open u l') s ok) :=
  still_bind (hx.stays ho) hf

theorem harmless_request {c : Call} (hc : c.Plain) : Harmless (request c : Procedure σ c.Answer) :=
  ⟨excused_request, confined_request hc⟩

theorem harmless_note {m : Notice} (hm : (Call.note m).Plain) : Harmless (note m : Procedure σ Unit) :=
  ⟨excused_note m, confined_note hm⟩

theorem harmless_write (w : Width) (o v : BitVec 32) : Harmless (write w o v : Procedure σ _) :=
  ⟨excused_write w o v, confined_write trivial⟩

theorem harmless_writeAddress (lower upper : BitVec 32) (address : BitVec 64) :
    Harmless (writeAddress lower upper address : Procedure σ _) :=
  ⟨excused_writeAddress _ _ _, confined_bind (confined_write trivial) fun _ => confined_write trivial⟩

theorem harmless_fill (r : Region) (offset : Nat) (data : Array Byte) : Harmless (r.fill offset data : Procedure σ _) where
  excused := excused_ite (fun _ _ _ => trivial) excused_request
  plain := confined_fill trivial

/-- Memory that is given back is no longer open, whether or not it is taken. -/
theorem free_leaving {g : Region} (ho : Open u (g :: l) h) :
    Ensures recording n (free g) s h (leaving (Open u l') s fun _ => Open u l) := by
  refine ensures_free.2 ?_
  rintro (e | ⟨⟩) _ rfl
  · exact ⟨rfl, ho.free.spoilt (not_unspoilt rfl)⟩
  · exact ⟨rfl, ho.free⟩

theorem allocate_leaving {J : History → Prop} {k : Nat} (hJ : ∀ h, Open u l h → J h) (ho : Open u l h) :
    Ensures recording n (allocate k) s h (leaving J s fun g => Open (u.map (g :: ·)) (g :: l)) := by
  refine ensures_allocate.2 ?_
  rintro (e | g) _ rfl
  · exact ⟨rfl, hJ _ ho.refused⟩
  · exact ⟨rfl, ho.allocate⟩

end Procedure

/-! ### The rings -/

namespace CommandRings

variable {σ : Type} {n : Nat} {s : σ} {h : History} {u : Option (List Region)} {l : List Region} {control : BitVec 32}
  {limit : WaitLimit} {poll : PollPolicy}

theorem stop_harmless (ho : control < Register.dplbase) : Harmless (stop control limit : Procedure σ _) where
  excused := excused_bind (excused_read8 _) fun _ => excused_bind (excused_write _ _ _) fun _ =>
    excused_waitUntil (excused_bind (excused_read8 _) fun _ => excused_pure _)
  plain := (stop_still ho).mono fun _ hc => hc.1.plain

theorem start_harmless (ho : control < Register.dplbase) : Harmless (start control : Procedure σ _) where
  excused := excused_bind (excused_read8 _) fun _ => excused_write _ _ _
  plain := (start_routine ho).mono fun _ hc => hc.plain

theorem enlarge_harmless {size : BitVec 32} (ho : size < Register.dplbase) : Harmless (enlarge size : Procedure σ _) where
  excused := excused_bind (excused_read8 _) fun _ => excused_bind (excused_write _ _ _) fun _ => excused_pure _
  plain := (enlarge_routine ho).mono fun _ hc => hc.plain

theorem resetPointers_harmless : Harmless (resetPointers limit : Procedure σ _) where
  excused := by
    have hlook : ∀ {check : BitVec 16 → Bool}, Excused (σ := σ) (waitUntil .ringReset limit do
        return check (← read16 Register.corbrp)) :=
      excused_waitUntil (excused_bind (excused_read16 _) fun _ => excused_pure _)
    refine excused_bind (excused_write _ _ _) fun _ => excused_bind (excused_write _ _ _) fun _ => ?_
    refine excused_bind hlook fun _ => excused_bind (excused_write _ _ _) fun _ => ?_
    exact excused_bind hlook fun _ => excused_write _ _ _
  plain := resetPointers_still.mono fun _ hc => hc.1.plain

/-- **A setup of the rings for which there is no memory** gives back what it had. -/
theorem setUp_open (ho : Open none l h) :
    Ensures recording n (setUp poll) s h (leaving (Open none l) s fun r => Open none (r.corb :: r.rirb :: l)) := by
  refine (stop_harmless (by decide)).then ho fun _ h ho => (stop_harmless (by decide)).then ho fun _ h ho => ?_
  refine still_bind (allocate_leaving (fun _ => id) ho) fun corb h ho => ?_
  refine ensures_bind.2 (ensures_attempt.2 (ensures_allocate.2 ?_))
  rintro (e | rirb) _ rfl
  · exact still_bind (free_leaving ho.refused) fun _ h ho => ⟨rfl, ho⟩
  refine (harmless_request (c := .clear _ _) trivial).then ho.allocate fun _ h ho => ?_
  refine (harmless_request (c := .clear _ _) trivial).then ho fun _ h ho => ?_
  refine (harmless_writeAddress _ _ _).then ho fun _ h ho => (harmless_writeAddress _ _ _).then ho fun _ h ho => ?_
  refine (enlarge_harmless (by decide)).then ho fun corbEntries h ho => ?_
  refine (enlarge_harmless (by decide)).then ho fun rirbEntries h ho => ?_
  refine (harmless_note (m := .ringsPlaced _ _ _ _) trivial).then ho fun _ h ho => ?_
  refine resetPointers_harmless.then ho fun _ h ho => (start_harmless (by decide)).then ho fun _ h ho => ?_
  refine (harmless_write _ _ _).then ho fun _ h ho => (start_harmless (by decide)).then ho fun _ h ho => ?_
  exact ⟨rfl, ho.perm (.swap ..)⟩

theorem tearDown_open {r : CommandRings} (ho : Open u (r.corb :: r.rirb :: l) h) :
    Ensures recording n r.tearDown s h (leaving (Open u l) s fun _ => Open u l) := by
  refine (stop_harmless (by decide)).then ho fun _ h ho => (stop_harmless (by decide)).then ho fun _ h ho => ?_
  refine resetPointers_harmless.then ho fun _ h ho => still_bind (free_leaving ho) fun _ h ho => ?_
  exact free_leaving ho

end CommandRings

namespace Transport

variable {σ : Type} {n : Nat} {s : σ} {h : History} {u : Option (List Region)} {l : List Region}

theorem choose_harmless : ∀ preference, Harmless (choose preference : Procedure σ _)
  | .immediate | .rings => ⟨excused_pure _, confined_pure _⟩
  | .auto => by
    refine ⟨excused_bind (excused_read16 _) fun _ => excused_bind (excused_note _) fun _ => excused_pure _, ?_⟩
    exact (choose_routine .auto).mono fun _ hc => hc.plain

theorem establish_open {config : Config} (ho : Open none l h) :
    Ensures recording n (establish config) s h (leaving (Open none l) s fun t => Open none (t.memory ++ l)) := by
  refine (choose_harmless _).then ho fun kind h ho => ?_
  refine (harmless_note (m := .transportChosen _) trivial).then ho fun _ h ho => ?_
  cases kind with
  | immediate => exact ⟨rfl, ho⟩
  | rings => exact still_bind (CommandRings.setUp_open ho) fun r h ho => ⟨rfl, ho⟩

theorem tearDown_open : ∀ {t : Transport}, Open u (t.memory ++ l) h →
    Ensures recording n t.tearDown s h (leaving (Open u l) s fun _ => Open u l)
  | .immediate _, ho => ⟨rfl, ho⟩
  | .rings _, ho => CommandRings.tearDown_open ho

end Transport

/-! ### The streams -/

namespace Streams

variable {σ : Type} {n : Nat} {s : σ} {h : History} {u : Option (List Region)} {l new : List Region} {c : Controller}

theorem allocateEngines_open {streamClass : StreamClass} :
    ∀ {count index descriptor : Nat} {new : List Region} {h : History}, Open (some new) (new ++ l) h →
    Ensures recording n (allocateEngines streamClass index descriptor count) s h
      (leaving (Unfinished l) s fun engines h' => Open (some ((engines.map (·.list)).reverse ++ new))
        ((engines.map (·.list)).reverse ++ new ++ l) h')
  | 0, _, _, _, _, ho => ⟨rfl, ho⟩
  | count + 1, index, descriptor, new, h, ho => by
    refine still_bind (allocate_leaving (fun _ ho => ⟨_, ho⟩) ho) fun list h ho => ?_
    refine still_bind ((harmless_request (c := .clear _ _) trivial).leaving (fun _ ho => ⟨_, ho _⟩) ho) fun _ h ho => ?_
    refine still_bind (allocateEngines_open ho) fun rest h ho => ⟨rfl, ?_⟩
    simpa using ho

/-- The regions in the order they were had, the latest first, against the order they are given back in. -/
theorem latest_perm_regions {input output bidirectional : List StreamEngine} {positions : Region} :
    (positions :: ((bidirectional.map (·.list)).reverse ++ ((output.map (·.list)).reverse ++
      ((input.map (·.list)).reverse ++ [])))).Perm (regions { input, output, bidirectional, positions }) := by
  rw [List.perm_iff_count]
  intro g
  simp only [regions, Option.toList, List.nil_append, List.map_append, List.map_reverse, List.append_nil,
    List.count_append, List.count_reverse, List.count_cons, List.count_nil]
  omega

/-- **Streams for which there is not memory enough** keep what they had: whatever was had for them is all still open. -/
theorem allocate_open (ho : Open none l h) : Ensures recording n allocate c h
    (leaving (Unfinished l) c fun streams => Open none (streams.regions ++ l)) := by
  have capabilities : Harmless Controller.capabilities :=
    ⟨excused_bind (excused_read16 _) fun _ => excused_pure _,
      confined_bind (confined_read16 trivial) fun _ => confined_pure _⟩
  refine still_bind (capabilities.leaving (fun _ ho => ⟨_, ho _⟩) ho) fun caps h ho => ?_
  refine ensures_bind.2 (ensures_note.2 ?_)
  rintro _ rfl
  refine still_bind (allocateEngines_open ho.counted) fun input h ho => ?_
  refine still_bind (allocateEngines_open ho) fun output h ho => ?_
  refine still_bind (allocateEngines_open ho) fun bidirectional h ho => ?_
  refine still_bind (allocate_leaving (fun _ ho => ⟨_, ho⟩) ho) fun positions h ho => ?_
  refine still_bind ((harmless_request (c := .clear _ _) trivial).leaving (fun _ ho => ⟨_, ho _⟩) ho) fun _ h ho => ?_
  refine still_bind ((harmless_writeAddress _ _ _).leaving (fun _ ho => ⟨_, ho _⟩) ho) fun _ h ho => ?_
  refine ensures_bind.2 (ensures_note.2 ?_)
  rintro _ rfl
  exact ⟨rfl, ho.placed.perm (latest_perm_regions.append_right l)⟩

theorem stopEngine_harmless {engine : StreamEngine} {limit : WaitLimit} {streams : Streams}
    (he : streams.programmedEngine = some engine) : Harmless (stopEngine engine limit : Procedure σ _) where
  excused := excused_bind (excused_read16 _) fun _ => excused_bind (excused_write _ _ _) fun _ => excused_bind
    (excused_waitUntil (excused_bind (excused_read16 _) fun _ => excused_pure _)) fun _ => excused_note _
  plain := (stopEngine_sparing he).mono fun _ hc => hc.1

theorem freeAll_open : ∀ {regions : List Region} {h : History}, Open u (regions ++ l) h →
    Ensures recording n (freeAll regions) s h (leaving (Open u l) s fun _ => Open u l)
  | [], _, ho => ⟨rfl, ho⟩
  | _ :: _, _, ho => still_bind (free_leaving ho) fun _ _ ho => freeAll_open ho

theorem release_open {streams : Streams} (ho : Open u (streams.regions ++ l) h) :
    Ensures recording n streams.release c h (leaving (Open u l) c fun _ => Open u l) := by
  unfold release
  cases he : streams.programmedEngine
  case' some engine => refine ensures_bind.2 (ensures_get.2 ((stopEngine_harmless he).then ho fun _ h ho => ?_))
  all_goals exact (harmless_writeAddress _ _ _).then ho fun _ h ho => freeAll_open ho

/-! ### Programming an engine -/

theorem resetEngine_harmless {base : BitVec 32} {limit : WaitLimit} : Harmless (resetEngine base limit : Procedure σ _) where
  excused := by
    have hlook : ∀ {check : BitVec 16 → Bool}, Excused (σ := σ) (waitUntil .streamReset limit do
        return check (← read16 (base + Register.sdctl))) :=
      excused_waitUntil (excused_bind (excused_read16 _) fun _ => excused_pure _)
    refine excused_bind (excused_read16 _) fun _ => excused_bind (excused_write _ _ _) fun _ => ?_
    refine excused_bind hlook fun _ => ?_
    exact excused_bind (excused_read16 _) fun _ => excused_bind (excused_write _ _ _) fun _ => hlook
  plain := resetEngine_plain

theorem writePieces_excused {list : Region} : ∀ {index : Nat} {pieces : List BufferPiece},
    Excused (writePieces list index pieces : Procedure σ _)
  | _, [] => excused_pure _
  | _, _ :: _ => by
    refine excused_bind (excused_locate fun _ => excused_request) fun _ => ?_
    refine excused_bind (excused_locate fun _ => excused_request) fun _ => ?_
    exact excused_bind (excused_locate fun _ => excused_request) fun _ => writePieces_excused

theorem writePieces_harmless {list : Region} {index : Nat} {pieces : List BufferPiece} :
    Harmless (writePieces list index pieces : Procedure σ _) := ⟨writePieces_excused, writePieces_plain⟩

theorem allocateSample_open {waveform : Array Byte} {parts : Nat} (ho : Open none l h) :
    Ensures recording n (allocateSample waveform parts) s h
      (leaving (Open none l) s fun r => Open none (r.1 :: l)) := by
  unfold allocateSample
  cases hshape : BufferList.checkShape waveform.size parts with
  | error e => exact ⟨rfl, ho⟩
  | ok _ =>
    refine still_bind (allocate_leaving (fun _ => id) ho) fun sample h ho => ?_
    rw [BufferList.split_of_ok sample.address hshape]
    exact (harmless_fill sample 0 waveform).then ho fun _ h ho => ⟨rfl, ho⟩

/-- What is to be open once an attempt was made to program an engine: the streams hold what there is of them. -/
def programming (l : List Region) (c : Controller) (α : Type) : Outcome (Controller × Streams) α History :=
  ⟨fun _ t h => t.1.held = c.held ∧ Open none (t.2.regions ++ l) h,
    fun _ t h => t.1.held = c.held ∧ Open none (t.2.regions ++ l) h, fun _ => True, fun _ => True⟩

/-- A step with what follows it, while the streams hold what there is of them. -/
theorem programming_andThen {α β : Type} {x : Procedure (Controller × Streams) α}
    {f : α → Procedure (Controller × Streams) β} {streams : Streams} {J : History → Prop} {ok : α → History → Prop}
    (hx : Ensures recording n x (c, streams) h (leaving J (c, streams) ok))
    (hJ : ∀ h, J h → Open none (streams.regions ++ l) h)
    (hf : ∀ a h, ok a h → Ensures recording n (f a) (c, streams) h (programming l c β)) :
    Ensures recording n (x >>= f) (c, streams) h (programming l c β) :=
  still_andThen hx (fun _ h hj => ⟨rfl, hJ h hj⟩) (fun _ => id) (fun _ => id) hf

theorem onController_open {α : Type} {streams : Streams} {x : Procedure Controller α}
    (hx : Confined Call.Routine Controller.held x) (ho : Open none (streams.regions ++ l) h) :
    Ensures recording n (onController x) (c, streams) h (programming l c α) :=
  ensures_bind.2 (ensures_get.2 (ensures_on.2 ((hx.keeps (Open.stable.mono fun _ hc => hc.plain) ho).mono (fun _ _ _ => id)
    (fun _ _ _ => id) (fun _ _ => trivial) fun _ _ => trivial)))

theorem dropSample_open {earlier : Option Region} (ho : Open none (earlier.toList ++ l) h) :
    Ensures recording n (dropSample earlier) s h (leaving (Open none l) s fun _ => Open none l) := by
  cases earlier with
  | none => exact ⟨rfl, ho⟩
  | some g => exact free_leaving ho

/-- The new sample buffer is open at once, and the streams hold it when the engine is pointed at it. -/
theorem load_open {streams : Streams} {config : Config} {engine : StreamEngine} {waveform : Array Byte}
    {converters : List NodeAddr} (hnone : streams.sample = none) (ho : Open none (streams.regions ++ l) h) :
    Ensures recording n (load config engine waveform converters) (c, streams) h (programming l c _) := by
  obtain ⟨input, output, bidirectional, positions, _, programmed⟩ := streams
  cases hnone
  refine programming_andThen (allocateSample_open ho) (fun _ => id) fun sample h ho => ?_
  refine programming_andThen (writePieces_harmless.stays ho) (fun _ => id) fun _ h ho => ?_
  refine programming_andThen ((harmless_write _ _ _).stays ho) (fun _ => id) fun _ h ho => ?_
  refine programming_andThen ((harmless_write _ _ _).stays ho) (fun _ => id) fun _ h ho => ?_
  refine programming_andThen ((harmless_writeAddress _ _ _).stays ho) (fun _ => id) fun _ h ho => ?_
  refine programming_andThen ((harmless_write _ _ _).stays ho) (fun _ => id) fun _ h ho => ?_
  refine ensures_bind.2 (ensures_note.2 ?_)
  rintro _ rfl
  refine ensures_bind.2 (ensures_modify.2 (ensures_bind.2 ?_))
  exact onController_open (formatConverters_routine _) ho.programmed

/-- **Programming an engine** gives back the sample buffer it had, and holds the one it gets instead. -/
theorem program_open {streams : Streams} {topology : Topology} {waveform : Array Byte}
    (ho : Open none (streams.regions ++ l) h) :
    Ensures recording n (program topology waveform) (c, streams) h (programming l c _) := by
  rw [program_eq, ensures_bind, ensures_get, Outcome.withOk]
  dsimp only
  cases streams.output[c.config.outputStream]? with
  | none => exact ⟨rfl, ho⟩
  | some engine =>
    refine programming_andThen (resetEngine_harmless.stays ho) (fun _ => id) fun _ h ho => ?_
    refine ensures_bind.2 (ensures_modify.2 ?_)
    rw [regions_sample, List.append_assoc] at ho
    exact programming_andThen (dropSample_open ho) (fun _ => id) fun _ h ho => load_open rfl ho

end Streams
end AudioBringup
