import AudioBringup.Proofs.ReleaseOrder
import AudioBringup.Proofs.Shortage
/-!
# Proofs.SampleOwnership — whose a sample buffer is when programming fails

Programming lets go of the earlier sample buffer, has a new one, points the engine at it and hands it to the streams then.
Every failure leaves each of the two with the streams or given back, but for a write that points the engine: by then the
new one has been had, and nobody holds it (`program_accounts`).
-/
namespace AudioBringup

open Procedure History

namespace History

variable {h h' new : History} {old : Option Region} {g : Region}

/-- Memory was given back as far as there was any in `old`, and none was had. -/
def Relinquished (old : Option Region) (new : History) : Prop := new.allocated = [] ∧ new.freed = old.toList

/-- A region was had once that of `old` was given back, and none was given back after it. -/
structure Replaced (old : Option Region) (g : Region) (new : History) : Prop where
  allocated : new.allocated = [g]
  freed : new.freed = old.toList
  last : ∃ (post : History) (k : Nat) (pre : History), new = post ++ ⟨.allocate k, Except.ok g⟩ :: pre ∧ post.freed = []

theorem Adds.stable {P : Call → Prop} {Q : History → Prop} (hQ : Stable P Q) : Stable P (Adds Q h) := by
  rintro c a _ hc ⟨new, rfl, hnew⟩
  exact ⟨⟨c, a⟩ :: new, rfl, hQ c a new hc hnew⟩

theorem Adds.mono {Q Q' : History → Prop} (hQ : ∀ new, Q new → Q' new) (hadds : Adds Q h h') : Adds Q' h h' := by
  obtain ⟨new, rfl, hnew⟩ := hadds
  exact ⟨new, rfl, hQ new hnew⟩

theorem Relinquished.stable : Stable Call.Quiet (Relinquished old) := fun _ _ _ hc hnew =>
  ⟨(allocated_quiet hc).trans hnew.1, (freed_quiet hc).trans hnew.2⟩

theorem Replaced.stable : Stable Call.Quiet (Replaced old g) := by
  rintro c a new hc ⟨hallocated, hfreed, post, k, pre, rfl, hpost⟩
  exact ⟨(allocated_quiet hc).trans hallocated, (freed_quiet hc).trans hfreed, ⟨c, a⟩ :: post, k, pre, rfl,
    (freed_quiet hc).trans hpost⟩

theorem Relinquished.replaced {k : Nat} (hnew : Relinquished old new) :
    Replaced old g (⟨.allocate k, Except.ok g⟩ :: new) :=
  ⟨congrArg (g :: ·) hnew.1, hnew.2, [], k, new, rfl, rfl⟩

end History

namespace Procedure

variable {σ α β : Type} {x : Procedure σ α} {n : Nat} {s : σ} {h : History} {K : History → Prop}

/-- The procedure comes to no failure. -/
def Unfailing (x : Procedure σ α) : Prop :=
  ∀ n s h, Ensures recording n x s h ⟨fun _ _ _ => True, fun _ _ _ => False, fun _ => True, fun _ => True⟩

theorem unfailing_bind {f : α → Procedure σ β} (hx : Unfailing x) (hf : ∀ a, Unfailing (f a)) : Unfailing (x >>= f) :=
  fun n s h => ensures_bind.2 ((hx n s h).mono (fun a s h _ => hf a n s h) (fun _ _ _ => id) (fun _ => id) fun _ => id)

theorem unfailing_request {c : Call} : Unfailing (request c : Procedure σ c.Answer) := fun _ _ _ _ _ _ => trivial

/-- An access either is made or ends everything. -/
theorem unfailing_locate {r : Region} {offset size : Nat} {y : Nat → Procedure σ α} (hy : ∀ host, Unfailing (y host)) :
    Unfailing (match r.locate offset size with
      | .ok host => y host
      | .error m => misuse m) := by
  cases r.locate offset size with
  | ok host => exact hy host
  | error m => exact fun _ _ _ => trivial

theorem unfailing_ite {c : Prop} [Decidable c] {y : Procedure σ α} (hx : Unfailing x) (hy : Unfailing y) :
    Unfailing (if c then x else y) := by
  by_cases hc : c
  · rw [if_pos hc]
    exact hx
  · rw [if_neg hc]
    exact hy

theorem unfailing_fill {r : Region} {offset : Nat} {data : Array Byte} :
    Unfailing (r.fill offset data : Procedure σ Unit) := unfailing_ite (fun _ _ _ => trivial) unfailing_request

/-- What no call ends is there after a procedure that comes to no failure. -/
theorem Unfailing.keeps {P : Call → Prop} (hx : Unfailing x) (hcalls : Confined P id x) (hK : Stable P K) (hh : K h) :
    Ensures recording n x s h (still s (fun _ => K) (fun _ _ => False) fun _ => True) :=
  ((hx n s h).and (hcalls.keeps hK hh)).mono (fun _ _ _ hk => hk.2) (fun _ _ _ hk => hk.1.elim) (fun _ _ => trivial)
    fun _ _ => trivial

end Procedure

namespace Streams

variable {σ : Type} {n : Nat} {c : Controller} {s : Streams} {h : History} {topology : Topology} {waveform : Array Byte}

/-- The registers that an engine is pointed at its buffer list with. -/
def pointers : List (BitVec 32) :=
  [Register.sdcbl, Register.sdlvi, Register.sdbdpl, Register.sdbdpu, Register.sdfmt]

/-- What became of the sample buffers, of which the streams had that in `old` and then have that in `sample`, where the
engine `e` was to be programmed and was not. -/
inductive Fate (e : Option StreamEngine) (old : Option Region) : (sample : Option Region) → History → Prop
  /-- the earlier one is still there -/
  | untouched {new : History} (hnew : Relinquished none new) : Fate e old old new
  | relinquished {new : History} (hnew : Relinquished old new) : Fate e old none new
  | held {g : Region} {new : History} (hnew : Replaced old g new) : Fate e old (some g) new
  /-- the engine could not be pointed at the new one, and nobody has it -/
  | lost {g : Region} {engine : StreamEngine} {w : Width} {o v : BitVec 32} {error : Error} {new : History}
    (hengine : e = some engine) (ho : o ∈ pointers) (hnew : Replaced old g new) :
    Fate e old none (⟨.write w (engine.base + o) v, Except.error error⟩ :: new)

/-- How programming can end. -/
def accounting (s : Streams) (e : Option StreamEngine) (α : Type) (h : History) : Outcome (Controller × Streams) α History :=
  ⟨fun _ t => Adds (fun new => ∃ g, t.2.sample = some g ∧ Replaced s.sample g new) h,
    fun _ t => Adds (Fate e s.sample t.2.sample) h, fun _ => True, fun _ => True⟩

/-- How a step can end while the streams have no sample buffer. -/
def unheld {α : Type} (e : Option StreamEngine) (old : Option Region) (t : σ) (h : History) (ok : α → History → Prop) :
    Outcome σ α History :=
  still t ok (fun _ => Adds (Fate e old none) h) fun _ => True

section
variable {α β : Type} {e : Option StreamEngine} {old : Option Region} {g : Region} {t : σ} {h₁ : History}

/-- A step with what follows it, while the streams have no sample buffer. -/
theorem unheld_andThen {x : Procedure (Controller × Streams) α} {f : α → Procedure (Controller × Streams) β}
    {t : Controller × Streams} {ok : α → History → Prop} (hsample : t.2.sample = none)
    (hx : Ensures recording n x t h₁ (unheld e s.sample t h ok))
    (hf : ∀ a h₁, ok a h₁ → Ensures recording n (f a) t h₁ (accounting s e β h)) :
    Ensures recording n (x >>= f) t h₁ (accounting s e β h) := by
  refine still_andThen hx (fun _ h' hh => ?_) (fun _ _ => trivial) (fun _ _ => trivial) hf
  change Adds (Fate e s.sample t.2.sample) h h'
  rw [hsample]
  exact hh

theorem allocate_unheld {k : Nat} (hh : Adds (Relinquished old) h h₁) : Ensures recording n (Procedure.allocate k) t h₁
    (unheld e old t h fun g => Adds (Replaced old g) h) := by
  obtain ⟨new, rfl, hnew⟩ := hh
  refine ensures_allocate.2 ?_
  rintro (error | g) _ rfl
  · exact ⟨rfl, _ :: new, rfl, .relinquished hnew⟩
  · exact ⟨rfl, _ :: new, rfl, hnew.replaced⟩

theorem free_unheld (hh : Adds (Relinquished none) h h₁) : Ensures recording n (free g) t h₁
    (unheld e (some g) t h fun _ => Adds (Relinquished (some g)) h) := by
  obtain ⟨new, rfl, hallocated, hfreed⟩ := hh
  have hnew : ∀ r, Relinquished (some g) (⟨.free g, r⟩ :: new) := fun _ => ⟨hallocated, congrArg (g :: ·) hfreed⟩
  refine ensures_free.2 ?_
  rintro (error | u) _ rfl
  · exact ⟨rfl, _ :: new, rfl, .relinquished (hnew _)⟩
  · exact ⟨rfl, _ :: new, rfl, hnew _⟩

theorem dropSample_unheld (hh : Adds (Relinquished none) h h₁) : Ensures recording n (dropSample old) t h₁
    (unheld e old t h fun _ => Adds (Relinquished old) h) := by
  cases old with
  | none => exact ⟨rfl, hh⟩
  | some g => exact free_unheld hh

/-- What comes to no failure leaves the new sample buffer as it is. -/
theorem unfailing_unheld {x : Procedure σ α} (hx : Unfailing x) (hcalls : Confined Call.Quiet id x)
    (hh : Adds (Replaced old g) h h₁) :
    Ensures recording n x t h₁ (unheld e old t h fun _ => Adds (Replaced old g) h) :=
  (hx.keeps hcalls (Adds.stable Replaced.stable) hh).mono (fun _ _ _ => id) (fun _ _ _ hk => hk.2.elim) (fun _ => id)
    fun _ => id

/-- A new sample buffer, where nothing has been given back but what was to go. -/
theorem allocateSample_unheld {parts : Nat} (hh : Adds (Relinquished old) h h₁) :
    Ensures recording n (allocateSample waveform parts) t h₁ (unheld e old t h fun r => Adds (Replaced old r.1) h) := by
  unfold allocateSample
  cases hshape : BufferList.checkShape waveform.size parts with
  | error error => exact ⟨rfl, hh.mono fun _ => .relinquished⟩
  | ok _ =>
    refine still_bind (allocate_unheld hh) fun g h₁ hh => ?_
    rw [BufferList.split_of_ok g.address hshape]
    exact still_bind (unfailing_unheld unfailing_fill (confined_fill trivial) hh) fun _ _ hh => ⟨rfl, hh⟩

theorem writePieces_unfailing {list : Region} : ∀ {index : Nat} {pieces : List BufferPiece},
    Unfailing (writePieces list index pieces : Procedure σ Unit)
  | _, [] => fun _ _ _ => trivial
  | _, _ :: _ => by
    refine unfailing_bind (unfailing_locate fun _ => unfailing_request) fun _ => ?_
    refine unfailing_bind (unfailing_locate fun _ => unfailing_request) fun _ => ?_
    exact unfailing_bind (unfailing_locate fun _ => unfailing_request) fun _ => writePieces_unfailing

/-- **A write that points the engine**: where it fails, the new sample buffer is lost. -/
theorem write_unheld {engine : StreamEngine} {w : Width} {o v : BitVec 32} (ho : o ∈ pointers)
    (hh : Adds (Replaced old g) h h₁) : Ensures recording n (write w (engine.base + o) v) t h₁
      (unheld (some engine) old t h fun _ => Adds (Replaced old g) h) := by
  obtain ⟨new, rfl, hnew⟩ := hh
  refine ensures_write.2 ?_
  rintro (error | u) _ rfl
  · exact ⟨rfl, _ :: new, rfl, .lost rfl ho hnew⟩
  · exact ⟨rfl, _ :: new, rfl, Replaced.stable _ _ _ trivial hnew⟩

/-- Pointing the converters at the engine, which the streams have the sample buffer for by then. -/
theorem formatConverters_accounts {addrs : List NodeAddr} {t : Controller × Streams} (hsample : t.2.sample = some g)
    (hh : Adds (Replaced s.sample g) h h₁) :
    Ensures recording n (onController (formatConverters addrs)) t h₁ (accounting s e Unit h) := by
  have hquiet : Confined Call.Quiet Controller.held (formatConverters addrs) :=
    (formatConverters_routine addrs).mono fun _ hc => hc.plain.quiet
  refine ensures_bind.2 (ensures_get.2 (ensures_on.2 ((hquiet.keeps (Adds.stable Replaced.stable) hh).mono ?_ ?_
    (fun _ _ => trivial) fun _ _ => trivial)))
  · exact fun _ _ _ hk => hk.2.mono fun new hnew => ⟨g, hsample, hnew⟩
  · rintro _ _ h' ⟨-, hadds⟩
    refine hadds.mono fun new hnew => ?_
    rw [hsample]
    exact .held hnew

end

/-- The new sample buffer is the streams' own once the engine is pointed at it. -/
theorem load_accounts {config : Config} {engine : StreamEngine} {addrs : List NodeAddr} {t : Controller × Streams}
    (hnone : t.2.sample = none) (hh : Adds (Relinquished s.sample) h h₁) :
    Ensures recording n (load config engine waveform addrs) t h₁ (accounting s (some engine) _ h) := by
  have hpieces : ∀ {list index pieces}, Confined Call.Quiet id
      (writePieces list index pieces : Procedure (Controller × Streams) _) :=
    confined_writePieces (fun _ _ => trivial) fun _ _ => trivial
  refine unheld_andThen hnone (allocateSample_unheld hh) fun r h₁ hh => ?_
  refine unheld_andThen hnone (unfailing_unheld writePieces_unfailing hpieces hh) fun _ h₁ hh => ?_
  refine unheld_andThen hnone (write_unheld (by decide) hh) fun _ h₁ hh => ?_
  refine unheld_andThen hnone (write_unheld (by decide) hh) fun _ h₁ hh => ?_
  refine unheld_andThen hnone (still_bind (write_unheld (by decide) hh) fun _ h₁ hh => write_unheld (by decide) hh)
    fun _ h₁ hh => ?_
  refine unheld_andThen hnone (write_unheld (by decide) hh) fun _ h₁ hh => ?_
  refine ensures_bind.2 (ensures_note.2 ?_)
  rintro _ rfl
  refine ensures_bind.2 (ensures_modify.2 (ensures_bind.2 ?_))
  exact formatConverters_accounts rfl (Adds.stable Replaced.stable _ _ _ trivial hh)

/-- **What becomes of the sample buffers** when an engine is programmed. -/
theorem program_accounts : Ensures recording n (program topology waveform) (c, s) h
    (accounting s s.output[c.config.outputStream]? _ h) := by
  rw [program_eq, ensures_bind, ensures_get, Outcome.withOk]
  dsimp only
  cases s.output[c.config.outputStream]? with
  | none => exact ⟨[], rfl, .untouched ⟨rfl, rfl⟩⟩
  | some e =>
    have hreset : ∀ {base limit}, Confined Call.Quiet id (resetEngine base limit : Procedure (Controller × Streams) _) :=
      confined_resetEngine (fun _ _ => trivial) (fun _ => trivial) fun _ => trivial
    refine still_andThen (hreset.steady (Adds.stable Relinquished.stable) (fun _ => id) ⟨[], rfl, rfl, rfl⟩)
      (fun _ _ hh => hh.mono fun _ => .untouched) (fun _ _ => trivial) (fun _ _ => trivial) fun _ h₁ hh => ?_
    refine ensures_bind.2 (ensures_modify.2 ?_)
    exact unheld_andThen rfl (dropSample_unheld hh) fun _ h₁ hh => load_accounts rfl hh

/-- **A sample buffer is lost where the engine cannot be pointed at it**, and nowhere else: however programming fails, the
streams hold each of the two or it was given back, and a release that goes through gives back what they hold, and nothing but
that. -/
theorem program_owns : Ensures recording n (program topology waveform) (c, s) h
    ⟨fun _ t => Adds (fun new => ∃ g, t.2.sample = some g ∧ Replaced s.sample g new) h,
      fun _ t h' => Adds (Fate s.output[c.config.outputStream]? s.sample t.2.sample) h h' ∧
        Ensures recording n t.2.release t.1 h'
          (.ifDone fun _ _ => Adds (fun new => new.returns.map Prod.fst = t.2.regions) h'),
      fun _ => True, fun _ => True⟩ :=
  program_accounts.mono (fun _ _ _ => id) (fun _ _ _ hh => ⟨hh, release_gives.ifDone fun _ _ _ hgives =>
    hgives.mono fun _ hgiven => (hgiven.ok_iff.1 rfl).1⟩) (fun _ => id) fun _ => id

/-! ### An engine that cannot be pointed at its buffer -/

/-- Answers of a platform for a controller with one output stream, whose engine cannot be told how long its buffer is.  Any
other register reads as it was written. -/
def unpointable : (c : Call) → History → c.Answer
  | .read _ o, h => .ok (if o = Register.gcap then 0x1000 else left o h)
  | .write _ o _, _ => if o = Register.stream 0 + Register.sdcbl then .error (.deviceIo "write" 7) else .ok ()
  | c, h => obliging c h

/-- Every region that was had is given back or is the sample buffer of the streams. -/
def NoneLost (t : Controller × Streams) (new : History) : Prop := ∀ g ∈ new.allocated, g ∈ new.freed ∨ t.2.sample = some g

instance (t : Controller × Streams) (new : History) : Decidable (NoneLost t new) :=
  inferInstanceAs (Decidable (∀ g ∈ new.allocated, g ∈ new.freed ∨ t.2.sample = some g))

/-- Programming fails and loses a region, with the calls of `h` before. -/
def loses (h : History) : Ending (Except Error (List NodeAddr) × (Controller × Streams)) × History → Bool
  | (.result (.error _, t), h') => !decide (NoneLost t (h'.take (h'.length - h.length)))
  | _ => false

/-- Allocating streams leaves some that lose a region when an engine is programmed. -/
def leavesLosing (waveform : Array Byte) : Ending (Except Error (Controller × Streams) × Controller) × History → Bool
  | (.result (.ok t, _), h) => loses h ((program {} waveform 8 t).run (askOf unpointable) h)
  | _ => false

theorem loses_sound {ended : Ending (Except Error (List NodeAddr) × (Controller × Streams)) × History}
    (hended : loses h ended = true) : ¬Outcome.holds ⟨fun _ _ _ => True, fun _ t => Adds (NoneLost t) h, fun _ => True,
      fun _ => True⟩ ended.1 ended.2 := by
  obtain ⟨⟨error | addrs, t⟩ | cause | _, h'⟩ := ended
  · rintro ⟨new, rfl, hnew⟩
    have htake : (new ++ h).take ((new ++ h).length - h.length) = new := by simp
    simp only [loses, htake, Bool.not_eq_true', decide_eq_false_iff_not] at hended
    exact hended hnew
  · cases hended
  · cases hended
  · cases hended

/-- **Programming can lose its sample buffer**: where the engine cannot be told how long it is, neither is it given back nor
do the streams have it. -/
theorem program_owns_unpointable : ¬∀ (t : Controller × Streams) (c : Controller) (h : History),
    Ends recording 8 (session []) { config := {} } [] (.ok t) c h →
      Ensures recording 8 (program {} (Array.replicate 256 0)) t h
        ⟨fun _ _ _ => True, fun _ t => Adds (NoneLost t) h, fun _ => True, fun _ => True⟩ := by
  intro howns
  have hrun : leavesLosing (Array.replicate 256 0)
      ((session [] 8 { config := {} }).run (askOf unpointable) []) = true := by
    decide +kernel
  have hends := ends_askOf unpointable (session [] 8 { config := {} }) []
  generalize (session [] 8 { config := {} }).run (askOf unpointable) [] = ended at hends hrun
  obtain ⟨(⟨error | t, c⟩ | cause | _), h⟩ := ended
  · cases hrun
  · exact Procedure.refuted unpointable (loses h) hrun (fun _ => loses_sound) (howns t c h hends)
  · cases hrun
  · cases hrun

end Streams
end AudioBringup
