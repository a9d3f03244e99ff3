import AudioBringup.Proofs.Ensures
/-!
# Proofs.History — every call a run has made, with its answer

A platform may answer a call whatever it likes (`recording`): any register value, any failure, any memory.  What it was
asked and answered is kept, the latest call first, and everything that is said of a run is said of that.

Memory is told apart by when it was had: for the rings before the streams were counted, for the streams after.
-/
namespace AudioBringup

/-- A call with the answer it got. -/
structure Made where
  call : Call
  answer : call.Answer

/-- The calls made so far, the latest first. -/
abbrev History := List Made

/-- The world in which every answer is allowed. -/
def recording : World Call Call.Answer History := fun c h a h' => h' = ⟨c, a⟩ :: h

/-- A call to a platform that answers by the calls before. -/
def askOf (platform : (c : Call) → History → c.Answer) (c : Call) (h : History) : c.Answer × History :=
  (platform c h, ⟨c, platform c h⟩ :: h)

/-- **One run refutes what is said of all**, if executing it on some platform shows how it is `wrong`. -/
theorem Procedure.refuted {σ α : Type} {n : Nat} {x : Procedure σ α} {s : σ} {h : History} {Q : Outcome σ α History}
    (platform : (c : Call) → History → c.Answer) (wrong : Ending (Except Error α × σ) × History → Bool)
    (hwrong : wrong ((x n s).run (askOf platform) h) = true)
    (hsound : ∀ ended, wrong ended = true → ¬Q.holds ended.1 ended.2) : ¬Ensures recording n x s h Q := by
  intro hx
  refine hsound _ hwrong (Program.ensures_iff_ends.1 hx _ _ ?_)
  exact Program.ends_run (I := fun _ => True) (fun _ _ _ => ⟨rfl, trivial⟩) trivial

namespace Call

/-- Reads the register at `o`. -/
def Reads (c : Call) (o : BitVec 32) : Prop := ∃ w, c = .read w o

/-- Writes the register at `o`. -/
def Writes (c : Call) (o : BitVec 32) : Prop := ∃ w v, c = .write w o v

/-- Writes the register at `o` with its run bit set. -/
def Starts (c : Call) (o : BitVec 32) : Prop := ∃ w v, c = .write w o v ∧ v.getLsbD 1 = true

/-- Neither has memory nor gives it back, and does not give up the controller. -/
def Quiet : Call → Prop
  | .allocate _ | .free _ | .release => False
  | _ => True

/-- Quiet, and no notice of how far the streams have come. -/
def Plain : Call → Prop
  | .allocate _ | .free _ | .release => False
  | .note (.streamsCounted ..) | .note (.positionsPlaced _) | .note (.streamProgrammed ..) => False
  | _ => True

/-- A plain call that writes neither the position buffer's address nor a stream descriptor. -/
def Routine : Call → Prop
  | .write _ o _ => o < Register.dplbase
  | c => c.Plain

theorem Plain.quiet : ∀ {c : Call}, c.Plain → c.Quiet
  | .candidates, _ | .identify _, _ | .bindExclusive _, _ | .read .., _ | .write .., _ | .stall _, _ | .armTimer _, _
  | .timerExpired, _ | .cancelTimer, _ | .load32 _, _ | .load64 _, _ | .store32 .., _ | .store64 .., _ | .fill .., _
  | .clear .., _ | .note _, _ => trivial

theorem Routine.plain : ∀ {c : Call}, c.Routine → c.Plain
  | .write .., _ => trivial
  | .candidates, h | .identify _, h | .bindExclusive _, h | .read .., h | .stall _, h | .armTimer _, h | .timerExpired, h
  | .cancelTimer, h | .load32 _, h | .load64 _, h | .store32 .., h | .store64 .., h | .fill .., h | .clear .., h
  | .note _, h => h

end Call

namespace History

/-! ### How a run goes on -/

/-- Calls were made on top of `h`, each of them `P`. -/
inductive Grows (P : Call → Prop) (h : History) : History → Prop
  | refl : Grows P h h
  | call {c : Call} {a : c.Answer} {h' : History} (hc : P c) (grows : Grows P h h') : Grows P h (⟨c, a⟩ :: h')

/-- What a call that is `P` does not end, however it is answered. -/
def Stable (P : Call → Prop) (K : History → Prop) : Prop := ∀ (c : Call) (a : c.Answer) h, P c → K h → K (⟨c, a⟩ :: h)

/-! ### What a register holds -/

/-- The value that was last written to the register at `o` and went through; 0 before that. -/
def left (o : BitVec 32) : History → BitVec 32
  | [] => 0
  | ⟨.write _ o' v, .ok ()⟩ :: h => if o' = o then v else left o h
  | _ :: h => left o h

/-! ### How far the streams have come -/

/-- The streams have been counted: their memory comes next. -/
def Counted (h : History) : Prop := ∃ m ∈ h, ∃ i o b, m.call = .note (.streamsCounted i o b)

/-- The streams have all their memory, and position reporting has been turned on. -/
def Placed (h : History) : Prop := ∃ m ∈ h, ∃ address, m.call = .note (.positionsPlaced address)

/-- An engine has been pointed at a waveform, but not set running yet. -/
def Programmed (h : History) : Prop := ∃ m ∈ h, ∃ i d k p, m.call = .note (.streamProgrammed i d k p)

end History

/-! ### Memory -/

/-- What memory is had for. -/
inductive Use
  | ring
  | stream
  deriving DecidableEq

/-- What memory is had for after `h`. -/
def Use.Now : Use → History → Prop
  | .ring, h => ¬h.Counted
  | .stream, h => h.Counted

namespace History

/-- Every region that was had for a use. -/
inductive Had (u : Use) (g : Region) : History → Prop
  | now {k : Nat} {h : History} (use : u.Now h) : Had u g (⟨.allocate k, Except.ok g⟩ :: h)
  | later {m : Made} {h : History} (had : Had u g h) : Had u g (m :: h)

/-- The region a call had, if it had one. -/
def had? : Made → Option Region
  | ⟨.allocate _, .ok g⟩ => some g
  | _ => none

/-- The region a call gave back, whether or not it was taken. -/
def given? : Made → Option Region
  | ⟨.free g, _⟩ => some g
  | _ => none

/-- Every region that was had, as often as it was. -/
def allocated (h : History) : List Region := h.filterMap had?

/-- Every region that was given back, as often as it was. -/
def freed (h : History) : List Region := h.filterMap given?

/-- `R` holds of every region that was given back and of the calls made before it was. -/
def AtEachFree (R : Region → History → Prop) (h : History) : Prop :=
  ∀ post g a pre, h = post ++ ⟨.free g, a⟩ :: pre → R g pre

/-- Whatever was given back had been had once more often than it had been given back before. -/
def Once (h : History) : Prop := AtEachFree (fun g pre => pre.freed.count g < pre.allocated.count g) h

/-- Whatever was to be given back was taken. -/
def Taken (h : History) : Prop := ∀ g e, (⟨.free g, Except.error e⟩ : Made) ∉ h

/-! ### What has come to a stop -/

/-- The latest read of `o` found its run bit clear, and none of `among` was told to run after that. -/
inductive Stopped (among : List (BitVec 32)) (o : BitVec 32) : History → Prop
  | read {w : Width} {v : BitVec 32} {h : History} (clear : v.getLsbD 1 = false) :
    Stopped among o (⟨.read w o, Except.ok v⟩ :: h)
  | later {m : Made} {h : History} (noRead : ¬m.call.Reads o) (noStart : ∀ c ∈ among, ¬m.call.Starts c)
    (stopped : Stopped among o h) : Stopped among o (m :: h)

/-- The control registers of the rings. -/
def ringControls : List (BitVec 32) := [Register.corbctl, Register.rirbctl]

/-- Both rings were seen to stand still, and neither was told to run since. -/
def RingsStopped (h : History) : Prop := ∀ o ∈ ringControls, Stopped ringControls o h

/-- The latest write of `o` wrote 0 and went through, and came after the streams had all their memory. -/
inductive Cleared (o : BitVec 32) : History → Prop
  | write {w : Width} {h : History} (placed : h.Placed) : Cleared o (⟨.write w o 0, Except.ok ()⟩ :: h)
  | later {m : Made} {h : History} (noWrite : ¬m.call.Writes o) (cleared : Cleared o h) : Cleared o (m :: h)

/-- If `o` was told to run after an engine had been programmed, then it was seen to stand still after it was told last. -/
inductive Halted (o : BitVec 32) : History → Prop
  | unprogrammed {h : History} (before : ¬h.Programmed) : Halted o h
  | read {w : Width} {v : BitVec 32} {h : History} (clear : v.getLsbD 1 = false) : Halted o (⟨.read w o, Except.ok v⟩ :: h)
  | later {m : Made} {h : History} (noStart : ¬m.call.Starts o) (halted : Halted o h) : Halted o (m :: h)

/-- The control register of some stream descriptor. -/
def IsStreamControl (o : BitVec 32) : Prop := Register.streams ≤ o ∧ ∃ n, o = Register.stream n + Register.sdctl

/-- Position reporting was turned off, and every stream that had been set running was seen to stand still. -/
def StreamsStopped (h : History) : Prop :=
  Cleared Register.dplbase h ∧ Cleared Register.dpubase h ∧ ∀ o, IsStreamControl o → Halted o h

/-- What has to be before memory had for a use may be given back. -/
def StoppedFor : Use → History → Prop
  | .ring => RingsStopped
  | .stream => StreamsStopped

/-- Whatever was given back had come to a stop for what it was had for. -/
def Sound (h : History) : Prop := AtEachFree (fun g pre => ∃ u, Had u g pre ∧ StoppedFor u pre) h

end History

/-! ### One way to answer -/

/-- Answers of a platform on which nothing fails: one controller, registers that read 1, and new memory for every request. -/
def obliging : (c : Call) → History → c.Answer
  | .candidates, _ => .ok [.slot 0]
  | .identify _, _ => .ok { vendor := 0x8086, device := 0x2668, classCode := 4, subclass := 3 }
  | .read .., _ => .ok 1
  | .allocate length, h => .ok ⟨0, 0x100000000 + BitVec.ofNat 64 (0x1000 * h.allocated.length), length, 0⟩
  | .timerExpired, _ => .ok true
  | .bindExclusive _, _ | .release, _ | .write .., _ | .free _, _ | .stall _, _ | .armTimer _, _ | .cancelTimer, _ => .ok ()
  | .load32 _, _ => (0 : BitVec 32)
  | .load64 _, _ => (0 : BitVec 64)
  | .store32 .., _ | .store64 .., _ | .fill .., _ | .clear .., _ | .note _, _ => ()

end AudioBringup
