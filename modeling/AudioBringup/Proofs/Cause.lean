import AudioBringup.Bringup
import AudioBringup.Proofs.Candid
/-!
# Proofs.Cause — what must have happened before a run fails

A platform fails with errors of its own kind only.  Every other error a run ends with says something about the calls
before it (`Job.Because`), and each step of the run owes that for whatever error it ends with (`Accountable`).  A step is
never misused, if the memory the platform hands out is as long as was asked for.
-/
namespace AudioBringup

open Procedure

/-! ### What the calls so far say -/

/-- A wait of a site looks at one register again and again, until a value ends it. -/
inductive WaitSite.Look : WaitSite → Width → BitVec 32 → (BitVec 32 → Bool) → Prop
  | outOfReset : Look .controllerReset .dword Register.gctl fun v => (GlobalControl.mk v).reset
  | ringStopped {control : BitVec 32} (ring : control = Register.corbctl ∨ control = Register.rirbctl) :
    Look .ringReset .byte control fun v => !(RingControl.mk (v.setWidth 8)).run
  | pointerReset : Look .ringReset .word Register.corbrp fun v => (CorbReadPointer.mk (v.setWidth 16)).reset
  | pointerLetGo : Look .ringReset .word Register.corbrp fun v => !(CorbReadPointer.mk (v.setWidth 16)).reset
  | fetched (cursor : Nat) :
    Look .corbDrain .word Register.corbrp fun v => (CorbReadPointer.mk (v.setWidth 16)).slot == cursor
  | answered (cursor : Nat) :
    Look .rirbResponse .word Register.rirbwp fun v => (RirbWritePointer.mk (v.setWidth 16)).slot != cursor
  | streamReset (descriptor : Nat) : Look .streamReset .word (Register.stream descriptor + Register.sdctl) fun v =>
    (StreamControl.ofLow (v.setWidth 16)).reset
  | streamLetGo (descriptor : Nat) : Look .streamReset .word (Register.stream descriptor + Register.sdctl) fun v =>
    !(StreamControl.ofLow (v.setWidth 16)).reset
  | streamStopped (descriptor : Nat) : Look .streamReset .word (Register.stream descriptor + Register.sdctl) fun v =>
    !(StreamControl.ofLow (v.setWidth 16)).run

namespace History

/-- The answers to `candidates`. -/
def listings (h : History) : List (Except Error (List Pci.Candidate)) := h.filterMap fun
  | ⟨.candidates, r⟩ => some r
  | _ => none

/-- The candidates that were asked who they are with their answers, the latest first. -/
def identified (h : History) : List (Pci.Candidate × Except Error Pci.Identity) := h.filterMap fun
  | ⟨.identify c, r⟩ => some (c, r)
  | _ => none

/-- The bus named its candidates, and each of them was asked who it is and is no controller. -/
def NoneFound (h : History) : Prop :=
  ∃ found : List (Pci.Candidate × Pci.Identity), h.listings = [.ok (found.map (·.1))] ∧
    h.identified.reverse = found.map (fun f => (f.1, .ok f.2)) ∧ ∀ f ∈ found, f.2.isController = false

/-- The bus would not name its candidates, or one of those it named would not say who it is, or is a controller. -/
def Settled (h : History) : Prop := (∃ e, .error e ∈ h.listings) ∨ ∃ all c r, .ok all ∈ h.listings ∧ c ∈ all ∧
  (c, r) ∈ h.identified ∧ ∀ i, r = .ok i → i.isController = true

/-- The latest calls are one wait of a site: so many looks, none of which ended it. -/
def GaveUp (site : WaitSite) (checks : Nat) (h : History) : Prop :=
  ∃ (w : Width) (o : BitVec 32) (ends : BitVec 32 → Bool) (looks : List (BitVec 32)) (before : History),
    site.Look w o ends ∧ looks.length = checks ∧ (∀ v ∈ looks, ends v = false) ∧
    h = ⟨.note (.gaveUp site checks), ()⟩ :: (looks.map fun v => ⟨.read w o, .ok v⟩) ++ before

/-- The codec reported in. -/
def Present (codec : BitVec 8) (h : History) : Prop :=
  codec.toNat < Controller.maxCodecs ∧ ∃ v, ⟨.read .word Register.statests, .ok v⟩ ∈ h ∧
    (StateChangeStatus.mk (v.setWidth 16)).codecs.getLsbD codec.toNat = true

/-- The ids below a codec that are still to be visited, after so many visits: first the children of its root, then those of
each node that was found in its place. -/
inductive Pending (codec : BitVec 8) : List (BitVec 8) → Nat → History → Prop
  | root {n : Nat} {c c' : Controller} {h₀ h₁ h : History} {vendorId : BitVec 32} {root : Node}
    (there : vendorId ≠ Response.absent ∧ vendorId ≠ Response.timedOut)
    (read : Ends recording n (Node.read ⟨codec, 0⟩ vendorId) c h₀ (.ok root) c' h₁) (later : h₁ <:+ h) :
    Pending codec root.children 0 h
  | absent {n : Nat} {c c' : Controller} {h h' : History} {id : BitVec 8} {pending : List (BitVec 8)} {visits : Nat}
    (before : Pending codec (id :: pending) visits h)
    (visited : Ends recording n (Codec.visit codec id) c h (.ok none) c' h') : Pending codec pending (visits + 1) h'
  | found {n : Nat} {c c' : Controller} {h h' : History} {id : BitVec 8} {pending : List (BitVec 8)} {visits : Nat}
    {node : Node} (before : Pending codec (id :: pending) visits h)
    (visited : Ends recording n (Codec.visit codec id) c h (.ok (some node)) c' h') :
    Pending codec (node.children ++ pending) (visits + 1) h'

/-- The controller has so many output streams. -/
def Offered (available : Nat) (h : History) : Prop :=
  ∃ v, ⟨.read .word Register.gcap, .ok v⟩ ∈ h ∧ (GlobalCaps.mk (v.setWidth 16)).outputStreams = available

/-- Since the streams have all their memory, no more was asked for. -/
def Unsampled (h : History) : Prop :=
  ∃ later address before, h = later ++ ⟨.note (.positionsPlaced address), ()⟩ :: before ∧
    ∀ m ∈ later, ∀ length, m.call ≠ .allocate length

/-- Some call failed so. -/
def Met (e : Error) (h : History) : Prop := ∃ m ∈ h, m.failure? = some e

section
variable {b h h' : History}

theorem Met.mono {e : Error} (hm : h.Met e) (hh : h <:+ h') : h'.Met e := by
  obtain ⟨m, hm, he⟩ := hm
  exact ⟨m, hh.subset hm, he⟩

theorem Present.mono {codec : BitVec 8} (hp : h.Present codec) (hh : h <:+ h') : h'.Present codec := by
  obtain ⟨hcodec, v, hv, hbit⟩ := hp
  exact ⟨hcodec, v, hh.subset hv, hbit⟩

theorem Offered.mono {available : Nat} (ho : h.Offered available) (hh : h <:+ h') : h'.Offered available := by
  obtain ⟨v, hv, hcount⟩ := ho
  exact ⟨v, hh.subset hv, hcount⟩

theorem Unsampled.call {c : Call} {a : c.Answer} (hu : h.Unsampled) (hc : ∀ length, c ≠ .allocate length) :
    Unsampled (⟨c, a⟩ :: h) := by
  obtain ⟨later, address, before, rfl, hlater⟩ := hu
  exact ⟨⟨c, a⟩ :: later, address, before, rfl, List.forall_mem_cons.2 ⟨hc, hlater⟩⟩

theorem Unsampled.stable : Stable Call.Plain Unsampled := fun _ _ _ hc hu => hu.call fun _ h => by
  rw [h] at hc
  exact hc

theorem suffix_call {c : Call} {a : c.Answer} (hb : b <:+ h) : b <:+ ⟨c, a⟩ :: h := hb.trans (List.suffix_cons _ _)

end
end History

/-! ### A run and its platform -/

/-- Memory that was had is as long as was asked for. -/
def Call.Provides : (c : Call) → c.Answer → Prop
  | .allocate length, .ok g => g.length = length
  | _, _ => True

/-- A run that is to be made, and whether memory is as long as was asked for. -/
structure Job where
  config : Config
  waveform : Array Byte
  ample : Prop

namespace Job

/-- Every platform that fails only with errors of its own kind. -/
def world (j : Job) : World Call Call.Answer History := fun c h a h' =>
  h' = ⟨c, a⟩ :: h ∧ (∀ e, c.failure? a = some e → ¬e.Own) ∧ (j.ample → c.Provides a)

/-- **What an error says about the calls before it.** -/
def Because (j : Job) (h : History) : Error → Prop
  | .deviceIo op status => h.Met (.deviceIo op status)
  | .outOfResources => h.Met .outOfResources
  | .noController => h.NoneFound
  | .waitTimedOut site => ∃ checks, j.config.poll.limit site = .iterations checks ∧ h.GaveUp site (max checks 1)
  | .topologyOverflow codec => h.Present codec ∧ ∃ id pending, h.Pending codec (id :: pending) j.config.maxWalkVisits
  | .noTransport => False
  | .noOutputStream requested available =>
    requested = j.config.outputStream ∧ available ≤ requested ∧ h.Offered available
  | .badWaveform length =>
    BufferList.checkShape j.waveform.size j.config.bdlEntries = .error (.badWaveform length) ∧ h.Unsampled
  | .waveformTooShort length least =>
    BufferList.checkShape j.waveform.size j.config.bdlEntries = .error (.waveformTooShort length least) ∧ h.Unsampled

theorem because_of_met {j : Job} {h : History} : ∀ {e : Error}, ¬e.Own → h.Met e → j.Because h e
  | .deviceIo .., _, hmet | .outOfResources, _, hmet => hmet
  | .noController, he, _ | .waitTimedOut _, he, _ | .topologyOverflow _, he, _ | .noTransport, he, _
  | .noOutputStream .., he, _ | .badWaveform _, he, _ | .waveformTooShort .., he, _ => absurd trivial he

/-- The latest call failed. -/
theorem because_of_failed {j : Job} {c : Call} {a : c.Answer} {e : Error} {h : History}
    (hforeign : ∀ e, c.failure? a = some e → ¬e.Own) (he : c.failure? a = some e) : j.Because (⟨c, a⟩ :: h) e :=
  because_of_met (hforeign e he) ⟨_, List.mem_cons_self, he⟩

end Job

theorem Program.Ends.mono {Req : Type} {Ans : Req → Type} {ω α : Type} {W W' : World Req Ans ω}
    (hW : ∀ r w a w', W r w a w' → W' r w a w') : ∀ {p : Program Req Ans α} {w e w'}, p.Ends W w e w' → p.Ends W' w e w'
  | .pure _, _, _, _, h | .misused _, _, _, _, h | .stuck, _, _, _, h => h
  | .ask _ _, _, _, _, ⟨a, w₁, hw, h⟩ => ⟨a, w₁, hW _ _ _ _ hw, Ends.mono hW h⟩

/-- What holds on every platform holds on those of a job. -/
theorem Job.ensures_of_recording {α : Type} {j : Job} {p : Program Call Call.Answer α} {Q : Ending α → History → Prop}
    {h : History} (hp : p.Ensures recording Q h) : p.Ensures j.world Q h :=
  Program.ensures_iff_ends.2 fun _ _ he => Program.ensures_iff_ends.1 hp _ _ (he.mono fun _ _ _ _ => And.left)

namespace Procedure

open History (Stable Met)

variable {σ τ α β : Type} {j : Job} {b : History} {n : Nat} {I : σ → Prop} {J : τ → Prop} {R : α → Prop} {S : β → Prop}
  {p : Procedure σ α} {s : σ} {h : History}

/-- A result is `P`.  An error has its reason; calls were made on top of `b` before it, and what was left of the state is
`I`. -/
def owing (j : Job) (b : History) (I : σ → Prop) (P : α → σ → History → Prop) : Outcome σ α History where
  ok := P
  error e s h := j.Because h e ∧ I s ∧ b <:+ h
  misused _ := ¬j.ample
  stuck _ := True

/-- **Accounting for errors**: from every state that is `I`, and whatever was called on top of `b`, a procedure ends with an
error only for its reason, and leaves a state that is `I`; its result is `R`. -/
def Accountable (j : Job) (b : History) (I : σ → Prop) (p : Procedure σ α) (R : α → Prop) : Prop :=
  ∀ n s h, I s → b <:+ h → Ensures j.world n p s h (owing j b I fun a s h => R a ∧ I s ∧ b <:+ h)

/-! ### One rule per way of building a procedure -/

/-- What follows a step of which more is known. -/
theorem owing_bind {f : α → Procedure σ β} {P : α → σ → History → Prop} {Q : β → σ → History → Prop}
    (hp : Ensures j.world n p s h (owing j b I P))
    (hf : ∀ a s h, P a s h → Ensures j.world n (f a) s h (owing j b I Q)) :
    Ensures j.world n (p >>= f) s h (owing j b I Q) :=
  ensures_bind.2 (hp.mono hf (fun _ _ _ => id) (fun _ => id) fun _ => id)

/-- What follows a step that is known to have come to its result. -/
theorem owing_bind_ends {f : α → Procedure σ β} {P : α → σ → History → Prop} {Q : β → σ → History → Prop}
    (hp : Ensures j.world n p s h (owing j b I P))
    (hf : ∀ a s' h', Ends recording n p s h (.ok a) s' h' → P a s' h' → Ensures j.world n (f a) s' h' (owing j b I Q)) :
    Ensures j.world n (p >>= f) s h (owing j b I Q) := by
  refine ensures_bind.2 (hp.withEnds ?_ (fun _ => id) fun _ => id)
  rintro (e | a) s' h' hends hp
  · exact hp
  · exact hf a s' h' (Program.Ends.mono (fun _ _ _ _ => And.left) hends) hp

/-- What is owed from where more was called, and more is known of the state. -/
theorem owing_weaken {K : σ → Prop} {b' : History} {P : α → σ → History → Prop} (hb : b <:+ b') (hK : ∀ s, K s → I s)
    (hp : Ensures j.world n p s h (owing j b' K P)) : Ensures j.world n p s h (owing j b I P) :=
  hp.mono (fun _ _ _ => id) (fun _ _ _ hh => ⟨hh.1, hK _ hh.2.1, hb.trans hh.2.2⟩) (fun _ => id) fun _ => id

/-- What follows a step that accounts for its errors. -/
theorem Accountable.followed {f : α → Procedure σ β} {Q : β → σ → History → Prop} (hp : Accountable j b I p R) (hs : I s)
    (hh : b <:+ h) (hf : ∀ a s h, R a → I s → b <:+ h → Ensures j.world n (f a) s h (owing j b I Q)) :
    Ensures j.world n (p >>= f) s h (owing j b I Q) :=
  owing_bind (hp n s h hs hh) fun a s h ⟨ha, hs, hh⟩ => hf a s h ha hs hh

/-- A step beside that ends nothing that is `K`, and leaves `f` of the state as it was. -/
theorem Accountable.keeping {υ : Type} {P : Call → Prop} {f : σ → υ} {K : History → Prop} (hp : Accountable j b I p R)
    (hx : Confined P f p) (hK : Stable P K) (hs : I s) (hh : b <:+ h) (hk : K h) :
    Ensures j.world n p s h (owing j b I fun a s' h' => (R a ∧ I s' ∧ b <:+ h') ∧ f s' = f s ∧ K h') :=
  (Procedure.Ensures.and (hp n s h hs hh) (Job.ensures_of_recording (hx.keeps hK hk))).mono (fun _ _ _ => id)
    (fun _ _ _ he => he.1) (fun _ hm => hm.1) fun _ hs => hs.1

theorem accountable_pure {a : α} (ha : R a) : Accountable j b I (pure a) R := fun _ _ _ hs hh => ⟨ha, hs, hh⟩

theorem accountable_fail {e : Error} (he : ∀ h, b <:+ h → j.Because h e) :
    Accountable j b I (fail e : Procedure σ α) R := fun _ _ h hs hh => ⟨he h hh, hs, hh⟩

theorem Accountable.bind {f : α → Procedure σ β} (hp : Accountable j b I p R) (hf : ∀ a, R a → Accountable j b I (f a) S) :
    Accountable j b I (p >>= f) S := fun n _ _ hs hh =>
  hp.followed hs hh fun a _ _ ha => hf a ha n _ _

theorem Accountable.andThen {f : α → Procedure σ β} (hp : Accountable j b I p R) (hf : ∀ a, Accountable j b I (f a) S) :
    Accountable j b I (p >>= f) S := hp.bind fun a _ => hf a

theorem Accountable.seq {q : Procedure σ β} (hp : Accountable j b I p R) (hq : Accountable j b I q S) :
    Accountable j b I (p >>= fun _ => q) S := hp.andThen fun _ => hq

/-- The state is known where it is looked at. -/
theorem accountable_get_bind {f : σ → Procedure σ β} (hf : ∀ s, I s → Accountable j b I (f s) S) :
    Accountable j b I (get >>= f) S := fun n s h hs hh => hf s hs n s h hs hh

theorem accountable_modify {f : σ → σ} (hf : ∀ s, I s → I (f s)) : Accountable j b I (modify f) fun _ => True :=
  fun _ s _ hs hh => ⟨trivial, hf s hs, hh⟩

theorem accountable_ite {c : Prop} [Decidable c] {q : Procedure σ α} (hp : c → Accountable j b I p R)
    (hq : ¬c → Accountable j b I q R) : Accountable j b I (if c then p else q) R := by
  by_cases hc : c
  · rw [if_pos hc]
    exact hp hc
  · rw [if_neg hc]
    exact hq hc

theorem accountable_when {c : Prop} [Decidable c] {p : Procedure σ Unit} {rest : Procedure σ α}
    (hp : Accountable j b I p fun _ => True) (hrest : Accountable j b I rest R) :
    Accountable j b I (if c then (do p; rest) else rest) R :=
  accountable_ite (fun _ => hp.seq hrest) fun _ => hrest

theorem accountable_on {t : τ} {put : τ → σ → σ} {p : Procedure τ α} (hp : Accountable j b J p R) (ht : J t)
    (hput : ∀ s t, I s → J t → I (put t s)) : Accountable j b I (on t put p) R := fun n s h hs hh =>
  ensures_on.2 ((hp n t h ht hh).mono (fun _ t _ hr => ⟨hr.1, hput s t hs hr.2.1, hr.2.2⟩)
    (fun _ t _ he => ⟨he.1, hput s t hs he.2.1, he.2.2⟩) (fun _ => id) fun _ => id)

/-- A step whose failure is told of, and goes no further. -/
theorem accountable_attempt {f : Except Error α → Procedure σ β} (hp : Accountable j b I p R)
    (hf : ∀ r, Accountable j b I (f r) S) : Accountable j b I (attempt p >>= f) S := fun n s h hs hh =>
  ensures_bind.2 (ensures_attempt.2 ((hp n s h hs hh).mono (fun a s h hr => hf (.ok a) n s h hr.2.1 hr.2.2)
    (fun e s h he => hf (.error e) n s h he.2.1 he.2.2) (fun _ => id) fun _ => id))

/-! ### One rule per call -/

/-- A call fails for reasons of the platform's. -/
theorem accountable_ask {c : Call} {k : c.Answer → Except Error α} (hk : ∀ a, c.failure? a = failureOf (k a))
    (hR : ∀ a r, (j.ample → c.Provides a) → k a = .ok r → R r) :
    Accountable j b I (fun _ s => .ask c fun a => .pure (k a, s)) R := by
  rintro n s h hs hh a _ ⟨rfl, hforeign, hample⟩
  cases hr : k a with
  | ok r =>
    simp only [Program.Ensures, hr]
    exact ⟨hR a r hample hr, hs, History.suffix_call hh⟩
  | error e =>
    have he : c.failure? a = some e := (hk a).trans (congrArg failureOf hr)
    simp only [Program.Ensures, hr]
    exact ⟨Job.because_of_failed hforeign he, hs, History.suffix_call hh⟩

theorem accountable_call {c : Call} {k : c.Answer → Except Error α} (hk : ∀ a, c.failure? a = failureOf (k a)) :
    Accountable j b I (fun _ s => .ask c fun a => .pure (k a, s)) fun _ => True :=
  accountable_ask hk fun _ _ _ _ => trivial

theorem accountable_request {c : Call} (hc : ∀ a, c.failure? a = none) :
    Accountable j b I (request c : Procedure σ c.Answer) fun _ => True := accountable_call (k := .ok) hc

theorem accountable_note (m : Notice) : Accountable j b I (note m) fun _ => True := accountable_request fun _ => rfl

theorem accountable_read (w : Width) (o : BitVec 32) : Accountable j b I (read w o) fun _ => True :=
  accountable_call fun _ => rfl

theorem accountable_write (w : Width) (o v : BitVec 32) : Accountable j b I (write w o v) fun _ => True :=
  accountable_call fun _ => rfl

theorem accountable_free (g : Region) : Accountable j b I (free g) fun _ => True := accountable_call fun _ => rfl

theorem accountable_stall (k : Nat) : Accountable j b I (stall k) fun _ => True := accountable_call fun _ => rfl

theorem accountable_allocate (k : Nat) : Accountable j b I (allocate k) fun g => j.ample → g.length = k := by
  refine accountable_ask (fun _ => rfl) ?_
  rintro _ g hample rfl
  exact hample

/-- Memory that cannot be had is looked at: it is the platform that failed. -/
theorem accountable_attempt_allocate {k : Nat} {f : Except Error Region → Procedure σ β}
    (hok : ∀ g, (j.ample → g.length = k) → Accountable j b I (f (.ok g)) S)
    (herror : ∀ e b, ¬e.Own → Met e b → Accountable j b I (f (.error e)) S) :
    Accountable j b I (attempt (allocate k) >>= f) S := by
  intro n s h hs hh
  refine ensures_bind.2 (ensures_attempt.2 (ensures_allocate.2 ?_))
  rintro (e | g) _ ⟨rfl, hforeign, hample⟩
  · have hb := History.suffix_call (c := .allocate k) (a := .error e) hh
    exact (herror e _ (hforeign e rfl) ⟨_, List.mem_cons_self, rfl⟩ n s _ hs List.suffix_rfl).mono
      (fun _ _ _ hr => ⟨hr.1, hr.2.1, hb.trans hr.2.2⟩) (fun _ _ _ he => ⟨he.1, he.2.1, hb.trans he.2.2⟩) (fun _ => id)
      fun _ => id
  · exact hok g hample n s _ hs (History.suffix_call hh)

theorem accountable_read8 (o : BitVec 32) : Accountable j b I (read8 o) fun _ => True :=
  (accountable_read .byte o).andThen fun _ => accountable_pure trivial

theorem accountable_read16 (o : BitVec 32) : Accountable j b I (read16 o) fun _ => True :=
  (accountable_read .word o).andThen fun _ => accountable_pure trivial

theorem accountable_writeAddress (lower upper : BitVec 32) (address : BitVec 64) :
    Accountable j b I (writeAddress lower upper address) fun _ => True :=
  (accountable_write _ _ _).seq (accountable_write _ _ _)

/-! ### Memory -/

/-- An access that the region admits, if it is as long as it should be. -/
theorem accountable_locate {r : Region} {offset size : Nat} {y : Nat → Procedure σ α}
    (hfits : j.ample → offset + size ≤ r.length ∧ offset % size = 0) (hy : ∀ host, Accountable j b I (y host) R) :
    Accountable j b I (match r.locate offset size with
      | .ok host => y host
      | .error m => misuse m) R := by
  cases hlocated : r.locate offset size with
  | ok host => exact hy host
  | error m =>
    intro _ _ _ _ _ hample
    obtain ⟨hlong, haligned⟩ := hfits hample
    cases hlocated.symm.trans (Region.locate_eq_ok hlong haligned)

theorem accountable_load32 {r : Region} {offset : Nat} (hfits : j.ample → offset + 4 ≤ r.length ∧ offset % 4 = 0) :
    Accountable j b I (r.load32 offset) fun _ => True :=
  accountable_locate hfits fun _ => accountable_request fun _ => rfl

theorem accountable_store32 {r : Region} {offset : Nat} {v : BitVec 32}
    (hfits : j.ample → offset + 4 ≤ r.length ∧ offset % 4 = 0) :
    Accountable j b I (r.store32 offset v) fun _ => True :=
  accountable_locate hfits fun _ => accountable_request fun _ => rfl

theorem accountable_store64 {r : Region} {offset : Nat} {v : BitVec 64}
    (hfits : j.ample → offset + 8 ≤ r.length ∧ offset % 8 = 0) :
    Accountable j b I (r.store64 offset v) fun _ => True :=
  accountable_locate hfits fun _ => accountable_request fun _ => rfl

theorem accountable_fill {r : Region} {offset : Nat} {data : Array Byte}
    (hfits : j.ample → offset + data.size ≤ r.length) : Accountable j b I (r.fill offset data) fun _ => True :=
  accountable_ite (fun hlong _ _ _ _ _ hample => absurd (hfits hample) (Nat.not_le.2 hlong))
    fun _ => accountable_request fun _ => rfl

theorem accountable_zero (r : Region) : Accountable j b I r.zero fun _ => True := accountable_request fun _ => rfl

/-! ### Waits -/

/-- One look is one read, and says whether its value ends the wait. -/
def Looks (j : Job) (w : Width) (o : BitVec 32) (ends : BitVec 32 → Bool) (check : Procedure σ Bool) : Prop :=
  ∀ n s h, Ensures j.world n check s h ⟨fun holds s' h' => s' = s ∧ ∃ v, holds = ends v ∧ h' = ⟨.read w o, .ok v⟩ :: h,
    fun e s' h' => (¬e.Own ∧ Met e h') ∧ s' = s ∧ h <:+ h', fun _ => False, fun _ => False⟩

theorem looks_read {γ : Type} {w : Width} {o : BitVec 32} {f : BitVec 32 → γ} {g : γ → Bool} :
    Looks j w o (fun v => g (f v)) ((read w o >>= fun v => pure (f v)) >>= fun a => pure (g a) : Procedure σ Bool) := by
  intro n s h
  refine ensures_bind.2 (ensures_bind.2 (ensures_read.2 ?_))
  rintro (e | v) _ ⟨rfl, hforeign, -⟩
  · exact ⟨⟨hforeign e rfl, _, List.mem_cons_self, rfl⟩, rfl, List.suffix_cons _ _⟩
  · exact ⟨rfl, v, rfl, rfl⟩

theorem looks_read8 {o : BitVec 32} {g : BitVec 8 → Bool} :
    Looks j .byte o (fun v => g (v.setWidth 8)) (do return g (← read8 o) : Procedure σ Bool) :=
  looks_read (f := fun v => v.setWidth 8)

theorem looks_read16 {o : BitVec 32} {g : BitVec 16 → Bool} :
    Looks j .word o (fun v => g (v.setWidth 16)) (do return g (← read16 o) : Procedure σ Bool) :=
  looks_read (f := fun v => v.setWidth 16)

theorem looks_read32 {o : BitVec 32} {g : BitVec 32 → Bool} :
    Looks j .dword o g (do return g (← read32 o) : Procedure σ Bool) := by
  intro n s h
  refine ensures_bind.2 (ensures_read.2 ?_)
  rintro (e | v) _ ⟨rfl, hforeign, -⟩
  · exact ⟨⟨hforeign e rfl, _, List.mem_cons_self, rfl⟩, rfl, List.suffix_cons _ _⟩
  · exact ⟨rfl, v, rfl, rfl⟩

/-- **A wait is given up only after all the looks its limit lets it make**, and none of them ended it. -/
theorem accountable_wait {site : WaitSite} {w : Width} {o : BitVec 32} {ends : BitVec 32 → Bool} {check : Procedure σ Bool}
    (hlook : site.Look w o ends) (hcheck : Looks j w o ends check) :
    Accountable j b I (waitUntil site (j.config.poll.limit site) check) fun _ => True := by
  intro n s h hs hh
  have hsuffix : ∀ {looks : List (BitVec 32)}, b <:+ (looks.map fun v => (⟨.read w o, .ok v⟩ : Made)) ++ h := fun {looks} =>
    hh.trans (List.suffix_append _ h)
  refine ensures_waitUntil_counted (fun k s' h' => s' = s ∧ ∃ looks : List (BitVec 32), looks.length = k ∧
    (∀ v ∈ looks, ends v = false) ∧ h' = (looks.map fun v => ⟨.read w o, .ok v⟩) ++ h) ?_ ?_ (fun _ _ _ _ => trivial)
    ⟨rfl, [], rfl, nofun, rfl⟩
  · rintro _ _ _ - ⟨rfl, looks, rfl, hnone, rfl⟩
    refine (hcheck n _ _).mono ?_ ?_ (fun _ => False.elim) fun _ => False.elim
    · rintro holds _ _ ⟨rfl, v, rfl, rfl⟩
      cases hends : ends v with
      | false => exact ⟨rfl, v :: looks, rfl, List.forall_mem_cons.2 ⟨hends, hnone⟩, rfl⟩
      | true => exact ⟨trivial, hs, History.suffix_call hsuffix⟩
    · rintro e _ h' ⟨⟨hforeign, hmet⟩, rfl, hh'⟩
      exact ⟨Job.because_of_met hforeign hmet, hs, hsuffix.trans hh'⟩
  · rintro checks _ _ _ hlimit ⟨rfl, looks, hcount, hnone, rfl⟩ ⟨rfl, -⟩
    exact ⟨⟨checks, hlimit, w, o, ends, looks, h, hlook, hcount, hnone, rfl⟩, hs, History.suffix_call hsuffix⟩

end Procedure
end AudioBringup
