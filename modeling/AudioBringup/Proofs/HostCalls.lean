import AudioBringup.Proofs.Candid
import AudioBringup.Proofs.FirmwareCalls
/-!
# Proofs.HostCalls — what the host does for each call of the bring-up

Every call of the bring-up is answered by firmware calls.  What is opened, turned on, used, created and given back by them
is an entry each (`Served.entry?`), and a call that fails is answered by what a firmware call failed with (`Blamed`).
-/
namespace AudioBringup
namespace Uefi

instance (c : AudioBringup.Call) : Nonempty c.Answer := c.nonempty_answer

/-! ### Calls that are entered -/

/-- What is kept account of. -/
inductive Entry
  /-- a protocol was asked for, and there was no interface -/
  | refused (handle : Pointer) (mode : OpenMode)
  /-- a protocol was opened -/
  | opened (handle : Pointer) (mode : OpenMode)
  | closed (handle : Pointer)
  /-- memory decoding and bus mastering were turned on -/
  | enabled (handle : Pointer)
  /-- a register was accessed, or memory allocated or mapped -/
  | used (handle : Pointer)
  | timerCreated (event : Pointer)
  | timerClosed (event : Pointer)
  /-- a handle buffer was had that is not null -/
  | located (pool : Pointer)
  | freed (pool : Pointer)
  deriving DecidableEq

/-- What a firmware call is entered as, if it is. -/
def Served.entry? : Served → Option Entry
  | ⟨.openProtocol handle _ _ mode, (status, interface)⟩ =>
    if status.isError ∨ interface = 0 then some (.refused handle mode) else some (.opened handle mode)
  | ⟨.closeProtocol handle _ _, _⟩ => some (.closed handle)
  | ⟨.enableAttributes handle _, status⟩ => if Status.isError status then none else some (.enabled handle)
  | ⟨.memRead handle .., _⟩ | ⟨.memWrite handle .., _⟩ | ⟨.allocateBuffer handle .., _⟩ | ⟨.map handle .., _⟩ =>
    some (.used handle)
  | ⟨.createTimer, (status, event)⟩ => if status.isError then none else some (.timerCreated event)
  | ⟨.closeEvent event, _⟩ => some (.timerClosed event)
  | ⟨.locateHandles .., (status, buffer)⟩ =>
    if status.isError ∨ buffer.pool = 0 then none else some (.located buffer.pool)
  | ⟨.freePool pool, _⟩ => some (.freed pool)
  | _ => none

/-- The entries of the calls so far, the earliest first. -/
def Trace.ledger (t : Trace) : List Entry := (t.filterMap Served.entry?).reverse

/-- Calls were made on top of `t`, and entered as `entries`. -/
structure Trace.Grew (entries : List Entry) (t t' : Trace) : Prop where
  calls : t <:+ t'
  ledger : t'.ledger = t.ledger ++ entries

section
variable {entries entries' : List Entry} {t t' t'' : Trace} {m : Served}

theorem Trace.Grew.refl : t.Grew [] t := ⟨List.suffix_rfl, (List.append_nil _).symm⟩

theorem Trace.Grew.trans (h : t.Grew entries t') (h' : t'.Grew entries' t'') : t.Grew (entries ++ entries') t'' :=
  ⟨h.calls.trans h'.calls, by rw [h'.ledger, h.ledger, List.append_assoc]⟩

theorem Trace.grew_cons (hm : m.entry?.toList = entries) : t.Grew entries (m :: t) := by
  refine ⟨List.suffix_cons m t, ?_⟩
  cases h : m.entry? <;> simp_all [Trace.ledger]

end

/-! ### Failures -/

/-- The failure that an error status is. -/
def Failure.ofStatus (op : String) (status : Status) : Option Failure := if status.isError then some ⟨op, status⟩ else none

/-- The failure a firmware call was answered by, if it was; a protocol without an interface is not supported. -/
def Served.failure? : Served → Option Failure
  | ⟨.allocatePool .., (status, _)⟩ => Failure.ofStatus "AllocatePool" status
  | ⟨.freePool _, status⟩ => Failure.ofStatus "FreePool" status
  | ⟨.locateHandles .., (status, _)⟩ => Failure.ofStatus "LocateHandleBuffer" status
  | ⟨.createTimer, (status, _)⟩ => Failure.ofStatus "CreateEvent" status
  | ⟨.setTimer .., status⟩ => Failure.ofStatus "SetTimer" status
  | ⟨.checkEvent _, status⟩ => Failure.ofStatus "CheckEvent" status
  | ⟨.closeEvent _, status⟩ => Failure.ofStatus "CloseEvent" status
  | ⟨.stall _, status⟩ => Failure.ofStatus "Stall" status
  | ⟨.openProtocol .., (status, interface)⟩ =>
    if ¬status.isError ∧ interface = 0 then some ⟨"OpenProtocol", Status.unsupported⟩ else Failure.ofStatus "OpenProtocol" status
  | ⟨.closeProtocol .., status⟩ => Failure.ofStatus "CloseProtocol" status
  | ⟨.memRead .., (status, _)⟩ => Failure.ofStatus "PciIo.Mem.Read" status
  | ⟨.memWrite .., status⟩ => Failure.ofStatus "PciIo.Mem.Write" status
  | ⟨.configRead .., (status, _)⟩ => Failure.ofStatus "PciIo.Pci.Read" status
  | ⟨.enableAttributes .., status⟩ => Failure.ofStatus "PciIo.Attributes" status
  | ⟨.allocateBuffer .., (status, _)⟩ => Failure.ofStatus "PciIo.AllocateBuffer" status
  | ⟨.freeBuffer .., status⟩ => Failure.ofStatus "PciIo.FreeBuffer" status
  | ⟨.map .., (status, _)⟩ => Failure.ofStatus "PciIo.Map" status
  | ⟨.unmap .., status⟩ => Failure.ofStatus "PciIo.Unmap" status
  | ⟨.outputString _, status⟩ => Failure.ofStatus "OutputString" status
  | ⟨.load32 _, _⟩ | ⟨.load64 _, _⟩ | ⟨.store32 .., _⟩ | ⟨.store64 .., _⟩ | ⟨.fill .., _⟩ | ⟨.clear .., _⟩ | ⟨.note _, _⟩ =>
    none

/-- Some firmware call failed so. -/
def Trace.Met (t : Trace) (f : Failure) : Prop := ∃ m ∈ t, m.failure? = some f

/-- Memory was promised that is none, or less than was asked for. -/
def Served.Short : Served → Prop
  | ⟨.allocateBuffer .., (status, host)⟩ => status.isError = false ∧ host = 0
  | ⟨.map _ _ length, (status, mapping)⟩ => status.isError = false ∧ mapping.length < length
  | _ => False

/-- Some firmware call promised memory in vain. -/
def Trace.Short (t : Trace) : Prop := ∃ m ∈ t, m.Short

/-- The error is what some firmware call failed with, or there was too little memory. -/
def Trace.Blamed (t : Trace) (e : Error) : Prop := e = .outOfResources ∧ t.Short ∨ ∃ f, t.Met f ∧ e = f.toError

theorem Trace.Met.mono {t t' : Trace} {f : Failure} (h : t.Met f) (ht : t <:+ t') : t'.Met f := by
  obtain ⟨m, hm, hf⟩ := h
  exact ⟨m, ht.subset hm, hf⟩

theorem Trace.Short.mono {t t' : Trace} (h : t.Short) (ht : t <:+ t') : t'.Short := by
  obtain ⟨m, hm, hshort⟩ := h
  exact ⟨m, ht.subset hm, hshort⟩

theorem Trace.Blamed.mono {t t' : Trace} {e : Error} (h : t.Blamed e) (ht : t <:+ t') : t'.Blamed e := by
  rcases h with ⟨he, hshort⟩ | ⟨f, hf, he⟩
  · exact .inl ⟨he, hshort.mono ht⟩
  · exact .inr ⟨f, hf.mono ht, he⟩

/-! ### Single services -/

namespace Services

open Firmware

variable {α : Type} {handle event host token : Nat} {t : Trace}

/-- What the calls of a service were entered as, and that a failure is one of a firmware call. -/
def Told (entries : List Entry) (t : Trace) (r : Except Failure α) (t' : Trace) : Prop :=
  t.Grew entries t' ∧ ∀ f, r = .error f → t'.Met f

theorem ofStatus_of_judge {op : String} {status : Status} {a : α} {f : Failure} (h : judge op status a = .error f) :
    Failure.ofStatus op status = some f := by
  unfold judge at h
  unfold Failure.ofStatus
  split at h
  · rename_i herror
    rw [if_pos herror, Except.error.inj h]
  · cases h

/-- A service whose one call is answered by a failure where its status is an error. -/
theorem told_judge {c : Call} {a : c.Answer} {op : String} {status : Status} {output : α} {entries : List Entry}
    (hentry : (Served.entry? ⟨c, a⟩).toList = entries) (hfailure : Served.failure? ⟨c, a⟩ = Failure.ofStatus op status) :
    Told entries t (judge op status output) (⟨c, a⟩ :: t) :=
  ⟨Trace.grew_cons hentry, fun _ h => ⟨_, List.mem_cons_self, hfailure.trans (ofStatus_of_judge h)⟩⟩

theorem told_service {c : Call} {op : String} {status : c.Answer → Status} {output : c.Answer → α} {entries : List Entry}
    (hentry : ∀ a, (Served.entry? ⟨c, a⟩).toList = entries)
    (hfailure : ∀ a, Served.failure? ⟨c, a⟩ = Failure.ofStatus op (status a)) :
    Returns tracing (ExceptT.run do
      let a ← ask c
      check op (status a)
      return output a) t (Told entries t) := by
  refine (returns_service status output).2 ?_
  rintro a _ rfl
  exact told_judge (hentry a) (hfailure a)

theorem told_plainService {c : Call} {op : String} {status : c.Answer → Status} {entries : List Entry}
    (hentry : ∀ a, (Served.entry? ⟨c, a⟩).toList = entries)
    (hfailure : ∀ a, Served.failure? ⟨c, a⟩ = Failure.ofStatus op (status a)) :
    Returns tracing (ExceptT.run do check op (status (← ask c))) t (Told entries t) := by
  refine (returns_plainService status).2 ?_
  rintro a _ rfl
  exact told_judge (hentry a) (hfailure a)

theorem memRead_told (w : Width) (o : BitVec 32) : Returns tracing (memRead handle w o).run t (Told [.used handle] t) :=
  told_service (c := .memRead handle w o) (fun _ => rfl) fun _ => rfl

theorem memWrite_told (w : Width) (o v : BitVec 32) :
    Returns tracing (memWrite handle w o v).run t (Told [.used handle] t) :=
  told_plainService (c := .memWrite handle w o v) (fun _ => rfl) fun _ => rfl

theorem configRead_told (offset : Nat) : Returns tracing (configRead handle offset).run t (Told [] t) :=
  told_service (c := .configRead handle offset) (fun _ => rfl) fun _ => rfl

theorem freeBuffer_told (pages : Nat) : Returns tracing (freeBuffer handle pages host).run t (Told [] t) :=
  told_plainService (c := .freeBuffer handle pages host) (fun _ => rfl) fun _ => rfl

theorem unmap_told : Returns tracing (unmap handle token).run t (Told [] t) :=
  told_plainService (c := .unmap handle token) (fun _ => rfl) fun _ => rfl

theorem setTimer_told (action : TimerAction) (time : BitVec 64) :
    Returns tracing (setTimer event action time).run t (Told [] t) :=
  told_plainService (c := .setTimer event action time) (fun _ => rfl) fun _ => rfl

theorem stall_told (microseconds : Nat) : Returns tracing (stall microseconds).run t (Told [] t) :=
  told_plainService (c := .stall microseconds) (fun _ => rfl) fun _ => rfl

theorem closeEvent_told : Returns tracing (closeEvent event).run t (Told [.timerClosed event] t) :=
  told_plainService (c := .closeEvent event) (fun _ => rfl) fun _ => rfl

theorem closePciIo_told (image : Pointer) : Returns tracing (closePciIo handle image).run t (Told [.closed handle] t) :=
  told_plainService (c := .closeProtocol handle .pciIo image) (fun _ => rfl) fun _ => rfl

theorem checkEvent_told : Returns tracing (checkEvent event).run t (Told [] t) := by
  refine returns_checkEvent.2 ?_
  rintro status _ rfl
  split
  · exact ⟨Trace.grew_cons rfl, nofun⟩
  · exact told_judge rfl rfl

/-! An output makes another entry than a failure. -/

theorem createTimer_told : Returns tracing createTimer.run t fun r =>
    Told (match r with | .ok event => [.timerCreated event] | .error _ => []) t r := by
  refine (returns_service (c := .createTimer) Prod.fst Prod.snd).2 ?_
  rintro ⟨status, event⟩ _ rfl
  refine told_judge ?_ rfl
  cases h : status.isError <;> simp [judge, Served.entry?, h]

theorem enableAttributes_told (attributes : Nat) : Returns tracing (enableAttributes handle attributes).run t fun r =>
    Told (match r with | .ok () => [.enabled handle] | .error _ => []) t r := by
  refine (returns_plainService (c := .enableAttributes handle attributes) fun status : Status => status).2 ?_
  rintro (status : Status) _ rfl
  refine told_judge ?_ rfl
  cases h : status.isError <;> simp [judge, Served.entry?, h]

theorem openPciIo_told (image : Pointer) (mode : OpenMode) : Returns tracing (openPciIo handle image mode).run t fun r =>
    Told (match r with | .ok () => [.opened handle mode] | .error _ => [.refused handle mode]) t r := by
  refine returns_openPciIo.2 ?_
  rintro ⟨status, interface⟩ _ rfl
  constructor
  · apply Trace.grew_cons
    cases h : status.isError <;> by_cases hi : interface = 0 <;> simp [Served.entry?, h, hi]
  · cases h : status.isError <;> by_cases hi : interface = 0 <;> simp [Trace.Met, Served.failure?, Failure.ofStatus, h, hi]

theorem locateHandles_told : Returns tracing locateHandles.run t fun r =>
    Told (match r with | .ok b => if b.pool = 0 then [] else [.located b.pool] | .error _ => []) t r := by
  refine returns_locateHandles.2 ?_
  rintro ⟨status, buffer⟩ _ rfl
  by_cases hnone : status = Status.notFound
  · subst hnone
    exact ⟨Trace.grew_cons rfl, nofun⟩
  · dsimp only
    rw [if_neg hnone]
    refine told_judge ?_ rfl
    cases h : status.isError <;> by_cases hp : buffer.pool = 0 <;> simp [judge, Served.entry?, h, hp]

theorem judge_ok {op : String} {status : Status} {a b : α} (h : judge op status a = .ok b) : status.isError = false ∧ a = b := by
  unfold judge at h
  split at h
  · cases h
  · rename_i hstatus
    exact ⟨Bool.eq_false_iff.2 hstatus, Except.ok.inj h⟩

theorem allocateBuffer_told (pages : Nat) : Returns tracing (allocateBuffer handle pages).run t fun r t' =>
    Told [.used handle] t r t' ∧ (r = .ok 0 → t'.Short) := by
  refine (returns_service (c := .allocateBuffer handle .bootServicesData pages) Prod.fst Prod.snd).2 ?_
  rintro ⟨status, host⟩ _ rfl
  exact ⟨told_judge rfl rfl, fun h => ⟨_, List.mem_cons_self, judge_ok h⟩⟩

theorem map_told (length : Nat) : Returns tracing (map handle host length).run t fun r t' =>
    Told [.used handle] t r t' ∧ ∀ mapping, r = .ok mapping → mapping.length < length → t'.Short := by
  refine (returns_service (c := .map handle host length) Prod.fst Prod.snd).2 ?_
  rintro ⟨status, mapping⟩ _ rfl
  refine ⟨told_judge rfl rfl, fun _ h hlength => ⟨_, List.mem_cons_self, ?_⟩⟩
  obtain ⟨hstatus, rfl⟩ := judge_ok h
  exact ⟨hstatus, hlength⟩

theorem Told.blamed {entries : List Entry} {r : Except Failure α} {t' : Trace} (h : Told entries t r t') {e : Error}
    (he : r.mapError Failure.toError = .error e) : t'.Blamed e := by
  cases r with
  | ok a => cases he
  | error f =>
    cases he
    exact .inr ⟨f, h.2 f rfl, rfl⟩

end Services

/-! ### The function that is bound -/

/-- A function was used so many times, and a failure is one of a firmware call. -/
def Used {α : Type} (handle : Pointer) (t : Trace) (r : Except Error α) (t' : Trace) : Prop :=
  (∃ times, t.Grew (List.replicate times (.used handle)) t') ∧ ∀ e, r = .error e → t'.Blamed e

section
variable {α β : Type} {handle : Pointer} {t t' t'' : Trace}

theorem Used.of_told {k : Nat} {r : Except Failure α} (h : Services.Told (List.replicate k (.used handle)) t r t') :
    Used handle t (r.mapError Failure.toError) t' := ⟨⟨k, h.1⟩, fun _ => h.blamed⟩

/-- What is done in passing has no say in what is returned. -/
theorem Used.aside {r : Except Error α} (h : Used handle t r t') (hmore : t'.Grew [] t'') : Used handle t r t'' := by
  obtain ⟨⟨times, hgrew⟩, hfailed⟩ := h
  refine ⟨⟨times, ?_⟩, fun e he => (hfailed e he).mono hmore.calls⟩
  have h := hgrew.trans hmore
  rwa [List.append_nil] at h

theorem Used.trans {r : Except Error α} {q : Except Error β} (h : Used handle t r t') (h' : Used handle t' q t'') :
    Used handle t q t'' := by
  obtain ⟨⟨times, hgrew⟩, -⟩ := h
  obtain ⟨⟨times', hgrew'⟩, hfailed⟩ := h'
  refine ⟨⟨times + times', ?_⟩, hfailed⟩
  rw [← List.replicate_append_replicate]
  exact hgrew.trans hgrew'

theorem Used.fail {e : Error} (h : Used handle t (.error e : Except Error α) t') :
    Used handle t (.error e : Except Error β) t' := ⟨h.1, by rintro _ ⟨⟩; exact h.2 e rfl⟩

theorem Used.short {r : Except Error α} (h : Used handle t r t') (hshort : t'.Short) :
    Used handle t (.error .outOfResources : Except Error β) t' := ⟨h.1, by rintro _ ⟨⟩; exact .inl ⟨rfl, hshort⟩⟩

theorem Used.ok {r : Except Error α} (h : Used handle t r t') (b : β) : Used handle t (.ok b : Except Error β) t' := ⟨h.1, nofun⟩

end

namespace Function

open Firmware Services

variable {f : Function} {t : Trace}

theorem le_pages (length : Nat) : length ≤ pagesFor length * pageSize := by
  unfold pagesFor pageSize
  omega

/-- Pages that are not mapped in one piece go back, whether or not they are taken. -/
theorem allocate_used (length : Nat) : Returns tracing (f.allocate length) t fun r t' =>
    Used f.handle t r t' ∧ ∀ g, r = .ok g → g.length = length := by
  refine returns_bind.2 (returns_toAnswer.2 ((allocateBuffer_told (pagesFor length)).mono ?_))
  rintro r t₁ ⟨h, hnone⟩
  have h₁ := Used.of_told (k := 1) h
  rcases r with e | _ | host
  · exact ⟨h₁.fail, nofun⟩
  · exact ⟨h₁.short (hnone rfl), nofun⟩
  refine returns_bind.2 (returns_toAnswer.2 ((map_told _).mono ?_))
  rintro r t₂ ⟨h, hless⟩
  have h₂ := h₁.trans (Used.of_told (k := 1) h)
  cases r with
  | error e => exact returns_bind.2 ((freeBuffer_told _).mono fun _ t₃ h => ⟨(h₂.aside h.1).fail, nofun⟩)
  | ok mapping =>
    dsimp only [Except.mapError]
    split
    · rename_i hlength
      have hshort := hless mapping rfl (Nat.lt_of_lt_of_le hlength (le_pages length))
      refine returns_bind.2 (unmap_told.mono fun _ t₃ h₃ => ?_)
      refine returns_bind.2 ((freeBuffer_told _).mono fun _ t₄ h₄ => ?_)
      exact ⟨((h₂.aside h₃.1).aside h₄.1).short ((hshort.mono h₃.1.calls).mono h₄.1.calls), nofun⟩
    · refine returns_bind.2 (returns_ask.2 ?_)
      rintro _ _ rfl
      refine ⟨(h₂.aside (Trace.grew_cons rfl)).ok _, ?_⟩
      rintro _ ⟨⟩
      rfl

theorem free_used (g : Region) : Returns tracing (f.free g).toAnswer t (Used f.handle t) := by
  refine returns_toAnswer.2 (returns_andThen.2 (unmap_told.mono fun r t₁ h₁ => ?_))
  cases r with
  | error e => exact Used.of_told (k := 0) h₁
  | ok _ =>
    refine (freeBuffer_told _).mono fun r t₂ h₂ => Used.of_told (k := 0) ⟨?_, h₂.2⟩
    exact h₁.1.trans h₂.1

/-! ### Its timer event -/

/-- The timer event is there, or was created, or could not be. -/
def Timed (f : Function) (t : Trace) : Function → Trace → Prop := fun f' t' =>
  f' = f ∧ t.Grew [] t' ∨
    f.timer = none ∧ ∃ event, f' = { f with timer := some event } ∧ t.Grew [.timerCreated event] t'

theorem Timed.aside {f' : Function} {t₁ t₂ : Trace} (h : f.Timed t f' t₁) (hmore : t₁.Grew [] t₂) : f.Timed t f' t₂ := by
  rcases h with ⟨rfl, h⟩ | ⟨hnone, event, rfl, h⟩
  · exact .inl ⟨rfl, h.trans hmore⟩
  · exact .inr ⟨hnone, event, rfl, h.trans hmore⟩

/-- The timer event may be created, and a failure is one of a firmware call. -/
def Times {α : Type} (f : Function) (t : Trace) (r : Except Error α × Function) (t' : Trace) : Prop :=
  f.Timed t r.2 t' ∧ ∀ e, r.1 = .error e → t'.Blamed e

theorem withTimer_times : Returns tracing f.withTimer t (f.Times t) := by
  unfold withTimer
  cases hf : f.timer with
  | some event => exact ⟨.inl ⟨rfl, .refl⟩, nofun⟩
  | none =>
    refine returns_bind.2 (returns_toAnswer.2 (createTimer_told.mono fun r t' h => ?_))
    cases r with
    | error e => exact ⟨.inl ⟨rfl, h.1⟩, fun _ he => h.blamed he⟩
    | ok event => exact ⟨.inr ⟨hf, event, rfl, h.1⟩, nofun⟩

/-- A service of the timer event, once it is there. -/
theorem times_withTimer {α : Type} {x : Pointer → Services α}
    (hx : ∀ event t, Returns tracing (x event).run t (Told [] t)) : Returns tracing (do
      match ← f.withTimer with
      | (.error e, f) => return (.error e, f)
      | (.ok event, f) => return (← (x event).toAnswer, f)) t (f.Times t) := by
  refine returns_bind.2 (withTimer_times.mono ?_)
  rintro ⟨e | event, f'⟩ t₁ ⟨h, hfailed⟩
  · exact ⟨h, by rintro _ ⟨⟩; exact hfailed e rfl⟩
  · refine returns_bind.2 (returns_toAnswer.2 ((hx event t₁).mono fun r t₂ h₂ => ?_))
    exact ⟨h.aside h₂.1, fun _ => h₂.blamed⟩

theorem armTimer_times (duration : BitVec 64) : Returns tracing (f.armTimer duration) t (f.Times t) :=
  times_withTimer fun _ _ => setTimer_told _ _

theorem timerExpired_times : Returns tracing f.timerExpired t (f.Times t) := times_withTimer fun _ _ => checkEvent_told

theorem cancelTimer_used : Returns tracing f.cancelTimer t (Used f.handle t) := by
  unfold cancelTimer
  cases f.timer with
  | none => exact ⟨⟨0, .refl⟩, nofun⟩
  | some event => exact returns_toAnswer.2 ((setTimer_told _ _).mono fun _ _ => Used.of_told (k := 0))

/-- The timer event is closed if there is one; that it could not be is only told. -/
theorem drop_closes : Returns tracing f.drop t fun _ => t.Grew (f.timer.toList.map .timerClosed) := by
  unfold drop
  cases f.timer with
  | none => exact .refl
  | some event =>
    refine returns_bind.2 (closeEvent_told.mono fun r t' h => ?_)
    cases r with
    | ok _ => exact h.1
    | error e =>
      refine returns_ask.2 ?_
      rintro _ _ rfl
      exact h.1.trans (Trace.grew_cons rfl)

end Function

/-! ### The calls of the bring-up -/

/-- What is entered where handles are located: a buffer goes back at once. -/
inductive Located : List Entry → Prop
  | nothing : Located []
  | buffer {pool : Pointer} (there : pool ≠ 0) : Located [.located pool, .freed pool]

/-- What is entered where a handle is looked at. -/
inductive LookedAt (handle : Pointer) : List Entry → Prop
  | refused : LookedAt handle [.refused handle .get]
  | opened : LookedAt handle [.opened handle .get, .closed handle]

/-- What is entered where a handle is claimed in vain. -/
inductive Unclaimed (handle : Pointer) : List Entry → Prop
  | refused : Unclaimed handle [.refused handle .exclusive]
  | disabled : Unclaimed handle [.opened handle .exclusive, .closed handle]

namespace Host

open Firmware Services

variable {α : Type} {h : Host} {f : Function} {t : Trace}

/-- What a call leaves: the function still bound, and used or with a timer event that was created. -/
def Keeps (h : Host) (f : Function) (t : Trace) (h' : Host) (t' : Trace) : Prop :=
  ∃ f', h' = { h with bound := some f' } ∧
    (f.Timed t f' t' ∨ f' = f ∧ ∃ times, t.Grew (List.replicate times (.used f.handle)) t')

theorem blamed_of_failureOf {r : Except Error α} (h : ∀ e, r = .error e → t.Blamed e) :
    ∀ e, AudioBringup.failureOf r = some e → t.Blamed e := by
  intro e he
  cases r with
  | ok a => cases he
  | error e' => exact h e (congrArg _ (Option.some.inj he))

theorem keeps_viaFunction (hf : h.bound = some f) {x : Function → Firmware (Except Error α)}
    (hx : Returns tracing (x f) t (Used f.handle t)) : Returns tracing (h.viaFunction x) t fun r t' =>
      h.Keeps f t r.2 t' ∧ ∀ e, AudioBringup.failureOf r.1 = some e → t'.Blamed e := by
  refine (returns_viaFunction hf).2 (hx.mono fun r t' hused => ⟨⟨f, ?_, .inr ⟨rfl, hused.1⟩⟩, blamed_of_failureOf hused.2⟩)
  rw [← hf]

theorem keeps_updateFunction (hf : h.bound = some f) {x : Function → Firmware (Except Error α × Function)}
    (hx : Returns tracing (x f) t (f.Times t)) : Returns tracing (h.updateFunction x) t fun r t' =>
      h.Keeps f t r.2 t' ∧ ∀ e, AudioBringup.failureOf r.1 = some e → t'.Blamed e :=
  (returns_updateFunction hf).2 (hx.mono fun r _ htimes => ⟨⟨r.2, rfl, .inl htimes.1⟩, blamed_of_failureOf htimes.2⟩)

/-- **A call that is not to the bus leaves the function bound**, and a failure of it is one of a firmware call. -/
theorem answer_keeps {c : AudioBringup.Call} (hc : c.OffBus) (hf : h.bound = some f) :
    Returns tracing (answer c h) t fun r t' => h.Keeps f t r.2 t' ∧ ∀ e, c.failure? r.1 = some e → t'.Blamed e := by
  cases c with
  | candidates | identify _ | bindExclusive _ | release => exact hc.elim
  | read w o =>
    refine keeps_viaFunction hf (returns_bind.2 (returns_toAnswer.2 ((memRead_told w o).mono fun r t' hr => ?_)))
    have hused := Used.of_told (k := 1) hr
    cases r with
    | error e => exact hused
    | ok v => exact hused.ok _
  | write w o v =>
    exact keeps_viaFunction hf (returns_toAnswer.2 ((memWrite_told _ _ _).mono fun _ _ => Used.of_told (k := 1)))
  | allocate length => exact keeps_viaFunction hf ((Function.allocate_used length).mono fun _ _ => And.left)
  | free g => exact keeps_viaFunction hf (Function.free_used g)
  | stall microseconds =>
    exact keeps_viaFunction hf (returns_toAnswer.2 ((stall_told _).mono fun _ _ => Used.of_told (k := 0)))
  | armTimer duration => exact keeps_updateFunction hf (Function.armTimer_times duration)
  | timerExpired => exact keeps_updateFunction hf Function.timerExpired_times
  | cancelTimer => exact keeps_viaFunction hf Function.cancelTimer_used
  | load32 _ | load64 _ | store32 _ _ | store64 _ _ | fill _ _ | clear _ _ | note _ =>
    refine returns_bind.2 (returns_ask.2 ?_)
    rintro a _ rfl
    exact ⟨⟨f, by rw [← hf], .inl (.inl ⟨rfl, Trace.grew_cons rfl⟩)⟩, nofun⟩

/-- All have returned so far, and a function is bound. -/
def Serves {ω : Type} (t : Beneath Host ω) : Prop := t.intact = true ∧ ∃ f, t.state.bound = some f

/-- A call that is not to the bus is answered by every firmware, and leaves a function bound. -/
theorem Serves.upon {ω : Type} {W : World Call Call.Answer ω} {c : AudioBringup.Call} {a : c.Answer} {t t' : Beneath Host ω}
    (hc : c.OffBus) (h : Serves t) (hanswer : Host.upon W c t a t') : Serves t' := by
  obtain ⟨ht, f, hf⟩ := h
  obtain ⟨ht', _, ⟨f', hf', -⟩, -⟩ := of_upon hanswer ht (answer_keeps (t := []) hc hf).anywhere
  exact ⟨ht', f', congrArg Host.bound hf'⟩

/-! ### Calls to the bus -/

theorem freeHandles_grew (b : HandleBuffer) : Returns tracing (freeHandles b) t fun _ =>
    t.Grew (if b.pool = 0 then [] else [.freed b.pool]) := by
  unfold freeHandles
  by_cases hpool : b.pool = 0
  · simp [hpool, Trace.Grew.refl]
  · simp only [hpool, ne_eq, not_false_eq_true, if_true, if_false]
    refine returns_bind.2 (returns_ask.2 ?_)
    rintro _ _ rfl
    exact Trace.grew_cons rfl

theorem candidates_told : Returns tracing candidates t fun r t' =>
    (∃ entries, Located entries ∧ t.Grew entries t') ∧ ∀ e, r = .error e → t'.Blamed e := by
  refine returns_bind.2 (returns_toAnswer.2 (locateHandles_told.mono fun r t₁ h => ?_))
  cases r with
  | error e => exact ⟨⟨[], .nothing, h.1⟩, fun _ he => h.blamed (by cases he; rfl)⟩
  | ok buffer =>
    refine returns_bind.2 ((freeHandles_grew buffer).mono fun _ t₂ h₂ => ⟨⟨_, ?_, h.1.trans h₂⟩, nofun⟩)
    by_cases hpool : buffer.pool = 0
    · simp only [hpool, if_true]
      exact .nothing
    · simp only [hpool, if_false]
      exact .buffer hpool

theorem identify_told (image handle : Pointer) : Returns tracing (identify image handle).run t fun r t' =>
    (∃ entries, LookedAt handle entries ∧ t.Grew entries t') ∧ ∀ f, r = .error f → t'.Met f := by
  refine returns_andThen.2 ((openPciIo_told image .get).mono fun r t₁ h₁ => ?_)
  cases r with
  | error f => exact ⟨⟨_, .refused, h₁.1⟩, by rintro _ ⟨⟩; exact h₁.2 f rfl⟩
  | ok _ =>
    refine returns_andThen.2 (returns_bind.2 ((configRead_told _).mono fun ids t₂ h₂ => ?_))
    refine returns_andThen.2 (returns_bind.2 ((configRead_told _).mono fun classes t₃ h₃ => ?_))
    refine returns_andThen.2 ((closePciIo_told image).mono fun r t₄ h₄ => ?_)
    have hclosed : t.Grew [.opened handle .get, .closed handle] t₄ := ((h₁.1.trans h₂.1).trans h₃.1).trans h₄.1
    have hids : ∀ f, ids = .error f → t₄.Met f := fun f hf => (h₂.2 f hf).mono (h₃.1.trans h₄.1).calls
    have hclasses : ∀ f, classes = .error f → t₄.Met f := fun f hf => (h₃.2 f hf).mono h₄.1.calls
    -- the first of the three that failed is what is told
    rcases r with f | _
    · exact ⟨⟨_, .opened, hclosed⟩, by rintro _ ⟨⟩; exact h₄.2 f rfl⟩
    rcases ids with f | ids
    · exact ⟨⟨_, .opened, hclosed⟩, by rintro _ ⟨⟩; exact hids f rfl⟩
    rcases classes with f | classes
    · exact ⟨⟨_, .opened, hclosed⟩, by rintro _ ⟨⟩; exact hclasses f rfl⟩
    · exact ⟨⟨_, .opened, hclosed⟩, nofun⟩

theorem bindExclusive_told (image handle : Pointer) : Returns tracing (bindExclusive image handle).run t fun r t' =>
    match r with
    | .ok f => f = { handle } ∧ t.Grew [.opened handle .exclusive, .enabled handle] t'
    | .error f => (∃ entries, Unclaimed handle entries ∧ t.Grew entries t') ∧ t'.Met f := by
  refine returns_andThen.2 ((openPciIo_told image .exclusive).mono fun r t₁ h₁ => ?_)
  cases r with
  | error f => exact ⟨⟨_, .refused, h₁.1⟩, h₁.2 f rfl⟩
  | ok _ =>
    refine returns_andThen.2 (returns_bind.2 ((enableAttributes_told _).mono fun r t₂ h₂ => ?_))
    cases r with
    | error f =>
      refine returns_andThen.2 (returns_bind.2 ((closePciIo_told image).mono fun _ t₃ h₃ => ?_))
      exact ⟨⟨_, .disabled, (h₁.1.trans h₂.1).trans h₃.1⟩, (h₂.2 f rfl).mono h₃.1.calls⟩
    | ok _ =>
      refine returns_andThen.2 (returns_bind.2 (returns_ask.2 ?_))
      rintro _ _ rfl
      exact ⟨rfl, (h₁.1.trans h₂.1).trans (Trace.grew_cons rfl)⟩

theorem release_told (image : Pointer) : Returns tracing (release image f) t fun r t' =>
    t.Grew (f.timer.toList.map .timerClosed ++ [.closed f.handle]) t' ∧ ∀ e, r = .error e → t'.Blamed e := by
  refine returns_bind.2 (Function.drop_closes.mono fun _ t₁ h₁ => ?_)
  refine returns_toAnswer.2 ((closePciIo_told image).mono fun r t₂ h₂ => ?_)
  exact ⟨h₁.trans h₂.1, fun _ => h₂.blamed⟩

end Host
end Uefi
end AudioBringup
