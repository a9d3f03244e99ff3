import AudioBringup.Proofs.MappedPages
/-!
# Proofs.AllocatedPages — what an allocation asks of the firmware, and what it leaves there

An allocation takes as few pages as hold its bytes, and maps them.  What there is of pages and mapping goes back where no
region comes of it, and a region gives back the pages it was made of: they are counted once more from its length.
-/
namespace AudioBringup
namespace Uefi

/-- The firmware calls made so far, and the bytes of the memory the firmware hands out. -/
structure Premises where
  calls : Trace
  memory : Nat → Byte

/-- The firmware that may answer whatever it likes, and whose memory any call may change, but memory is zero right after it
was cleared. -/
def restless : World Call Call.Answer Premises := fun c w a w' =>
  w'.calls = ⟨c, a⟩ :: w.calls ∧ ∀ host length, c = .clear host length → ∀ p, Within host length p → w'.memory p = 0

/-! ### Answers to an allocation -/

/-- The error that the answer to a call is for an allocation of `length` bytes, if it is one. -/
def Served.denial? (length : Nat) : Served → Option Error
  | ⟨.allocateBuffer .., (status, host)⟩ =>
    if status.isError then some (Failure.toError ⟨"PciIo.AllocateBuffer", status⟩)
    else if host = 0 then some .outOfResources else none
  | ⟨.map .., (status, mapping)⟩ =>
    if status.isError then some (Failure.toError ⟨"PciIo.Map", status⟩)
    else if mapping.length < length then some .outOfResources else none
  | _ => none

namespace Trace

/-- The pages that were handed out, if there were any. -/
def granted? (t : Trace) : Option Pointer := t.findSome? fun
  | ⟨.allocateBuffer .., (status, host)⟩ => if status.isError ∨ host = 0 then none else some host
  | _ => none

/-- The mapping that was made, if there was one. -/
def mapping? (t : Trace) : Option Mapping := t.findSome? fun
  | ⟨.map .., (status, mapping)⟩ => if status.isError then none else some mapping
  | _ => none

end Trace

namespace Function

open Firmware Services

variable {f : Function} {length pages : Nat} {made : Trace} {r : Except Error Region} {w : Premises}

/-- The ways an allocation can go, each with its calls, the earliest first. -/
inductive Course (f : Function) (length pages : Nat) : Trace → Except Error Region → Prop
  | refused {s : Status} {host : Pointer} (herror : s.isError = true) :
    Course f length pages [⟨.allocateBuffer f.handle .bootServicesData pages, (s, host)⟩]
      (.error (Failure.toError ⟨"PciIo.AllocateBuffer", s⟩))
  | null {s : Status} (hok : s.isError = false) :
    Course f length pages [⟨.allocateBuffer f.handle .bootServicesData pages, (s, 0)⟩] (.error .outOfResources)
  | unmapped {s s₁ : Status} {host : Pointer} (mapping : Mapping) (s₂ : Status) (hok : s.isError = false) (hhost : host ≠ 0)
      (herror : s₁.isError = true) :
    Course f length pages
      [⟨.allocateBuffer f.handle .bootServicesData pages, (s, host)⟩,
        ⟨.map f.handle host (pages * pageSize), (s₁, mapping)⟩, ⟨.freeBuffer f.handle pages host, s₂⟩]
      (.error (Failure.toError ⟨"PciIo.Map", s₁⟩))
  | short {s s₁ : Status} {host : Pointer} {mapping : Mapping} (s₂ s₃ : Status) (hok : s.isError = false) (hhost : host ≠ 0)
      (hok₁ : s₁.isError = false) (hlength : mapping.length < length) :
    Course f length pages
      [⟨.allocateBuffer f.handle .bootServicesData pages, (s, host)⟩,
        ⟨.map f.handle host (pages * pageSize), (s₁, mapping)⟩, ⟨.unmap f.handle mapping.token, s₂⟩,
        ⟨.freeBuffer f.handle pages host, s₃⟩]
      (.error .outOfResources)
  | had {s s₁ : Status} {host : Pointer} {mapping : Mapping} (hok : s.isError = false) (hhost : host ≠ 0)
      (hok₁ : s₁.isError = false) (hlength : length ≤ mapping.length) :
    Course f length pages
      [⟨.allocateBuffer f.handle .bootServicesData pages, (s, host)⟩,
        ⟨.map f.handle host (pages * pageSize), (s₁, mapping)⟩, ⟨.clear host length, ()⟩]
      (.ok { host, address := mapping.address, length, token := mapping.token })

theorem judge_failed {α : Type} {op : String} {status : Status} {a : α} {e : Failure} (h : judge op status a = .error e) :
    status.isError = true ∧ e = ⟨op, status⟩ := by
  refine ⟨judge_error h, ?_⟩
  unfold judge at h
  split at h
  · exact (Except.error.inj h).symm
  · cases h

theorem allocate_course : Returns restless (f.allocate length) w fun r w' =>
    (∃ made : Trace, w'.calls = made.reverse ++ w.calls ∧ Course f length (pagesFor length) made r) ∧
      ∀ g, r = .ok g → ∀ p, Within g.host g.length p → w'.memory p = 0 := by
  refine returns_bind.2 (returns_toAnswer.2
    ((returns_service (c := .allocateBuffer f.handle .bootServicesData (pagesFor length)) Prod.fst Prod.snd).2 ?_))
  rintro ⟨s, host⟩ w₁ ⟨hcalls, -⟩
  cases hstatus : judge "PciIo.AllocateBuffer" s host with
  | error e =>
    obtain ⟨herror, rfl⟩ := judge_failed hstatus
    exact ⟨⟨[_], hcalls, .refused herror⟩, nofun⟩
  | ok host' =>
    obtain ⟨hok, rfl⟩ := judge_ok hstatus
    cases host with
    | zero => exact ⟨⟨[_], hcalls, .null hok⟩, nofun⟩
    | succ host =>
      have hhost : host + 1 ≠ 0 := Nat.succ_ne_zero host
      refine returns_bind.2 (returns_toAnswer.2
        ((returns_service (c := .map f.handle (host + 1) (pagesFor length * pageSize)) Prod.fst Prod.snd).2 ?_))
      rintro ⟨s₁, mapping⟩ w₂ ⟨hcalls₁, -⟩
      cases hstatus : judge "PciIo.Map" s₁ mapping with
      | error e =>
        obtain ⟨herror, rfl⟩ := judge_failed hstatus
        refine returns_bind.2
          ((returns_plainService (c := .freeBuffer f.handle (pagesFor length) (host + 1)) fun s : Status => s).2 ?_)
        rintro (s₂ : Status) w₃ ⟨hcalls₂, -⟩
        refine ⟨⟨[_, _, _], ?_, .unmapped mapping s₂ hok hhost herror⟩, nofun⟩
        rw [hcalls₂, hcalls₁, hcalls]
        rfl
      | ok mapping' =>
        obtain ⟨hok₁, rfl⟩ := judge_ok hstatus
        dsimp only [Except.mapError]
        split
        · rename_i hlength
          refine returns_bind.2 ((returns_plainService (c := .unmap f.handle mapping.token) fun s : Status => s).2 ?_)
          rintro (s₂ : Status) w₃ ⟨hcalls₂, -⟩
          refine returns_bind.2
            ((returns_plainService (c := .freeBuffer f.handle (pagesFor length) (host + 1)) fun s : Status => s).2 ?_)
          rintro (s₃ : Status) w₄ ⟨hcalls₃, -⟩
          refine ⟨⟨[_, _, _, _], ?_, .short s₂ s₃ hok hhost hok₁ hlength⟩, nofun⟩
          rw [hcalls₃, hcalls₂, hcalls₁, hcalls]
          rfl
        · rename_i hlength
          refine returns_bind.2 (returns_ask.2 ?_)
          rintro _ w₃ ⟨hcalls₂, hzero⟩
          refine ⟨⟨[_, _, _], ?_, .had hok hhost hok₁ (Nat.le_of_not_lt hlength)⟩, ?_⟩
          · rw [hcalls₂, hcalls₁, hcalls]
            rfl
          · rintro g ⟨⟩
            exact hzero (host + 1) length rfl

/-- The pages are no more than the bytes need. -/
theorem pagesFor_le {p : Nat} (h : length ≤ p * pageSize) : pagesFor length ≤ p := by
  unfold pagesFor pageSize at *
  omega

/-- What an allocation of `length` bytes in `pages` pages made of the answers to its calls, the earliest of them first. -/
structure Settled (f : Function) (length pages : Nat) (made : Trace) (r : Except Error Region) : Prop where
  /-- The pages are asked for, and mapped if there are any.  Those of a region are cleared; of what comes to no region the
  mapping goes back if there is one, and then the pages if there are any. -/
  calls : made.map Served.call =
    .allocateBuffer f.handle .bootServicesData pages ::
      (made.granted?.toList.map fun host => .map f.handle host (pages * pageSize)) ++
      match r with
      | .ok g => [.clear g.host length]
      | .error _ => (made.mapping?.toList.map fun mapping => .unmap f.handle mapping.token) ++
        made.granted?.toList.map fun host => .freeBuffer f.handle pages host
  ok : ∀ g, r = .ok g ↔ ∃ host mapping, made.granted? = some host ∧ made.mapping? = some mapping ∧ length ≤ mapping.length ∧
    { host, address := mapping.address, length, token := mapping.token } = g
  error : ∀ e, r = .error e ↔ ∃ m ∈ made, m.denial? length = some e

theorem Course.settled (h : Course f length pages made r) : Settled f length pages made r := by
  cases h with
  | refused herror => constructor <;> simp [Trace.granted?, Trace.mapping?, Served.denial?, herror]
  | null hok => constructor <;> simp [Trace.granted?, Trace.mapping?, Served.denial?, hok]
  | unmapped _ _ hok hhost herror =>
    constructor <;> simp [Trace.granted?, Trace.mapping?, Served.denial?, hok, hhost, herror]
  | short _ _ hok hhost hok₁ hlength =>
    constructor <;> simp [Trace.granted?, Trace.mapping?, Served.denial?, hok, hhost, hok₁, hlength]
  | had hok hhost hok₁ hlength =>
    constructor <;> simp [Trace.granted?, Trace.mapping?, Served.denial?, hok, hhost, hok₁, hlength]

/-- What giving a region back made of the answers to its calls, the earliest of them first: its pages go back if its mapping
was taken back. -/
structure Released (f : Function) (g : Region) (pages : Nat) (made : Trace) (r : Except Error Unit) : Prop where
  calls : ∃ s : Status, made.head? = some ⟨.unmap f.handle g.token, s⟩ ∧ made.map Served.call =
    .unmap f.handle g.token :: if s.isError then [] else [.freeBuffer f.handle pages g.host]
  error : ∀ e, r = .error e ↔ ∃ m ∈ made, m.failure?.map Failure.toError = some e

theorem free_released {g : Region} : Returns restless (f.free g).toAnswer w fun r w' =>
    ∃ made : Trace, w'.calls = made.reverse ++ w.calls ∧ Released f g (pagesFor g.length) made r := by
  refine returns_toAnswer.2 (returns_andThen.2
    ((returns_plainService (c := .unmap f.handle g.token) fun s : Status => s).2 ?_))
  rintro (s : Status) w₁ ⟨hcalls, -⟩
  cases hstatus : judge "PciIo.Unmap" s () with
  | error e =>
    obtain ⟨herror, rfl⟩ := judge_failed hstatus
    refine ⟨[_], hcalls, ⟨s, rfl, by simp [herror]⟩, fun e => ?_⟩
    simp [Except.mapError, Served.failure?, Failure.ofStatus, herror]
  | ok u =>
    obtain ⟨hok, -⟩ := judge_ok hstatus
    refine (returns_plainService (c := .freeBuffer f.handle (pagesFor g.length) g.host) fun s : Status => s).2 ?_
    rintro (s₁ : Status) w₂ ⟨hcalls₁, -⟩
    refine ⟨[⟨.unmap f.handle g.token, s⟩, ⟨.freeBuffer f.handle (pagesFor g.length) g.host, s₁⟩], ?_,
      ⟨s, rfl, by simp [hok]⟩, fun e => ?_⟩
    · rw [hcalls₁, hcalls]
      rfl
    · unfold judge
      split <;> simp [Except.mapError, Served.failure?, Failure.ofStatus, *]

/-- **An allocation gets all it needs or keeps nothing**, whatever the firmware answers: as few pages as hold the bytes are
asked for and mapped, and a region of them is all zero and gives back those pages. -/
theorem allocate_all_or_nothing (f : Function) (length : Nat) (w : Premises) :
    ∃ pages, length ≤ pages * pageSize ∧ (∀ p, length ≤ p * pageSize → pages ≤ p) ∧
      Returns restless (f.allocate length) w fun r w' =>
        (∃ made : Trace, w'.calls = made.reverse ++ w.calls ∧ Settled f length pages made r) ∧
        ∀ g, r = .ok g → g.length = length ∧ (∀ p, Within g.host length p → w'.memory p = 0) ∧
          ∀ (later : Function) (w : Premises), Returns restless (later.free g).toAnswer w fun r w' =>
            ∃ made : Trace, w'.calls = made.reverse ++ w.calls ∧ Released later g pages made r := by
  refine ⟨pagesFor length, le_pages length, fun p => pagesFor_le, allocate_course.mono ?_⟩
  rintro r w' ⟨⟨made, hcalls, hcourse⟩, hzero⟩
  have hsettled := hcourse.settled
  refine ⟨⟨made, hcalls, hsettled⟩, ?_⟩
  rintro g rfl
  obtain ⟨host, mapping, -, -, -, rfl⟩ := (hsettled.ok g).1 rfl
  exact ⟨rfl, hzero _ rfl, fun later w => free_released⟩

end Function
end Uefi
end AudioBringup
