import AudioBringup.Proofs.HostCalls
import AudioBringup.Uefi.Workbench
/-!
# Proofs.MappedPages — pages that go back to the firmware while the device can reach them

A function maps the pages of every region, and gives them back once they are unmapped.  One way out does not wait for that:
where a mapping is too short, it is given up, and the pages go back whether or not the firmware took the mapping back.  No
other pages go back while they are mapped (`doAll_unmaps_first`).
-/
namespace AudioBringup
namespace Uefi

/-! ### Pages and mappings -/

/-- The byte `a` is one of `length` bytes from `host` on. -/
def Within (host length a : Nat) : Prop := host ≤ a ∧ a < host + length

namespace Served

/-- The firmware handed out pages with the byte `a`. -/
def HandsOut (a : Nat) : Served → Prop
  | ⟨.allocateBuffer _ _ pages, (status, host)⟩ => status.isError = false ∧ host ≠ 0 ∧ Within host (pages * pageSize) a
  | _ => False

/-- The firmware was given pages with the byte `a` back, and may have refused them. -/
def GivesBack (a : Nat) : Served → Prop
  | ⟨.freeBuffer _ pages host, _⟩ => Within host (pages * pageSize) a
  | _ => False

/-- The firmware took pages with the byte `a` back. -/
def TakesBack (a : Nat) : Served → Prop
  | ⟨.freeBuffer _ pages host, status⟩ => Status.isError status = false ∧ Within host (pages * pageSize) a
  | _ => False

/-- Memory with the byte `a` was mapped. -/
def Maps (a token : Nat) : Served → Prop
  | ⟨.map _ host length, (status, mapping)⟩ => status.isError = false ∧ mapping.token = token ∧ Within host length a
  | _ => False

/-- A mapping was taken back. -/
def Unmaps (token : Nat) : Served → Prop
  | ⟨.unmap _ token', status⟩ => Status.isError status = false ∧ token' = token
  | _ => False

/-- A call that maps nothing and gives nothing back. -/
structure Aside (m : Served) : Prop where
  maps : ∀ a token, ¬m.Maps a token
  back : ∀ a, ¬m.GivesBack a
  takes : ∀ a, ¬m.TakesBack a

end Served

namespace Trace

/-- The byte `a` is in pages that were handed out and not taken back since. -/
def Had (a : Nat) : Trace → Prop
  | [] => False
  | m :: t => m.HandsOut a ∨ ¬m.TakesBack a ∧ Had a t

/-- The byte `a` was mapped, and that mapping was not taken back since. -/
def Mapped (a token : Nat) : Trace → Prop
  | [] => False
  | m :: t => m.Maps a token ∨ ¬m.Unmaps token ∧ Mapped a token t

/-- The byte `a` was in pages for `length` bytes of which fewer were mapped, and when that mapping was given up for it, it was
not taken back. -/
def GivenUp (a token : Nat) (t : Trace) : Prop :=
  ∃ handle host length status mapping refusal before,
    (⟨.unmap handle token, refusal⟩ :: ⟨.map handle host (pagesFor length * pageSize), (status, mapping)⟩ :: before : Trace) <:+
        t ∧
      status.isError = false ∧ mapping.token = token ∧ Within host (pagesFor length * pageSize) a ∧ mapping.length < length ∧
      Status.isError refusal = true

/-- Pages were unmapped before they were given back, but for mappings that had been given up. -/
def UnmapsFirst (t : Trace) : Prop :=
  ∀ m (before : Trace) a token, m :: before <:+ t → m.GivesBack a → before.Mapped a token → before.GivenUp a token

end Trace

/-- The firmware that may answer whatever it likes, but hands out no pages that it has handed out and not taken back. -/
def careful : World Call Call.Answer Trace := fun c t a t' =>
  t' = ⟨c, a⟩ :: t ∧ ∀ b, Served.HandsOut b ⟨c, a⟩ → ¬t.Had b

/-! ### One call -/

namespace Trace
variable {a token : Nat} {m : Served} {t t' t'' : Trace}

theorem GivenUp.mono (h : t.GivenUp a token) (ht : t <:+ t') : t'.GivenUp a token := by
  obtain ⟨handle, host, length, status, mapping, refusal, before, hsuffix, h⟩ := h
  exact ⟨handle, host, length, status, mapping, refusal, before, hsuffix.trans ht, h⟩

/-- What was had still is, and what is mapped was. -/
structure Keeps (a : Nat) (t t' : Trace) : Prop where
  had : t.Had a → t'.Had a
  mapped : ∀ token, t'.Mapped a token → t.Mapped a token

theorem Keeps.trans (h : Keeps a t t') (h' : Keeps a t' t'') : Keeps a t t'' :=
  ⟨fun hhad => h'.had (h.had hhad), fun token hmapped => h.mapped token (h'.mapped token hmapped)⟩

theorem keeps_cons (hback : ¬m.TakesBack a) (hmaps : ∀ token, ¬m.Maps a token) : Keeps a t (m :: t) :=
  ⟨fun h => .inr ⟨hback, h⟩, fun token h => h.elim (absurd · (hmaps token)) And.right⟩

/-- Nothing is mapped that is not had, but for mappings that were given up; and no mapped pages went back but for those. -/
structure Tidy (t : Trace) : Prop where
  gone : ∀ a token, t.Mapped a token → ¬t.Had a → t.GivenUp a token
  back : t.UnmapsFirst

theorem tidy_nil : Tidy [] :=
  ⟨fun _ _ => nofun, fun m before _ _ h => absurd (List.suffix_nil.1 h) (List.cons_ne_nil m before)⟩

theorem UnmapsFirst.cons (h : t.UnmapsFirst)
    (hm : ∀ a token, m.GivesBack a → t.Mapped a token → t.GivenUp a token) : UnmapsFirst (m :: t) := by
  intro m' before a token hsuffix hback hmapped
  rcases List.suffix_cons_iff.1 hsuffix with heq | hsuffix
  · obtain ⟨rfl, rfl⟩ := List.cons.inj heq
    exact hm a token hback hmapped
  · exact h m' before a token hsuffix hback hmapped

theorem Tidy.cons (h : t.Tidy) (hm : m.Aside) : Tidy (m :: t) where
  gone a token hmapped hhad := by
    have hkeeps : Keeps a t (m :: t) := keeps_cons (hm.takes a) (hm.maps a)
    exact (h.gone a token (hkeeps.mapped token hmapped) fun had => hhad (hkeeps.had had)).mono (List.suffix_cons m t)
  back := h.back.cons fun a _ hgives => absurd hgives (hm.back a)

/-! ### One step -/

open Firmware Services

variable {f : Function} {pages host length : Nat} {t₁ : Trace}

/-- What was had before a step is kept by it. -/
structure Spares (t t' : Trace) : Prop where
  tidy : t'.Tidy
  calls : t <:+ t'
  keeps : ∀ a, t.Had a → t.Keeps a t'

theorem Spares.refl (ht : t.Tidy) : Spares t t := ⟨ht, List.suffix_rfl, fun _ _ => ⟨id, fun _ => id⟩⟩

theorem Spares.cons (h : Spares t t₁) (hm : m.Aside) : Spares t (m :: t₁) :=
  ⟨h.tidy.cons hm, h.calls.trans (List.suffix_cons m t₁),
    fun a ha => (h.keeps a ha).trans (keeps_cons (hm.takes a) (hm.maps a))⟩

/-- Pages were handed out that were not had before. -/
structure Fresh (pages host : Nat) (t t' : Trace) : Prop extends Spares t t' where
  fresh : ∀ a, Within host (pages * pageSize) a → ¬t.Had a
  had : ∀ a, Within host (pages * pageSize) a → t'.Had a

theorem Fresh.cons (h : Fresh pages host t t₁) (hm : m.Aside) : Fresh pages host t (m :: t₁) :=
  ⟨h.toSpares.cons hm, h.fresh, fun a ha => .inr ⟨hm.takes a, h.had a ha⟩⟩

/-- Fresh pages stay fresh when they are mapped. -/
theorem Fresh.map {status : Status} {mapping : Mapping} (h : Fresh pages host t t₁) :
    Fresh pages host t (⟨.map f.handle host (pages * pageSize), (status, mapping)⟩ :: t₁) where
  tidy.gone a token hmapped hhad := by
    rcases hmapped with ⟨-, -, ha⟩ | ⟨-, hmapped⟩
    · exact absurd (.inr ⟨id, h.had a ha⟩) hhad
    · exact (h.tidy.gone a token hmapped fun had => hhad (.inr ⟨id, had⟩)).mono (List.suffix_cons _ t₁)
  tidy.back := h.tidy.back.cons fun _ _ => False.elim
  calls := h.calls.trans (List.suffix_cons _ t₁)
  keeps a ha := (h.keeps a ha).trans (keeps_cons id fun _ hmaps => h.fresh a hmaps.2.2 ha)
  fresh := h.fresh
  had a ha := .inr ⟨id, h.had a ha⟩

/-- The pages have no mapping but such as were given up. -/
def Bare (pages host : Nat) (t : Trace) : Prop :=
  ∀ a token, Within host (pages * pageSize) a → t.Mapped a token → t.GivenUp a token

theorem Bare.cons (h : Bare pages host t) (hmaps : ∀ a token, ¬m.Maps a token) : Bare pages host (m :: t) :=
  fun a token ha hmapped => (h a token ha (hmapped.elim (absurd · (hmaps a token)) And.right)).mono (List.suffix_cons m t)

/-- Fresh pages that were not mapped yet. -/
theorem Fresh.bare (h : Fresh pages host t t₁) (ht : t.Tidy) (hmapped : ∀ a token, t₁.Mapped a token → t.Mapped a token) :
    Bare pages host t₁ := fun a token ha hmap => (ht.gone a token (hmapped a token hmap) (h.fresh a ha)).mono h.calls

/-- Pages go back that have no mapping but such as were given up. -/
theorem freeBuffer_tidy (ht : t.Tidy) (hbare : Bare pages host t) :
    Returns careful (freeBuffer f.handle pages host).run t fun _ t' =>
      t'.Tidy ∧ t <:+ t' ∧ ∀ a, ¬Within host (pages * pageSize) a → t.Keeps a t' := by
  refine (returns_plainService (c := .freeBuffer f.handle pages host) fun status : Status => status).2 ?_
  rintro (status : Status) _ ⟨rfl, -⟩
  have hkeeps : ∀ a, ¬Within host (pages * pageSize) a → t.Keeps a (⟨.freeBuffer f.handle pages host, status⟩ :: t : Trace) :=
    fun a ha => keeps_cons (fun h => ha h.2) fun _ => id
  refine ⟨⟨fun a token hmapped hhad => ?_, ht.back.cons hbare⟩, List.suffix_cons _ t, hkeeps⟩
  by_cases ha : Within host (pages * pageSize) a
  · exact hbare.cons (fun _ _ => id) a token ha hmapped
  · have hgiven := ht.gone a token ((hkeeps a ha).mapped token hmapped) fun had => hhad ((hkeeps a ha).had had)
    exact hgiven.mono (List.suffix_cons _ t)

theorem Fresh.giveBack (h : Fresh pages host t t₁) (hbare : Bare pages host t₁) :
    Returns careful (freeBuffer f.handle pages host).run t₁ fun _ => Spares t :=
  (freeBuffer_tidy h.tidy hbare).mono fun _ _ ⟨htidy, hcalls, hkeeps⟩ =>
    ⟨htidy, h.calls.trans hcalls, fun a ha => (h.keeps a ha).trans (hkeeps a fun hwithin => h.fresh a hwithin ha)⟩

/-- **A mapping that is given up**: taken back or not, it does not keep the pages from going back. -/
theorem Fresh.giveUp {status : Status} {mapping : Mapping} (h : Fresh (pagesFor length) host t t₁)
    (hbare : Bare (pagesFor length) host t₁) (hok : status.isError = false) (hshort : mapping.length < length) :
    Returns careful (do
      let _ ← (unmap f.handle mapping.token).run
      let _ ← (freeBuffer f.handle (pagesFor length) host).run
      return Except.error Error.outOfResources : Firmware (Except Error Region))
      (⟨.map f.handle host (pagesFor length * pageSize), (status, mapping)⟩ :: t₁) fun r t' =>
      r = .error .outOfResources ∧ Spares t t' := by
  refine returns_bind.2 ((returns_plainService (c := .unmap f.handle mapping.token) fun status : Status => status).2 ?_)
  rintro (refusal : Status) _ ⟨rfl, -⟩
  refine returns_bind.2 ((h.map.cons ⟨fun _ _ => id, fun _ => id, fun _ => id⟩).giveBack ?_ |>.mono fun _ _ h => ⟨rfl, h⟩)
  rintro a token ha (⟨⟨⟩⟩ | ⟨hunmaps, ⟨-, rfl, -⟩ | ⟨-, hmapped⟩⟩)
  · -- its own mapping is left only where the firmware did not take it back
    have hrefusal : Status.isError refusal = true := eq_true_of_ne_false fun hok => hunmaps ⟨hok, rfl⟩
    exact ⟨f.handle, host, length, status, mapping, refusal, t₁, List.suffix_rfl, hok, rfl, ha, hshort, hrefusal⟩
  · exact (hbare a token ha hmapped).mono ((List.suffix_cons _ t₁).trans (List.suffix_cons _ _))

/-- The byte `a` is in the pages of a region. -/
def OnPages (g : Region) (a : Nat) : Prop := Within g.host (pagesFor g.length * pageSize) a

/-- The region is had, and has no mapping but its own and such as were given up. -/
structure Holds (t : Trace) (g : Region) : Prop where
  had : ∀ a, OnPages g a → t.Had a
  mapped : ∀ a token, OnPages g a → t.Mapped a token → token = g.token ∨ t.GivenUp a token

/-- Pages that were mapped and cleared are those of a region. -/
theorem Fresh.holds {status : Status} {mapping : Mapping} (h : Fresh (pagesFor length) host t t₁)
    (hbare : Bare (pagesFor length) host t₁) :
    Holds (⟨.clear host length, ()⟩ :: ⟨.map f.handle host (pagesFor length * pageSize), (status, mapping)⟩ :: t₁)
      { host, address := mapping.address, length, token := mapping.token } where
  had a ha := .inr ⟨id, h.map.had a ha⟩
  mapped := by
    rintro a token ha (⟨⟨⟩⟩ | ⟨-, ⟨-, htoken, -⟩ | ⟨-, hmapped⟩⟩)
    · exact .inl htoken.symm
    · exact .inr ((hbare a token ha hmapped).mono ((List.suffix_cons _ t₁).trans (List.suffix_cons _ _)))

end Trace

namespace Function

open Firmware Services Trace

variable {f : Function} {t : Trace}

theorem judge_error {α : Type} {op : String} {status : Status} {a : α} {e : Failure} (h : judge op status a = .error e) :
    status.isError = true := by
  unfold judge at h
  split at h
  · assumption
  · cases h

/-- **An allocation** leaves what is had alone, and has the pages of its region from then on. -/
theorem allocate_spares (length : Nat) (ht : t.Tidy) : Returns careful (f.allocate length) t fun r t' =>
    Spares t t' ∧ ∀ g, r = .ok g → Holds t' g ∧ ∀ a, OnPages g a → ¬t.Had a := by
  refine returns_bind.2 (returns_toAnswer.2
    ((returns_service (c := .allocateBuffer f.handle .bootServicesData (pagesFor length)) Prod.fst Prod.snd).2 ?_))
  rintro ⟨status, host⟩ _ ⟨rfl, hfresh⟩
  have hspares : Spares t (⟨.allocateBuffer f.handle .bootServicesData (pagesFor length), (status, host)⟩ :: t) :=
    (Spares.refl ht).cons ⟨fun _ _ => id, fun _ => id, fun _ => id⟩
  cases hstatus : judge "PciIo.AllocateBuffer" status host with
  | error e => exact ⟨hspares, nofun⟩
  | ok host' =>
    obtain ⟨hok, rfl⟩ := judge_ok hstatus
    cases host with
    | zero => exact ⟨hspares, nofun⟩
    | succ host =>
      have h₁ : Fresh (pagesFor length) (host + 1) t _ :=
        ⟨hspares, fun a ha => hfresh a ⟨hok, Nat.succ_ne_zero host, ha⟩, fun _ ha => .inl ⟨hok, Nat.succ_ne_zero host, ha⟩⟩
      have hbare := h₁.bare ht fun _ _ hmapped => hmapped.elim False.elim And.right
      refine returns_bind.2 (returns_toAnswer.2
        ((returns_service (c := .map f.handle (host + 1) (pagesFor length * pageSize)) Prod.fst Prod.snd).2 ?_))
      rintro ⟨status, mapping⟩ _ ⟨rfl, -⟩
      have h₂ : Fresh (pagesFor length) (host + 1) t
          (⟨.map f.handle (host + 1) (pagesFor length * pageSize), (status, mapping)⟩ :: _) := h₁.map
      cases hstatus : judge "PciIo.Map" status mapping with
      | error e =>
        refine returns_bind.2 ((h₂.giveBack (hbare.cons ?_)).mono fun _ _ h => ⟨h, nofun⟩)
        exact fun _ _ hmaps => Bool.eq_false_iff.1 hmaps.1 (judge_error hstatus)
      | ok mapping' =>
        obtain ⟨hok, rfl⟩ := judge_ok hstatus
        dsimp only [Except.mapError]
        split
        · rename_i hlength
          refine (h₁.giveUp hbare hok hlength).mono ?_
          rintro _ t' ⟨rfl, hspares⟩
          exact ⟨hspares, nofun⟩
        · refine returns_bind.2 (returns_ask.2 ?_)
          rintro _ _ ⟨rfl, -⟩
          refine ⟨h₂.toSpares.cons ⟨fun _ _ => id, fun _ => id, fun _ => id⟩, ?_⟩
          rintro g ⟨⟩
          exact ⟨h₁.holds hbare, h₁.fresh⟩

/-- **A region that is given back** is unmapped before its pages go back, and nothing else is touched. -/
theorem free_spares {g : Region} (ht : t.Tidy) (hg : Holds t g) : Returns careful (f.free g).toAnswer t fun _ t' =>
    t'.Tidy ∧ t <:+ t' ∧ ∀ a, ¬OnPages g a → t.Keeps a t' := by
  refine returns_toAnswer.2 (returns_andThen.2
    ((returns_plainService (c := .unmap f.handle g.token) fun status : Status => status).2 ?_))
  rintro (status : Status) _ ⟨rfl, -⟩
  have h₁ : Spares t (⟨.unmap f.handle g.token, status⟩ :: t) :=
    (Spares.refl ht).cons ⟨fun _ _ => id, fun _ => id, fun _ => id⟩
  have hkeeps : ∀ a, t.Keeps a (⟨.unmap f.handle g.token, status⟩ :: t : Trace) := fun _ => keeps_cons id fun _ => id
  cases hstatus : judge "PciIo.Unmap" status () with
  | error e => exact ⟨h₁.tidy, h₁.calls, fun a _ => hkeeps a⟩
  | ok u =>
    obtain ⟨hok, -⟩ := judge_ok hstatus
    refine (freeBuffer_tidy h₁.tidy ?_).mono fun _ _ ⟨htidy, hcalls, hmore⟩ =>
      ⟨htidy, h₁.calls.trans hcalls, fun a ha => (hkeeps a).trans (hmore a ha)⟩
    rintro a token ha (⟨⟨⟩⟩ | ⟨hunmaps, hmapped⟩)
    rcases hg.mapped a token ha hmapped with rfl | hgiven
    · exact absurd ⟨hok, rfl⟩ hunmaps
    · exact hgiven.mono (List.suffix_cons _ t)

end Function

/-! ### Every sequence of steps -/

namespace Workbench

open Firmware Uefi.Function Trace

/-- Something that is done with the function that is bound. -/
inductive Deed
  | allocate (length : Nat)
  /-- gives the region of one allocation back -/
  | free (index : Nat)

/-- Does one thing. -/
def doOne (s : Workbench) : Deed → Firmware Workbench
  | .allocate length => do return (← s.allocate length).2
  | .free index => do return (← s.free index).2

/-- Does one thing after the other, whatever comes of each. -/
def doAll (s : Workbench) : List Deed → Firmware Workbench
  | [] => return s
  | d :: rest => do (← s.doOne d).doAll rest

variable {ω : Type} {W : World Call Call.Answer ω} {w : ω} {s : Workbench} {f : Function} {t : Trace}

theorem returns_perform_allocate (hf : s.host.bound = some f) {length : Nat} {Q : Except Error Region × Workbench → ω → Prop} :
    Returns W (s.perform (Procedure.allocate length)) w Q ↔ Returns W (f.allocate length) w fun r => Q (r, s) := by
  refine returns_bind.trans (returns_bind.trans ((Host.returns_viaFunction hf).trans ?_))
  exact Iff.rfl

theorem returns_perform_free (hf : s.host.bound = some f) {g : Region} {Q : Except Error Unit × Workbench → ω → Prop} :
    Returns W (s.perform (Procedure.free g)) w Q ↔ Returns W (f.free g).toAnswer w fun r => Q (r, s) := by
  refine returns_bind.trans (returns_bind.trans ((Host.returns_viaFunction hf).trans ?_))
  exact Iff.rfl

/-- There is a region in a place. -/
def Has (s : Workbench) (i : Nat) (g : Region) : Prop := s.regions[i]? = some (some g)

/-- The regions are held, each apart from the others. -/
structure Tidy (f : Function) (s : Workbench) (t : Trace) : Prop where
  bound : s.host.bound = some f
  tidy : t.Tidy
  holds : ∀ i g, s.Has i g → Holds t g
  apart : ∀ i j g k a, s.Has i g → s.Has j k → OnPages g a → OnPages k a → i = j

theorem tidy_new (image : Pointer) (f : Function) : Tidy f ⟨⟨image, some f⟩, #[]⟩ [] :=
  ⟨rfl, Trace.tidy_nil, fun _ _ => nofun, fun _ _ _ _ _ => nofun⟩

/-- A region is held on where its pages are left alone. -/
theorem holds_kept {g : Region} {t' : Trace} (hg : Holds t g) (hcalls : t <:+ t') (hkeeps : ∀ a, OnPages g a → t.Keeps a t') :
    Holds t' g :=
  ⟨fun a ha => (hkeeps a ha).had (hg.had a ha), fun a token ha hmapped =>
    (hg.mapped a token ha ((hkeeps a ha).mapped token hmapped)).imp_right fun h => h.mono hcalls⟩

theorem Tidy.spared {t' : Trace} (h : Tidy f s t) (hspares : Spares t t') : Tidy f s t' where
  bound := h.bound
  tidy := hspares.tidy
  holds i g hi := holds_kept (h.holds i g hi) hspares.calls fun a ha => hspares.keeps a ((h.holds i g hi).had a ha)
  apart := h.apart

/-- A region more is held, apart from those that were there. -/
theorem Tidy.push {g : Region} (h : Tidy f s t) (hg : Holds t g) (hapart : ∀ i k a, s.Has i k → OnPages k a → ¬OnPages g a) :
    Tidy f { s with regions := s.regions.push (some g) } t := by
  have hcases : ∀ i k, Has { s with regions := s.regions.push (some g) } i k → i = s.regions.size ∧ k = g ∨ s.Has i k := by
    intro i k hi
    unfold Has at hi
    rw [Array.getElem?_push] at hi
    split at hi
    · exact .inl ⟨‹_›, (Option.some.inj (Option.some.inj hi)).symm⟩
    · exact .inr hi
  refine ⟨h.bound, h.tidy, fun i k hi => ?_, fun i j k l a hi hj hk hl => ?_⟩
  · rcases hcases i k hi with ⟨-, rfl⟩ | hi
    · exact hg
    · exact h.holds i k hi
  · rcases hcases i k hi with ⟨rfl, rfl⟩ | hi' <;> rcases hcases j l hj with ⟨rfl, rfl⟩ | hj'
    · rfl
    · exact absurd hk (hapart j l a hj' hl)
    · exact absurd hl (hapart i k a hi' hk)
    · exact h.apart i j k l a hi' hj' hk hl

theorem allocate_tidy (length : Nat) (h : Tidy f s t) :
    Returns careful (s.doOne (.allocate length)) t fun s' => Tidy f s' := by
  refine returns_bind.2 (returns_bind.2 ((returns_perform_allocate h.bound).2 ((allocate_spares length h.tidy).mono ?_)))
  rintro (e | g) t' ⟨hspares, hnew⟩
  · exact h.spared hspares
  · obtain ⟨hg, hfresh⟩ := hnew g rfl
    exact (h.spared hspares).push hg fun i k a hi hk hga => hfresh a hga ((h.holds i k hi).had a hk)

theorem free_tidy (index : Nat) (h : Tidy f s t) : Returns careful (s.doOne (.free index)) t fun s' => Tidy f s' := by
  refine returns_bind.2 ?_
  unfold free
  cases hg : s.regions[index]?.join with
  | none => exact h
  | some g =>
    have hindex : s.Has index g := Option.join_eq_some_iff.1 hg
    have hleft : ∀ i k, Has { s with regions := s.regions.setIfInBounds index none } i k → i ≠ index ∧ s.Has i k := by
      intro i k hi
      unfold Has at hi
      rw [Array.getElem?_setIfInBounds] at hi
      split at hi
      · split at hi <;> cases hi
      · exact ⟨Ne.symm ‹_›, hi⟩
    refine returns_bind.2
      ((returns_perform_free (s := { s with regions := s.regions.setIfInBounds index none }) h.bound).2 ?_)
    refine (free_spares h.tidy (h.holds index g hindex)).mono fun _ t' ⟨htidy, hcalls, hkeeps⟩ => ?_
    refine ⟨h.bound, htidy, fun i k hi => ?_, fun i j k l a hi hj => h.apart i j k l a (hleft i k hi).2 (hleft j l hj).2⟩
    obtain ⟨hne, hi⟩ := hleft i k hi
    exact holds_kept (h.holds i k hi) hcalls fun a ha => hkeeps a fun hga => hne (h.apart i index k g a hi hindex ha hga)

theorem doAll_tidy : ∀ (deeds : List Deed) {s : Workbench} {t : Trace}, Tidy f s t →
    Returns careful (s.doAll deeds) t fun s' => Tidy f s'
  | [], _, _, h => h
  | .allocate length :: rest, _, _, h =>
    returns_bind.2 ((allocate_tidy length h).mono fun _ _ h => doAll_tidy rest h)
  | .free index :: rest, _, _, h => returns_bind.2 ((free_tidy index h).mono fun _ _ h => doAll_tidy rest h)

/-- **Pages that go back are not mapped**, whatever the firmware answers to any sequence of allocations and returns, but where
the mapping was too short and the firmware did not take it back when it was given up for that. -/
theorem doAll_unmaps_first (image : Pointer) (f : Function) (deeds : List Deed) :
    Returns careful (doAll ⟨⟨image, some f⟩, #[]⟩ deeds) [] fun _ t => t.UnmapsFirst :=
  (doAll_tidy deeds (tidy_new image f)).mono fun _ _ h => h.tidy.back

/-- **Pages can go back mapped**: one allocation, mapped to the half, the mapping of which is not taken back. -/
theorem doAll_gives_back_mapped : ¬∀ (image : Pointer) (f : Function) (deeds : List Deed),
    Returns careful (doAll ⟨⟨image, some f⟩, #[]⟩ deeds) [] fun _ t =>
      ∀ m (before : Trace) a token, m :: before <:+ t → m.GivesBack a → ¬before.Mapped a token := by
  intro h
  have hshort := h 0x1000 { handle := 1 } [.allocate 4096]
  refine hshort (Status.success, 4096) _ ⟨rfl, fun _ _ => id⟩ (Status.success, ⟨0, 2048, 1⟩) _ ⟨rfl, fun _ => False.elim⟩
    Status.deviceError _ ⟨rfl, fun _ => False.elim⟩ Status.success _ ⟨rfl, fun _ => False.elim⟩
    _ _ 4096 1 List.suffix_rfl ?_ ?_
  · change Within 4096 (1 * pageSize) 4096
    exact ⟨Nat.le_refl _, by decide⟩
  · exact .inr ⟨fun hunmaps => absurd hunmaps.1 (by decide), .inl ⟨by decide, rfl, Nat.le_refl _, by decide⟩⟩

end Workbench
end Uefi
end AudioBringup
