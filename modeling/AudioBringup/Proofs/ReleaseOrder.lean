import AudioBringup.Proofs.EngineLayout
/-!
# Proofs.ReleaseOrder — the order in which the streams' memory is given back

Giving back goes through the regions in one order and ends with the first that is not taken.  Nothing is given back before
the programmed engine was found stopped and position reporting was turned off.  The order is the one the memory was had in
backwards, within each class of engines (`release_in_order`).
-/
namespace AudioBringup

open Procedure History

/-- The register of 16 bits at `o` was read as `v`. -/
def Made.seen (o v : BitVec 32) : Made := ⟨.read .word o, Except.ok v⟩

/-- An access to a register that failed. -/
def Made.FailsAccess : Made → Prop
  | ⟨.read .., .error _⟩ | ⟨.write .., .error _⟩ => True
  | _ => False

namespace History

variable {new post pre : History}

/-- Every region that was given back and what came of it, in the order of the calls. -/
def returns (h : History) : List (Region × Except Error Unit) := h.reverse.filterMap fun
  | ⟨.free g, r⟩ => some (g, r)
  | _ => none

/-- The engine with its control at `o` was told to stop, and one of the first `checks` looks after that found it stopped. -/
def StoppedIn (o : BitVec 32) (checks : Nat) (new : History) : Prop :=
  ∃ (post : History) (v told : BitVec 32) (looks : List (BitVec 32)) (pre : History),
    new = post ++ (.seen o v :: looks.map (.seen o) ++ ⟨.write .word o told, Except.ok ()⟩ :: pre) ∧
      v.getLsbD 1 = false ∧ told.getLsbD 1 = false ∧ looks.length < checks

theorem returns_append (post pre : History) : returns (post ++ pre) = pre.returns ++ post.returns := by
  simp [returns]

theorem returns_of_none (h : ∀ m ∈ new, ∀ g, m.call ≠ .free g) : returns new = [] := by
  refine List.filterMap_eq_nil_iff.2 ?_
  rintro ⟨c, a⟩ hm
  have hfree := h _ (List.mem_reverse.1 hm)
  cases c <;> first | rfl | exact absurd rfl (hfree _)

theorem StoppedIn.append {o : BitVec 32} {checks : Nat} (h : StoppedIn o checks new) (post : History) :
    StoppedIn o checks (post ++ new) := by
  obtain ⟨post', v, told, looks, pre, rfl, h⟩ := h
  exact ⟨post ++ post', v, told, looks, pre, (List.append_assoc _ _ _).symm, h⟩

end History

namespace Streams

variable {σ : Type} {n : Nat} {s : σ} {h : History} {limit : WaitLimit} {e : StreamEngine} {streams : Streams}

/-! ### The regions, one after the other -/

/-- How giving back the regions of a list can go: each is given back once the one before it was taken. -/
inductive Handed : List Region → List (Region × Except Error Unit) → Except Error Unit → Prop
  | nil : Handed [] [] (.ok ())
  | taken {g : Region} {order : List Region} {returns : List (Region × Except Error Unit)} {r : Except Error Unit}
    (rest : Handed order returns r) : Handed (g :: order) ((g, .ok ()) :: returns) r
  | refused {g : Region} {order : List Region} {e : Error} : Handed (g :: order) [(g, .error e)] (.error e)

section
variable {order : List Region} {returns : List (Region × Except Error Unit)} {r : Except Error Unit}

theorem Handed.inOrder (h : Handed order returns r) : returns.map Prod.fst <+: order := by
  induction h with
  | nil => exact List.prefix_rfl
  | taken _ ih => exact List.cons_prefix_cons.2 ⟨rfl, ih⟩
  | refused => exact List.cons_prefix_cons.2 ⟨rfl, List.nil_prefix⟩

/-- The first that is not taken ends it. -/
theorem Handed.all_iff (h : Handed order returns r) : returns.map Prod.fst = order ↔
    ∀ i g e, returns[i]? = some (g, .error e) → i + 1 = order.length := by
  induction h with
  | nil => simp
  | taken _ ih =>
    rw [List.map_cons, List.cons_inj_right, ih]
    constructor
    · rintro hrest (_ | i) g e hi
      · cases hi
      · exact congrArg (· + 1) (hrest i g e hi)
    · exact fun hall i g e hi => Nat.succ.inj (hall (i + 1) g e hi)
  | @refused g order e =>
    cases order with
    | nil => exact ⟨fun _ i _ _ hi => congrArg (· + 1) (Nat.lt_one_iff.1 (List.getElem?_eq_some_iff.1 hi).1), fun _ => rfl⟩
    | cons k order =>
      refine ⟨fun heq => ?_, fun hall => ?_⟩
      · cases heq
      · exact absurd (hall 0 g e rfl) (by simp)

theorem Handed.ok_iff (h : Handed order returns r) (hne : order ≠ []) : r = .ok () ↔
    returns.map Prod.fst = order ∧ ∃ g, returns.getLast? = some (g, .ok ()) := by
  induction h with
  | nil => exact absurd rfl hne
  | @taken g order returns r hrest ih =>
    cases order with
    | nil =>
      cases hrest
      simp
    | cons k order =>
      rw [ih (List.cons_ne_nil _ _), List.map_cons, List.cons_inj_right]
      refine and_congr_right fun heq => ?_
      cases returns with
      | nil => cases heq
      | cons k returns => rw [List.getLast?_cons_cons]
  | refused => simp

end

/-- Giving several regions back makes no other calls, and ends with the first that is not taken. -/
theorem freeAll_handed : ∀ {order : List Region} {h : History}, Ensures recording n (freeAll order) s h
    ⟨fun _ _ => Adds (fun new => (∀ m ∈ new, ¬m.FailsAccess) ∧ Handed order new.returns (.ok ())) h,
      fun e _ => Adds (fun new => (∀ m ∈ new, ¬m.FailsAccess) ∧ Handed order new.returns (.error e)) h,
      fun _ => False, fun _ => False⟩
  | [], _ => ⟨[], rfl, List.forall_mem_nil _, .nil⟩
  | g :: order, h => by
    refine ensures_bind.2 (ensures_free.2 ?_)
    rintro (e | ⟨⟩) _ rfl
    · exact ⟨[_], rfl, List.forall_mem_singleton.2 id, .refused⟩
    · have hcons : ∀ {r : Except Error Unit} {h' : History},
          Adds (fun new => (∀ m ∈ new, ¬m.FailsAccess) ∧ Handed order new.returns r) (⟨.free g, Except.ok ()⟩ :: h) h' →
          Adds (fun new => (∀ m ∈ new, ¬m.FailsAccess) ∧ Handed (g :: order) new.returns r) h h' := by
        rintro r _ ⟨new, rfl, hfails, hrest⟩
        refine ⟨new ++ [⟨.free g, Except.ok ()⟩], by simp, ?_, ?_⟩
        · exact List.forall_mem_append.2 ⟨hfails, List.forall_mem_singleton.2 id⟩
        · rw [returns_append]
          exact hrest.taken
      exact freeAll_handed.mono (fun _ _ _ => hcons) (fun _ _ _ => hcons) (fun _ => id) fun _ => id

/-! ### Before anything is given back -/

theorem look_finds {o : BitVec 32} {f : BitVec 16 → Bool} : Ensures recording n (do return f (← read16 o)) s h
    (.unlessFails fun holds s' h' => s' = s ∧ ∃ v : BitVec 32, holds = f (v.setWidth 16) ∧
      h' = .seen o v :: h) := by
  refine ensures_bind.2 (ensures_bind.2 (ensures_read.2 ?_))
  rintro (e | v) _ rfl
  · trivial
  · exact ⟨rfl, v, rfl, rfl⟩

/-- A wait for what a register reads as comes to its end with one of as many looks as its limit lets it make. -/
theorem waitUntil_looks {site : WaitSite} {o : BitVec 32} {f : BitVec 16 → Bool} :
    Ensures recording n (waitUntil site limit do return f (← read16 o)) s h (.unlessFails fun _ s' h' => s' = s ∧
      ∃ (v : BitVec 32) (looks : List (BitVec 32)), f (v.setWidth 16) = true ∧ looks.length < limit.checks n ∧
        h' = .seen o v :: looks.map (.seen o) ++ h) := by
  refine ensures_waitUntil_counted (fun k s' h' => s' = s ∧ ∃ looks : List (BitVec 32), looks.length = k ∧
    h' = looks.map (.seen o) ++ h) ?_ (fun _ _ _ _ _ _ _ => trivial) (fun _ _ _ _ => trivial) ⟨rfl, [], rfl, rfl⟩
  rintro _ _ _ hlooks ⟨rfl, looks, rfl, rfl⟩
  refine look_finds.imp ?_
  rintro _ _ _ ⟨rfl, v, rfl, rfl⟩
  cases hends : f (v.setWidth 16) with
  | false => exact ⟨rfl, v :: looks, rfl, rfl⟩
  | true => exact ⟨rfl, v, looks, hends, hlooks, rfl⟩

/-- Neither gives anything back nor gets to where that begins. -/
def Early (m : Made) : Prop := (∀ g, m.call ≠ .free g) ∧ m ≠ ⟨.write .dword Register.dpubase 0, Except.ok ()⟩

/-- A call that can neither give anything back nor get to where that begins. -/
def Aside (c : Call) : Prop := (∀ g, c ≠ .free g) ∧ c ≠ .write .dword Register.dpubase 0

theorem early_of_aside {new : History} (hnew : ∀ m ∈ new, Aside m.call) : ∀ m ∈ new, Early m :=
  fun m hm => ⟨(hnew m hm).1, fun heq => (hnew m hm).2 (heq ▸ rfl)⟩

theorem stopEngine_aside : Confined Aside id (stopEngine (σ := σ) e limit) := by
  refine confined_bind (confined_read16 ⟨nofun, nofun⟩) fun _ => confined_bind (confined_write ⟨nofun, nofun⟩) fun _ => ?_
  refine confined_bind (confined_waitUntil (confined_look16 ⟨nofun, nofun⟩) fun _ => ⟨nofun, nofun⟩) fun _ => ?_
  exact confined_note ⟨nofun, nofun⟩

/-- An engine that was stopped was found to be in time, and no access to its registers failed. -/
theorem stopEngine_found : Ensures recording n (stopEngine e limit) s h (.unlessFails fun _ _ =>
    Adds (fun new => StoppedIn (e.base + Register.sdctl) (limit.checks n) new ∧ ∀ m ∈ new, ¬m.FailsAccess) h) := by
  refine ensures_bind.2 (ensures_bind.2 (ensures_read.2 ?_))
  rintro (error | v) _ rfl
  · trivial
  have hstop : (((StreamControl.ofLow (v.setWidth 16)).withRun false).low.setWidth 32).getLsbD 1 = false := by
    rw [StreamControl.getLsbD_low, StreamControl.run_withRun]
  refine ensures_bind.2 (ensures_write.2 ?_)
  generalize ((StreamControl.ofLow (v.setWidth 16)).withRun false).low.setWidth 32 = told at hstop
  generalize e.base + Register.sdctl = o
  rintro (error | u) _ rfl
  · trivial
  refine ensures_bind.2 (waitUntil_looks.imp ?_)
  rintro _ _ _ ⟨-, w, looks, hends, hlooks, rfl⟩
  refine (ensures_note (n := n)).2 ?_
  rintro _ rfl
  have hrun : w.getLsbD 1 = false := by simpa [StreamControl.run_ofLow] using hends
  refine ⟨⟨.note (.streamStopped e.index), ()⟩ :: .seen o w :: looks.map (.seen o) ++
    [⟨.write .word o told, Except.ok ()⟩, .seen o v], by simp [Made.seen],
    ⟨[_], w, told, looks, [_], rfl, hrun, hstop, hlooks⟩, ?_⟩
  refine List.forall_mem_cons.2 ⟨id, List.forall_mem_cons.2 ⟨id, List.forall_mem_append.2 ⟨?_, ?_⟩⟩⟩
  · exact List.forall_mem_map.2 fun _ _ => id
  · exact List.forall_mem_cons.2 ⟨id, List.forall_mem_singleton.2 id⟩

/-- The programmed engine, if there is one, was found stopped in time, and position reporting was turned off. -/
structure GotPast (streams : Streams) (checks : Nat) (new : History) : Prop where
  stopped : ∀ e, streams.programmedEngine = some e → StoppedIn (e.base + Register.sdctl) checks new
  lower : ⟨.write .dword Register.dplbase 0, Except.ok ()⟩ ∈ new
  upper : ⟨.write .dword Register.dpubase 0, Except.ok ()⟩ ∈ new

/-- What the calls of a release gave back, which was to go in `order`, where the release ended with `r`, if it did. -/
structure GivenBack (streams : Streams) (order : List Region) (checks : Nat) (r : Option (Except Error Unit))
    (new : History) : Prop where
  inOrder : new.returns.map Prod.fst <+: order
  all_iff : new.returns.map Prod.fst = order ↔
    streams.GotPast checks new ∧ ∀ i g e, new.returns[i]? = some (g, .error e) → i + 1 = order.length
  ok_iff : r = some (.ok ()) ↔ new.returns.map Prod.fst = order ∧ ∃ g, new.returns.getLast? = some (g, .ok ())
  unstopped : ∀ e, streams.programmedEngine = some e → ¬StoppedIn (e.base + Register.sdctl) checks new → new.returns = []
  failed : ∀ m ∈ new, m.FailsAccess → new.returns = []

/-- How a release can end. -/
def gives (streams : Streams) (order : List Region) (checks : Nat) (h : History) : Outcome σ Unit History :=
  ⟨fun _ _ => Adds (streams.GivenBack order checks (some (.ok ()))) h,
    fun e _ => Adds (streams.GivenBack order checks (some (.error e))) h, fun _ => False,
    Adds (streams.GivenBack order checks none) h⟩

section
variable {order : List Region} {checks : Nat} {r : Option (Except Error Unit)} {new : History}

/-- A release that ends early gave nothing back. -/
theorem givenBack_of_early (hne : order ≠ []) (hr : r ≠ some (.ok ())) (hnew : ∀ m ∈ new, Early m) :
    streams.GivenBack order checks r new := by
  have hnone : new.returns = [] := returns_of_none fun m hm => (hnew m hm).1
  refine ⟨?_, ?_, ?_, fun _ _ _ => hnone, fun _ _ _ => hnone⟩
  · rw [hnone]
    exact List.nil_prefix
  · rw [hnone]
    exact ⟨fun heq => absurd heq.symm hne, fun hpast => absurd rfl (hnew _ hpast.1.upper).2⟩
  · rw [hnone]
    exact ⟨fun hok => absurd hok hr, fun hall => absurd hall.1.symm hne⟩

/-- A release that gets to the regions gives them back one after the other. -/
theorem givenBack_of_handed {post pre : History} {r : Except Error Unit} (hne : order ≠ [])
    (hstopped : ∀ e, streams.programmedEngine = some e → StoppedIn (e.base + Register.sdctl) checks pre)
    (hlower : ⟨.write .dword Register.dplbase 0, Except.ok ()⟩ ∈ pre)
    (hupper : ⟨.write .dword Register.dpubase 0, Except.ok ()⟩ ∈ pre) (hnone : pre.returns = [])
    (hfine : ∀ m ∈ pre, ¬m.FailsAccess) (hpost : ∀ m ∈ post, ¬m.FailsAccess) (hhanded : Handed order post.returns r) :
    streams.GivenBack order checks (some r) (post ++ pre) := by
  have hreturns : (post ++ pre).returns = post.returns := by rw [returns_append, hnone, List.nil_append]
  have hpast : streams.GotPast checks (post ++ pre) :=
    ⟨fun e he => (hstopped e he).append post, List.mem_append_right _ hlower, List.mem_append_right _ hupper⟩
  refine ⟨?_, ?_, ?_, fun e he hnot => absurd (hpast.stopped e he) hnot, fun m hm hfails => ?_⟩
  · rw [hreturns]
    exact hhanded.inOrder
  · rw [hreturns, hhanded.all_iff]
    exact (and_iff_right hpast).symm
  · rw [hreturns, Option.some_inj]
    exact hhanded.ok_iff hne
  · exact absurd hfails (List.forall_mem_append.2 ⟨hpost, hfine⟩ m hm)

end

theorem regions_ne_nil : streams.regions ≠ [] := List.append_ne_nil_of_right_ne_nil _ (List.cons_ne_nil _ _)

/-- Position reporting is turned off once the engine was found stopped, and then everything is given back. -/
theorem turnOff_gives {checks : Nat} {c : Controller} (pre : History)
    (hstopped : ∀ e, streams.programmedEngine = some e → StoppedIn (e.base + Register.sdctl) checks pre)
    (hfine : ∀ m ∈ pre, ¬m.FailsAccess) (hpre : ∀ m ∈ pre, Early m) : Ensures recording n (do
      writeAddress Register.dplbase Register.dpubase 0
      freeAll streams.regions) c (pre ++ h) (gives streams streams.regions checks h) := by
  refine ensures_bind.2 (ensures_bind.2 (ensures_write.2 ?_))
  rintro (error | u) _ rfl
  · exact ⟨_ :: pre, rfl, givenBack_of_early regions_ne_nil nofun (List.forall_mem_cons.2 ⟨⟨nofun, nofun⟩, hpre⟩)⟩
  refine (ensures_write (n := n)).2 ?_
  rintro (error | u) _ rfl
  · refine ⟨_ :: _ :: pre, rfl, givenBack_of_early regions_ne_nil nofun ?_⟩
    exact List.forall_mem_cons.2 ⟨⟨nofun, nofun⟩, List.forall_mem_cons.2 ⟨⟨nofun, nofun⟩, hpre⟩⟩
  have hgives : ∀ {r : Except Error Unit} {h' : History},
      Adds (fun new => (∀ m ∈ new, ¬m.FailsAccess) ∧ Handed streams.regions new.returns r)
        (⟨.write .dword Register.dpubase 0, Except.ok ()⟩ :: ⟨.write .dword Register.dplbase 0, Except.ok ()⟩ ::
          (pre ++ h)) h' →
      Adds (streams.GivenBack streams.regions checks (some r)) h h' := by
    rintro r _ ⟨post, rfl, hpost, hhanded⟩
    refine ⟨post ++ (⟨.write .dword Register.dpubase 0, Except.ok ()⟩ ::
        ⟨.write .dword Register.dplbase 0, Except.ok ()⟩ :: pre), by simp,
      givenBack_of_handed regions_ne_nil (fun e he => ?_) ?_ ?_ ?_ ?_ hpost hhanded⟩
    · exact (hstopped e he).append [_, _]
    · exact List.mem_cons_of_mem _ List.mem_cons_self
    · exact List.mem_cons_self
    · refine returns_of_none (List.forall_mem_cons.2 ⟨nofun, List.forall_mem_cons.2 ⟨nofun, fun m hm => (hpre m hm).1⟩⟩)
    · exact List.forall_mem_cons.2 ⟨id, List.forall_mem_cons.2 ⟨id, hfine⟩⟩
  exact freeAll_handed.mono (fun _ _ _ => hgives) (fun _ _ _ => hgives) (fun _ => False.elim) fun _ => False.elim

/-- **A release** gives back what the streams have in one order, as far as it goes. -/
theorem release_gives {c : Controller} : Ensures recording n streams.release c h
    (gives streams streams.regions ((c.config.poll.limit .streamReset).checks n) h) := by
  unfold release
  cases hprogrammed : streams.programmedEngine with
  | none =>
    exact turnOff_gives [] (fun e he => by cases hprogrammed.symm.trans he) (List.forall_mem_nil _) (List.forall_mem_nil _)
  | some e =>
    have hearly : ∀ {r h'}, r ≠ some (.ok ()) → h.Grows Aside h' →
        Adds (streams.GivenBack streams.regions ((c.config.poll.limit .streamReset).checks n) r) h h' := by
      intro r h' hr hg
      obtain ⟨new, rfl, hnew⟩ := hg.adds
      exact ⟨new, rfl, givenBack_of_early regions_ne_nil hr (early_of_aside hnew)⟩
    refine ensures_bind.2 (ensures_get.2 (ensures_bind.2 ?_))
    refine ((stopEngine_aside n c h).and stopEngine_found).mono ?_ (fun _ _ _ hg => hearly nofun hg.1.2)
      (fun _ hg => hg.2.elim) fun _ hg => hearly nofun hg.1
    rintro _ c' _ ⟨⟨rfl, hg⟩, pre, rfl, hstopped, hfine⟩
    obtain ⟨pre', heq, hpre⟩ := hg.adds
    obtain rfl := List.append_cancel_right heq
    refine turnOff_gives _ (fun e' he' => ?_) hfine (early_of_aside hpre)
    obtain rfl := Option.some.inj (hprogrammed.symm.trans he')
    exact hstopped

/-! ### The order the memory was had in -/

/-- The regions were had on top of `h`, in this order. -/
def Obtains (l : List Region) : History → History → Prop := Adds fun new => new.allocated.reverse = l

section
variable {l l' : List Region} {h' h'' : History}

theorem Obtains.trans (hl : Obtains l h h') (hl' : Obtains l' h' h'') : Obtains (l ++ l') h h'' := by
  obtain ⟨new, rfl, rfl⟩ := hl
  obtain ⟨new', rfl, rfl⟩ := hl'
  exact ⟨new' ++ new, (List.append_assoc _ _ _).symm, by simp [allocated]⟩

end

/-- The regions were the first that were had on top of `h`, in this order, as many for each class of engines as the
controller has. -/
def HadFirst (input output bidirectional : List Region) (positions : Region) (h h' : History) : Prop :=
  ∃ (v : BitVec 32) (later : List Region),
    Obtains (input ++ output ++ bidirectional ++ [positions] ++ later) (⟨.read .word Register.gcap, Except.ok v⟩ :: h) h' ∧
    input.length = (GlobalCaps.mk (v.setWidth 16)).inputStreams ∧
    output.length = (GlobalCaps.mk (v.setWidth 16)).outputStreams ∧
    bidirectional.length = (GlobalCaps.mk (v.setWidth 16)).bidirectionalStreams

/-- **Streams that were allocated** had their memory class by class, and the position buffer last. -/
theorem allocate_had {c : Controller} : Ensures recording n Streams.allocate c h (.ifDone fun streams _ h' =>
    HadFirst (streams.input.map StreamEngine.list) (streams.output.map StreamEngine.list)
      (streams.bidirectional.map StreamEngine.list) streams.positions h h') := by
  refine allocate_laidOut.ifDone ?_
  rintro streams _ _ ⟨v, new, rfl, hlaid⟩
  have hhad : new.allocated.reverse = streams.allEngines.map StreamEngine.list ++ [streams.positions] := by
    rw [← map_snd_grants, hlaid.supplied.grants]
    simp
  refine ⟨v, [], ⟨new, rfl, hhad.trans ?_⟩, (List.length_map _).trans hlaid.input.length,
    (List.length_map _).trans hlaid.output.length, (List.length_map _).trans hlaid.bidirectional.length⟩
  simp [allEngines]

theorem HadFirst.append {input output bidirectional : List Region} {positions : Region} {h' post : History}
    (hhad : HadFirst input output bidirectional positions h h') :
    HadFirst input output bidirectional positions h (post ++ h') := by
  obtain ⟨v, later, hhad, hcounts⟩ := hhad
  refine ⟨v, later ++ post.allocated.reverse, ?_, hcounts⟩
  rw [← List.append_assoc]
  exact hhad.trans ⟨post, rfl, rfl⟩

/-- **The memory of the streams goes back in one order**: the sample buffer, if there is one, then the buffer lists of the
input engines, of the output engines and of the others, each class backwards from how it was had, and the position buffer.
This is so for any numbers of engines, whatever was done with the streams and whatever fails: as much of it goes back as
`GivenBack` says. -/
theorem release_in_order (n : Nat) (c : Controller) (h : History) (deeds : List Deed) :
    Ensures recording n (session deeds) c h (.ifDone fun t _ h' => ∃ input output bidirectional positions,
      HadFirst input output bidirectional positions h h' ∧
      Ensures recording n t.2.release t.1 h' (t.2.gives
        (t.2.sample.toList ++ input.reverse ++ output.reverse ++ bidirectional.reverse ++ [positions])
        ((t.1.config.poll.limit .streamReset).checks n) h')) := by
  refine (session_lasting (K := fun s => HadFirst (s.input.map StreamEngine.list) (s.output.map StreamEngine.list)
    (s.bidirectional.map StreamEngine.list) s.positions h) (fun _ _ _ => HadFirst.append) allocate_had).ifDone ?_
  rintro t _ h' hhad
  refine ⟨t.2.input.map StreamEngine.list, t.2.output.map StreamEngine.list, t.2.bidirectional.map StreamEngine.list,
    t.2.positions, hhad, ?_⟩
  have hregions : t.2.regions = t.2.sample.toList ++ (t.2.input.map StreamEngine.list).reverse ++
      (t.2.output.map StreamEngine.list).reverse ++ (t.2.bidirectional.map StreamEngine.list).reverse ++ [t.2.positions] := by
    simp [regions]
  rw [← hregions]
  exact release_gives

end Streams
end AudioBringup
