import AudioBringup.Proofs.History
import AudioBringup.Proofs.Playback
/-!
# Proofs.Sessions — streams that are programmed and started again and again

A session has the memory of the streams and does things with them in any order, each whether or not the one before it
failed.  The engine plays the waveform it was programmed with last (`program_plays`).  It is started over live memory as long
as there is a sample buffer (`start_plays_live`), but an attempt to program it that failed may have left none, and then it
is started over memory that was given back (`start_over_freed_memory`).
-/
namespace AudioBringup

open Procedure Arena

namespace Streams

variable {n : Nat} {config : Config} {scratch : List Region} {s : Streams} {c : Controller} {w w' : Arena} {g : Region}
  {waveform : Array Byte} {topology : Topology}

/-! ### Having the memory -/

/-- Fresh regions: had on top of `held`, apart from all else, and with nothing in them. -/
structure Fresh (w : Arena) (new held : List Region) (w' : Arena) : Prop where
  lawful : w'.Lawful
  holds : w'.Holds (new ++ held)
  retains : w.Retains w'
  live : ∀ g ∈ w.live, g ∈ w'.live
  blank : ∀ g ∈ new, w'.BlankFrom 0 g

/-- A region that is had and cleared is fresh for what follows. -/
theorem zeroed_andThen {σ α : Type} {t : σ} {k : Nat} {held : List Region} {f : Region → Procedure σ α}
    {ok : α → σ → Arena → Prop} (hw : w.Lawful) (hheld : w.Holds held)
    (hf : ∀ g w', k ≤ g.length → Fresh w [g] held w' → Ensures Arena.world n (f g) t w' (.unlessFails ok)) :
    Ensures Arena.world n (do
      let g ← Procedure.allocate k
      g.zero
      f g) t w (.unlessFails ok) := by
  refine ensures_bind.2 (ensures_allocate.2 ?_)
  rintro (error | g) w₁ hw₁
  · trivial
  · obtain ⟨hgranted, hlive, hwritten, hretains⟩ := hw₁
    refine ensures_bind.2 ((ensures_request (n := n)).2 ?_)
    rintro _ _ rfl
    refine hf g _ hgranted.long ⟨hw.allocate hgranted hlive, hheld.allocate hlive, ?_, fun g' hg' => ?_, fun g' hg' => ?_⟩
    · exact retains_of_apart hgranted.apart (fun p hp => storeZeros_of_disjoint hp) hretains
    · change g' ∈ w₁.live
      rw [hlive]
      exact List.mem_cons_of_mem g hg'
    · obtain rfl := List.mem_singleton.1 hg'
      exact fun i _ hi => storeZeros_at hi

theorem Fresh.trans {w₁ w₂ : Arena} {new new' held : List Region} (h₁ : Fresh w new held w₁)
    (h₂ : Fresh w₁ new' (new ++ held) w₂) : Fresh w (new' ++ new) held w₂ := by
  refine ⟨h₂.lawful, ?_, h₁.retains.trans h₁.live h₂.retains, fun g hg => h₂.live g (h₁.live g hg), fun g hg => ?_⟩
  · rw [List.append_assoc]
    exact h₂.holds
  · rcases List.mem_append.1 hg with hg | hg
    · exact h₂.blank g hg
    · exact (h₁.blank g hg).retains h₂.retains (h₁.holds.mem (List.mem_append_left _ hg))

theorem allocateEngines_fresh {σ : Type} {t : σ} {streamClass : StreamClass} : ∀ {count index descriptor : Nat}
    {held : List Region} {w : Arena}, w.Lawful → w.Holds held →
    Ensures Arena.world n (allocateEngines streamClass index descriptor count) t w
      (.unlessFails fun engines t' w' => t' = t ∧ Fresh w (engines.map StreamEngine.list) held w' ∧
        ∀ e ∈ engines, BufferList.length ≤ e.list.length ∧ e.descriptor < descriptor + count)
  | 0, _, _, _, w, hw, hheld => ⟨rfl, ⟨hw, hheld, fun _ _ _ _ => rfl, fun _ => id, nofun⟩, nofun⟩
  | count + 1, index, descriptor, held, w, hw, hheld => by
    refine zeroed_andThen hw hheld fun list w₁ hlong hfresh => ?_
    refine ensures_bind.2 ((allocateEngines_fresh hfresh.lawful hfresh.holds).mono ?_ (fun _ _ _ _ => trivial)
      (fun _ => id) fun _ _ => trivial)
    rintro rest _ w₂ ⟨rfl, hrest, hengines⟩
    have hall := hfresh.trans hrest
    have hperm : (rest.map StreamEngine.list ++ [list]).Perm (list :: rest.map StreamEngine.list) := List.perm_append_singleton _ _
    refine ⟨rfl, ⟨hall.lawful, hall.holds.perm (hperm.append_right held), hall.retains, hall.live, fun g hg => ?_⟩, ?_⟩
    · exact hall.blank g (hperm.mem_iff.2 hg)
    · refine List.forall_mem_cons.2 ⟨⟨hlong, Nat.lt_add_of_pos_right (Nat.succ_pos count)⟩, fun e he => ?_⟩
      obtain ⟨hlong, hlow⟩ := hengines e he
      exact ⟨hlong, by omega⟩

theorem allocateEngines_andThen {σ α : Type} {t : σ} {streamClass : StreamClass} {count descriptor : Nat}
    {held new : List Region} {f : List StreamEngine → Procedure σ α} {ok : α → σ → Arena → Prop} {w₀ : Arena}
    (hw : Fresh w₀ new held w)
    (hf : ∀ engines w', Fresh w₀ (engines.map StreamEngine.list ++ new) held w' →
      (∀ e ∈ engines, BufferList.length ≤ e.list.length ∧ e.descriptor < descriptor + count) →
      Ensures Arena.world n (f engines) t w' (.unlessFails ok)) :
    Ensures Arena.world n (allocateEngines streamClass 0 descriptor count >>= f) t w (.unlessFails ok) := by
  refine ensures_bind.2 ((allocateEngines_fresh hw.lawful hw.holds).mono ?_ (fun _ _ _ _ => trivial) (fun _ => id)
    fun _ _ => trivial)
  rintro engines _ w' ⟨rfl, hfresh, hengines⟩
  exact hf engines w' (hw.trans hfresh) hengines

/-- The regions in the order they were had, against the order they are given back in. -/
theorem regions_perm {input output bidirectional : List StreamEngine} {positions : Region} :
    ([positions] ++ (bidirectional.map StreamEngine.list ++ (output.map StreamEngine.list ++
      (input.map StreamEngine.list ++ []))) ++ scratch).Perm
      (scratch ++ regions { input, output, bidirectional, positions }) := by
  change List.Perm _ (scratch ++ ([] ++ (input.reverse ++ output.reverse ++ bidirectional.reverse).map StreamEngine.list ++
    [positions]))
  rw [List.perm_iff_count]
  intro g
  simp only [List.nil_append, List.map_append, List.map_reverse, List.append_nil, List.count_append, List.count_reverse]
  omega

theorem fresh_steady {input output bidirectional : List StreamEngine} {positions : Region} {w₀ : Arena} {b : Nat}
    (h : Fresh w₀ ([positions] ++ (bidirectional.map StreamEngine.list ++ (output.map StreamEngine.list ++
      (input.map StreamEngine.list ++ [])))) scratch w) (houtput : ∀ e ∈ output, BufferList.length ≤ e.list.length ∧ e.descriptor < b) (hb : b ≤ 64) :
    Steady config scratch { input, output, bidirectional, positions } w where
  lawful := h.lawful
  holds := h.holds.perm regions_perm
  long e he := (houtput e he).1
  low e he := Nat.lt_of_lt_of_le (houtput e he).2 hb
  blank e he := by
    have hmem : e.list ∈ output.map StreamEngine.list := List.mem_map_of_mem (List.mem_of_getElem? he)
    have hblank := h.blank e.list
      (List.mem_append_right _ (List.mem_append_right _ (List.mem_append_left _ hmem)))
    exact fun k _ hk => hblank k (by omega) hk
  chosen := nofun
  loaded := nofun

/-- **Streams that were allocated** have all their memory, and nothing in their lists. -/
theorem allocate_steady (hw : w.Lawful) (hheld : w.Holds scratch) :
    Ensures Arena.world n Streams.allocate c w
      (.unlessFails fun s c' w' => c' = c ∧ Steady config scratch s w' ∧ s.sample = none ∧ s.programmed = none) := by
  unfold Streams.allocate Controller.capabilities
  refine ensures_bind.2 (ensures_bind.2 (ensures_bind.2 (ensures_read.2 ?_)))
  rintro (error | caps) _ rfl
  · trivial
  · refine (ensures_bind (n := n)).2 (ensures_note.2 ?_)
    rintro w rfl
    have hnil : Fresh w [] scratch w := ⟨hw, hheld, fun _ _ _ _ => rfl, fun _ => id, nofun⟩
    refine allocateEngines_andThen hnil fun input w₁ h₁ _ => ?_
    refine allocateEngines_andThen h₁ fun output w₂ h₂ houtput => ?_
    refine allocateEngines_andThen h₂ fun bidirectional w₃ h₃ _ => ?_
    refine zeroed_andThen h₃.lawful h₃.holds fun positions w₄ _ h₄ => ?_
    have hstreams : (GlobalCaps.mk (caps.setWidth 16)).inputStreams + (GlobalCaps.mk (caps.setWidth 16)).outputStreams ≤ 64 := by
      have hinput := (Bits.field (caps.setWidth 16) 8 4).isLt
      have houtput := (Bits.field (caps.setWidth 16) 12 4).isLt
      simp only [GlobalCaps.inputStreams, GlobalCaps.outputStreams]
      omega
    have hsteady : Steady config scratch { input, output, bidirectional, positions } w₄ :=
      fresh_steady (h₃.trans h₄) houtput hstreams
    refine (ensures_bind (n := n)).2 (ensures_bind.2 (ensures_write.2 ?_))
    rintro (error | ⟨⟩) w₅ hw₅
    · trivial
    · obtain rfl := hw₅
      refine (ensures_write (n := n)).2 ?_
      rintro (error | ⟨⟩) w₆ hw₆
      · trivial
      · obtain rfl := hw₆
        refine (ensures_bind (n := n)).2 (ensures_note.2 ?_)
        rintro _ rfl
        exact ⟨rfl, (hsteady.of_written rfl _).of_written rfl _, rfl, rfl⟩

/-! ### Sessions -/

/-- One thing that is done with the streams once they are there. -/
inductive Deed
  | program (topology : Topology) (waveform : Array Byte)
  | start
  | command (c : Command)

/-- Does one thing, whether it fails or not. -/
def Deed.perform : Deed → Procedure (Controller × Streams) Unit
  | .program topology waveform => do let _ ← attempt (Streams.program topology waveform)
  | .start => do
    let streams := (← get).2
    let _ ← attempt (onController streams.start)
  | .command c => do let _ ← attempt (onController (Controller.command c))

def performAll : List Deed → Procedure (Controller × Streams) Unit
  | [] => return ()
  | deed :: rest => do
    deed.perform
    performAll rest

/-- Allocates the streams and does several things with them; the controller and the streams after that. -/
def session (deeds : List Deed) : Procedure Controller (Controller × Streams) := do
  let streams ← Streams.allocate
  let controller ← get
  let (_, t) ← within (controller, streams) (performAll deeds)
  return t

theorem settled_onController {α : Type} {t : Controller × Streams} {x : Procedure Controller α}
    (hx : Keeps Arena.world (Controller.Roomy config scratch) (w.Undisturbed scratch) x) (h : Settled config scratch t w) :
    Ensures Arena.world n (onController x) t w (throughout (Settled config scratch)) := by
  refine ensures_bind.2 (ensures_get.2 (ensures_on.2 ?_))
  refine (hx n t.1 w h.1 .refl).mono ?_ ?_ (fun _ => id) fun _ => id
  · exact fun _ _ _ hw => ⟨hw.1, h.2.undisturbed hw.2⟩
  · exact fun _ _ _ hw => ⟨hw.1, h.2.undisturbed hw.2⟩

theorem attempt_settled {α : Type} {t : Controller × Streams} {x : Procedure (Controller × Streams) α}
    (hx : Ensures Arena.world n x t w (throughout (Settled config scratch))) :
    Ensures Arena.world n (do let _ ← attempt x) t w (throughout (Settled config scratch)) :=
  ensures_bind.2 (ensures_attempt.2 (hx.mono (fun _ _ _ => id) (fun _ _ _ => id) (fun _ => id) fun _ => id))

theorem Steady.programmed_low (h : Steady config scratch s w) {e : StreamEngine} (he : s.programmedEngine = some e) :
    e.descriptor < 64 := by
  obtain ⟨i, -, hi⟩ := Option.bind_eq_some_iff.1 he
  exact h.low e (List.mem_of_getElem? hi)

theorem perform_settled {t : Controller × Streams} (deed : Deed) (h : Settled config scratch t w) :
    Ensures Arena.world n deed.perform t w (throughout (Settled config scratch)) := by
  have hlight : ∀ c, Light scratch c → Closed Arena.world (w.Undisturbed scratch) c := fun _ => closed_of_light
  cases deed with
  | program topology waveform =>
    refine attempt_settled ((program_attempted h.1 h.2).mono (fun _ _ _ h => h.1) (fun _ _ _ => id) (fun _ => id)
      fun _ => id)
  | start =>
    refine ensures_bind.2 (ensures_get.2 (attempt_settled (settled_onController ?_ h)))
    exact start_keeps hlight fun e he => h.2.programmed_low he
  | command c => exact attempt_settled (settled_onController (Controller.command_keeps hlight c) h)

theorem performAll_settled : ∀ (deeds : List Deed) {t : Controller × Streams} {w : Arena}, Settled config scratch t w →
    Ensures Arena.world n (performAll deeds) t w (throughout (Settled config scratch))
  | [], _, _, h => h
  | deed :: rest, _, _, h =>
    throughout_andThen (perform_settled deed h) (fun _ _ => id) fun _ _ _ h => performAll_settled rest h

theorem session_settled (deeds : List Deed) (hw : w.Lawful) (hc : c.Roomy config scratch) (hheld : w.Holds scratch) :
    Ensures Arena.world n (session deeds) c w (.unlessFails fun t _ w' => Settled config scratch t w') := by
  have hallocate : Ensures Arena.world n Streams.allocate c w
      (.unlessFails fun s c' w' => c' = c ∧ Steady config scratch s w' ∧ s.sample = none ∧ s.programmed = none) :=
    allocate_steady hw hheld
  refine ensures_bind.2 (hallocate.mono ?_ (fun _ _ _ => id) (fun _ => id) fun _ => id)
  rintro streams _ w' ⟨rfl, hsteady, -, -⟩
  refine (ensures_bind (n := n)).2 (ensures_get.2 (ensures_bind.2 (ensures_within.2 ?_)))
  refine (performAll_settled deeds ⟨hc, hsteady⟩).mono ?_ ?_ (fun _ => id) fun _ => id
  · exact fun _ _ _ h => h
  · exact fun _ _ _ h => h

/-- **The programmed engine plays exactly the waveform.**  Whatever was done with the streams before, and whatever of it
failed: if programming comes to a result, the buffer list cuts the sample buffer into aligned pieces that hold the waveform,
and the descriptor says so.  No access leaves its region, and a shape that was admitted can always be split. -/
theorem program_plays (hw : w.Lawful) (hc : c.Housed w) (deeds : List Deed) (topology : Topology) (waveform : Array Byte) :
    Ensures Arena.world n (do
      let t ← session deeds
      within t (program topology waveform)) c w
      (.unlessFails fun r _ w' => ∀ converters, r.1 = .ok converters → Playing c.config waveform r.2.2 w') ∧
    ∀ address, BufferList.checkShape waveform.size c.config.bdlEntries = .ok () →
      ∃ pieces, BufferList.split address waveform.size c.config.bdlEntries = .ok pieces := by
  obtain ⟨scratch, hroomy, hheld⟩ := hc
  refine ⟨?_, fun address hshape => ⟨_, BufferList.split_of_ok address hshape⟩⟩
  refine ensures_bind.2 ((session_settled deeds hw hroomy hheld).mono ?_ (fun _ _ _ => id) (fun _ => id) fun _ => id)
  rintro ⟨c', s'⟩ _ w' ⟨hc', hs'⟩
  refine ensures_within.2 ((program_attempted hc' hs').mono ?_ ?_ (fun _ => id) fun _ => id)
  · exact fun _ _ _ h _ _ => h.2
  · rintro error _ _ - converters ⟨⟩

/-- A second waveform, longer than the first, and memory that nothing was done with yet. -/
theorem program_plays_untouched : Arena.untouched.Lawful ∧ Controller.Housed { config := {} } Arena.untouched ∧
    Ensures Arena.world 8 (do
      let t ← session [.program {} (Array.replicate 256 0), .start]
      within t (program {} (Array.replicate 300 1))) { config := {} } Arena.untouched
      (.unlessFails fun r _ w' => ∀ converters, r.1 = .ok converters →
        Playing {} (Array.replicate 300 1) r.2.2 w') ∧
    ∀ address, BufferList.checkShape (Array.replicate 300 (1 : Byte)).size 2 = .ok () →
      ∃ pieces, BufferList.split address (Array.replicate 300 (1 : Byte)).size 2 = .ok pieces :=
  ⟨Arena.lawful_untouched, Arena.housed_untouched,
    program_plays Arena.lawful_untouched Arena.housed_untouched [.program {} (Array.replicate 256 0), .start] {}
      (Array.replicate 300 1)⟩

/-! ### Starting -/

/-- A call that sets the programmed engine running finds it pointed into a live sample buffer. -/
def PlaysLive (s : Streams) (call : Call) (w : Arena) : Prop :=
  ∀ e, s.programmedEngine = some e → call.Starts (e.base + Register.sdctl) →
    ∃ g, s.sample = some g ∧ g ∈ w.live ∧ ∀ r ∈ w.records e, r.Inside g

theorem Steady.playsLive (h : Steady config scratch s w) (hg : s.sample = some g) (call : Call) : s.PlaysLive call w := by
  intro e he _
  obtain ⟨hprogrammed, e', waveform, he', hloaded⟩ := h.loaded g hg
  obtain ⟨e'', g', he'', hg', hplays⟩ := h.playing he' hprogrammed hg hloaded
  obtain rfl := Option.some.inj (he.symm.trans he'')
  exact ⟨g', hg', hplays.live, hplays.inside⟩

/-- **An engine is started over live memory** as long as the streams hold a sample buffer, whatever was done with them
before and whatever of it failed. -/
theorem start_plays_live (hw : w.Lawful) (hc : c.Housed w) (deeds : List Deed) :
    Ensures Arena.world n (session deeds) c w (.unlessFails fun t _ w' => t.2.sample ≠ none → ∀ m,
      Ensures (World.watched Arena.world t.2.PlaysLive) m t.2.start t.1 (w', True) (throughout fun _ w => w.2)) := by
  obtain ⟨scratch, hroomy, hheld⟩ := hc
  refine (session_settled deeds hw hroomy hheld).mono ?_ (fun _ _ _ => id) (fun _ => id) fun _ => id
  rintro ⟨c', s'⟩ _ w₀ ⟨hc', hs'⟩ hsample m
  obtain ⟨g, hg⟩ := Option.ne_none_iff_exists'.1 hsample
  have hlight : ∀ call, Light scratch call →
      Closed (World.watched Arena.world s'.PlaysLive) (fun w => w₀.Undisturbed scratch w.1 ∧ w.2) call := by
    rintro call hlight w a w' ⟨hanswer, hheld⟩ ⟨hw, hkept⟩
    have hplays : s'.PlaysLive call w.1 := (hs'.undisturbed hw).playsLive hg call
    exact ⟨closed_of_light hlight _ _ _ hanswer hw, hheld.2 ⟨hkept, hplays⟩⟩
  refine (start_keeps (P := fun _ => True) hlight (fun e he => hs'.programmed_low he) m c' (w₀, True) trivial
    ⟨.refl, trivial⟩).mono ?_ ?_ (fun _ => id) fun _ => id
  · exact fun _ _ _ h => h.2.2
  · exact fun _ _ _ h => h.2.2

theorem start_plays_live_untouched : Arena.untouched.Lawful ∧ Controller.Housed { config := {} } Arena.untouched ∧
    Ensures Arena.world 8 (session [.program {} (Array.replicate 256 0)]) { config := {} } Arena.untouched
      (.unlessFails fun t _ w' => t.2.sample ≠ none → ∀ m,
        Ensures (World.watched Arena.world t.2.PlaysLive) m t.2.start t.1 (w', True) (throughout fun _ w => w.2)) :=
  ⟨Arena.lawful_untouched, Arena.housed_untouched,
    start_plays_live Arena.lawful_untouched Arena.housed_untouched [.program {} (Array.replicate 256 0)]⟩

/-- Without a sample buffer an engine that was programmed is set running all the same. -/
theorem start_without_sample {e : StreamEngine} {m : Nat} (he : s.programmedEngine = some e) (hnone : s.sample = none) :
    ¬Ensures (World.watched Arena.world s.PlaysLive) m s.start c (w, True) (throughout fun _ w => w.2) := by
  intro h
  have hlive : ∀ v w', v.getLsbD 1 = true → ¬s.PlaysLive (.write .word (e.base + Register.sdctl) v) w' := by
    intro v w' hrun hplays
    obtain ⟨g, hg, -⟩ := hplays e he ⟨.word, v, rfl, hrun⟩
    cases hnone.symm.trans hg
  have answered : ∀ {call : Call} {a : call.Answer} {w w' : Arena} {b : Prop}, Arena.world call w a w' →
      World.watched Arena.world s.PlaysLive call (w, b) a (w', b ∧ s.PlaysLive call w) := fun h => ⟨h, Iff.rfl⟩
  unfold start at h
  rw [he, ensures_bind, ensures_get] at h
  have h := ensures_read.1 (ensures_bind.1 (ensures_bind.1 h)) (.ok 0) _ (answered rfl)
  have h := ensures_read.1 (ensures_bind.1 (ensures_bind.1 h)) (.ok 0) _ (answered rfl)
  have h := ensures_write.1 (ensures_bind.1 h) (.ok ()) _ (answered rfl)
  have h := ensures_read.1 (ensures_bind.1 h) (.ok 0) _ (answered rfl)
  have hrun : ∀ r : StreamControl, ((r.withRun true).low.setWidth 32).getLsbD 1 = true := fun r => by
    rw [StreamControl.getLsbD_low, StreamControl.run_withRun]
  cases hsync : c.config.syncStreams with
  | false =>
    dsimp only at h
    rw [hsync] at h
    have h := ensures_write.1 (ensures_bind.1 h) (.ok ()) _ (answered rfl)
    have h := (ensures_note (n := m)).1 h _ (answered rfl)
    exact hlive _ _ (hrun _) h.1.2
  | true =>
    dsimp only at h
    rw [hsync] at h
    have h := ensures_write.1 (ensures_bind.1 h) (.ok ()) _ (answered rfl)
    have h := ensures_write.1 (ensures_bind.1 h) (.ok ()) _ (answered rfl)
    have h := ensures_write.1 (ensures_bind.1 h) (.ok ()) _ (answered rfl)
    have h := (ensures_note (n := m)).1 h _ (answered rfl)
    exact hlive _ _ (hrun _) h.1.1.2

/-- A platform on which nothing fails: a register reads as it was written, and each region comes after the last. -/
def plain : (call : Call) → Arena → call.Answer × Arena
  | .read wd o, w => (.ok (wd.truncate (load32 w.written o.toNat)), w)
  | .write wd o v, w => (.ok (), { w with written := storeLow w.written o.toNat wd.bytes v })
  | .allocate k, w =>
    let place := 0x10000 * (w.live.length + 1)
    let g : Region := { host := place, address := BitVec.ofNat 64 place, length := k, token := 0 }
    if w.Grants k g then (.ok g, { w with live := g :: w.live }) else (.error .outOfResources, w)
  | .free g, w => (.ok (), { w with live := w.live.erase g })
  | .store32 p v, w => ((), { w with memory := storeLow w.memory p 4 v })
  | .store64 p v, w => ((), { w with memory := storeLow w.memory p 8 v })
  | .fill p data, w => ((), { w with memory := storeAll w.memory p data })
  | .clear p count, w => ((), { w with memory := storeZeros w.memory p count })
  | .load32 p, w => (load32 w.memory p, w)
  | .load64 p, w => (load64 w.memory p, w)
  | .candidates, w => (.ok [], w)
  | .identify _, w => (.error .outOfResources, w)
  | .timerExpired, w => (.ok false, w)
  | .bindExclusive _, w | .release, w | .stall _, w | .armTimer _, w | .cancelTimer, w => (.ok (), w)
  | .note _, w => ((), w)

theorem world_plain (call : Call) (w : Arena) : Arena.world call w (plain call w).1 (plain call w).2 := by
  cases call with
  | allocate k =>
    simp only [plain]
    split
    · next hgrants => exact ⟨hgrants, rfl, rfl, fun _ _ _ _ => rfl⟩
    · rfl
  | _ => rfl

/-- Nothing was done yet, and the capabilities read as those of a controller with one output stream and no other. -/
def oneOutput : Arena := { Arena.untouched with written := fun o => if o = 1 then 0x10 else 0 }

/-- The streams were programmed, and hold no sample buffer. -/
def deprived : Ending (Except Error (Controller × Streams) × Controller) → Bool
  | .result (.ok t, _) => t.2.sample.isNone && t.2.programmedEngine.isSome
  | _ => false

/-- Streams without a sample buffer are started all the same, however they came to be without. -/
theorem not_live_of_deprived {deeds : List Deed} (h : deprived ((session deeds n c).run plain w).1 = true) :
    ¬Ensures Arena.world n (session deeds) c w (.unlessFails fun t _ w' => ∀ m,
      Ensures (World.watched Arena.world t.2.PlaysLive) m t.2.start t.1 (w', True) (throughout fun _ w => w.2)) := by
  intro hlive
  have hends := Program.ends_run (I := fun _ => True) (fun call w _ => ⟨world_plain call w, trivial⟩)
    (p := session deeds n c) (w := w) trivial
  have hholds := Program.ensures_iff_ends.1 hlive _ _ hends
  generalize (session deeds n c).run plain w = ended at hholds h
  obtain ⟨(⟨error | t, c⟩ | cause | _), w⟩ := ended
  · cases h
  · obtain ⟨hnone, hsome⟩ := Bool.and_eq_true_iff.1 h
    obtain ⟨e, he⟩ := Option.isSome_iff_exists.1 hsome
    exact start_without_sample he (Option.isNone_iff_eq_none.1 hnone) (hholds n)
  · cases h
  · cases h

/-- **A waveform that is too short, after one that was not, leaves an engine that is started over freed memory**: on a
controller with one output stream, the second attempt to program it gives the sample buffer back and fails, and the engine
can still be started. -/
theorem start_over_freed_memory : oneOutput.Lawful ∧ Controller.Housed { config := {} } oneOutput ∧
    ¬Ensures Arena.world 8
      (session [.program {} (Array.replicate 256 0), .program {} (Array.replicate 100 0)]) { config := {} } oneOutput
      (.unlessFails fun t _ w' => ∀ m,
        Ensures (World.watched Arena.world t.2.PlaysLive) m t.2.start t.1 (w', True) (throughout fun _ w => w.2)) :=
  ⟨⟨List.Pairwise.nil, nofun⟩, ⟨[], ⟨rfl, nofun⟩, [], List.Perm.refl _⟩, not_live_of_deprived (by decide +kernel)⟩

end Streams
end AudioBringup
