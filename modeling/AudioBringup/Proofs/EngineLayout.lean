import AudioBringup.Proofs.Reprogramming
/-!
# Proofs.EngineLayout — registers and memory of their own for every engine

One counter runs through the three classes of engines, so that their descriptors are the numbers up to how many there are
(`LaidOut.descriptors`), and never more than sixty-one.  From that follow the place of each engine's registers and of its
slot in the position buffer, and the memory is asked for engine by engine and cleared at once (`allocate_arranges`).
-/
namespace AudioBringup

open Procedure History

/-! ### What memory holds -/

/-- The bytes a call may leave where there were those of `m`: an allocator leaves anything in what it hands out. -/
def Made.Leaves : Made → (Nat → Byte) → (Nat → Byte) → Prop
  | ⟨.allocate _, .ok g⟩, m, m' => ∀ q, q < g.host ∨ g.host + g.length ≤ q → m' q = m q
  | ⟨.store32 p v, _⟩, m, m' => m' = storeLow m p 4 v
  | ⟨.store64 p v, _⟩, m, m' => m' = storeLow m p 8 v
  | ⟨.fill p data, _⟩, m, m' => m' = storeAll m p data
  | ⟨.clear p k, _⟩, m, m' => m' = storeZeros m p k
  | _, m, m' => m' = m

namespace History

/-- The bytes several calls may leave where there were those of `m`. -/
def Leaves : History → (Nat → Byte) → (Nat → Byte) → Prop
  | [], m, m' => m' = m
  | made :: h, m, m' => ∃ m₁, Leaves h m m₁ ∧ made.Leaves m₁ m'

/-- Every region that was had and what it was asked for, in the order of the calls. -/
def grants (h : History) : List (Nat × Region) := h.reverse.filterMap fun
  | ⟨.allocate k, .ok g⟩ => some (k, g)
  | _ => none

/-- The regions of `l` were had, each by a call of its own for as much as `l` says, and are all zero, whatever was in them
before. -/
structure Supplied (l : List (Nat × Region)) (new : History) : Prop where
  grants : new.grants = l
  zero : ∀ m m', new.Leaves m m' → ∀ p ∈ l, ∀ i < p.2.length, m' (p.2.host + i) = 0

variable {h h' new : History} {l : List (Nat × Region)} {k : Nat} {g : Region}

theorem Supplied.nil : Supplied [] [] := ⟨rfl, fun _ _ _ => List.forall_mem_nil _⟩

theorem map_snd_grants (h : History) : h.grants.map Prod.snd = h.allocated.reverse := by
  unfold grants allocated
  rw [List.map_filterMap, List.filterMap_reverse]
  congr 2
  funext ⟨c, a⟩
  cases c with
  | allocate k => cases a <;> rfl
  | _ => rfl

theorem grants_cons {m : Made} : grants (m :: h) = h.grants ++ grants [m] := by
  simp [grants]

/-- **A region that is cleared when it is had** is all zero, and so is what has been before, wherever it lies. -/
theorem Supplied.clear {a : Unit} (hnew : Supplied l new) :
    Supplied (l ++ [(k, g)]) (⟨.clear g.host g.length, a⟩ :: ⟨.allocate k, Except.ok g⟩ :: new) := by
  constructor
  · rw [grants_cons, grants_cons, hnew.grants]
    simp [History.grants]
  · rintro m m' ⟨m₂, ⟨m₁, hleaves, hgot⟩, rfl⟩ p hp i hi
    by_cases hin : g.host ≤ p.2.host + i ∧ p.2.host + i < g.host + g.length
    · exact if_pos hin
    · rcases List.mem_append.1 hp with hp | hp
      · rw [storeZeros_of_disjoint (by omega), hgot _ (by omega)]
        exact hnew.zero m m₁ hleaves p hp i hi
      · obtain rfl := List.mem_singleton.1 hp
        have hi : i < g.length := hi
        exact absurd ⟨Nat.le_add_right _ _, Nat.add_lt_add_left hi _⟩ hin

/-- A call that neither has memory nor writes to it. -/
def Dry : Call → Prop
  | .read .. | .write .. | .note _ => True
  | _ => False

theorem Supplied.dry {c : Call} {a : c.Answer} (hc : Dry c) (hnew : Supplied l new) : Supplied l (⟨c, a⟩ :: new) := by
  constructor
  · rw [grants_cons, hnew.grants]
    cases c <;> first | exact List.append_nil l | exact hc.elim
  · rintro m m' ⟨m₁, hleaves, hlast⟩
    have hsame : m' = m₁ := by
      cases c <;> first | exact hlast | exact hc.elim
    rw [hsame]
    exact hnew.zero m m₁ hleaves

end History

namespace Streams

variable {σ : Type} {n : Nat} {s : σ} {c : Controller} {h h₁ : History} {l : List (Nat × Region)} {caps : GlobalCaps}
  {streams : Streams} {new : History}

/-! ### Numbers -/

/-- Every engine, class by class. -/
def allEngines (s : Streams) : List StreamEngine := s.input ++ s.output ++ s.bidirectional

/-- So many engines of a class, numbered from `index` in the class and from `descriptor` among all. -/
structure Numbered (streamClass : StreamClass) (index descriptor count : Nat) (engines : List StreamEngine) : Prop where
  length : engines.length = count
  numbered : ∀ k e, engines[k]? = some e →
    e.streamClass = streamClass ∧ e.index = index + k ∧ e.descriptor = descriptor + k

theorem Numbered.cons {streamClass : StreamClass} {index descriptor count : Nat} {engines : List StreamEngine}
    {list : Region} (hrest : Numbered streamClass (index + 1) (descriptor + 1) count engines) :
    Numbered streamClass index descriptor (count + 1) ({ streamClass, index, descriptor, list } :: engines) := by
  refine ⟨congrArg (· + 1) hrest.length, ?_⟩
  rintro (_ | k) e he
  · obtain rfl := Option.some.inj he
    exact ⟨rfl, rfl, rfl⟩
  · obtain ⟨hclass, hindex, hdescriptor⟩ := hrest.numbered k e he
    exact ⟨hclass, by omega, by omega⟩

theorem Numbered.descriptors {streamClass : StreamClass} {index descriptor count : Nat} {engines : List StreamEngine}
    (h : Numbered streamClass index descriptor count engines) :
    engines.map StreamEngine.descriptor = List.range' descriptor count := by
  refine List.ext_getElem (by rw [List.length_map, List.length_range', h.length]) fun k hk _ => ?_
  rw [List.getElem_map, List.getElem_range', Nat.one_mul]
  exact (h.numbered k _ (List.getElem?_eq_getElem _)).2.2

theorem allocateEngines_supplied {streamClass : StreamClass} : ∀ {count index descriptor : Nat} {l : List (Nat × Region)}
    {h₁ : History}, Adds (Supplied l) h h₁ → Ensures recording n (allocateEngines streamClass index descriptor count) s h₁
      (.ifDone fun engines _ h' => Numbered streamClass index descriptor count engines ∧
        Adds (Supplied (l ++ engines.map fun e => (BufferList.length, e.list))) h h')
  | 0, _, _, l, _, hl => ⟨⟨rfl, nofun⟩, (List.append_nil l).symm ▸ hl⟩
  | count + 1, index, descriptor, l, _, ⟨new, hnew, hl⟩ => by
    obtain rfl := hnew
    refine ensures_bind.2 (ensures_allocate.2 ?_)
    rintro (e | list) _ rfl
    · trivial
    refine ensures_bind.2 ((ensures_request (n := n)).2 ?_)
    rintro a _ rfl
    refine (allocateEngines_supplied ⟨_ :: _ :: new, rfl, hl.clear⟩).ifDoneThen ?_
    rintro rest s' h' ⟨hnumbered, hrest⟩
    rw [List.append_assoc] at hrest
    exact ⟨hnumbered.cons, hrest⟩

/-! ### The layout -/

/-- The streams of a controller with the capabilities `caps`, as the calls `new` laid them out. -/
structure LaidOut (caps : GlobalCaps) (streams : Streams) (new : History) : Prop where
  input : Numbered .input 0 0 caps.inputStreams streams.input
  output : Numbered .output 0 caps.inputStreams caps.outputStreams streams.output
  bidirectional : Numbered .bidirectional 0 (caps.inputStreams + caps.outputStreams) caps.bidirectionalStreams
    streams.bidirectional
  supplied : Supplied (streams.allEngines.map (fun e => (BufferList.length, e.list)) ++
    [(max caps.totalStreams 1 * positionSlot, streams.positions)]) new

theorem inputStreams_lt (caps : GlobalCaps) : caps.inputStreams < 16 := BitVec.isLt _

theorem outputStreams_lt (caps : GlobalCaps) : caps.outputStreams < 16 := BitVec.isLt _

theorem totalStreams_lt (caps : GlobalCaps) : caps.totalStreams < 62 := by
  have hinput := inputStreams_lt caps
  have houtput := outputStreams_lt caps
  have hbidirectional : caps.bidirectionalStreams < 32 := BitVec.isLt _
  unfold GlobalCaps.totalStreams
  omega

/-- **The descriptors of all engines are the numbers up to how many there are.** -/
theorem LaidOut.descriptors (h : LaidOut caps streams new) :
    streams.allEngines.map StreamEngine.descriptor = List.range caps.totalStreams := by
  rw [allEngines, List.map_append, List.map_append, h.input.descriptors, h.output.descriptors, h.bidirectional.descriptors,
    List.range_eq_range', GlobalCaps.totalStreams, ← List.range'_append_1, ← List.range'_append_1, Nat.zero_add,
    Nat.zero_add]

theorem LaidOut.descriptor_lt (h : LaidOut caps streams new) {e : StreamEngine} (he : e ∈ streams.allEngines) :
    e.descriptor < caps.totalStreams := by
  rw [← List.mem_range, ← h.descriptors]
  exact List.mem_map_of_mem he

/-- The output engines come right after the input engines, and there are fifteen of each at most. -/
theorem LaidOut.output_lt (h : LaidOut caps streams new) {e : StreamEngine} (he : e ∈ streams.output) : e.descriptor < 30 := by
  obtain ⟨k, hk, rfl⟩ := List.mem_iff_getElem.1 he
  have hplace := (h.output.numbered k _ (List.getElem?_eq_getElem hk)).2.2
  have hlength := h.output.length
  have hinput := inputStreams_lt caps
  have houtput := outputStreams_lt caps
  omega

/-- An engine comes before another one whose descriptor is greater. -/
theorem LaidOut.ascending (h : LaidOut caps streams new) :
    streams.allEngines.Pairwise fun e e' => e.descriptor < e'.descriptor := by
  rw [← List.pairwise_map, h.descriptors]
  exact List.pairwise_lt_range

/-- Where an engine's slot in the position buffer begins. -/
def slot (e : StreamEngine) : Nat := e.descriptor * positionSlot

/-- The places the descriptors give the engines: none of them has anything of another one's, and no number that is made
from a descriptor leaves its word. -/
structure OwnPlaces (asked : Nat) (streams : Streams) : Prop where
  /-- the registers of an engine end before those of the next one begin -/
  blocks : streams.allEngines.Pairwise fun e e' => e.base.toNat + Register.streamLength ≤ e'.base.toNat
  /-- and so do their slots in the position buffer -/
  slots : streams.allEngines.Pairwise fun e e' => slot e + positionSlot ≤ slot e'
  within : ∀ e ∈ streams.allEngines, slot e + positionSlot ≤ asked
  /-- where the allocator gave as much as it was asked for, a position is read from the slot, and is no misuse -/
  read : asked ≤ streams.positions.length → ∀ e ∈ streams.allEngines, ∀ σ : Type,
    (streams.position e : Procedure σ (BitVec 32)) = request (.load32 (streams.positions.host + slot e))
  /-- the counter of the descriptors is a byte, and is counted up after each engine -/
  counted : ∀ e ∈ streams.allEngines, e.descriptor + 1 < 2 ^ 8
  /-- the register that streams are started together with has a bit for each output engine -/
  synced : ∀ e ∈ streams.output, e.descriptor < 32

theorem slot_add_le {e : StreamEngine} {k : Nat} (hlt : e.descriptor < k) : slot e + positionSlot ≤ k * positionSlot := by
  rw [slot, ← Nat.succ_mul]
  exact Nat.mul_le_mul_right _ hlt

/-- A position whose slot is in the buffer is read from there. -/
theorem position_eq {e : StreamEngine} (hwithin : slot e + positionSlot ≤ streams.positions.length) :
    (streams.position e : Procedure σ (BitVec 32)) = request (.load32 (streams.positions.host + slot e)) := by
  have hlong : e.descriptor * 8 + 8 ≤ streams.positions.length := hwithin
  unfold position Region.load32 Region.locate
  rw [positionSlot, if_neg (by omega), if_neg (by omega)]
  rfl

/-- **Every engine has places of its own**, as many engines as there may be. -/
theorem LaidOut.ownPlaces (h : LaidOut caps streams new) : OwnPlaces (max caps.totalStreams 1 * positionSlot) streams := by
  have htotal := totalStreams_lt caps
  have hwithin : ∀ e ∈ streams.allEngines, slot e + positionSlot ≤ max caps.totalStreams 1 * positionSlot :=
    fun e he => slot_add_le (Nat.lt_of_lt_of_le (h.descriptor_lt he) (Nat.le_max_left _ _))
  refine ⟨?_, h.ascending.imp slot_add_le, hwithin, fun hlong e he _ => position_eq (Nat.le_trans (hwithin e he) hlong),
    ?_, ?_⟩
  · refine h.ascending.imp_of_mem fun {e e'} he he' hlt => ?_
    have hlow := h.descriptor_lt he
    have hlow' := h.descriptor_lt he'
    rw [StreamEngine.toNat_base (by omega), StreamEngine.toNat_base (by omega), Register.streamLength]
    omega
  · intro e he
    have hlow := h.descriptor_lt he
    omega
  · exact fun e he => Nat.lt_trans (h.output_lt he) (by decide)

/-! ### Allocating -/

theorem allocate_laidOut : Ensures recording n Streams.allocate c h (.ifDone fun streams _ h' => ∃ v : BitVec 32,
    Adds (LaidOut ⟨v.setWidth 16⟩ streams) (⟨.read .word Register.gcap, Except.ok v⟩ :: h) h') := by
  refine ensures_bind.2 (ensures_bind.2 (ensures_bind.2 (ensures_read.2 ?_)))
  rintro (e | v) _ rfl
  · trivial
  refine (ensures_bind (n := n)).2 (ensures_note.2 ?_)
  rintro _ rfl
  have hcounted : ∀ m, Supplied [] [⟨.note m, ()⟩] := fun _ => Supplied.nil.dry trivial
  refine (allocateEngines_supplied ⟨[_], rfl, hcounted _⟩).ifDoneThen ?_
  rintro input _ _ ⟨hinput, hl⟩
  refine (allocateEngines_supplied hl).ifDoneThen ?_
  rintro output _ _ ⟨houtput, hl⟩
  refine (allocateEngines_supplied hl).ifDoneThen ?_
  rintro bidirectional _ _ ⟨hbidirectional, new, rfl, hl⟩
  refine ensures_bind.2 (ensures_allocate.2 ?_)
  rintro (e | positions) _ rfl
  · trivial
  refine ensures_bind.2 ((ensures_request (n := n)).2 ?_)
  rintro a _ rfl
  refine ensures_bind.2 (ensures_bind.2 (ensures_write.2 ?_))
  rintro (e | u) _ rfl
  · trivial
  refine (ensures_write (n := n)).2 ?_
  rintro (e | u') _ rfl
  · trivial
  refine ensures_bind.2 ((ensures_note (n := n)).2 ?_)
  rintro _ rfl
  refine ⟨v, _ :: _ :: _ :: _ :: _ :: new, rfl, hinput, houtput, hbidirectional, ?_⟩
  rw [allEngines, List.map_append, List.map_append]
  exact .dry trivial (.dry trivial (.dry trivial hl.clear))

/-! ### What is kept of the streams -/

/-- The streams as they were allocated. -/
def lasting (s : Streams) : Streams := { s with sample := none, programmed := none }

theorem onController_lasting {α : Type} {x : Procedure Controller α} :
    Confined (fun _ => True) (fun t : Controller × Streams => t.2.lasting) (onController x) :=
  confined_onController confined_anything fun _ _ _ => rfl

theorem program_lasting {topology : Topology} {waveform : Array Byte} :
    Confined (fun _ => True) (fun t : Controller × Streams => t.2.lasting) (program topology waveform) := by
  rw [program_eq]
  refine confined_bind confined_get fun t => ?_
  dsimp only
  cases t.2.output[t.1.config.outputStream]? with
  | none => exact confined_fail _
  | some engine =>
    refine confined_bind (confined_resetEngine (fun _ _ => trivial) (fun _ => trivial) fun _ => trivial) fun _ => ?_
    refine confined_bind (confined_modify fun _ => rfl) fun _ => ?_
    refine confined_bind (confined_dropSample fun _ _ => trivial) fun _ => ?_
    exact confined_load (fun _ _ _ => trivial) (fun _ _ _ _ _ _ _ => trivial) (fun _ _ _ => rfl) onController_lasting

theorem perform_lasting : ∀ deed : Deed,
    Confined (fun _ => True) (fun t : Controller × Streams => t.2.lasting) deed.perform
  | .program _ _ => confined_bind (confined_attempt program_lasting) fun _ => confined_pure _
  | .start =>
    confined_bind confined_get fun _ => confined_bind (confined_attempt onController_lasting) fun _ => confined_pure _
  | .command _ => confined_bind (confined_attempt onController_lasting) fun _ => confined_pure _

theorem performAll_lasting : ∀ deeds : List Deed,
    Confined (fun _ => True) (fun t : Controller × Streams => t.2.lasting) (performAll deeds)
  | [] => confined_pure _
  | deed :: rest => confined_bind (perform_lasting deed) fun _ => performAll_lasting rest

/-- What is known of the streams once they are allocated is known after a session, if no more calls can end it. -/
theorem session_lasting {K : Streams → History → Prop} {c : Controller} {deeds : List Deed}
    (hK : ∀ s post h, K (lasting s) h → K s.lasting (post ++ h))
    (hallocate : Ensures recording n Streams.allocate c h (.ifDone fun s _ h' => K s.lasting h')) :
    Ensures recording n (session deeds) c h (.ifDone fun t _ h' => K t.2.lasting h') := by
  refine hallocate.ifDoneThen ?_
  rintro streams c' h' hstreams
  refine (ensures_bind (n := n)).2 (ensures_get.2 (ensures_bind.2 (ensures_within.2 ?_)))
  refine (performAll_lasting deeds n (c', streams) h').mono ?_ ?_ (fun _ _ => trivial) fun _ _ => trivial
  all_goals
    rintro _ t _ ⟨hlasting, hg⟩
    obtain ⟨new, rfl, -⟩ := hg.adds
    have hlasting : t.2.lasting = streams.lasting := hlasting
    change K t.2.lasting (new ++ h')
    rw [hlasting]
    exact hK streams new h' hstreams

/-- The streams were laid out by the calls on top of `h`, for as many engines as the controller said it has, and have places
of their own. -/
def Arranged (streams : Streams) (h h' : History) : Prop := ∃ (v : BitVec 32) (new : History),
  h' = new ++ ⟨.read .word Register.gcap, Except.ok v⟩ :: h ∧ LaidOut ⟨v.setWidth 16⟩ streams new ∧
    OwnPlaces (max (GlobalCaps.mk (v.setWidth 16)).totalStreams 1 * positionSlot) streams

theorem allocate_arranged :
    Ensures recording n Streams.allocate c h (.ifDone fun streams _ h' => streams.Arranged h h') := by
  refine allocate_laidOut.ifDone ?_
  rintro streams _ _ ⟨v, new, rfl, hlaid⟩
  exact ⟨v, new, rfl, hlaid, hlaid.ownPlaces⟩

theorem laidOut_lasting : LaidOut caps streams.lasting new ↔ LaidOut caps streams new :=
  ⟨fun h => ⟨h.input, h.output, h.bidirectional, h.supplied⟩, fun h => ⟨h.input, h.output, h.bidirectional, h.supplied⟩⟩

theorem arranged_lasting {h' : History} : streams.lasting.Arranged h h' ↔ streams.Arranged h h' := by
  refine exists_congr fun v => exists_congr fun new => and_congr_right fun _ => ⟨fun hboth => ?_, fun hboth => ?_⟩
  · have hlaid := laidOut_lasting.1 hboth.1
    exact ⟨hlaid, hlaid.ownPlaces⟩
  · have hlaid := laidOut_lasting.2 hboth.1
    exact ⟨hlaid, hlaid.ownPlaces⟩

/-- **Every engine has registers and memory of its own**, on every platform and with any numbers of engines, as soon as the
streams are allocated and whatever is done with them then.  An engine that can be programmed has a bit in the register that
streams are started together with. -/
theorem allocate_arranges (n : Nat) (c : Controller) (h : History) :
    Ensures recording n Streams.allocate c h (.ifDone fun streams _ h' => streams.Arranged h h') ∧
    ∀ deeds, Ensures recording n (session deeds) c h (.ifDone fun t _ h' =>
      (∃ h₁, h₁ <:+ h' ∧ t.2.Arranged h h₁) ∧ ∀ e, t.2.programmedEngine = some e → e.descriptor < 32) := by
  refine ⟨allocate_arranged, fun deeds => ?_⟩
  refine (session_lasting (K := fun s h' => ∃ h₁, h₁ <:+ h' ∧ s.Arranged h h₁) ?_
    (allocate_arranged.ifDone fun _ _ h' harranged => ⟨h', List.suffix_rfl, arranged_lasting.2 harranged⟩)).ifDone ?_
  · rintro s post h' ⟨h₁, hsuffix, harranged⟩
    exact ⟨h₁, hsuffix.trans (List.suffix_append _ _), harranged⟩
  · rintro t _ h' ⟨h₁, hsuffix, hlasting⟩
    have harranged : t.2.Arranged h h₁ := arranged_lasting.1 hlasting
    refine ⟨⟨h₁, hsuffix, harranged⟩, fun e he => ?_⟩
    obtain ⟨_, _, -, -, hplaces⟩ := harranged
    obtain ⟨i, -, hi⟩ := Option.bind_eq_some_iff.1 he
    exact hplaces.synced e (List.mem_of_getElem? hi)

/-- Answers of a platform for a controller with two input engines, three output engines and one of both kinds. -/
def sextet : (c : Call) → History → c.Answer
  | .read _ o, _ => .ok (if o = Register.gcap then 0x3208 else 1)
  | c, h => obliging c h

/-- Six engines were allocated, and the position buffer is as long as it was asked for. -/
def isSextet : Ending (Except Error Streams × Controller) × History → Bool
  | (.result (.ok streams, _), _) => streams.allEngines.length == 6 && streams.positions.length == 48
  | _ => false

/-- Six engines, each of which has its position read from its slot. -/
theorem allocate_arranges_sextet : ∃ (streams : Streams) (c : Controller) (h : History),
    Ends recording 1 Streams.allocate { config := {} } [] (.ok streams) c h ∧ streams.Arranged [] h ∧
      streams.allEngines.length = 6 ∧ ∀ e ∈ streams.allEngines, (streams.position e : Procedure Unit (BitVec 32)) =
        request (.load32 (streams.positions.host + slot e)) := by
  have hrun : isSextet ((Streams.allocate 1 { config := {} }).run (askOf sextet) []) = true := by decide +kernel
  have hends := ends_askOf sextet (Streams.allocate 1 { config := {} }) []
  generalize (Streams.allocate 1 { config := {} }).run (askOf sextet) [] = ended at hends hrun
  obtain ⟨(⟨error | streams, c⟩ | cause | _), h⟩ := ended
  · cases hrun
  · simp only [isSextet, Bool.and_eq_true, beq_iff_eq] at hrun
    have harranged : streams.Arranged [] h :=
      Program.ensures_iff_ends.1 (allocate_arranges 1 { config := {} } []).1 _ _ hends
    refine ⟨streams, c, h, hends, harranged, hrun.1, ?_⟩
    obtain ⟨v, new, -, hlaid, hplaces⟩ := harranged
    have htotal : (GlobalCaps.mk (v.setWidth 16)).totalStreams = 6 := by
      rw [← hrun.1, ← List.length_map, hlaid.descriptors, List.length_range]
    rw [htotal] at hplaces
    exact fun e he => hplaces.read (Nat.le_of_eq hrun.2.symm) e he Unit
  · cases hrun
  · cases hrun

end Streams
end AudioBringup
