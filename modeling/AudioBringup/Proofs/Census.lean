import AudioBringup.Proofs.Survey
/-!
# Proofs.Census — which nodes a walk finds

A node is found if something answers at it and it is named by the root of its codec, or by a node that is found.  The
topology of a walk holds each of them once, by ascending address.
-/
namespace AudioBringup

open Procedure

/-! ### One codec -/

namespace Replies

variable {R : Replies} {codec : BitVec 8} {ids ids' visits : List (BitVec 8)} {id : BitVec 8}

/-- The nodes that answer among some ids, and below those that do. -/
inductive Below (R : Replies) (codec : BitVec 8) (ids : List (BitVec 8)) : BitVec 8 → Prop
  | named {id : BitVec 8} (h : id ∈ ids) (hp : R.Present codec id) : Below R codec ids id
  | child {parent id : BitVec 8} (hparent : Below R codec ids parent) (h : id ∈ (R.nodeAt codec parent).children)
    (hp : R.Present codec id) : Below R codec ids id

theorem Below.mono (h : R.Below codec ids id) (hids : ids ⊆ ids') : R.Below codec ids' id := by
  induction h with
  | named h hp => exact .named (hids h) hp
  | child _ h hp ih => exact .child ih h hp

/-- What is below the children of a node is below the node. -/
theorem Below.ofChildren {parent : BitVec 8} (hparent : R.Below codec ids parent)
    (h : R.Below codec (R.nodeAt codec parent).children id) : R.Below codec ids id := by
  induction h with
  | named h hp => exact .child hparent h hp
  | child _ h hp ih => exact .child ih h hp

theorem Unfolds.subset (h : R.Unfolds codec ids visits) : ids ⊆ visits := by
  induction h with
  | nil => exact List.Subset.refl _
  | absent _ _ ih => exact List.cons_subset_cons _ ih
  | node _ _ _ _ ih => exact List.cons_subset_cons _ fun id hid => List.mem_append_right _ (ih hid)

/-- A preorder goes into every node that is there. -/
theorem Unfolds.descends (h : R.Unfolds codec ids visits) :
    ∀ id ∈ visits, R.Present codec id → (R.nodeAt codec id).children ⊆ visits := by
  induction h with
  | nil => exact fun _ h => (List.not_mem_nil h).elim
  | absent h _ ih =>
    rintro id hid hp
    rcases List.mem_cons.1 hid with rfl | hid
    · exact absurd hp h
    · exact fun j hj => List.mem_cons_of_mem _ (ih id hid hp hj)
  | node _ children _ ihc ihr =>
    rintro id hid hp
    rcases List.mem_cons.1 hid with rfl | hid
    · exact fun j hj => List.mem_cons_of_mem _ (List.mem_append_left _ (children.subset hj))
    · rcases List.mem_append.1 hid with hid | hid
      · exact fun j hj => List.mem_cons_of_mem _ (List.mem_append_left _ (ihc id hid hp hj))
      · exact fun j hj => List.mem_cons_of_mem _ (List.mem_append_right _ (ihr id hid hp hj))

theorem Unfolds.sound (h : R.Unfolds codec ids visits) : ∀ id ∈ visits, R.Present codec id → R.Below codec ids id := by
  induction h with
  | nil => exact fun _ h => (List.not_mem_nil h).elim
  | absent h _ ih =>
    rintro id hid hp
    rcases List.mem_cons.1 hid with rfl | hid
    · exact absurd hp h
    · exact (ih id hid hp).mono (List.subset_cons_self _ _)
  | @node parent ids _ _ hparent _ _ ihc ihr =>
    rintro id hid hp
    rcases List.mem_cons.1 hid with rfl | hid
    · exact .named List.mem_cons_self hp
    · rcases List.mem_append.1 hid with hid | hid
      · exact Below.ofChildren (.named List.mem_cons_self hparent) (ihc id hid hp)
      · exact (ihr id hid hp).mono (List.subset_cons_self _ _)

/-- **A finite preorder visits exactly the nodes below.** -/
theorem Unfolds.mem_iff (h : R.Unfolds codec ids visits) :
    id ∈ visits ∧ R.Present codec id ↔ R.Below codec ids id := by
  refine ⟨fun ⟨hid, hp⟩ => h.sound id hid hp, fun hbelow => ?_⟩
  induction hbelow with
  | named hid hp => exact ⟨h.subset hid, hp⟩
  | child _ hid hp ih => exact ⟨h.descends _ ih.1 ih.2 hid, hp⟩

theorem mem_table {n : Node} : (id, n) ∈ R.table codec visits ↔ (id ∈ visits ∧ R.Present codec id) ∧ n = R.nodeAt codec id := by
  simp only [table, pick, List.mem_map, List.mem_filter, Bool.and_eq_true, decide_eq_true_eq, Prod.mk.injEq]
  constructor
  · rintro ⟨j, ⟨-, hj⟩, rfl, rfl⟩
    exact ⟨hj, rfl⟩
  · rintro ⟨hid, rfl⟩
    exact ⟨id, ⟨mem_allIds id, hid⟩, rfl, rfl⟩

theorem table_ascends (R : Replies) (codec : BitVec 8) (visits : List (BitVec 8)) :
    ((R.table codec visits).map (·.1)).Pairwise (· < ·) := by
  rw [table, pick, List.map_map, List.pairwise_map]
  exact allIds_ascend.filter _

end Replies

/-! ### All of them -/

namespace NodeAddr

/-- Strictly before another. -/
def Before (a b : NodeAddr) : Prop := a.le b = true ∧ a ≠ b

theorem before_of_codec {a b : NodeAddr} (h : a.codec < b.codec) : a.Before b := by
  refine ⟨by simp [le, h], ?_⟩
  rintro rfl
  exact BitVec.lt_irrefl _ h

theorem before_of_node {codec i j : BitVec 8} (h : i < j) : Before ⟨codec, i⟩ ⟨codec, j⟩ := by
  refine ⟨by simp [le, BitVec.le_of_lt h], ?_⟩
  intro heq
  cases heq
  exact BitVec.lt_irrefl _ h

end NodeAddr

namespace Replies

/-- A node that is below the root of its codec, which answers. -/
def Found (R : Replies) (addr : NodeAddr) : Prop :=
  R.Answers addr.codec ∧ R.Below addr.codec (R.roots addr.codec) addr.node

end Replies

namespace Topology

/-- The addresses of all nodes below the roots. -/
def nodeAddrs (t : Topology) : List NodeAddr := t.codecs.flatMap fun c => c.nodes.map fun n => ⟨c.address, n.1⟩

theorem nodeCount_eq (t : Topology) : t.nodeCount = t.nodeAddrs.length := by
  have hfold : ∀ (codecs : List Codec) (count : Nat), codecs.foldl (fun count codec => count + codec.nodes.length) count =
      count + (codecs.flatMap fun c => c.nodes.map fun n => (⟨c.address, n.1⟩ : NodeAddr)).length := by
    intro codecs
    induction codecs with
    | nil => exact fun count => rfl
    | cons codec codecs ih =>
      intro count
      rw [List.foldl_cons, ih, List.flatMap_cons, List.length_append, List.length_map, Nat.add_assoc]
  exact (hfold t.codecs 0).trans (Nat.zero_add _)

/-- What a topology is to hold: every node that is found, each once and by ascending address. -/
structure Surveys (R : Replies) (addresses : List (BitVec 8)) (t : Topology) : Prop where
  ascending : t.nodeAddrs.Pairwise NodeAddr.Before
  mem_iff : ∀ addr, addr ∈ t.nodeAddrs ↔ addr.codec ∈ addresses ∧ R.Found addr
  outputs : t.audioOutputs = t.nodeAddrs.filter fun addr => (R.nodeAt addr.codec addr.node).isAudioOutput

end Topology

namespace Replies

variable {R : Replies} {addresses : List (BitVec 8)} {tour : List (BitVec 8 × List (BitVec 8))} {most : Nat} {t : Topology}

/-- **A walk finds every node below the roots that answer, each once and by ascending address.** -/
theorem surveys_of_tour (haddresses : addresses.Pairwise (· < ·)) (htour : tour.map (·.1) = addresses)
    (hexplored : ∀ s ∈ tour, R.Explored s.1 most s.2)
    (hcodecs : t.codecs = (tour.filter fun s => R.Answers s.1).map (fun s => R.codecAt s.1 s.2)) :
    t.Surveys R addresses := by
  have hcodec : ∀ {c}, c ∈ t.codecs → ∃ s ∈ tour, R.Answers s.1 ∧ c = R.codecAt s.1 s.2 := fun hc => by
    rw [hcodecs, List.mem_map] at hc
    obtain ⟨s, hs, rfl⟩ := hc
    obtain ⟨hs, ha⟩ := List.mem_filter.1 hs
    exact ⟨s, hs, of_decide_eq_true ha, rfl⟩
  refine ⟨?_, fun addr => ?_, ?_⟩
  · refine List.pairwise_flatMap.2 ⟨fun c hc => ?_, ?_⟩
    · obtain ⟨s, -, -, rfl⟩ := hcodec hc
      have hascend := table_ascends R s.1 s.2
      rw [List.pairwise_map] at hascend ⊢
      exact hascend.imp NodeAddr.before_of_node
    · rw [hcodecs, List.pairwise_map]
      have hascend : tour.Pairwise fun s s' => s.1 < s'.1 := List.pairwise_map.1 (htour ▸ haddresses)
      refine (hascend.filter _).imp fun hlt a ha b hb => ?_
      obtain ⟨_, -, rfl⟩ := List.mem_map.1 ha
      obtain ⟨_, -, rfl⟩ := List.mem_map.1 hb
      exact NodeAddr.before_of_codec hlt
  · simp only [Topology.nodeAddrs, List.mem_flatMap, List.mem_map]
    constructor
    · rintro ⟨c, hc, ⟨id, node⟩, hn, rfl⟩
      obtain ⟨s, hs, ha, rfl⟩ := hcodec hc
      refine ⟨htour ▸ List.mem_map_of_mem hs, ha, ?_⟩
      exact (hexplored s hs ha).1.mem_iff.1 (mem_table.1 hn).1
    · rintro ⟨hmem, ha, hbelow⟩
      rw [← htour, List.mem_map] at hmem
      obtain ⟨s, hs, hs'⟩ := hmem
      rw [← hs'] at ha hbelow
      refine ⟨R.codecAt s.1 s.2, ?_, (addr.node, R.nodeAt s.1 addr.node), ?_, ?_⟩
      · rw [hcodecs]
        exact List.mem_map_of_mem (List.mem_filter.2 ⟨hs, decide_eq_true ha⟩)
      · exact mem_table.2 ⟨(hexplored s hs ha).1.mem_iff.2 hbelow, rfl⟩
      · exact congrArg (NodeAddr.mk · addr.node) hs'
  · rw [Topology.audioOutputs, Topology.nodeAddrs, List.filter_flatMap, List.flatMap_def, List.flatMap_def]
    refine congrArg List.flatten (List.map_congr_left fun c hc => ?_)
    obtain ⟨s, -, -, rfl⟩ := hcodec hc
    rw [List.filter_map]
    refine congrArg _ (List.filter_congr fun n hn => ?_)
    rw [Function.comp_apply]
    exact congrArg Node.isAudioOutput (mem_table.1 hn).2

end Replies
/-! ### The walk -/

/-- **Codecs that are finite trees, and small enough, are walked to the end.** -/
theorem Courier.walk_at {ω : Type} {W : World Call Call.Answer ω} {n : Nat} {R : Replies} {carries : BitVec 32 → Prop}
    {D : Courier W n R carries} {c₀ c : Controller} {words : List (BitVec 32)} {w : ω}
    (hreaches : ∀ a ∈ c₀.codecAddresses, Reaches carries a)
    (htrees : ∀ a ∈ c₀.codecAddresses, R.Answers a →
      ∃ visits, R.Unfolds a (R.roots a) visits ∧ visits.length ≤ c₀.config.maxWalkVisits)
    (h : D.At c₀ words c w) : Ensures W n Topology.walk c w (.succeeds fun t c' w' =>
      t.Surveys R c₀.codecAddresses ∧ ∃ words', D.At c₀ words' c' w') := by
  have haddresses : c.codecAddresses = c₀.codecAddresses := by
    obtain ⟨t, rfl, -⟩ := h
    rfl
  refine ensures_get_bind.2 (ensures_bind.2 ?_)
  rw [haddresses]
  refine (walkAll_at hreaches h).mono ?_ ?_ (fun _ h => h) (fun _ h => h)
  · rintro codecs c' w' ⟨tour, htour, hexplored, rfl, h⟩
    exact ⟨Replies.surveys_of_tour c₀.codecAddresses_ascend htour hexplored rfl, _, h⟩
  · rintro e c' w' ⟨tour, a, visits, rest, htour, -, ha, hbegins, hlen, rfl, h⟩
    have hmem : a ∈ c₀.codecAddresses := htour ▸ List.mem_append_right _ List.mem_cons_self
    obtain ⟨visits', hunfolds, hle⟩ := htrees a hmem ha
    have hprefix := (hbegins.isPrefix hunfolds).length_le
    omega

end AudioBringup
