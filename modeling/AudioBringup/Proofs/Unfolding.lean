import AudioBringup.Codec.Topology
/-!
# Proofs.Unfolding — the tree of visits below the root of a codec

Codecs that answer every command word from the word alone name children below children, perhaps without an end: a node
may be its own descendant, and be named in several places.  `Unfolds` is the preorder of the whole tree where it is
finite, `Begins` an initial part of it where it need not be.
-/
namespace AudioBringup

namespace Node

variable {n : Node} {id : BitVec 8}

theorem mem_children : id ∈ n.children ↔ n.childStart ≤ id.toNat ∧ id.toNat < n.childStart + n.childCount := by
  have hid := id.isLt
  simp only [children, List.mem_map, List.mem_filter, List.mem_range', Nat.one_mul, decide_eq_true_eq]
  constructor
  · rintro ⟨_, ⟨⟨i, hi, rfl⟩, hlt⟩, rfl⟩
    rw [BitVec.toNat_ofNat, Nat.mod_eq_of_lt hlt]
    omega
  · intro h
    exact ⟨id.toNat, ⟨⟨id.toNat - n.childStart, by omega, by omega⟩, hid⟩, by rw [BitVec.ofNat_toNat, BitVec.setWidth_eq]⟩

theorem children_ascend (n : Node) : n.children.Pairwise (· < ·) := by
  unfold children
  rw [List.pairwise_map]
  refine (List.Pairwise.filter _ List.pairwise_lt_range').imp_of_mem fun {a b} ha hb hab => ?_
  simp only [List.mem_filter, decide_eq_true_eq] at ha hb
  rw [BitVec.lt_def, BitVec.toNat_ofNat, BitVec.toNat_ofNat, Nat.mod_eq_of_lt ha.2, Nat.mod_eq_of_lt hb.2]
  exact hab

end Node

/-- What the codecs answer to each command word. -/
abbrev Replies := BitVec 32 → BitVec 32

namespace Replies

variable (R : Replies) (codec : BitVec 8)

/-- The answer for a parameter of a node. -/
def ask (id : BitVec 8) (p : Parameter) : BitVec 32 := R (Command.getParameter codec id p).encode

/-- The node of the answers for all its parameters. -/
def nodeAt (id : BitVec 8) : Node where
  vendorId := R.ask codec id .vendorId
  revisionId := R.ask codec id .revisionId
  nodeCount := R.ask codec id .subordinateNodeCount
  functionGroupType := R.ask codec id .functionGroupType
  audioGroupCaps := R.ask codec id .audioGroupCaps
  audioWidgetCaps := R.ask codec id .audioWidgetCaps
  supportedPcmRates := R.ask codec id .supportedPcmRates
  supportedFormats := R.ask codec id .supportedFormats
  pinCaps := R.ask codec id .pinCaps
  inputAmpCaps := R.ask codec id .inputAmpCaps
  connListLength := R.ask codec id .connListLength
  supportedPowerStates := R.ask codec id .supportedPowerStates
  processingCaps := R.ask codec id .processingCaps
  gpioCount := R.ask codec id .gpioCount
  outputAmpCaps := R.ask codec id .outputAmpCaps
  volumeKnobCaps := R.ask codec id .volumeKnobCaps

/-- Something answers at the id. -/
def Present (id : BitVec 8) : Prop := R.ask codec id .vendorId ≠ Response.timedOut

instance (id : BitVec 8) : Decidable (R.Present codec id) := inferInstanceAs (Decidable (¬ _))

/-- The ids below the root, which are visited first to last with everything below each of them. -/
def roots : List (BitVec 8) := (R.nodeAt codec 0).children

/-! ### The preorder of the tree -/

/-- `visits` is the preorder of everything at and below `ids`, which is finite. -/
inductive Unfolds : (ids visits : List (BitVec 8)) → Prop
  | nil : Unfolds [] []
  | absent {id : BitVec 8} {ids visits : List (BitVec 8)} (h : ¬R.Present codec id) (rest : Unfolds ids visits) :
    Unfolds (id :: ids) (id :: visits)
  | node {id : BitVec 8} {ids below visits : List (BitVec 8)} (h : R.Present codec id)
    (children : Unfolds (R.nodeAt codec id).children below) (rest : Unfolds ids visits) :
    Unfolds (id :: ids) (id :: (below ++ visits))

/-- `visits` is an initial part of the preorder of everything at and below `ids`. -/
inductive Begins : (ids visits : List (BitVec 8)) → Prop
  | nil {ids : List (BitVec 8)} : Begins ids []
  | absent {id : BitVec 8} {ids visits : List (BitVec 8)} (h : ¬R.Present codec id) (rest : Begins ids visits) :
    Begins (id :: ids) (id :: visits)
  | within {id : BitVec 8} {ids below : List (BitVec 8)} (h : R.Present codec id)
    (children : Begins (R.nodeAt codec id).children below) : Begins (id :: ids) (id :: below)
  | past {id : BitVec 8} {ids below visits : List (BitVec 8)} (h : R.Present codec id)
    (children : R.Unfolds codec (R.nodeAt codec id).children below) (rest : Begins ids visits) :
    Begins (id :: ids) (id :: (below ++ visits))

variable {R : Replies} {codec : BitVec 8} {ids ids' visits visits' : List (BitVec 8)}

theorem Unfolds.unique (h : R.Unfolds codec ids visits) : ∀ {visits'}, R.Unfolds codec ids visits' → visits = visits' := by
  induction h with
  | nil => rintro _ ⟨⟩; rfl
  | absent h rest ih =>
    rintro _ (_ | ⟨h', rest'⟩ | ⟨h', children', rest'⟩)
    · rw [ih rest']
    · exact absurd h' h
  | node h children rest ihc ihr =>
    rintro _ (_ | ⟨h', rest'⟩ | ⟨h', children', rest'⟩)
    · exact absurd h h'
    · rw [ihc children', ihr rest']

/-- **An initial part of a finite preorder is a prefix of it**, so a preorder with a longer initial part is longer. -/
theorem Begins.isPrefix (h : R.Begins codec ids visits) : ∀ {visits'}, R.Unfolds codec ids visits' → visits <+: visits' := by
  induction h with
  | nil => exact fun _ => List.nil_prefix
  | absent h rest ih =>
    rintro _ (_ | ⟨h', rest'⟩ | ⟨h', children', rest'⟩)
    · exact List.cons_prefix_cons.2 ⟨rfl, ih rest'⟩
    · exact absurd h' h
  | within h children ih =>
    rintro _ (_ | ⟨h', rest'⟩ | ⟨h', children', rest'⟩)
    · exact absurd h h'
    · exact List.cons_prefix_cons.2 ⟨rfl, (ih children').trans (List.prefix_append _ _)⟩
  | past h children rest ih =>
    rintro _ (_ | ⟨h', rest'⟩ | ⟨h', children', rest'⟩)
    · exact absurd h h'
    · rw [children.unique children']
      exact List.cons_prefix_cons.2 ⟨rfl, List.prefix_append_right_inj _ |>.2 (ih rest')⟩

/-! ### From the list of what is still to visit to the tree -/

theorem Unfolds.split : ∀ {ids visits : List (BitVec 8)}, R.Unfolds codec (ids ++ ids') visits →
    ∃ before after, visits = before ++ after ∧ R.Unfolds codec ids before ∧ R.Unfolds codec ids' after
  | [], visits, h => ⟨[], visits, rfl, .nil, h⟩
  | id :: ids, _, .absent h rest => by
    obtain ⟨before, after, rfl, hbefore, hafter⟩ := Unfolds.split rest
    exact ⟨id :: before, after, rfl, .absent h hbefore, hafter⟩
  | id :: ids, _, .node h children rest => by
    obtain ⟨before, after, rfl, hbefore, hafter⟩ := Unfolds.split rest
    exact ⟨id :: (_ ++ before), after, by rw [List.cons_append, List.append_assoc], .node h children hbefore, hafter⟩

theorem Begins.split : ∀ {ids visits : List (BitVec 8)}, R.Begins codec (ids ++ ids') visits → R.Begins codec ids visits ∨
    ∃ before after, visits = before ++ after ∧ R.Unfolds codec ids before ∧ R.Begins codec ids' after
  | [], visits, h => .inr ⟨[], visits, rfl, .nil, h⟩
  | _ :: _, _, .nil => .inl .nil
  | id :: ids, _, .absent h rest => by
    rcases Begins.split rest with hb | ⟨before, after, rfl, hbefore, hafter⟩
    · exact .inl (.absent h hb)
    · exact .inr ⟨id :: before, after, rfl, .absent h hbefore, hafter⟩
  | _ :: _, _, .within h children => .inl (.within h children)
  | id :: ids, _, .past h children rest => by
    rcases Begins.split rest with hb | ⟨before, after, rfl, hbefore, hafter⟩
    · exact .inl (.past h children hb)
    · exact .inr ⟨id :: (_ ++ before), after, by rw [List.cons_append, List.append_assoc], .node h children hbefore, hafter⟩

/-- Putting a node's children before the rest of what is to be visited is visiting them below the node. -/
theorem Unfolds.ofChildren {id : BitVec 8} (hp : R.Present codec id)
    (h : R.Unfolds codec ((R.nodeAt codec id).children ++ ids) visits) : R.Unfolds codec (id :: ids) (id :: visits) := by
  obtain ⟨below, after, rfl, hbelow, hafter⟩ := h.split
  exact .node hp hbelow hafter

theorem Begins.ofChildren {id : BitVec 8} (hp : R.Present codec id)
    (h : R.Begins codec ((R.nodeAt codec id).children ++ ids) visits) : R.Begins codec (id :: ids) (id :: visits) := by
  rcases h.split with hb | ⟨below, after, rfl, hbelow, hafter⟩
  · exact .within hp hb
  · exact .past hp hbelow hafter

/-! ### What is found on the way -/

/-- Every id, ascending. -/
def allIds : List (BitVec 8) := (List.range 256).map (BitVec.ofNat 8)

theorem mem_allIds (id : BitVec 8) : id ∈ allIds :=
  List.mem_map.2 ⟨id.toNat, List.mem_range.2 id.isLt, by rw [BitVec.ofNat_toNat, BitVec.setWidth_eq]⟩

theorem allIds_ascend : allIds.Pairwise (· < ·) := by
  unfold allIds
  rw [List.pairwise_map]
  refine List.pairwise_lt_range.imp_of_mem fun {a b} ha hb hab => ?_
  rw [List.mem_range] at ha hb
  rw [BitVec.lt_def, BitVec.toNat_ofNat, BitVec.toNat_ofNat, Nat.mod_eq_of_lt ha, Nat.mod_eq_of_lt hb]
  exact hab

/-- The nodes at those of some ids that are wanted, in their order. -/
def pick (f : BitVec 8 → Node) (wanted : BitVec 8 → Bool) (ids : List (BitVec 8)) : NodeTable :=
  (ids.filter wanted).map fun id => (id, f id)

theorem insert_pick_of_lt (f : BitVec 8 → Node) (wanted : BitVec 8 → Bool) (node : Node) {id : BitVec 8} :
    ∀ {ids : List (BitVec 8)}, (∀ j ∈ ids, id < j) →
      NodeTable.insert id node (pick f wanted ids) = (id, node) :: pick f wanted ids
  | [], _ => rfl
  | j :: ids, h => by
    by_cases hw : wanted j = true
    · rw [pick, List.filter_cons_of_pos hw, List.map_cons, NodeTable.insert, if_pos (h j List.mem_cons_self)]
    · have := insert_pick_of_lt f wanted node fun k hk => h k (List.mem_cons_of_mem j hk)
      rwa [pick, List.filter_cons_of_neg hw]

theorem pick_congr (f : BitVec 8 → Node) {wanted wanted' : BitVec 8 → Bool} {ids : List (BitVec 8)}
    (h : ∀ j ∈ ids, wanted j = wanted' j) : pick f wanted ids = pick f wanted' ids :=
  congrArg (List.map _) (List.filter_congr h)

/-- Inserting the node at one more id picks that id too. -/
theorem insert_pick (f : BitVec 8 → Node) (wanted : BitVec 8 → Bool) {id : BitVec 8} : ∀ {ids : List (BitVec 8)},
    ids.Pairwise (· < ·) → id ∈ ids →
      NodeTable.insert id (f id) (pick f wanted ids) = pick f (fun j => j == id || wanted j) ids
  | j :: ids, hsorted, hmem => by
    obtain ⟨hlt, hsorted⟩ := List.pairwise_cons.1 hsorted
    by_cases hj : j = id
    · subst hj
      have hrest : pick f (fun k => k == j || wanted k) ids = pick f wanted ids := pick_congr f fun k hk => by
        have : (k == j) = false := by simpa using (BitVec.ne_of_lt (hlt k hk)).symm
        rw [this, Bool.false_or]
      have hself : pick f (fun k => k == j || wanted k) (j :: ids) = (j, f j) :: pick f wanted ids := by
        rw [← hrest, pick, List.filter_cons_of_pos (by simp)]; rfl
      rw [hself]
      by_cases hw : wanted j = true
      · rw [pick, List.filter_cons_of_pos hw, List.map_cons, NodeTable.insert, if_neg (BitVec.lt_irrefl j), if_pos rfl]
        rfl
      · rw [pick, List.filter_cons_of_neg hw]
        exact insert_pick_of_lt f wanted (f j) hlt
    · have hid : id ∈ ids := (List.mem_cons.1 hmem).resolve_left (Ne.symm hj)
      have ih := insert_pick f wanted hsorted hid
      have hnot : ¬id < j := BitVec.not_lt.2 (BitVec.le_of_lt (hlt id hid))
      by_cases hw : wanted j = true
      · have hself : pick f (fun k => k == id || wanted k) (j :: ids)
            = (j, f j) :: pick f (fun k => k == id || wanted k) ids := by
          rw [pick, List.filter_cons_of_pos (by simp [hw])]; rfl
        rw [hself, ← ih, pick, List.filter_cons_of_pos hw, List.map_cons, NodeTable.insert, if_neg hnot,
          if_neg (Ne.symm hj)]
        rfl
      · have hself : pick f (fun k => k == id || wanted k) (j :: ids) = pick f (fun k => k == id || wanted k) ids := by
          rw [pick, List.filter_cons_of_neg (by simp [hw, hj])]; rfl
        rw [hself, ← ih, pick, List.filter_cons_of_neg hw]
        rfl

/-- The nodes that `visits` finds, each once and by ascending id. -/
def table (R : Replies) (codec : BitVec 8) (visits : List (BitVec 8)) : NodeTable :=
  pick (R.nodeAt codec) (fun id => decide (id ∈ visits) && decide (R.Present codec id)) allIds

/-- One more visit to what has been found. -/
def record (R : Replies) (codec : BitVec 8) (found : NodeTable) (id : BitVec 8) : NodeTable :=
  if R.Present codec id then NodeTable.insert id (R.nodeAt codec id) found else found

theorem record_table (R : Replies) (codec id : BitVec 8) (visits : List (BitVec 8)) :
    R.record codec (R.table codec visits) id = R.table codec (visits ++ [id]) := by
  unfold record table
  split
  · rename_i hp
    rw [insert_pick _ _ allIds_ascend (mem_allIds id)]
    refine pick_congr _ fun j _ => ?_
    by_cases hj : j = id
    · subst hj; simp [hp]
    · simp [hj]
  · rename_i hp
    refine pick_congr _ fun j _ => ?_
    by_cases hj : j = id
    · subst hj; simp [hp]
    · simp [hj]

theorem foldl_record_table (R : Replies) (codec : BitVec 8) : ∀ (visits before : List (BitVec 8)),
    visits.foldl (R.record codec) (R.table codec before) = R.table codec (before ++ visits)
  | [], before => by rw [List.append_nil]; rfl
  | id :: visits, before => by
    rw [List.foldl_cons, record_table, foldl_record_table R codec visits, List.append_assoc]; rfl

/-- **Recording every visit to nothing leaves the table of the visits.** -/
theorem foldl_record (R : Replies) (codec : BitVec 8) (visits : List (BitVec 8)) :
    visits.foldl (R.record codec) [] = R.table codec visits := by
  have hempty : R.table codec [] = [] := by
    rw [table, pick, List.filter_eq_nil_iff.2 (by simp)]; rfl
  rw [← hempty]
  exact foldl_record_table R codec visits []

end Replies
end AudioBringup
