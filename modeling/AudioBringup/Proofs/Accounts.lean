import AudioBringup.Proofs.Confined
/-!
# Proofs.Accounts — memory had against memory given back

At every moment of a run the regions that were given back and the regions somebody holds are among those that were had,
each counted as often as it was (`Accounts`).  As long as nothing went wrong they are all of them.
-/
namespace AudioBringup
namespace History

variable {h : History} {b : Bool} {l l' new : List (Use × Region)} {u : Use} {g : Region}

theorem had?_quiet {c : Call} {a : c.Answer} (hc : c.Quiet) : had? ⟨c, a⟩ = none := by
  cases c <;> first | rfl | exact hc.elim

theorem given?_quiet {c : Call} {a : c.Answer} (hc : c.Quiet) : given? ⟨c, a⟩ = none := by
  cases c <;> first | rfl | exact hc.elim

theorem allocated_quiet {c : Call} {a : c.Answer} (hc : c.Quiet) : allocated (⟨c, a⟩ :: h) = h.allocated :=
  List.filterMap_cons_none (had?_quiet hc)

theorem freed_quiet {c : Call} {a : c.Answer} (hc : c.Quiet) : freed (⟨c, a⟩ :: h) = h.freed :=
  List.filterMap_cons_none (given?_quiet hc)

theorem atEachFree_nil {R : Region → History → Prop} : AtEachFree R [] := by
  rintro (_ | _) g a pre ⟨⟩

theorem atEachFree_cons {R : Region → History → Prop} {m : Made} (hm : ∀ g, m.call = .free g → R g h)
    (hh : AtEachFree R h) : AtEachFree R (m :: h) := by
  rintro (_ | ⟨m', post⟩) g a pre hsplit
  · obtain ⟨rfl, rfl⟩ := List.cons.inj hsplit
    exact hm g rfl
  · exact hh post g a pre (List.cons.inj hsplit).2

theorem taken_cons {m : Made} (hm : ∀ g e, m ≠ ⟨.free g, Except.error e⟩) (hh : h.Taken) : Taken (m :: h) := by
  intro g e hmem
  rcases List.mem_cons.1 hmem with he | hmem
  · exact hm g e he.symm
  · exact hh g e hmem

/-- The books of a run that holds `l`; if they are to be exact, they balance and nothing went wrong with giving back. -/
structure Books (exact : Bool) (l : List (Use × Region)) (h : History) : Prop where
  had : ∀ p ∈ l, Had p.1 p.2 h
  sound : h.Sound
  once : h.Once
  covered : ∀ g, h.freed.count g + (l.map Prod.snd).count g ≤ h.allocated.count g
  balanced : exact = true → ∀ g, h.freed.count g + (l.map Prod.snd).count g = h.allocated.count g
  taken : exact = true → h.Taken

/-- Memory that was had only once was given back only once. -/
theorem Books.freed_nodup (hl : Books b l h) (hh : h.allocated.Nodup) : h.freed.Nodup := by
  rw [List.nodup_iff_count] at hh ⊢
  intro g
  have hcovered := hl.covered g
  have honce := hh g
  omega

/-- A call that does not give memory back, by what it has. -/
theorem Books.cons {c : Call} {a : c.Answer} (got : List (Use × Region)) (hl : Books b l h) (hfree : ∀ g, c ≠ .free g)
    (hhad : ∀ p ∈ got, Had p.1 p.2 (⟨c, a⟩ :: h)) (hallocated : allocated (⟨c, a⟩ :: h) = got.map Prod.snd ++ h.allocated)
    (hfreed : freed (⟨c, a⟩ :: h) = h.freed) : Books b (got ++ l) (⟨c, a⟩ :: h) where
  had p hp := by
    rcases List.mem_append.1 hp with hp | hp
    · exact hhad p hp
    · exact .later (hl.had p hp)
  sound := atEachFree_cons (fun g hg => absurd hg (hfree g)) hl.sound
  once := atEachFree_cons (fun g hg => absurd hg (hfree g)) hl.once
  covered g := by
    have hcovered := hl.covered g
    rw [hallocated, hfreed, List.map_append, List.count_append, List.count_append]
    omega
  balanced hb g := by
    have hbalanced := hl.balanced hb g
    rw [hallocated, hfreed, List.map_append, List.count_append, List.count_append]
    omega
  taken hb := taken_cons (fun g _ he => hfree g (congrArg Made.call he)) (hl.taken hb)

/-- A call that neither has memory nor gives it back. -/
theorem Books.skip {m : Made} (hhad : had? m = none) (hgiven : given? m = none) (hl : Books b l h) : Books b l (m :: h) := by
  obtain ⟨c, a⟩ := m
  have hallocated : allocated (⟨c, a⟩ :: h) = h.allocated := List.filterMap_cons_none hhad
  have hfreed : freed (⟨c, a⟩ :: h) = h.freed := List.filterMap_cons_none hgiven
  have hfree : ∀ g, c ≠ .free g := by
    rintro g rfl
    cases hgiven
  exact hl.cons [] hfree (by simp) hallocated hfreed

/-- The books of a run that holds `l`, and has not given up the controller. -/
structure Accounts (exact : Bool) (l : List (Use × Region)) (h : History) : Prop extends Books exact l h where
  bound : ∀ m ∈ h, m.call ≠ .release

namespace Accounts

theorem nil : Accounts b [] [] where
  had := by simp
  sound := atEachFree_nil
  once := atEachFree_nil
  covered _ := Nat.le_refl _
  balanced _ _ := rfl
  taken _ := by simp [Taken]
  bound := by simp

theorem bound_cons {m : Made} (hm : m.call ≠ .release) (hl : Accounts b l h) : ∀ m' ∈ m :: h, m'.call ≠ .release :=
  List.forall_mem_cons.2 ⟨hm, hl.bound⟩

/-- A call that neither has memory, nor gives it back, nor gives up the controller. -/
theorem call {c : Call} {a : c.Answer} (hc : c.Quiet) (hl : Accounts b l h) : Accounts b l (⟨c, a⟩ :: h) := by
  have hbound : c ≠ .release := by
    rintro rfl
    exact hc
  exact ⟨hl.skip (had?_quiet hc) (given?_quiet hc), hl.bound_cons hbound⟩

theorem refused {k : Nat} {e : Error} (hl : Accounts b l h) : Accounts b l (⟨.allocate k, Except.error e⟩ :: h) :=
  ⟨hl.skip rfl rfl, hl.bound_cons (by simp)⟩

theorem allocate {k : Nat} (hu : u.Now h) (hl : Accounts b l h) :
    Accounts b ((u, g) :: l) (⟨.allocate k, Except.ok g⟩ :: h) := by
  have hhad : ∀ p ∈ [(u, g)], Had p.1 p.2 (⟨.allocate k, Except.ok g⟩ :: h) := by
    intro p hp
    rw [List.mem_singleton.1 hp]
    exact .now hu
  exact ⟨hl.cons [(u, g)] (by simp) hhad rfl rfl, hl.bound_cons (by simp)⟩

theorem free {a : Except Error Unit} (hs : StoppedFor u h) (hl : Accounts b ((u, g) :: l) h)
    (ha : b = true → a = Except.ok ()) : Accounts b l (⟨.free g, a⟩ :: h) := by
  have hallocated : allocated (⟨.free g, a⟩ :: h) = h.allocated := rfl
  have hfreed : freed (⟨.free g, a⟩ :: h) = g :: h.freed := rfl
  have hheld : ((u, g) :: l).map Prod.snd = g :: l.map Prod.snd := rfl
  have hhad : Had u g h := hl.had _ List.mem_cons_self
  have honce : h.freed.count g < h.allocated.count g := by
    have hcovered := hl.covered g
    rw [hheld, List.count_cons_self] at hcovered
    omega
  refine ⟨⟨fun p hp => ?_, ?_, ?_, fun g' => ?_, fun hb g' => ?_, fun hb => ?_⟩, hl.bound_cons (by simp)⟩
  · exact .later (hl.had p (List.mem_cons_of_mem _ hp))
  · refine atEachFree_cons (fun g' hg => ?_) hl.sound
    cases hg
    exact ⟨u, hhad, hs⟩
  · refine atEachFree_cons (fun g' hg => ?_) hl.once
    cases hg
    exact honce
  · have hcovered := hl.covered g'
    rw [hheld, List.count_cons] at hcovered
    rw [hallocated, hfreed, List.count_cons]
    omega
  · have hbalanced := hl.balanced hb g'
    rw [hheld, List.count_cons] at hbalanced
    rw [hallocated, hfreed, List.count_cons]
    omega
  · refine taken_cons (fun g' e he => ?_) (hl.taken hb)
    rw [ha hb] at he
    cases he

/-- The order in which regions are held does not matter. -/
theorem perm (hp : l.Perm l') (hl : Accounts b l h) : Accounts b l' h := by
  have hcount : ∀ g, (l'.map Prod.snd).count g = (l.map Prod.snd).count g := fun g => ((hp.map Prod.snd).count_eq g).symm
  refine ⟨⟨fun p hp' => hl.had p (hp.mem_iff.2 hp'), hl.sound, hl.once, fun g => ?_, fun hb g => ?_, hl.taken⟩, hl.bound⟩
  · rw [hcount]
    exact hl.covered g
  · rw [hcount]
    exact hl.balanced hb g

/-- Regions may be lost track of, and the books are not exact from then on. -/
theorem lose (new : List (Use × Region)) (hl : Accounts b (new ++ l) h) : Accounts false l h := by
  refine ⟨⟨fun p hp => hl.had p (List.mem_append_right _ hp), hl.sound, hl.once, fun g => ?_, nofun, nofun⟩, hl.bound⟩
  have hcovered := hl.covered g
  rw [List.map_append, List.count_append] at hcovered
  omega

theorem inexact (hl : Accounts b l h) : Accounts false l h := hl.lose []

theorem lost (new : List (Use × Region)) (hl : Accounts b (new ++ l) h) : Accounts false l h ∧ h.Sound :=
  ⟨hl.lose new, hl.sound⟩

theorem stable : Stable Call.Quiet (Accounts b l) := fun _ _ _ hc hl => hl.call hc

theorem stable_plain : Stable Call.Plain (Accounts b l) := stable.mono fun _ hc => hc.quiet

theorem stable_routine : Stable Call.Routine (Accounts b l) := stable_plain.mono fun _ hc => hc.plain

end Accounts

/-! ### How far the streams have come -/

theorem counted_cons {m : Made} : Counted (m :: h) ↔ (∃ i o b, m.call = .note (.streamsCounted i o b)) ∨ h.Counted := by
  simp only [Counted, List.mem_cons, exists_eq_or_imp]

theorem placed_cons {m : Made} : Placed (m :: h) ↔ (∃ address, m.call = .note (.positionsPlaced address)) ∨ h.Placed := by
  simp only [Placed, List.mem_cons, exists_eq_or_imp]

theorem programmed_cons {m : Made} :
    Programmed (m :: h) ↔ (∃ i d k p, m.call = .note (.streamProgrammed i d k p)) ∨ h.Programmed := by
  simp only [Programmed, List.mem_cons, exists_eq_or_imp]

theorem not_counted_cons {c : Call} {a : c.Answer} (hm : ∀ i o b, c ≠ .note (.streamsCounted i o b))
    (hh : ¬h.Counted) : ¬Counted (⟨c, a⟩ :: h) := by
  rw [counted_cons]
  rintro (⟨i, o, b, hc⟩ | hc)
  · exact hm i o b hc
  · exact hh hc

theorem not_programmed_cons {c : Call} {a : c.Answer} (hm : ∀ i d k p, c ≠ .note (.streamProgrammed i d k p))
    (hh : ¬h.Programmed) : ¬Programmed (⟨c, a⟩ :: h) := by
  rw [programmed_cons]
  rintro (⟨i, d, k, p, hc⟩ | hc)
  · exact hm i d k p hc
  · exact hh hc

/-- Nothing was said of the streams yet. -/
def Fresh (h : History) : Prop := ¬h.Counted ∧ ¬h.Programmed

theorem fresh_nil : Fresh [] := by simp [Fresh, Counted, Programmed]

theorem Fresh.stable : Stable Call.Plain Fresh := by
  intro c a h hc ⟨hcounted, hprogrammed⟩
  constructor
  · refine not_counted_cons ?_ hcounted
    rintro i o k rfl
    exact hc
  · refine not_programmed_cons ?_ hprogrammed
    rintro i d k p rfl
    exact hc

theorem Fresh.stable_routine : Stable Call.Routine Fresh := Fresh.stable.mono fun _ hc => hc.plain

theorem Fresh.allocate {k : Nat} {a : Except Error Region} (hh : h.Fresh) : Fresh (⟨.allocate k, a⟩ :: h) :=
  ⟨not_counted_cons (by simp) hh.1, not_programmed_cons (by simp) hh.2⟩

/-- The streams are being given their memory. -/
def Filling (h : History) : Prop := h.Counted ∧ ¬h.Programmed

theorem Fresh.filling {i o k : Nat} (hh : h.Fresh) : Filling (⟨.note (.streamsCounted i o k), ()⟩ :: h) :=
  ⟨counted_cons.2 (.inl ⟨i, o, k, rfl⟩), not_programmed_cons (by simp) hh.2⟩

theorem Filling.stable : Stable Call.Plain Filling := by
  intro c a h hc ⟨hcounted, hprogrammed⟩
  refine ⟨counted_cons.2 (.inr hcounted), not_programmed_cons ?_ hprogrammed⟩
  rintro i d k p rfl
  exact hc

theorem Filling.allocate {k : Nat} {a : Except Error Region} (hh : h.Filling) : Filling (⟨.allocate k, a⟩ :: h) :=
  ⟨counted_cons.2 (.inr hh.1), not_programmed_cons (by simp) hh.2⟩

/-- The streams have their memory, and nothing was made of it yet. -/
def Filled (h : History) : Prop := h.Filling ∧ h.Placed

theorem Filled.stable : Stable Call.Plain Filled := Filling.stable.and fun _ _ _ _ hh => placed_cons.2 (.inr hh)

theorem Filled.allocate {k : Nat} {a : Except Error Region} (hh : h.Filled) : Filled (⟨.allocate k, a⟩ :: h) :=
  ⟨hh.1.allocate, placed_cons.2 (.inr hh.2)⟩

theorem Filling.placed {a : BitVec 64} (hh : h.Filling) : Filled (⟨.note (.positionsPlaced a), ()⟩ :: h) := by
  constructor
  · exact ⟨counted_cons.2 (.inr hh.1), not_programmed_cons (by simp) hh.2⟩
  · exact placed_cons.2 (.inl ⟨a, rfl⟩)

end History

namespace Procedure

open History

variable {σ τ α β : Type} {n : Nat} {s : σ} {h : History} {b : Bool} {l new : List (Use × Region)} {P : Call → Prop}
  {J K : History → Prop} {ok : α → History → Prop} {x : Procedure σ α}

/-- A step that leaves its state as it is: `J` holds if it fails, and what was given back is sound however it ends. -/
def keeping (J : History → Prop) (s : σ) (ok : α → History → Prop) : Outcome σ α History :=
  ⟨fun a s' h => s' = s ∧ ok a h, fun _ s' h => s' = s ∧ J h, Sound, Sound⟩

/-- Wherever a step from `s` ends early, `Q` holds. -/
structure Allows (J : History → Prop) (s : σ) (Q : Outcome σ α History) : Prop where
  error : ∀ e h, J h → Q.error e s h
  misused : ∀ h, Sound h → Q.misused h
  stuck : ∀ h, Sound h → Q.stuck h

theorem ensures_of_keeping {Q : Outcome σ α History} (hx : Ensures recording n x s h (keeping J s ok)) (hQ : Allows J s Q)
    (hok : ∀ a h, ok a h → Q.ok a s h) : Ensures recording n x s h Q := by
  refine hx.mono ?_ ?_ hQ.misused hQ.stuck
  · rintro a _ h ⟨rfl, ha⟩
    exact hok a h ha
  · rintro e _ h ⟨rfl, hl⟩
    exact hQ.error e h hl

theorem keeping_andThen {g : α → Procedure σ β} {Q : Outcome σ β History}
    (hx : Ensures recording n x s h (keeping J s ok)) (hQ : Allows J s Q)
    (hg : ∀ a h, ok a h → Ensures recording n (g a) s h Q) : Ensures recording n (x >>= g) s h Q :=
  ensures_bind.2 (ensures_of_keeping hx ⟨hQ.error, hQ.misused, hQ.stuck⟩ hg)

theorem keeping_bind {g : α → Procedure σ β} {ok' : β → History → Prop} (hx : Ensures recording n x s h (keeping J s ok))
    (hg : ∀ a h, ok a h → Ensures recording n (g a) s h (keeping J s ok')) :
    Ensures recording n (x >>= g) s h (keeping J s ok') :=
  keeping_andThen hx ⟨fun _ _ hj => ⟨rfl, hj⟩, fun _ => id, fun _ => id⟩ hg

/-- What a confined step does not end holds after it. -/
theorem Confined.keeping (hx : Confined P id x) (hK : Stable P K) (hJ : ∀ h, K h → J h ∧ Sound h) (hh : K h) :
    Ensures recording n x s h (keeping J s fun _ => K) :=
  (hx.keeps hK hh).mono (fun _ _ _ => id) (fun _ _ h hk => ⟨hk.1, (hJ h hk.2).1⟩) (fun h hk => (hJ h hk).2)
    (fun h hk => (hJ h hk).2)

/-- A confined step with what follows it. -/
theorem Confined.then {g : α → Procedure σ β} {ok : β → History → Prop} (hK : Stable P K)
    (hJ : ∀ h, K h → J h ∧ Sound h) (hx : Confined P id x)
    (hg : ∀ a h, K h → Ensures recording n (g a) s h (Procedure.keeping J s ok)) (h : History) (hh : K h) :
    Ensures recording n (x >>= g) s h (Procedure.keeping J s ok) := keeping_bind (hx.keeping hK hJ hh) hg

theorem allocate_keeping {u : Use} {k : Nat} (hu : u.Now h) (hl : Accounts b l h)
    (hJ : ∀ e, Accounts b l (⟨.allocate k, Except.error e⟩ :: h) → J (⟨.allocate k, Except.error e⟩ :: h)) :
    Ensures recording n (allocate k) s h (keeping J s fun g h' =>
      h' = ⟨.allocate k, Except.ok g⟩ :: h ∧ Accounts b ((u, g) :: l) h') := by
  refine ensures_allocate.2 ?_
  rintro (e | g) _ rfl
  · exact ⟨rfl, hJ e hl.refused⟩
  · exact ⟨rfl, rfl, hl.allocate hu⟩

theorem free_keeping {u : Use} {g : Region} (hs : StoppedFor u h) (hl : Accounts b ((u, g) :: l) h)
    (hJ : ∀ e, Accounts false l (⟨.free g, Except.error e⟩ :: h) → J (⟨.free g, Except.error e⟩ :: h)) :
    Ensures recording n (free g) s h (keeping J s fun _ h' => h' = ⟨.free g, Except.ok ()⟩ :: h ∧ Accounts b l h') := by
  refine ensures_free.2 ?_
  rintro (e | ⟨⟩) _ rfl
  · exact ⟨rfl, hJ e (hl.inexact.free hs nofun)⟩
  · exact ⟨rfl, rfl, hl.free hs fun _ => rfl⟩

end Procedure
end AudioBringup
