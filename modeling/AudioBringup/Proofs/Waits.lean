import Mathlib.Control.Monad.Basic
import Mathlib.Tactic.Choose
import AudioBringup.Proofs.History
import AudioBringup.Proofs.WordArithmetic
/-!
# Proofs.Waits — how a wait ends

A check that is evaluated again and again takes a course (`Course`): what each evaluation comes to, and what there is before
the next one.  A wait follows the course to the first evaluation that is not false, and comes to what that one came to
(`run_attempts_first`); a wait with a limit gives up where there is none among those it may make (`run_attempts_unmet`).
The loop that makes it, with its count in a word of 32 bits, is that wait (`spin_iterations`, `spin_unbounded`).
-/
namespace AudioBringup

namespace Program

variable {Req : Type} {Ans : Req → Type} {σ α β : Type}

/-- What is executed after the first of two programs: the second one, where the first came to a result. -/
theorem run_bind (answer : (r : Req) → σ → Ans r × σ) (f : α → Program Req Ans β) : ∀ (p : Program Req Ans α) (s : σ),
    (p.bind f).run answer s = match p.run answer s with
      | (.result a, s) => (f a).run answer s
      | (.misused m, s) => (.misused m, s)
      | (.stuck, s) => (.stuck, s)
  | .pure _, _ | .misused _, _ | .stuck, _ => rfl
  | .ask r next, s => run_bind answer f (next (answer r s).1) (answer r s).2

end Program

namespace Procedure

open Word (inWord inWord_of_lt)

variable {σ α β γ ω : Type}

theorem bind_assoc (x : Procedure σ α) (f : α → Procedure σ β) (g : β → Procedure σ γ) :
    x >>= f >>= g = x >>= fun a => f a >>= g := by
  funext patience s
  refine (Program.bind_assoc _ _ _).trans (congrArg _ (funext ?_))
  rintro ⟨e | a, s⟩ <;> rfl

/-! ### The course of a check -/

/-- A check that counts how often it is evaluated. -/
def tallied (check : Procedure σ Bool) : Procedure (σ × Nat) Bool := fun patience (s, count) =>
  (check patience s).bind fun (r, s) => .pure (r, (s, count + 1))

/-- A check evaluated again and again on a platform, as long as it is false: what each evaluation comes to, and what there
is before it. -/
structure Course (platform : (c : Call) → ω → c.Answer × ω) (patience : Nat) (check : Procedure σ Bool) where
  outcome : Nat → Except Error Bool
  state : Nat → σ
  world : Nat → ω
  evaluates : ∀ k, (∀ j < k, outcome j = .ok false) →
    (check patience (state k)).run platform (world k) = (.result (outcome k, state (k + 1)), world (k + 1))

namespace Course

variable {platform : (c : Call) → ω → c.Answer × ω} {patience : Nat} {check : Procedure σ Bool}

/-- The first evaluation that is not false. -/
def First (c : Course platform patience check) (k : Nat) : Prop := (∀ j < k, c.outcome j = .ok false) ∧ c.outcome k ≠ .ok false

/-- The course of a check with its evaluations counted. -/
def tallied (c : Course platform patience check) : Course platform patience (Procedure.tallied check) where
  outcome := c.outcome
  state k := (c.state k, k)
  world := c.world
  evaluates k h := by
    refine (Program.run_bind _ _ _ _).trans ?_
    rw [c.evaluates k h]
    rfl

theorem First.eq {c : Course platform patience check} {k j : Nat} (hk : c.First k) (hj : c.First j) : k = j := by
  rcases Nat.lt_trichotomy k j with hlt | rfl | hlt
  · exact absurd (hj.1 k hlt) hk.2
  · rfl
  · exact absurd (hk.1 j hlt) hj.2

/-- Among so many evaluations there is a first one that is not false, or all of them are. -/
theorem first_or_unmet (c : Course platform patience check) : ∀ most : Nat,
    (∃ k < most, c.First k) ∨ ∀ k < most, c.outcome k = .ok false
  | 0 => .inr fun _ hk => absurd hk (Nat.not_lt_zero _)
  | most + 1 => by
    rcases first_or_unmet c most with ⟨k, hk, hfirst⟩ | hunmet
    · exact .inl ⟨k, Nat.lt_succ_of_lt hk, hfirst⟩
    · by_cases hlast : c.outcome most = .ok false
      · refine .inr fun k hk => ?_
        rcases Nat.lt_succ_iff_lt_or_eq.1 hk with hlt | rfl
        · exact hunmet k hlt
        · exact hlast
      · exact .inl ⟨most, Nat.lt_succ_self most, hunmet, hlast⟩

/-- **Whatever comes to a result takes a course**, wherever it is evaluated first. -/
theorem exists_from (hresult : ∀ s w, ∃ r s' w', (check patience s).run platform w = (.result (r, s'), w')) (s : σ) (w : ω) :
    ∃ c : Course platform patience check, c.state 0 = s ∧ c.world 0 = w := by
  choose outcome state world hresult using hresult
  let there (k : Nat) : σ × ω := k.rec (s, w) fun _ x => (state x.1 x.2, world x.1 x.2)
  exact ⟨⟨fun k => outcome (there k).1 (there k).2, fun k => (there k).1, fun k => (there k).2, fun k _ => hresult _ _⟩, rfl, rfl⟩

end Course

/-- A check that comes to the given outcomes, one after the other. -/
def scripted (outcomes : Nat → Except Error Bool) : Procedure Nat Bool := fun _ k => .pure (outcomes k, k + 1)

/-- **Any outcomes are a course**, on any platform. -/
def Course.scripted (platform : (c : Call) → ω → c.Answer × ω) (patience : Nat) (outcomes : Nat → Except Error Bool) (w : ω) :
    Course platform patience (Procedure.scripted outcomes) where
  outcome := outcomes
  state k := k
  world _ := w
  evaluates _ _ := rfl

/-! ### Evaluations, one after the other -/

/-- Up to so many evaluations, until one holds; `rest` if none of them does. -/
def attempts (check : Procedure σ Bool) (rest : Procedure σ Unit) : Nat → Procedure σ Unit
  | 0 => rest
  | left + 1 => do
    if ← check then pure () else attempts check rest left

/-- A wait that was not met says so and fails. -/
def giveUp (site : WaitSite) (made : Nat) : Procedure σ Unit := do
  note (.gaveUp site made)
  fail (.waitTimedOut site)

theorem waitBounded_eq (site : WaitSite) (check : Procedure σ Bool) : ∀ left made : Nat,
    waitBounded site check made left = attempts check (giveUp site (made + left)) left
  | 0, _ => rfl
  | left + 1, made => by
    rw [waitBounded, attempts, waitBounded_eq site check left, Nat.add_assoc, Nat.add_comm 1]

theorem waitUnbounded_eq (check : Procedure σ Bool) : ∀ left : Nat,
    waitUnbounded check left = attempts check (fun _ _ => .stuck) left
  | 0 => rfl
  | left + 1 => by
    refine congrArg (check >>= ·) (funext fun holds => ?_)
    rw [waitUnbounded_eq check left]

section
variable {platform : (c : Call) → ω → c.Answer × ω} {patience : Nat} {check : Procedure σ Bool} {rest : Procedure σ Unit}
  {c : Course platform patience check}

/-- **One evaluation**: a wait ends with it, or goes on if it is false. -/
theorem run_attempt {k : Nat} (hbefore : ∀ j < k, c.outcome j = .ok false) :
    ((do if ← check then pure () else rest : Procedure σ Unit) patience (c.state k)).run platform (c.world k) =
      match c.outcome k with
      | .ok false => (rest patience (c.state (k + 1))).run platform (c.world (k + 1))
      | .ok true => (.result (.ok (), c.state (k + 1)), c.world (k + 1))
      | .error e => (.result (.error e, c.state (k + 1)), c.world (k + 1)) := by
  refine (Program.run_bind _ _ _ _).trans ?_
  rw [c.evaluates k hbefore]
  rcases c.outcome k with e | _ | _ <;> rfl

/-- **A wait comes to what the first evaluation comes to that is not false**, and goes no further. -/
theorem run_attempts_first {k : Nat} (hfirst : c.First k) : ∀ {left i : Nat}, i ≤ k → k < i + left →
    (attempts check rest left patience (c.state i)).run platform (c.world i) =
      (.result ((c.outcome k).map fun _ => (), c.state (k + 1)), c.world (k + 1))
  | 0, i, hi, hk => absurd hi (by omega)
  | left + 1, i, hi, hk => by
    have hbefore : ∀ j < i, c.outcome j = .ok false := fun j hj => hfirst.1 j (by omega)
    rw [attempts, run_attempt hbefore]
    rcases Nat.lt_or_eq_of_le hi with hlt | rfl
    · -- this evaluation was false, and the one that decides is among those left
      rw [hfirst.1 i hlt]
      exact run_attempts_first hfirst hlt (by omega)
    · have hdecides := hfirst.2
      generalize c.outcome i = decided at hdecides ⊢
      rcases decided with e | _ | _
      · rfl
      · exact absurd rfl hdecides
      · rfl

/-- Where every evaluation is false, what is left to do comes after all of them. -/
theorem run_attempts_unmet : ∀ {left i : Nat}, (∀ k < i + left, c.outcome k = .ok false) →
    (attempts check rest left patience (c.state i)).run platform (c.world i) =
      (rest patience (c.state (i + left))).run platform (c.world (i + left))
  | 0, _, _ => rfl
  | left + 1, i, hunmet => by
    have hbefore : ∀ j < i, c.outcome j = .ok false := fun j hj => hunmet j (by omega)
    have hnext : i + 1 + left = i + (left + 1) := by omega
    rw [attempts, run_attempt hbefore, hunmet i (by omega)]
    refine (run_attempts_unmet fun k hk => hunmet k (by omega)).trans ?_
    rw [hnext]

/-! ### Waits -/

theorem run_waitUntil_first (site : WaitSite) (limit : WaitLimit) {k : Nat} (hk : k < limit.checks patience)
    (hfirst : c.First k) : (waitUntil site limit check patience (c.state 0)).run platform (c.world 0) =
      (.result ((c.outcome k).map fun _ => (), c.state (k + 1)), c.world (k + 1)) := by
  have hin : k < 0 + limit.checks patience := by omega
  cases limit with
  | unbounded =>
    change (waitUnbounded check patience patience (c.state 0)).run platform (c.world 0) = _
    rw [waitUnbounded_eq]
    exact run_attempts_first hfirst (Nat.zero_le k) hin
  | iterations n =>
    rw [waitUntil, waitBounded_eq]
    exact run_attempts_first hfirst (Nat.zero_le k) hin

theorem run_waitUntil_unmet {site : WaitSite} {n : Nat} (hunmet : ∀ k < max n 1, c.outcome k = .ok false) :
    (waitUntil site (.iterations n) check patience (c.state 0)).run platform (c.world 0) =
      (.result (.error (.waitTimedOut site), c.state (max n 1)),
        (platform (.note (.gaveUp site (max n 1))) (c.world (max n 1))).2) := by
  rw [waitUntil, waitBounded_eq, Nat.zero_add]
  refine (run_attempts_unmet (by rwa [Nat.zero_add])).trans ?_
  rw [Nat.zero_add]
  rfl

theorem run_waitUntil_stuck {site : WaitSite} (hunmet : ∀ k < patience, c.outcome k = .ok false) :
    (waitUntil site .unbounded check patience (c.state 0)).run platform (c.world 0) = (.stuck, c.world patience) := by
  change (waitUnbounded check patience patience (c.state 0)).run platform (c.world 0) = _
  rw [waitUnbounded_eq]
  refine (run_attempts_unmet (by rwa [Nat.zero_add])).trans ?_
  rw [Nat.zero_add]
  rfl

/-- What decided a wait that failed, failed itself. -/
theorem eq_error_of_ended {decided : Except Error Bool} {e : Error} {s s' : σ} {w w' : ω}
    (h : (Ending.result (decided.map fun _ => (), s), w) = (Ending.result (.error e, s'), w')) : decided = .error e := by
  cases decided with
  | error e =>
    cases h
    rfl
  | ok holds => cases h

/-- What decided a wait that was met, held. -/
theorem eq_true_of_ended {decided : Except Error Bool} (hdecides : decided ≠ .ok false) {s s' : σ} {w w' : ω}
    (h : (Ending.result (decided.map fun _ => (), s), w) = (Ending.result (.ok (), s'), w')) : decided = .ok true := by
  rcases decided with e | _ | _
  · cases h
  · exact absurd rfl hdecides
  · rfl

/-- A wait with a limit is met exactly if its first evaluation that is not false comes in time and holds. -/
theorem waitUntil_ok_iff {site : WaitSite} {n : Nat} :
    (∃ s w, (waitUntil site (.iterations n) check patience (c.state 0)).run platform (c.world 0) = (.result (.ok (), s), w)) ↔
      ∃ k < max n 1, c.First k ∧ c.outcome k = .ok true := by
  rcases c.first_or_unmet (max n 1) with ⟨k, hk, hfirst⟩ | hunmet
  · rw [run_waitUntil_first site (.iterations n) hk hfirst]
    constructor
    · rintro ⟨s, w, hended⟩
      exact ⟨k, hk, hfirst, eq_true_of_ended hfirst.2 hended⟩
    · rintro ⟨j, -, hj, hholds⟩
      rw [hfirst.eq hj, hholds]
      exact ⟨_, _, rfl⟩
  · rw [run_waitUntil_unmet hunmet]
    constructor
    · rintro ⟨s, w, hended⟩
      cases hended
    · rintro ⟨j, hj, hfirst, -⟩
      exact absurd (hunmet j hj) hfirst.2

/-- A wait with a limit fails as its first evaluation that is not false does, or because they all are. -/
theorem waitUntil_error_iff {site : WaitSite} {n : Nat} {e : Error} :
    (∃ s w, (waitUntil site (.iterations n) check patience (c.state 0)).run platform (c.world 0) = (.result (.error e, s), w)) ↔
      (∃ k < max n 1, c.First k ∧ c.outcome k = .error e) ∨ e = .waitTimedOut site ∧ ∀ k < max n 1, c.outcome k = .ok false := by
  rcases c.first_or_unmet (max n 1) with ⟨k, hk, hfirst⟩ | hunmet
  · rw [run_waitUntil_first site (.iterations n) hk hfirst]
    constructor
    · rintro ⟨s, w, hended⟩
      exact .inl ⟨k, hk, hfirst, eq_error_of_ended hended⟩
    · rintro (⟨j, -, hj, hfails⟩ | ⟨-, hunmet⟩)
      · rw [hfirst.eq hj, hfails]
        exact ⟨_, _, rfl⟩
      · exact absurd (hunmet k hk) hfirst.2
  · rw [run_waitUntil_unmet hunmet]
    constructor
    · rintro ⟨s, w, hended⟩
      cases hended
      exact .inr ⟨rfl, hunmet⟩
    · rintro (⟨j, hj, hfirst, -⟩ | ⟨rfl, -⟩)
      · exact absurd (hunmet j hj) hfirst.2
      · exact ⟨_, _, rfl⟩

/-- A wait without a limit fails only as its check does. -/
theorem waitUntil_unbounded_error {site : WaitSite} {e : Error} {s : σ} {w : ω}
    (h : (waitUntil site .unbounded check patience (c.state 0)).run platform (c.world 0) = (.result (.error e, s), w)) :
    ∃ k < patience, c.First k ∧ c.outcome k = .error e := by
  rcases c.first_or_unmet patience with ⟨k, hk, hfirst⟩ | hunmet
  · rw [run_waitUntil_first site .unbounded hk hfirst] at h
    exact ⟨k, hk, hfirst, eq_error_of_ended h⟩
  · rw [run_waitUntil_stuck hunmet] at h
    cases h

end

/-! ### In words -/

/-- The loop of a wait, followed for so many rounds: where there is a limit, each round that is not met is counted in a word
of 32 bits.  Nothing where the count leaves its word. -/
def spin (site : WaitSite) (limit : WaitLimit) (check : Procedure σ Bool) : (rounds counted : Nat) → Procedure σ (Option Unit)
  | 0, _ => fun _ _ => .stuck
  | rounds + 1, counted => do
    if ← check then return some ()
    match limit with
    | .unbounded => spin site limit check rounds counted
    | .iterations most =>
      match inWord 32 (counted + 1) with
      | none => return none
      | some counted =>
        if most ≤ counted then
          note (.gaveUp site counted)
          fail (.waitTimedOut site)
        else spin site limit check rounds counted

theorem spin_unbounded (site : WaitSite) (check : Procedure σ Bool) : ∀ rounds counted : Nat,
    spin site .unbounded check rounds counted = waitUnbounded check rounds >>= fun _ => pure (some ())
  | 0, _ => rfl
  | rounds + 1, counted => by
    rw [waitUnbounded, bind_assoc, spin]
    refine congrArg (check >>= ·) (funext fun holds => ?_)
    cases holds with
    | true => rfl
    | false => exact spin_unbounded site check rounds counted

/-- **The count never leaves its word**, up to the highest limit there is. -/
theorem spin_iterations (site : WaitSite) (check : Procedure σ Bool) {most : Nat} (hmost : most < 2 ^ 32) :
    ∀ {rounds left counted : Nat}, left ≤ rounds → counted + left = max most 1 → 0 < left →
      spin site (.iterations most) check rounds counted = waitBounded site check counted left >>= fun _ => pure (some ())
  | 0, left, counted, hrounds, _, hleft => absurd hrounds (Nat.not_le.2 hleft)
  | rounds + 1, 0, counted, _, _, hleft => absurd hleft (Nat.lt_irrefl 0)
  | rounds + 1, left + 1, counted, hrounds, hcount, _ => by
    -- what is counted and what is left make up the limit, so there is always room for one more
    have hroom : counted + 1 < 2 ^ 32 := by omega
    rw [waitBounded, bind_assoc, spin]
    refine congrArg (check >>= ·) (funext fun holds => ?_)
    cases holds with
    | true => rfl
    | false =>
      simp only [Bool.false_eq_true, if_false]
      rw [inWord_of_lt hroom]
      dsimp only
      cases left with
      | zero =>
        rw [if_pos (by omega)]
        rfl
      | succ left =>
        rw [if_neg (by omega)]
        exact spin_iterations site check hmost (by omega) (by omega) (Nat.succ_pos left)

/-! ### The whole -/

section
variable {platform : (c : Call) → ω → c.Answer × ω} {patience : Nat} {check : Procedure σ Bool}

/-- **A wait gives up exactly when it is told to**, whatever course its check takes.

With a limit it comes to what the first evaluation comes to that is not false, if that is one of those it may make, and makes
none after it; where those are all false it fails, after exactly as many.  There is no other way for it to succeed or to fail,
and the loop that counts them in a word of 32 bits is this wait at every limit of 32 bits.

Without a limit it fails only as its check does, and ends as it would with any limit that leaves room for the evaluation that
decides it. -/
theorem waitUntil_decides (c : Course platform patience check) (site : WaitSite) (n : Nat) :
    let most := max n 1
    let ended (limit : WaitLimit) := (waitUntil site limit check patience (c.state 0)).run platform (c.world 0)
    let counted (limit : WaitLimit) := (waitUntil site limit (tallied check) patience (c.state 0, 0)).run platform (c.world 0)
    (∀ k < most, c.First k →
      ended (.iterations n) = (.result ((c.outcome k).map fun _ => (), c.state (k + 1)), c.world (k + 1)) ∧
      counted (.iterations n) = (.result ((c.outcome k).map fun _ => (), c.state (k + 1), k + 1), c.world (k + 1))) ∧
    ((∀ k < most, c.outcome k = .ok false) →
      let told := (platform (.note (.gaveUp site most)) (c.world most)).2
      ended (.iterations n) = (.result (.error (.waitTimedOut site), c.state most), told) ∧
      counted (.iterations n) = (.result (.error (.waitTimedOut site), c.state most, most), told)) ∧
    ((∃ s w, ended (.iterations n) = (.result (.ok (), s), w)) ↔ ∃ k < most, c.First k ∧ c.outcome k = .ok true) ∧
    (∀ e, (∃ s w, ended (.iterations n) = (.result (.error e, s), w)) ↔
      (∃ k < most, c.First k ∧ c.outcome k = .error e) ∨ e = .waitTimedOut site ∧ ∀ k < most, c.outcome k = .ok false) ∧
    (n < 2 ^ 32 → ∀ rounds, most ≤ rounds →
      spin site (.iterations n) check rounds 0 = waitUntil site (.iterations n) check >>= fun _ => pure (some ())) ∧
    (∀ k < patience, c.First k →
      ended .unbounded = (.result ((c.outcome k).map fun _ => (), c.state (k + 1)), c.world (k + 1)) ∧
      (k < most → ended .unbounded = ended (.iterations n))) ∧
    ((∀ k < patience, c.outcome k = .ok false) → ended .unbounded = (.stuck, c.world patience)) ∧
    (∀ e s w, ended .unbounded = (.result (.error e, s), w) → ∃ k < patience, c.First k ∧ c.outcome k = .error e) ∧
    (fun rounds => spin site .unbounded check rounds 0 rounds) =
      waitUntil site .unbounded check >>= fun _ => pure (some ()) := by
  have hfirst := fun (limit : WaitLimit) k => run_waitUntil_first (c := c) site limit (k := k)
  have htally := fun (limit : WaitLimit) k => run_waitUntil_first (c := c.tallied) site limit (k := k)
  refine ⟨fun k hk h => ⟨hfirst (.iterations n) k hk h, htally (.iterations n) k hk h⟩,
    fun h => ⟨run_waitUntil_unmet h, run_waitUntil_unmet (c := c.tallied) h⟩, waitUntil_ok_iff, fun _ => waitUntil_error_iff,
    fun hword rounds hrounds => ?_, fun k hk h => ⟨hfirst .unbounded k hk h, fun hmost => ?_⟩, run_waitUntil_stuck,
    fun _ _ _ => waitUntil_unbounded_error, ?_⟩
  · exact spin_iterations site check hword hrounds (Nat.zero_add _) (by omega)
  · exact (hfirst .unbounded k hk h).trans (hfirst (.iterations n) k hmost h).symm
  · funext rounds
    rw [spin_unbounded]
    rfl

/-- A check that holds at its third evaluation: met with three allowed, and given up with two. -/
theorem waitUntil_decides_third :
    let check := scripted fun k => .ok (k == 2)
    (waitUntil .ringReset (.iterations 3) (tallied check) 5 (0, 0)).run (askOf obliging) [] =
        (.result (.ok (), 3, 3), []) ∧
      (waitUntil .ringReset (.iterations 2) (tallied check) 5 (0, 0)).run (askOf obliging) [] =
        (.result (.error (.waitTimedOut .ringReset), 2, 2), [⟨.note (.gaveUp .ringReset 2), ()⟩]) ∧
      (waitUntil .ringReset .unbounded check 5 0).run (askOf obliging) [] =
        (waitUntil .ringReset (.iterations 3) check 5 0).run (askOf obliging) [] :=
  have hthird := waitUntil_decides (Course.scripted (askOf obliging) 5 (fun k => .ok (k == 2)) []) .ringReset 3
  have hsecond := waitUntil_decides (Course.scripted (askOf obliging) 5 (fun k => .ok (k == 2)) []) .ringReset 2
  have hfirst : (Course.scripted (askOf obliging) 5 (fun k => .ok (k == 2)) []).First 2 := ⟨by decide, by decide⟩
  ⟨(hthird.1 2 (by decide) hfirst).2, (hsecond.2.1 (by decide)).2,
    (hthird.2.2.2.2.2.1 2 (by decide) hfirst).2 (by decide)⟩

end

end Procedure
end AudioBringup
