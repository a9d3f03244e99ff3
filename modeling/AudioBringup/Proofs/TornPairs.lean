import Mathlib.Algebra.BigOperators.Ring.List
import Mathlib.Algebra.Ring.Nat
import Mathlib.Data.List.TakeWhile
import AudioBringup.Proofs.ConsoleBuffer
/-!
# Proofs.TornPairs — where a run ends between the units of a pair

A run ends where it is full, whatever unit comes next.  So the two units of a character are sent in one run unless the first
of them is the last that the run has room for: then the console is shown two strings of which the one ends in the first unit
and the next begins with the second (`write_tears`).
-/
namespace AudioBringup
namespace Uefi
namespace Console

open Firmware

variable {c : Char} {u : BitVec 16} {l front tail : List (BitVec 16)} {runs : List (List (BitVec 16))}

/-! ### Pairs among the units -/

/-- A pair of units makes up a character, and no other unit looks like the first of a pair. -/
theorem unitsOf_cases (c : Char) :
    (Astral c ∧ ∃ high low, unitsOf c = [high, low] ∧ IsHigh high ∧ IsLow low) ∨
      ¬Astral c ∧ ∀ u ∈ unitsOf c, ¬IsHigh u := by
  have hlt := toNat_lt c
  by_cases hreturn : c = '\n'
  · rw [hreturn]
    exact .inr ⟨by decide, List.forall_mem_cons.2 ⟨by decide, List.forall_mem_cons.2 ⟨by decide, nofun⟩⟩⟩
  rw [unitsOf_eq hreturn]
  by_cases hplane : Astral c
  · obtain ⟨high, low, heq, hhigh, hlow⟩ := utf16_astral hplane
    unfold Astral at hplane
    exact .inl ⟨hplane, high, low, heq, by unfold IsHigh; omega, by unfold IsLow; omega⟩
  · refine .inr ⟨hplane, fun u hu => ?_⟩
    have hplain := not_surrogate c
    rw [utf16_basic hplane, List.mem_singleton] at hu
    subst hu
    unfold Astral at hplane
    unfold IsHigh
    rw [BitVec.toNat_ofNat]
    omega

theorem pair_apart {high low : BitVec 16} {more : List (BitVec 16)} (h : [high, low] = front ++ u :: more) (hu : IsHigh u)
    (hlow : IsLow low) : front = [] ∧ more = [low] :=
  match front, h with
  | [], h => ⟨rfl, (List.cons.inj h).2.symm⟩
  | [_], h => by
    obtain ⟨rfl, -⟩ := List.cons.inj (List.cons.inj h).2
    exact absurd (Nat.lt_of_lt_of_le hu.2 hlow.1) (Nat.lt_irrefl _)
  | _ :: _ :: front, h =>
    absurd (List.cons.inj (List.cons.inj h).2).2.symm (List.append_ne_nil_of_right_ne_nil front (List.cons_ne_nil _ _))

/-- **The first unit of a pair** is where the units of a character begin, and the second is behind it. -/
theorem pair_of_high : ∀ {text : List Char} {front : List (BitVec 16)}, text.flatMap unitsOf = front ++ u :: tail → IsHigh u →
    ∃ before c after, text = before ++ c :: after ∧ Astral c ∧ before.flatMap unitsOf = front ∧ ∃ low ∈ tail.head?, IsLow low
  | [], front, heq, _ => absurd heq.symm (List.append_ne_nil_of_right_ne_nil front (List.cons_ne_nil _ _))
  | c :: text, front, heq, hu => by
    rw [List.flatMap_cons] at heq
    rcases List.append_eq_append_iff.1 heq with ⟨front', rfl, htext⟩ | ⟨more, hunits, hmore⟩
    · obtain ⟨before, d, after, rfl, hd, rfl, hlow⟩ := pair_of_high htext hu
      exact ⟨c :: before, d, after, rfl, hd, List.flatMap_cons, hlow⟩
    · match more, hmore with
      | [], hmore =>
        rw [List.append_nil] at hunits
        have hrest : text.flatMap unitsOf = [] ++ u :: tail := hmore.symm
        obtain ⟨before, d, after, rfl, hd, hfront, hlow⟩ := pair_of_high hrest hu
        exact ⟨c :: before, d, after, rfl, hd, by rw [List.flatMap_cons, hfront, List.append_nil, hunits], hlow⟩
      | v :: more, hmore =>
        obtain ⟨rfl, rfl⟩ := List.cons.inj hmore
        rcases unitsOf_cases c with ⟨hc, high, low, hpair, -, hlow⟩ | ⟨-, hnone⟩
        · rw [hpair] at hunits
          obtain ⟨rfl, rfl⟩ := pair_apart hunits hu hlow
          exact ⟨[], c, text, rfl, hc, rfl, low, rfl, hlow⟩
        · exact absurd hu (hnone u (hunits ▸ List.mem_append_right _ List.mem_cons_self))

/-! ### Strings -/

/-- What the console makes of units: the string up to the first zero. -/
def stringOf (units : List (BitVec 16)) : List (BitVec 16) := units.takeWhile (· ≠ 0)

/-- The strings that the console was passed, the earliest first. -/
def strings (t : Trace) : List (List (BitVec 16)) :=
  t.reverse.filterMap fun
    | ⟨.outputString units, _⟩ => some (stringOf units)
    | _ => none

/-- A string ends in the first unit of a pair, and the next one begins with the second. -/
def Torn (strings : List (List (BitVec 16))) : Prop :=
  ∃ earlier first second later, strings = earlier ++ first :: second :: later ∧
    (∃ high ∈ first.getLast?, IsHigh high) ∧ ∃ low ∈ second.head?, IsLow low

/-- A character of two units, the first of which is the last one that its run has room for. -/
def Astride (text : String) : Prop :=
  ∃ before c after, text.toList = before ++ c :: after ∧ Astral c ∧ (before.flatMap unitsOf).length % 126 = 125

theorem stringOf_append_zero (run : List (BitVec 16)) : stringOf (run ++ [0]) = stringOf run := by
  unfold stringOf
  rw [List.takeWhile_append]
  split
  · rename_i hall
    rw [List.takeWhile_cons_of_neg (by simp), List.append_nil]
    exact (List.takeWhile_sublist _).eq_of_length hall |>.symm
  · rfl

theorem stringOf_plain (hplain : 0 ∉ l) : stringOf l = l :=
  List.takeWhile_eq_self_iff.2 fun _ hu => decide_eq_true fun hzero => hplain (hzero ▸ hu)

theorem strings_shown : ∀ (runs : List (List (BitVec 16))) (statuses : List Status),
    strings (List.zipWith shown runs statuses).reverse = (runs.take statuses.length).map stringOf
  | [], _ => by rw [List.zipWith_nil_left, List.take_nil]; rfl
  | run :: runs, [] => rfl
  | run :: runs, status :: statuses => by
    have ih := strings_shown runs statuses
    unfold strings at ih ⊢
    rw [List.reverse_reverse] at ih ⊢
    rw [List.zipWith_cons_cons, List.filterMap_cons, List.length_cons, List.take_succ_cons, List.map_cons, ← ih,
      ← stringOf_append_zero run]
    rfl

/-- The console is passed the first runs, and all of them if none is refused. -/
theorem Sent.strings_eq {ok : Bool} {t : Trace} (h : Sent runs [] ok t) :
    ∃ sent left, runs = sent ++ left ∧ (ok = true → left = []) ∧ strings t = sent.map stringOf := by
  cases h with
  | all statuses count fine =>
    rw [List.append_nil, strings_shown, count, List.take_length]
    exact ⟨runs, [], (List.append_nil _).symm, fun _ => rfl, rfl⟩
  | cut statuses count fine refused =>
    rw [List.append_nil, strings_shown]
    exact ⟨_, _, (List.take_append_drop _ _).symm, nofun, rfl⟩

/-- A string is all of the units, or there is a zero behind it. -/
theorem stringOf_split : ∀ l, ∃ rest, l = stringOf l ++ rest ∧ ∀ u ∈ rest.head?, u = 0
  | [] => ⟨[], rfl, nofun⟩
  | u :: l => by
    by_cases hu : u = 0
    · exact ⟨u :: l, by rw [hu]; rfl, fun _ hv => by cases hv; exact hu⟩
    · obtain ⟨rest, hl, hrest⟩ := stringOf_split l
      have hstring : stringOf (u :: l) = u :: stringOf l := List.takeWhile_cons_of_pos (decide_eq_true hu)
      exact ⟨rest, by rw [hstring, List.cons_append, ← hl], hrest⟩

/-! ### Where a pair comes apart -/

/-- Whatever is followed by another run is made of full ones. -/
theorem Runs.full_before {run : List (BitVec 16)} {earlier later : List (List (BitVec 16))}
    (h : Runs l (earlier ++ run :: later)) : 126 ∣ earlier.flatten.length := by
  rw [List.length_flatten]
  refine List.dvd_sum fun n hn => ?_
  obtain ⟨run', hrun', rfl⟩ := List.mem_map.1 hn
  refine dvd_of_eq (h.full run' ?_).symm
  rw [List.dropLast_append_of_ne_nil (List.cons_ne_nil _ _)]
  exact List.mem_append_left _ hrun'

/-- What begins with a zero does not begin with the second unit of a pair. -/
theorem nil_of_low {rest more : List (BitVec 16)} {low : BitVec 16} (hrest : ∀ u ∈ rest.head?, u = 0)
    (hlow : low ∈ (rest ++ more).head?) (hislow : IsLow low) : rest = [] := by
  match rest, hrest, hlow with
  | [], _, _ => rfl
  | _ :: _, hrest, rfl =>
    rw [hrest low rfl] at hislow
    exact absurd hislow (by decide)

/-- A string that ends in the first unit of a pair is a whole run: no zero comes behind such a unit. -/
theorem astride_of_torn {text : String} {sent left : List (List (BitVec 16))} (hruns : Runs (units text) (sent ++ left))
    (htorn : Torn (sent.map stringOf)) : Astride text := by
  obtain ⟨earlier, first, second, later, heq, ⟨high, hlast, hhigh⟩, -⟩ := htorn
  obtain ⟨before, sent', rfl, rfl, hsent'⟩ := List.map_eq_append_iff.1 heq
  obtain ⟨run, sent'', rfl, rfl, hsent''⟩ := List.map_eq_cons_iff.1 hsent'
  obtain ⟨next, after, rfl, -, -⟩ := List.map_eq_cons_iff.1 hsent''
  obtain ⟨front, hfront⟩ := List.getLast?_eq_some_iff.1 hlast
  obtain ⟨rest, hrun, hrest⟩ := stringOf_split run
  rw [hfront] at hrun
  have hunits : text.toList.flatMap unitsOf =
      (before.flatten ++ front) ++ high :: (rest ++ (next :: after ++ left).flatten) := by
    refine hruns.whole.symm.trans ?_
    rw [List.append_assoc, List.flatten_append, List.cons_append, List.flatten_cons, hrun]
    simp only [List.append_assoc, List.cons_append, List.nil_append]
  obtain ⟨chars, c, chars', htext, hc, hchars, low, hlow, hislow⟩ := pair_of_high hunits hhigh
  have hnil : rest = [] := nil_of_low hrest hlow hislow
  have hfull : 126 ∣ (before ++ [run]).flatten.length := by
    have hparts : Runs (units text) ((before ++ [run]) ++ next :: (after ++ left)) := by
      simpa only [List.append_assoc, List.cons_append, List.nil_append] using hruns
    exact hparts.full_before
  refine ⟨chars, c, chars', htext, hc, ?_⟩
  rw [hnil, List.append_nil] at hrun
  rw [List.flatten_append, List.flatten_singleton, hrun, ← List.append_assoc, ← hchars, List.length_append] at hfull
  have hone : [high].length = 1 := rfl
  omega

/-- Where a pair lies over the end of a run, the run ends in its first unit and the next begins with its second. -/
theorem torn_of_dvd {high low : BitVec 16} {front back : List (BitVec 16)} (hfull : 126 ∣ (front ++ [high]).length)
    (hhigh : IsHigh high) (hlow : IsLow low) : Torn (chunks (front ++ high :: low :: back)) := by
  have hruns := runs_chunks (front ++ [high])
  rcases List.eq_nil_or_concat (chunks (front ++ [high])) with hnil | ⟨runs, run, heq⟩
  · exact absurd hnil (chunks_ne_nil (List.append_ne_nil_of_right_ne_nil front (List.cons_ne_nil _ _)))
  rw [List.concat_eq_append] at heq
  rw [heq] at hruns
  have hrun : run ≠ [] := List.length_pos_iff.1 (hruns.sized run (List.mem_append_right _ List.mem_cons_self)).1
  have hlast : run.getLast? = some high := by
    rw [← List.getLast?_append_of_ne_nil runs.flatten hrun, ← List.flatten_concat, hruns.whole, List.getLast?_concat]
  refine ⟨runs, run, (low :: back).take chunkLength, chunks ((low :: back).drop chunkLength), ?_, ⟨high, hlast, hhigh⟩,
    low, rfl, hlow⟩
  rw [List.append_cons, chunks_append _ _ hfull, heq, chunks_eq (List.cons_ne_nil low back), List.append_assoc]
  rfl

theorem torn_of_astride {text : String} (h : Astride text) : Torn (chunks (units text)) := by
  obtain ⟨before, c, after, htext, hc, hbefore⟩ := h
  obtain ⟨high, low, hpair, hhigh, hlow⟩ : ∃ high low, unitsOf c = [high, low] ∧ IsHigh high ∧ IsLow low := by
    rcases unitsOf_cases c with ⟨-, hpair⟩ | ⟨hplane, -⟩
    · exact hpair
    · exact absurd hc hplane
  have hunits : units text = before.flatMap unitsOf ++ high :: low :: after.flatMap unitsOf := by
    unfold units
    rw [htext, List.flatMap_append, List.flatMap_cons, hpair]
    rfl
  rw [hunits]
  refine torn_of_dvd ?_ hhigh hlow
  rw [List.length_append, List.length_singleton]
  omega

/-- **Where a pair comes apart.**  If a string ends in the first unit of a pair and the next one begins with the second, then
the first was the last that its run had room for; and every such pair is torn where the text is sent to its end and no zero
ends a string before. -/
theorem write_tears (text : String) : Returns tracing (write text) [] fun ok t =>
    (Torn (strings t) → Astride text) ∧
      (ok = true → '\x00' ∉ text.toList → Astride text → Torn (strings t)) := by
  refine (send_sent (chunks (units text)) []).mono fun ok t hsent => ?_
  obtain ⟨sent, left, hchunks, hleft, hstrings⟩ := hsent.strings_eq
  rw [hstrings]
  refine ⟨astride_of_torn (hchunks ▸ runs_chunks (units text)), fun hok htext hastride => ?_⟩
  rw [hleft hok, List.append_nil] at hchunks
  have hplain : ∀ run ∈ sent, stringOf run = run := fun run hrun => stringOf_plain fun hzero =>
    zero_notMem_units htext ((runs_chunks (units text)).whole ▸ List.mem_flatten.2 ⟨run, hchunks ▸ hrun, hzero⟩)
  rw [List.map_congr_left hplain, List.map_id', ← hchunks]
  exact torn_of_astride hastride

/-- What holds wherever runs are sent holds where no call fails. -/
theorem of_send {Q : Bool → Trace → Prop} : ∀ (runs : List (List (BitVec 16))) {t : Trace},
    Returns tracing (send runs) t Q → Q true ((runs.map (shown · Status.success)).reverse ++ t)
  | [], _, h => h
  | run :: rest, t, h => by
    rw [List.map_cons, List.reverse_cons, List.append_assoc]
    exact of_send rest (h Status.success _ rfl)

/-- **A pair can come apart**: a text of 125 letters and a clef is shown as one string that ends in the first unit of the clef
and one that is the second. -/
theorem write_tears_clef :
    ¬∀ text : String, Returns tracing (write text) [] fun _ t => ¬Torn (strings t) := by
  intro h
  obtain ⟨text, htext⟩ : ∃ text : String, text.toList = List.replicate 125 'a' ++ ['𝄞'] :=
    ⟨String.ofList _, String.toList_ofList⟩
  have hchunks : chunks (units text) = [List.replicate 125 0x61 ++ [0xd834], [0xdd1e]] := by
    unfold units
    rw [htext]
    decide +kernel
  have hclef := h text
  unfold write at hclef
  rw [hchunks] at hclef
  refine of_send _ hclef
    ⟨[], List.replicate 125 0x61 ++ [0xd834], [0xdd1e], [], ?_, ⟨0xd834, ?_, by decide⟩, 0xdd1e, rfl, by decide⟩
  · decide +kernel
  · decide +kernel

end Console
end Uefi
end AudioBringup
