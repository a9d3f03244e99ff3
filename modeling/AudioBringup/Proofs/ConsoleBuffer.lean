import AudioBringup.Proofs.ConsoleText
import AudioBringup.Proofs.FirmwareCalls
/-!
# Proofs.ConsoleBuffer — a text gathered in one buffer and sent run by run

A write gathers units in a buffer of `slotCount` slots, which it sends where two slots are left and fills again from the
front; what was sent stays behind the units that are new.  `gather` does so slot by slot, and comes to what `write` does
(`gather_eq`): no slot is asked for that there is not, and nothing left over from an earlier run is shown.  So all runs of the
text are sent in their order, up to the first that is refused (`write_delivers`).
-/
namespace AudioBringup
namespace Uefi
namespace Console

open Firmware

/-! ### The buffer -/

/-- Makes one call of the console.  The result tells whether it did not fail. -/
def output (units : List (BitVec 16)) : Firmware Bool := do
  let status : Status ← ask (.outputString units)
  return !status.isError

/-- How many units the buffer has room for. -/
def slotCount : Nat := 128

/-- The units that are not sent yet are in the first `filled` slots. -/
structure Buffer where
  slots : List (BitVec 16)
  filled : Nat

namespace Buffer

/-- The buffer that a write starts with. -/
def blank : Buffer := ⟨List.replicate slotCount 0, 0⟩

/-- Puts a unit behind those that are there, if there is a slot for it. -/
def store? (b : Buffer) (u : BitVec 16) : Option Buffer :=
  if b.filled < b.slots.length then some { b with slots := b.slots.set b.filled u } else none

/-- What is read from the front: all units up to a zero, and that zero.  None is read if that would lead out of the slots. -/
def string? (b : Buffer) : Option (List (BitVec 16)) :=
  if 0 ∈ b.slots then some (b.slots.takeWhile (· ≠ 0) ++ [0]) else none

/-- Puts a zero behind the units, and reads them. -/
def close? (b : Buffer) : Option (Buffer × List (BitVec 16)) := do
  let b ← b.store? 0
  return (b, ← b.string?)

/-- Sends the units, if there are any.  The result tells whether they were sent. -/
def flush (b : Buffer) : Firmware (Option (Bool × Buffer)) :=
  if b.filled = 0 then return some (true, b)
  else
    match b.close? with
    | none => return none
    | some (b, units) => do return some (← output units, b)

/-- Sends the units where no more than two slots are left, and starts from the front then. -/
def makeRoom (b : Buffer) : Firmware (Option (Bool × Buffer)) :=
  if slotCount - 2 ≤ b.filled then do
    match ← b.flush with
    | none => return none
    | some (sent, b) => return some (sent, { b with filled := 0 })
  else return some (true, b)

end Buffer

/-- Writes units through the buffer.  The result tells whether all were sent; there is none where a slot was asked for that
there is not. -/
def gather : Buffer → List (BitVec 16) → Firmware (Option Bool)
  | b, [] => do
    match ← b.flush with
    | none => return none
    | some (sent, _) => return some sent
  | b, u :: rest => do
    match ← b.makeRoom with
    | none => return none
    | some (false, _) => return some false
    | some (true, b) =>
      match b.store? u with
      | none => return none
      | some b => gather { b with filled := b.filled + 1 } rest

/-! ### What it holds -/

/-- The buffer holds these units, the latest first, and there is room for one more and a zero behind it. -/
structure Buffer.Gathers (b : Buffer) (held : List (BitVec 16)) : Prop where
  slots : b.slots.length = slotCount
  filled : b.filled = held.length
  bounded : held.length ≤ chunkLength
  front : b.slots.take b.filled = held.reverse
  plain : 0 ∉ held

namespace Buffer.Gathers
variable {b : Buffer} {u : BitVec 16} {held : List (BitVec 16)}

theorem blank : Gathers .blank [] := ⟨List.length_replicate, rfl, Nat.zero_le _, rfl, List.not_mem_nil⟩

theorem inside (h : b.Gathers held) : b.filled < b.slots.length := by
  rw [h.slots, h.filled]
  exact Nat.lt_of_le_of_lt h.bounded (by decide)

theorem store (h : b.Gathers held) (u : BitVec 16) : b.store? u = some { b with slots := b.slots.set b.filled u } :=
  if_pos h.inside

/-- The slots with a unit behind those that are held. -/
theorem set_eq (h : b.Gathers held) (u : BitVec 16) :
    b.slots.set b.filled u = held.reverse ++ u :: b.slots.drop (b.filled + 1) := by
  rw [List.set_eq_take_append_cons_drop, if_pos h.inside, h.front]

/-- A unit more is held. -/
theorem push (h : b.Gathers held) (hroom : held.length < chunkLength) (hu : u ≠ 0) :
    Gathers { slots := b.slots.set b.filled u, filled := b.filled + 1 } (u :: held) where
  slots := by rw [List.length_set, h.slots]
  filled := congrArg (· + 1) h.filled
  bounded := hroom
  front := by
    have hlength : b.filled + 1 = (held.reverse ++ [u]).length := by
      rw [h.filled, List.length_append, List.length_reverse]
      rfl
    rw [h.set_eq, List.append_cons, hlength, List.take_left, List.reverse_cons]
  plain := List.not_mem_cons_of_ne_of_not_mem hu.symm h.plain

/-- Whatever was held, the buffer starts from the front again. -/
theorem restart (h : b.Gathers held) : Gathers { slots := b.slots.set b.filled 0, filled := 0 } [] :=
  ⟨by rw [List.length_set, h.slots], rfl, Nat.zero_le _, rfl, List.not_mem_nil⟩

/-- What is read from the front is what is held, and nothing behind it. -/
theorem close (h : b.Gathers held) :
    b.close? = some ({ b with slots := b.slots.set b.filled 0 }, held.reverse ++ [0]) := by
  have hplain : ∀ v ∈ held.reverse, decide (v ≠ 0) = true := fun v hv =>
    decide_eq_true fun hzero => h.plain (hzero ▸ List.mem_reverse.1 hv)
  have hread : (held.reverse ++ 0 :: b.slots.drop (b.filled + 1)).takeWhile (· ≠ 0) = held.reverse := by
    rw [List.takeWhile_append_of_pos hplain]
    exact List.append_nil _
  unfold close? string?
  rw [h.store]
  simp only [Option.bind_eq_bind, Option.bind_some, h.set_eq, hread]
  rw [if_pos (List.mem_append_right _ List.mem_cons_self)]
  rfl

theorem flush_nil (h : b.Gathers []) : b.flush = pure (some (true, b)) := if_pos h.filled

theorem flush_eq (h : b.Gathers held) (hheld : held ≠ []) : b.flush = do
    return some (← output (held.reverse ++ [0]), { b with slots := b.slots.set b.filled 0 }) := by
  unfold flush
  rw [h.close, if_neg (by rwa [h.filled, List.length_eq_zero_iff])]

theorem makeRoom_of_lt (h : b.Gathers held) (hroom : held.length < chunkLength) : b.makeRoom = pure (some (true, b)) :=
  if_neg (by rw [h.filled]; exact Nat.not_le_of_lt hroom)

theorem makeRoom_of_full (h : b.Gathers held) (hfull : held.length = chunkLength) : b.makeRoom = do
    return some (← output (held.reverse ++ [0]), { slots := b.slots.set b.filled 0, filled := 0 }) := by
  have hroom : slotCount - 2 ≤ b.filled := Nat.le_of_eq (hfull.symm.trans h.filled.symm)
  unfold makeRoom
  rw [if_pos hroom, h.flush_eq (by rintro rfl; cases hfull)]
  rfl

end Buffer.Gathers

/-- What follows a call depends on no more than whether it failed. -/
theorem bind_output_congr {units : List (BitVec 16)} {α β γ : Type} {f : Bool → Firmware α} {g : α → Firmware γ}
    {f' : Bool → Firmware β} {g' : β → Firmware γ} (h : ∀ sent, (f sent >>= g) = (f' sent >>= g')) :
    ((output units >>= f) >>= g) = ((output units >>= f') >>= g') :=
  congrArg (Program.ask (Call.outputString units)) (funext fun (status : Status) => h !status.isError)

/-- One call, then the rest if it did not fail. -/
theorem send_cons (run : List (BitVec 16)) (rest : List (List (BitVec 16))) :
    send (run :: rest) = do if ← output (run ++ [0]) then send rest else return false := by
  refine congrArg (Program.ask (Call.outputString (run ++ [0]))) (funext fun (status : Status) => ?_)
  change (if status.isError = true then _ else send rest) = if (!status.isError) = true then send rest else _
  cases status.isError <;> rfl

/-- **The buffer is no more than a way to cut the units into runs**: what was held and what comes is sent run by run. -/
theorem gather_eq : ∀ (l : List (BitVec 16)) {b : Buffer} {held : List (BitVec 16)}, b.Gathers held → 0 ∉ l →
    gather b l = do return some (← send (chunksFrom held l))
  | [], b, [], h, _ => by
    unfold gather
    rw [h.flush_nil]
    rfl
  | [], b, v :: held, h, _ => by
    have hlast : chunksFrom (v :: held) [] = [(v :: held).reverse] := rfl
    unfold gather
    rw [h.flush_eq (List.cons_ne_nil _ _), hlast, send_cons]
    refine bind_output_congr fun sent => ?_
    cases sent <;> rfl
  | u :: rest, b, held, h, hplain => by
    obtain ⟨hu, hrest⟩ := not_or.1 (mt List.mem_cons.2 hplain)
    unfold gather
    rw [chunksFrom]
    rcases Nat.lt_or_eq_of_le h.bounded with hroom | hfull
    · rw [h.makeRoom_of_lt hroom, if_neg (Nat.not_le_of_lt hroom), ← gather_eq rest (h.push hroom (Ne.symm hu)) hrest]
      change (match b.store? u with
        | none => pure none
        | some b => gather { b with filled := b.filled + 1 } rest) = _
      rw [h.store]
    · rw [h.makeRoom_of_full hfull, if_pos (Nat.le_of_eq hfull.symm), send_cons]
      refine bind_output_congr fun sent => ?_
      cases sent with
      | false => rfl
      | true =>
        change (match Buffer.store? { slots := b.slots.set b.filled 0, filled := 0 } u with
          | none => pure none
          | some b => gather { b with filled := b.filled + 1 } rest) = (do return some (← send (chunksFrom [u] rest)))
        rw [h.restart.store, ← gather_eq rest (h.restart.push (by decide) (Ne.symm hu)) hrest]

/-! ### What is sent -/

/-- A call of the console that was answered so. -/
def shown (run : List (BitVec 16)) (status : Status) : Served := ⟨.outputString (run ++ [0]), status⟩

/-- The runs were sent in their order up to the first that was refused, and the result tells whether none was. -/
inductive Sent (runs : List (List (BitVec 16))) (t : Trace) : Bool → Trace → Prop
  | all (statuses : List Status) (count : statuses.length = runs.length) (fine : ∀ s ∈ statuses, s.isError = false) :
    Sent runs t true ((List.zipWith shown runs statuses).reverse ++ t)
  | cut (statuses : List Status) {refusal : Status} (count : statuses.length < runs.length)
    (fine : ∀ s ∈ statuses, s.isError = false) (refused : refusal.isError = true) :
    Sent runs t false ((List.zipWith shown runs (statuses ++ [refusal])).reverse ++ t)

theorem Sent.cons {run : List (BitVec 16)} {rest : List (List (BitVec 16))} {status : Status} {t t' : Trace} {ok : Bool}
    (hstatus : status.isError = false) (h : Sent rest (shown run status :: t) ok t') : Sent (run :: rest) t ok t' := by
  have hlatest : ∀ calls : List Served, calls.reverse ++ shown run status :: t = (shown run status :: calls).reverse ++ t :=
    fun calls => by rw [List.reverse_cons, List.append_assoc]; rfl
  cases h with
  | all _ count fine =>
    rw [hlatest]
    exact .all (status :: _) (congrArg (· + 1) count) (List.forall_mem_cons.2 ⟨hstatus, fine⟩)
  | cut _ count fine refused =>
    rw [hlatest]
    exact .cut (status :: _) (Nat.succ_lt_succ count) (List.forall_mem_cons.2 ⟨hstatus, fine⟩) refused

theorem send_sent : ∀ (runs : List (List (BitVec 16))) (t : Trace), Returns tracing (send runs) t (Sent runs t)
  | [], t => Sent.all [] rfl nofun
  | run :: rest, t => by
    rw [send_cons, returns_bind]
    rintro (status : Status) _ rfl
    change Returns tracing (if (!status.isError) = true then send rest else pure false) (shown run status :: t) _
    cases hstatus : status.isError with
    | true =>
      have hcut : Sent (run :: rest) t false _ := .cut [] (Nat.succ_pos _) nofun hstatus
      rwa [List.nil_append, List.zipWith_cons_cons, List.zipWith_nil_right] at hcut
    | false => exact (send_sent rest _).mono fun _ _ h => h.cons hstatus

/-- **A write loses and invents nothing.**  The encoding of the text, with a carriage return before each line feed, is cut into
runs that are sent in their order up to the first that is refused; and the buffer that they are gathered in is never
left. -/
theorem write_delivers (text : String) (htext : '\x00' ∉ text.toList) :
    ∃ runs, Runs ((withReturns text.toList).flatMap utf16) runs ∧
      gather .blank (units text) = (do return some (← write text)) ∧
      ∀ t, Returns tracing (write text) t (Sent runs t) := by
  refine ⟨chunks (units text), ?_, gather_eq _ .blank (zero_notMem_units htext), send_sent _⟩
  rw [← units_eq]
  exact runs_chunks _

/-- Two runs, cut between a carriage return and its line feed. -/
theorem write_delivers_twice : '\x00' ∉ (String.ofList (List.replicate 125 'a' ++ ['\n', '𝄞'])).toList ∧
    ∃ runs, Runs ((withReturns (String.ofList (List.replicate 125 'a' ++ ['\n', '𝄞'])).toList).flatMap utf16) runs ∧
      gather .blank (units (String.ofList (List.replicate 125 'a' ++ ['\n', '𝄞']))) =
        (do return some (← write (String.ofList (List.replicate 125 'a' ++ ['\n', '𝄞'])))) ∧
      ∀ t, Returns tracing (write (String.ofList (List.replicate 125 'a' ++ ['\n', '𝄞']))) t (Sent runs t) := by
  have htext : '\x00' ∉ (String.ofList (List.replicate 125 'a' ++ ['\n', '𝄞'])).toList := by
    rw [String.toList_ofList]
    decide
  exact ⟨htext, write_delivers _ htext⟩

end Console
end Uefi
end AudioBringup
