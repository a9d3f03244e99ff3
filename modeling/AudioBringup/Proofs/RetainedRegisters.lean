import AudioBringup.Proofs.Arena
import AudioBringup.Proofs.Routine
/-!
# Proofs.RetainedRegisters — registers that read as they were written

The registers of stream synchronization and of the streams hold what was last written to them (`History.held`), and read as
what they hold (`retaining`); the platform may answer anything else as it likes.  What keeps clear of some bytes leaves what
they hold (`Grows.held`), and what is known of every platform is known of this one (`Ensures.retaining`).
-/
namespace AudioBringup

open Procedure

/-! ### What they hold -/

/-- The bytes of stream synchronization and of the stream descriptors. -/
def Register.Retained (i : Nat) : Prop := 0x38 ≤ i ∧ i < 0x3c ∨ 0x80 ≤ i

/-- What the registers hold after the writes that went through, byte by byte, where they held `init` before all of them. -/
def History.held (init : Nat → Byte) : History → Nat → Byte
  | [] => init
  | ⟨.write w o v, .ok _⟩ :: h => storeLow (held init h) o.toNat w.bytes v
  | _ :: h => held init h

/-- A read finds each of the retained bytes as the registers hold it. -/
def Made.ReadsBack (b : Nat → Byte) : Made → Prop
  | ⟨.read w o, .ok v⟩ => ∀ i < w.bytes, Register.Retained (o.toNat + i) → v.extractLsb' (8 * i) 8 = b (o.toNat + i)
  | _ => True

/-- The platform may answer whatever it likes, but retained bytes read as they were last written. -/
def retaining (init : Nat → Byte) : World Call Call.Answer History := fun c h a h' =>
  h' = ⟨c, a⟩ :: h ∧ Made.ReadsBack (h.held init) ⟨c, a⟩

/-! ### What keeps clear of them -/

/-- Writes no byte of a register that is `A`. -/
def Call.Avoids (A : Nat → Prop) : Call → Prop
  | .write w o _ => ∀ i < w.bytes, ¬A (o.toNat + i)
  | _ => True

theorem Call.Avoids.mono {A B : Nat → Prop} (hAB : ∀ i, B i → A i) : ∀ {c : Call}, c.Avoids A → c.Avoids B
  | .write .., hc => fun i hi hB => hc i hi (hAB _ hB)
  | .candidates, _ | .identify _, _ | .bindExclusive _, _ | .release, _ | .read .., _ | .allocate _, _ | .free _, _
  | .stall _, _ | .armTimer _, _ | .timerExpired, _ | .cancelTimer, _ | .load32 _, _ | .load64 _, _ | .store32 .., _
  | .store64 .., _ | .fill .., _ | .clear .., _ | .note _, _ => trivial

theorem Call.avoids_of_not_write {A : Nat → Prop} {c : Call} (hc : ∀ w o v, c ≠ .write w o v) : c.Avoids A := by
  cases c with
  | write w o v => exact absurd rfl (hc w o v)
  | _ => trivial

/-- An exchange touches none of the retained registers. -/
theorem Call.Posting.avoids {c : Call} (hc : c.Posting) : c.Avoids Register.Retained := by
  cases c with
  | write w o v =>
    have hplace : ∀ p ∈ Call.postbox, 0x48 ≤ p.2.toNat ∧ p.2.toNat + p.1.bytes ≤ 0x6a := by decide
    obtain ⟨hfirst, hlast⟩ : 0x48 ≤ o.toNat ∧ o.toNat + w.bytes ≤ 0x6a := hplace (w, o) hc
    intro i hi hretained
    rcases hretained with hin | hin <;> omega
  | _ => trivial

namespace History

variable {init : Nat → Byte} {h h' : History} {A : Nat → Prop}

theorem held_of_avoids {c : Call} {a : c.Answer} {i : Nat} (hc : c.Avoids A) (hi : A i) :
    held init (⟨c, a⟩ :: h) i = h.held init i := by
  cases c with
  | write w o v =>
    cases a with
    | error e => rfl
    | ok u =>
      refine storeLow_of_disjoint (Classical.byContradiction fun hin => ?_)
      refine hc (i - o.toNat) (by omega) ?_
      rwa [Nat.add_sub_cancel' (by omega)]
  | _ => rfl

theorem Grows.held (hg : h.Grows (Call.Avoids A) h') {i : Nat} (hi : A i) : h'.held init i = h.held init i :=
  hg.of_stable (K := fun h' => h'.held init i = h.held init i) (fun _ _ _ hc hh => (held_of_avoids hc hi).trans hh) rfl

end History

/-! ### Numbers in bytes -/

section
variable {m : Nat → Byte} {p : Nat}

theorem byte_written (v : BitVec 8) : storeLow m p 1 (v.setWidth 32) p = v := by
  rw [storeLow, if_pos ⟨Nat.le_refl p, Nat.lt_succ_self p⟩, Nat.sub_self, ← BitVec.setWidth_eq_extractLsb' (by decide)]
  simp

theorem load16_written (v : BitVec 16) : load16 (storeLow m p 2 (v.setWidth 32)) p = v := by
  refine (load16_storeLow (k := 0) (v.setWidth 32) (by decide)).trans ?_
  rw [Nat.mul_zero, ← BitVec.setWidth_eq_extractLsb' (by decide)]
  simp

theorem load32_written (v : BitVec 32) : load32 (storeLow m p 4 v) p = v :=
  (load32_storeLow (k := 0) v (by decide)).trans BitVec.extractLsb'_eq_self

/-- Two bytes that are read are the number in them. -/
theorem setWidth_eq_load16 {v : BitVec 32} (h : ∀ i < 2, v.extractLsb' (8 * i) 8 = m (p + i)) :
    v.setWidth 16 = load16 m p := by
  rw [load16, ← h 1 (by decide), ← show _ = m p from h 0 (by decide),
    BitVec.extractLsb'_append_extractLsb'_eq_extractLsb' (by decide)]
  exact BitVec.setWidth_eq_extractLsb' (by decide)

theorem eq_load32 {v : BitVec 32} (h : ∀ i < 4, v.extractLsb' (8 * i) 8 = m (p + i)) : v = load32 m p := by
  rw [load32, ← h 3 (by decide), ← h 2 (by decide), ← h 1 (by decide), ← show _ = m p from h 0 (by decide),
    BitVec.extractLsb'_append_extractLsb'_eq_extractLsb' (by decide),
    BitVec.extractLsb'_append_extractLsb'_eq_extractLsb' (by decide),
    BitVec.extractLsb'_append_extractLsb'_eq_extractLsb' (by decide)]
  exact BitVec.extractLsb'_eq_self.symm

end

/-! ### One rule per access -/

namespace Procedure

variable {σ α β : Type} {init : Nat → Byte} {n : Nat} {s : σ} {h : History} {o : BitVec 32}

theorem Ensures.retaining {x : Procedure σ α} {Q : Outcome σ α History} (hx : Ensures recording n x s h Q) :
    Ensures (retaining init) n x s h Q := Program.Ensures.restrict (fun _ _ _ _ => And.left) hx

theorem Confined.ifDone {τ : Type} {P : Call → Prop} {f : σ → τ} {x : Procedure σ α} (hx : Confined P f x) :
    Ensures (retaining init) n x s h (.ifDone fun _ s' h' => f s' = f s ∧ h.Grows P h') :=
  (hx n s h).retaining.ifDone fun _ _ _ => id

theorem ensures_write_retained {w : Width} {v : BitVec 32} {f : Unit → Procedure σ α} {ok : α → σ → History → Prop}
    (hf : Ensures (retaining init) n (f ()) s (⟨.write w o v, Except.ok ()⟩ :: h) (.ifDone ok)) :
    Ensures (retaining init) n (write w o v >>= f) s h (.ifDone ok) := by
  refine ensures_bind.2 (ensures_write.2 ?_)
  rintro (e | ⟨⟩) _ ⟨rfl, -⟩
  · trivial
  · exact hf

theorem ensures_read8_retained (ho : Register.Retained o.toNat) : Ensures (retaining init) n (read8 o) s h
    (.ifDone fun v s' h' => s' = s ∧ v = h.held init o.toNat ∧ ∃ a, h' = ⟨.read .byte o, a⟩ :: h) := by
  refine ensures_bind.2 (ensures_read.2 ?_)
  rintro (e | v) _ ⟨rfl, hback⟩
  · trivial
  · exact ⟨rfl, (BitVec.setWidth_eq_extractLsb' (by decide)).trans (hback 0 (by decide) ho), _, rfl⟩

theorem ensures_read16_retained (ho : ∀ i < 2, Register.Retained (o.toNat + i)) : Ensures (retaining init) n (read16 o) s h
    (.ifDone fun v s' h' => s' = s ∧ v = load16 (h.held init) o.toNat ∧ ∃ a, h' = ⟨.read .word o, a⟩ :: h) := by
  refine ensures_bind.2 (ensures_read.2 ?_)
  rintro (e | v) _ ⟨rfl, hback⟩
  · trivial
  · exact ⟨rfl, setWidth_eq_load16 fun i hi => hback i hi (ho i hi), _, rfl⟩

theorem ensures_read32_retained (ho : ∀ i < 4, Register.Retained (o.toNat + i)) : Ensures (retaining init) n (read32 o) s h
    (.ifDone fun v s' h' => s' = s ∧ v = load32 (h.held init) o.toNat ∧ ∃ a, h' = ⟨.read .dword o, a⟩ :: h) := by
  refine ensures_read.2 ?_
  rintro (e | v) _ ⟨rfl, hback⟩
  · trivial
  · exact ⟨rfl, eq_load32 fun i hi => hback i hi (ho i hi), _, rfl⟩

end Procedure

end AudioBringup
