import AudioBringup.Uefi.Console
/-!
# Proofs.ConsoleText — what a text is to the console

The units of a text are its encoding with a carriage return before each line feed (`units_eq`), and whoever decodes them reads
that text again (`textOf_units`).  They are cut into runs that are full but for the last one (`runs_chunks`), and a cut can be
made wherever the runs before it are full (`chunks_append`).
-/
namespace AudioBringup
namespace Uefi
namespace Console

/-! ### Units -/

/-- The encoding of a character: its number, or a mark over the high ten and a mark over the low ten of the twenty bits by
which it lies above the first plane. -/
def utf16 (c : Char) : List (BitVec 16) :=
  if c.toNat < 0x10000 then [BitVec.ofNat 16 c.toNat]
  else
    let rest := BitVec.ofNat 20 (c.toNat - 0x10000)
    [0b110110#6 ++ rest.extractLsb' 10 10, 0b110111#6 ++ rest.extractLsb' 0 10]

/-- A text with a carriage return before each line feed. -/
def withReturns (text : List Char) : List Char := text.flatMap fun c => if c = '\n' then ['\x0d', '\n'] else [c]

/-- The first of two units that make up one character. -/
def IsHigh (u : BitVec 16) : Prop := 0xd800 ≤ u.toNat ∧ u.toNat < 0xdc00

/-- The second of two units that make up one character. -/
def IsLow (u : BitVec 16) : Prop := 0xdc00 ≤ u.toNat ∧ u.toNat < 0xe000

instance (u : BitVec 16) : Decidable (IsHigh u) := inferInstanceAs (Decidable (_ ∧ _))

instance (u : BitVec 16) : Decidable (IsLow u) := inferInstanceAs (Decidable (_ ∧ _))

/-- Lies above the first plane, and takes two units. -/
def Astral (c : Char) : Prop := 0x10000 ≤ c.toNat

instance (c : Char) : Decidable (Astral c) := inferInstanceAs (Decidable (_ ≤ _))

variable {c : Char} {u : BitVec 16} {text : List Char} {l : List (BitVec 16)}

theorem toNat_lt (c : Char) : c.toNat < 0x110000 := by
  rcases c.valid with h | ⟨-, h⟩
  · exact Nat.lt_trans h (by decide)
  · exact h

theorem not_surrogate (c : Char) : c.toNat < 0xd800 ∨ 0xe000 ≤ c.toNat := by
  rcases c.valid with h | ⟨h, -⟩
  · exact .inl h
  · exact .inr h

theorem toNat_mark (mark : BitVec 6) (low : BitVec 10) : (mark ++ low).toNat = mark.toNat * 0x400 + low.toNat := by
  rw [BitVec.toNat_append, ← Nat.shiftLeft_add_eq_or_of_lt low.isLt, Nat.shiftLeft_eq]

/-- One unit, for a character of the first plane. -/
theorem utf16_basic (hc : ¬Astral c) : utf16 c = [BitVec.ofNat 16 c.toNat] := if_pos (Nat.lt_of_not_ge hc)

/-- Two units, for any other. -/
theorem utf16_astral (hc : Astral c) : ∃ high low, utf16 c = [high, low] ∧
    high.toNat = 0xd800 + (c.toNat - 0x10000) / 0x400 ∧ low.toNat = 0xdc00 + (c.toNat - 0x10000) % 0x400 := by
  have hrest : (BitVec.ofNat 20 (c.toNat - 0x10000)).toNat = c.toNat - 0x10000 := by
    rw [BitVec.toNat_ofNat]
    have := toNat_lt c
    omega
  have hlt : (c.toNat - 0x10000) / 0x400 < 0x400 := by have := toNat_lt c; omega
  refine ⟨_, _, if_neg (Nat.not_lt.2 hc), ?_, ?_⟩
  · rw [toNat_mark, BitVec.extractLsb'_toNat, hrest, Nat.shiftRight_eq_div_pow]
    exact congrArg (0xd800 + ·) (Nat.mod_eq_of_lt hlt)
  · rw [toNat_mark, BitVec.extractLsb'_toNat, hrest, Nat.shiftRight_zero]
    rfl

theorem unitsOf_eq (hc : c ≠ '\n') : unitsOf c = utf16 c := by
  unfold unitsOf
  rw [if_neg hc]
  by_cases hplane : Astral c
  · obtain ⟨high, low, heq, hhigh, hlow⟩ := utf16_astral hplane
    have hlt := toNat_lt c
    have hfirst : BitVec.ofNat 16 (0xd800 + (c.toNat - 0x10000) / 0x400) = high := by
      apply BitVec.eq_of_toNat_eq
      rw [hhigh, BitVec.toNat_ofNat]
      omega
    have hsecond : BitVec.ofNat 16 (0xdc00 + (c.toNat - 0x10000) % 0x400) = low := by
      apply BitVec.eq_of_toNat_eq
      rw [hlow, BitVec.toNat_ofNat]
      omega
    rw [if_neg (Nat.not_lt.2 hplane), heq, ← hfirst, ← hsecond]
  · rw [if_pos (Nat.lt_of_not_ge hplane), utf16_basic hplane]

theorem flatMap_unitsOf (text : List Char) : text.flatMap unitsOf = (withReturns text).flatMap utf16 := by
  unfold withReturns
  rw [List.flatMap_assoc]
  congr
  funext c
  by_cases hc : c = '\n'
  · rw [hc]
    decide
  · rw [if_neg hc, unitsOf_eq hc, List.flatMap_cons, List.flatMap_nil, List.append_nil]

/-- **The units of a text** are its encoding with a carriage return before each line feed. -/
theorem units_eq (text : String) : units text = (withReturns text.toList).flatMap utf16 := flatMap_unitsOf text.toList

/-! ### Decoding -/

theorem textOf_pair {high low : BitVec 16} (hhigh : IsHigh high) (hlow : IsLow low) (rest : List (BitVec 16)) :
    textOf (high :: low :: rest) =
      Char.ofNat (0x10000 + (high.toNat - 0xd800) * 0x400 + (low.toNat - 0xdc00)) :: textOf rest := by
  rw [textOf, if_pos ⟨hhigh.1, hhigh.2, hlow.1, hlow.2⟩]

/-- A unit that starts no pair is read by itself, whatever comes behind it. -/
theorem textOf_single (hu : ¬IsHigh u) : ∀ rest, textOf (u :: rest) = textOf.charOf u :: textOf rest
  | [] => by rw [textOf, textOf]
  | low :: rest => by rw [textOf, if_neg fun h => hu ⟨h.1, h.2.1⟩]

/-- What is encoded is read as it was. -/
theorem textOf_utf16 : ∀ text : List Char, textOf (text.flatMap utf16) = text
  | [] => rfl
  | c :: text => by
    rw [List.flatMap_cons]
    have hlt := toNat_lt c
    have hplain := not_surrogate c
    by_cases hplane : Astral c
    · obtain ⟨high, low, heq, hhigh, hlow⟩ := utf16_astral hplane
      have hnat : 0x10000 + (high.toNat - 0xd800) * 0x400 + (low.toNat - 0xdc00) = c.toNat := by
        unfold Astral at hplane
        omega
      rw [heq, List.cons_append, List.cons_append, List.nil_append,
        textOf_pair (by unfold IsHigh; omega) (by unfold IsLow; omega), textOf_utf16 text, hnat, Char.ofNat_toNat]
    · have hnat : (BitVec.ofNat 16 c.toNat).toNat = c.toNat := by
        unfold Astral at hplane
        rw [BitVec.toNat_ofNat]
        omega
      rw [utf16_basic hplane, List.cons_append, List.nil_append, textOf_single (by unfold IsHigh; omega), textOf_utf16 text,
        textOf.charOf, hnat, if_neg (by omega), Char.ofNat_toNat]

/-- **The text can be read from its units again**, with a carriage return before each line feed. -/
theorem textOf_units (text : String) : textOf (units text) = withReturns text.toList := by
  rw [units_eq, textOf_utf16]

/-! ### Zeros and pairs among the units -/

theorem zero_notMem_unitsOf (hc : c ≠ '\x00') : 0 ∉ unitsOf c := by
  by_cases hreturn : c = '\n'
  · rw [hreturn]
    decide
  rw [unitsOf_eq hreturn]
  by_cases hplane : Astral c
  · obtain ⟨high, low, heq, hhigh, hlow⟩ := utf16_astral hplane
    have hzero : (0 : BitVec 16).toNat = 0 := rfl
    rw [heq]
    rintro (_ | ⟨_, _ | ⟨_, ⟨⟩⟩⟩)
    · omega
    · omega
  · rw [utf16_basic hplane, List.mem_singleton]
    intro hzero
    refine hc (Char.toNat_inj.1 ?_)
    have hnat : 0 = c.toNat % 0x10000 := (congrArg BitVec.toNat hzero).trans (BitVec.toNat_ofNat _ _)
    unfold Astral at hplane
    change c.toNat = 0
    omega

/-- A text without the character zero has no zero among its units. -/
theorem zero_notMem_units {text : String} (htext : '\x00' ∉ text.toList) : 0 ∉ units text := by
  unfold units
  rw [List.mem_flatMap]
  rintro ⟨c, hc, hzero⟩
  exact zero_notMem_unitsOf (fun h => htext (h ▸ hc)) hzero

/-! ### Runs -/

/-- A list of units in the runs that it is sent in. -/
structure Runs (l : List (BitVec 16)) (runs : List (List (BitVec 16))) : Prop where
  whole : runs.flatten = l
  /-- the last one may be shorter -/
  full : ∀ run ∈ runs.dropLast, run.length = 126
  sized : ∀ run ∈ runs, 1 ≤ run.length ∧ run.length ≤ 126

theorem chunks_nil : chunks [] = [] := rfl

/-- What is held goes into the next run, with what follows it. -/
theorem chunksFrom_eq : ∀ (l held : List (BitVec 16)), held.length ≤ chunkLength → held.reverse ++ l ≠ [] →
    chunksFrom held l =
      (held.reverse ++ l).take chunkLength :: chunks ((held.reverse ++ l).drop chunkLength)
  | [], held, hheld, hne => by
    rw [List.append_nil] at hne ⊢
    have hlength : held.reverse.length ≤ chunkLength := by rwa [List.length_reverse]
    rw [List.take_of_length_le hlength, List.drop_of_length_le hlength, chunks_nil, chunksFrom,
      if_neg (by rwa [List.isEmpty_iff, ← List.reverse_eq_nil_iff])]
  | u :: rest, held, hheld, _ => by
    rw [chunksFrom]
    by_cases hfull : chunkLength ≤ held.length
    · have hlength : held.reverse.length = chunkLength := by
        rw [List.length_reverse]
        exact Nat.le_antisymm hheld hfull
      rw [if_pos hfull, ← hlength, List.take_left, List.drop_left]
      rfl
    · rw [if_neg hfull, chunksFrom_eq rest (u :: held) (Nat.lt_of_not_le hfull) (by simp), List.reverse_cons,
        List.append_assoc]
      rfl

/-- The first run is as long as can be, and the others are those of what is left. -/
theorem chunks_eq (hl : l ≠ []) : chunks l = l.take chunkLength :: chunks (l.drop chunkLength) :=
  chunksFrom_eq l [] (Nat.zero_le _) hl

theorem drop_lt (hl : l ≠ []) : (l.drop chunkLength).length < l.length := by
  rw [List.length_drop]
  exact Nat.sub_lt (List.length_pos_iff.2 hl) (by decide)

theorem chunks_ne_nil (hl : l ≠ []) : chunks l ≠ [] := by
  rw [chunks_eq hl]
  exact List.cons_ne_nil _ _

/-- **The runs of a list** make it up: all of them are full but for the last one, which is not empty. -/
theorem runs_chunks (l : List (BitVec 16)) : Runs l (chunks l) := by
  by_cases hl : l = []
  · subst hl
    exact ⟨rfl, nofun, nofun⟩
  have hpos : 0 < l.length := List.length_pos_iff.2 hl
  have ih : Runs (l.drop chunkLength) (chunks (l.drop chunkLength)) := runs_chunks _
  rw [chunks_eq hl]
  refine ⟨?_, ?_, List.forall_mem_cons.2 ⟨?_, ih.sized⟩⟩
  · rw [List.flatten_cons, ih.whole, List.take_append_drop]
  · by_cases hleft : l.drop chunkLength = []
    · rw [hleft]
      exact nofun
    · -- what is left of a list is behind a full run
      have hlong : chunkLength < l.length := Nat.lt_of_not_le fun h => hleft (List.drop_of_length_le h)
      rw [List.dropLast_cons_of_ne_nil (chunks_ne_nil hleft)]
      exact List.forall_mem_cons.2 ⟨List.length_take_of_le (Nat.le_of_lt hlong), ih.full⟩
  · rw [List.length_take]
    unfold chunkLength
    omega
termination_by l.length
decreasing_by exact drop_lt hl

/-- What fills its runs is cut up by itself, whatever comes behind it. -/
theorem chunks_append (a b : List (BitVec 16)) (ha : 126 ∣ a.length) : chunks (a ++ b) = chunks a ++ chunks b := by
  by_cases hnil : a = []
  · subst hnil
    rfl
  have hfull : chunkLength ≤ a.length := Nat.le_of_dvd (List.length_pos_iff.2 hnil) ha
  have hleft : 126 ∣ (a.drop chunkLength).length := by
    rw [List.length_drop]
    exact Nat.dvd_sub ha (Nat.dvd_refl _)
  rw [chunks_eq (List.append_ne_nil_of_left_ne_nil hnil b), chunks_eq hnil, List.take_append_of_le_length hfull,
    List.drop_append_of_le_length hfull, chunks_append _ b hleft]
  rfl
termination_by a.length
decreasing_by exact drop_lt hnil

end Console
end Uefi
end AudioBringup
