import AudioBringup.Codec.Verb
import AudioBringup.Proofs.BitFields
/-!
# Proofs.CommandWords — what a word holds of its command

A word holds four bits of the codec, seven of the node, the whole id of the verb and as much of the payload as the verb
leaves room for (`Command.carried`), and the bit for indirect addressing is clear.  Those come back when the word is taken
apart (`decode_encode`), and a word that is taken apart and put together again is the same but for that bit
(`encode_decode`).
-/
namespace AudioBringup
namespace Command

open Bits

/-- What a word holds of its command. -/
def carried (c : Command) : Command where
  codec := c.codec % 16
  node := c.node % 128
  verb := c.verb
  payload := match c.verb with
    | .short _ => c.payload % 256
    | .long _ => c.payload

/-- The low 20 bits of the word: the verb with its payload. -/
def request (c : Command) : BitVec 20 :=
  match c.verb with
  | .short id => id ++ c.payload.setWidth 8
  | .long id => id ++ c.payload

/-! ### Field by field -/

/-- The bits from `start` on that come before `stop`. -/
def bits (start stop : Nat) : Bits.Range := ⟨.included start, .excluded stop⟩

/-- The verb with its payload written into a word, each of them held against its place. -/
def writeRequest (c : Command) (word : BitVec 32) : Except Misuse (BitVec 32) :=
  match c.verb with
  | .short _ => do
    let word ← writeBits word (bits 8 20) (c.verb.id.setWidth 32)
    writeBits word (bits 0 8) ((c.payload &&& 0xff).setWidth 32)
  | .long _ => do
    let word ← writeBits word (bits 16 20) (c.verb.id.setWidth 32)
    writeBits word (bits 0 16) (c.payload.setWidth 32)

/-- The word put together field by field, each field held against its place; the bit for indirect addressing is cleared
where the node sets it. -/
def assemble (c : Command) : Except Misuse (BitVec 32) := do
  let word ← writeBits 0#32 (bits 28 32) ((c.codec &&& 0xf).setWidth 32)
  let word ← writeBits word (bits 20 28) (c.node.setWidth 32)
  let word ← c.writeRequest word
  if ← readBit word 27 then writeBit word 27 false else Except.ok word

/-- The word taken apart field by field, as `width` says. -/
def takeApart (word : BitVec 32) (width : VerbWidth) : Except Misuse Command := do
  let codec ← readBits word (bits 28 32)
  let node ← readBits word (bits 20 28)
  match width with
  | .short =>
    let id ← readBits word (bits 8 20)
    let payload ← readBits word (bits 0 8)
    return ⟨codec.setWidth 8, node.setWidth 8, .ofId .short (id.setWidth 16), payload.setWidth 16⟩
  | .long =>
    let id ← readBits word (bits 16 20)
    let payload ← readBits word (bits 0 16)
    return ⟨codec.setWidth 8, node.setWidth 8, .ofId .long (id.setWidth 16), payload.setWidth 16⟩

theorem bind_of_ok {α β : Type} {x : Except Misuse α} {f : α → Except Misuse β} {a : α} {r : Except Misuse β}
    (hx : x = .ok a) (hf : f a = r) : x >>= f = r := by
  rw [hx]
  exact hf

theorem setWidth_id (v : Verb) : v.id.setWidth 32 = match v with
    | .short id => id.setWidth 32
    | .long id => id.setWidth 32 := by
  cases v with
  | short id =>
    apply BitVec.eq_of_toNat_eq
    simp only [Verb.id, BitVec.toNat_setWidth]
    omega
  | long id =>
    apply BitVec.eq_of_toNat_eq
    simp only [Verb.id, BitVec.toNat_setWidth]
    omega

/-- Both fields of the verb are one field of the word. -/
theorem writeRequest_eq (c : Command) (word : BitVec 32) : c.writeRequest word = .ok (withField word 0 c.request) := by
  obtain ⟨codec, node, verb, payload⟩ := c
  cases verb with
  | short id =>
    have hpayload : (payload &&& 0xff).setWidth 32 = (payload.setWidth 8).setWidth 32 :=
      setWidth_and_lowMask (show 8 ≤ 16 by decide) payload 32
    have hid := writeBits_eq_withField (by decide) (show 8 + 12 = 20 from rfl) (by decide) word id
    have hlow := writeBits_eq_withField (by decide) (show 0 + 8 = 8 from rfl) (by decide) (withField word 8 id)
      (payload.setWidth 8)
    refine bind_of_ok (a := withField word 8 id) ?_ ?_
    · rw [setWidth_id]
      exact hid
    · rw [hpayload, bits, hlow, withField_withField (show 0 + (12 + 8) ≤ 32 by decide) word id]
      rfl
  | long id =>
    have hid := writeBits_eq_withField (by decide) (show 16 + 4 = 20 from rfl) (by decide) word id
    have hlow := writeBits_eq_withField (by decide) (show 0 + 16 = 16 from rfl) (by decide) (withField word 16 id) payload
    refine bind_of_ok (a := withField word 16 id) ?_ ?_
    · rw [setWidth_id]
      exact hid
    · rw [bits, hlow, withField_withField (show 0 + (4 + 16) ≤ 32 by decide) word id]
      rfl

/-! ### The bits of a word -/

theorem encode_eq (c : Command) : c.encode = c.codec.setWidth 4 ++ 0#1 ++ c.node.setWidth 7 ++ c.request := rfl

theorem getLsbD_encode (c : Command) (i : Nat) : c.encode.getLsbD i =
    if i < 20 then c.request.getLsbD i
    else if i < 27 then c.node.getLsbD (i - 20)
    else if 28 ≤ i ∧ i < 32 then c.codec.getLsbD (i - 28)
    else false := by
  rw [encode_eq, BitVec.getLsbD_append, BitVec.getLsbD_append, BitVec.getLsbD_append, BitVec.getLsbD_setWidth,
    BitVec.getLsbD_setWidth, BitVec.getLsbD_zero]
  by_cases hrequest : i < 20
  · rw [if_pos hrequest, if_pos hrequest]
  rw [if_neg hrequest, if_neg hrequest]
  by_cases hnode : i < 27
  · rw [if_pos (by omega), if_pos hnode, decide_eq_true (by omega), Bool.true_and]
  rw [if_neg (by omega), if_neg hnode]
  by_cases hcodec : 28 ≤ i ∧ i < 32
  · rw [if_neg (by omega), if_pos hcodec, Nat.sub_sub, Nat.sub_sub, decide_eq_true (by omega), Bool.true_and]
  rw [if_neg hcodec]
  by_cases hindirect : i - 20 - 7 < 1
  · rw [if_pos hindirect]
  · rw [if_neg hindirect, decide_eq_false (by omega), Bool.false_and]

theorem indirect_clear (c : Command) : c.encode.getLsbD 27 = false := by
  rw [getLsbD_encode]
  rfl

/-- **Every field has room in its word**: put together field by field, a command is encoded without misuse. -/
theorem assemble_eq (c : Command) : c.assemble = .ok c.encode := by
  have hmask : (c.codec &&& 0xf).setWidth 32 = (c.codec.setWidth 4).setWidth 32 :=
    setWidth_and_lowMask (show 4 ≤ 8 by decide) c.codec 32
  have hcodec := writeBits_eq_withField (by decide) (show 28 + 4 = 32 from rfl) (by decide) 0#32 (c.codec.setWidth 4)
  have hnode := writeBits_eq_withField (by decide) (show 20 + 8 = 28 from rfl) (by decide)
    (withField 0#32 28 (c.codec.setWidth 4)) c.node
  refine bind_of_ok (a := withField 0#32 28 (c.codec.setWidth 4)) ?_ ?_
  · rw [hmask]
    exact hcodec
  refine bind_of_ok hnode (bind_of_ok (c.writeRequest_eq _) ?_)
  refine (clear_if_set _ (by decide)).trans (congrArg Except.ok ?_)
  -- both words have the request, the node below bit 27 and the codec, each at its place
  apply BitVec.eq_of_getLsbD_eq
  intro i hi
  rw [getLsbD_withBit_false, getLsbD_withField (by decide), getLsbD_withField (by decide), getLsbD_withField (by decide),
    getLsbD_encode, BitVec.getLsbD_setWidth]
  by_cases hrequest : i < 20
  · rw [if_pos (by omega), if_pos hrequest, decide_eq_false (by omega), Bool.not_false, Bool.true_and, Nat.sub_zero]
  rw [if_neg (by omega), if_neg hrequest]
  by_cases hlow : i < 27
  · rw [if_pos (by omega), if_pos hlow, decide_eq_false (by omega), Bool.not_false, Bool.true_and]
  rw [if_neg hlow]
  by_cases hindirect : i = 27
  · subst hindirect
    rfl
  · rw [if_neg (by omega), if_pos (by omega), if_pos (by omega), decide_eq_false hindirect, decide_eq_true (by omega),
      Bool.not_false, Bool.true_and, Bool.true_and]

/-! ### Taking a word apart -/

/-- **Every field is there to be read**: field by field, a word is taken apart without misuse. -/
theorem takeApart_eq (word : BitVec 32) (width : VerbWidth) : takeApart word width = .ok (decode word width) := by
  have hcut : ∀ {len k : Nat} (v : BitVec len), k ≤ 32 → (v.setWidth 32).setWidth k = v.setWidth k := fun v hk =>
    BitVec.setWidth_setWidth_of_le v hk
  have hback : ∀ {len : Nat} (v : BitVec len), len ≤ 16 → (v.setWidth 16).setWidth len = v := fun v hlen =>
    (BitVec.setWidth_setWidth_of_le v hlen).trans (BitVec.setWidth_eq v)
  have hcodec := readBits_eq_field (by decide) (show 28 + 4 = 32 from rfl) (by decide) word
  have hnode := readBits_eq_field (by decide) (show 20 + 8 = 28 from rfl) (by decide) word
  cases width with
  | short =>
    have hid := readBits_eq_field (by decide) (show 8 + 12 = 20 from rfl) (by decide) word
    have hpayload := readBits_eq_field (by decide) (show 0 + 8 = 8 from rfl) (by decide) word
    refine bind_of_ok hcodec (bind_of_ok hnode (bind_of_ok hid (bind_of_ok hpayload (congrArg Except.ok ?_))))
    rw [hcut _ (by decide), hcut _ (by decide), hcut _ (by decide), hcut _ (by decide), BitVec.setWidth_eq, Verb.ofId,
      hback _ (by decide)]
    rfl
  | long =>
    have hid := readBits_eq_field (by decide) (show 16 + 4 = 20 from rfl) (by decide) word
    have hpayload := readBits_eq_field (by decide) (show 0 + 16 = 16 from rfl) (by decide) word
    refine bind_of_ok hcodec (bind_of_ok hnode (bind_of_ok hid (bind_of_ok hpayload (congrArg Except.ok ?_))))
    rw [hcut _ (by decide), hcut _ (by decide), hcut _ (by decide), hcut _ (by decide), BitVec.setWidth_eq,
      BitVec.setWidth_eq, Verb.ofId, hback _ (by decide)]
    rfl

theorem codec_field (c : Command) : field c.encode 28 4 = c.codec.setWidth 4 := by
  apply BitVec.eq_of_getLsbD_eq
  intro i hi
  rw [field, BitVec.getLsbD_extractLsb', getLsbD_encode, if_neg (by omega), if_neg (by omega), if_pos (by omega),
    BitVec.getLsbD_setWidth, Nat.add_sub_cancel_left]

/-- Seven bits of the node, and above them the bit for indirect addressing, which is clear. -/
theorem node_field (c : Command) : field c.encode 20 8 = (c.node.setWidth 7).setWidth 8 := by
  apply BitVec.eq_of_getLsbD_eq
  intro i hi
  rw [field, BitVec.getLsbD_extractLsb', getLsbD_encode, if_neg (by omega), BitVec.getLsbD_setWidth,
    BitVec.getLsbD_setWidth, Nat.add_sub_cancel_left]
  by_cases h : i < 7
  · rw [if_pos (by omega), decide_eq_true h, Bool.true_and]
  · rw [if_neg (by omega), if_neg (by omega), decide_eq_false h, Bool.false_and, Bool.and_false]

theorem request_field (c : Command) {start len : Nat} (h : start + len ≤ 20) :
    field c.encode start len = field c.request start len := by
  rw [field, field, encode_eq, BitVec.extractLsb'_append_eq_of_add_le h]

/-- **A word taken apart gives what it holds of its command.** -/
theorem decode_encode (c : Command) : decode c.encode c.verb.width = c.carried := by
  obtain ⟨codec, node, verb, payload⟩ := c
  have hcodec : (codec.setWidth 4).setWidth 8 = codec % 16 := setWidth_setWidth_eq_umod (by decide) codec
  have hnode : (node.setWidth 7).setWidth 8 = node % 128 := setWidth_setWidth_eq_umod (by decide) node
  cases verb with
  | short id =>
    have hid : field (request ⟨codec, node, .short id, payload⟩) 8 12 = id := by
      rw [field, request, BitVec.extractLsb'_append_eq_of_le (Nat.le_refl _)]
      exact BitVec.extractLsb'_eq_self
    have hpayload : field (request ⟨codec, node, .short id, payload⟩) 0 8 = payload.setWidth 8 := by
      rw [field, request, BitVec.extractLsb'_append_eq_of_add_le (by decide)]
      exact BitVec.extractLsb'_eq_self
    have hcut : (payload.setWidth 8).setWidth 16 = payload % 256 := setWidth_setWidth_eq_umod (by decide) payload
    simp only [decode, Verb.width, carried, codec_field, node_field, hcodec, hnode,
      request_field _ (show 8 + 12 ≤ 20 by decide), request_field _ (show 0 + 8 ≤ 20 by decide), hid, hpayload, hcut]
  | long id =>
    have hid : field (request ⟨codec, node, .long id, payload⟩) 16 4 = id := by
      rw [field, request, BitVec.extractLsb'_append_eq_of_le (Nat.le_refl _)]
      exact BitVec.extractLsb'_eq_self
    have hpayload : field (request ⟨codec, node, .long id, payload⟩) 0 16 = payload := by
      rw [field, request, BitVec.extractLsb'_append_eq_of_add_le (by decide)]
      exact BitVec.extractLsb'_eq_self
    simp only [decode, Verb.width, carried, codec_field, node_field, hcodec, hnode,
      request_field _ (show 16 + 4 ≤ 20 by decide), request_field _ (show 0 + 16 ≤ 20 by decide), hid, hpayload]

theorem request_decode (word : BitVec 32) (width : VerbWidth) : (decode word width).request = field word 0 20 := by
  cases width with
  | short =>
    have hpayload : ((field word 0 8).setWidth 16).setWidth 8 = field word 0 8 :=
      (BitVec.setWidth_setWidth_of_le _ (by decide)).trans (BitVec.setWidth_eq _)
    simp only [decode, request, hpayload]
    exact BitVec.extractLsb'_append_extractLsb'_eq_extractLsb' rfl
  | long => exact BitVec.extractLsb'_append_extractLsb'_eq_extractLsb' rfl

/-- **A word taken apart and put together again** is the same but for the bit for indirect addressing. -/
theorem encode_decode (word : BitVec 32) (width : VerbWidth) : (decode word width).encode = withBit word 27 false := by
  have hcodec : (decode word width).codec = (field word 28 4).setWidth 8 := by cases width <;> rfl
  have hnode : (decode word width).node = field word 20 8 := by cases width <;> rfl
  apply BitVec.eq_of_getLsbD_eq
  intro i hi
  rw [getLsbD_encode, getLsbD_withBit_false, request_decode, hcodec, hnode, field, field, field,
    BitVec.getLsbD_extractLsb', BitVec.getLsbD_extractLsb', BitVec.getLsbD_setWidth, BitVec.getLsbD_extractLsb']
  by_cases hrequest : i < 20
  · rw [if_pos hrequest, Nat.zero_add, decide_eq_true hrequest, decide_eq_false (by omega)]
    rfl
  rw [if_neg hrequest]
  by_cases hlow : i < 27
  · rw [if_pos hlow, decide_eq_true (by omega), decide_eq_false (by omega), Nat.add_sub_of_le (by omega)]
    rfl
  rw [if_neg hlow]
  by_cases hindirect : i = 27
  · subst hindirect
    rfl
  · rw [if_pos (by omega), decide_eq_true (by omega), decide_eq_true (by omega), decide_eq_false hindirect,
      Nat.add_sub_of_le (by omega)]
    rfl

/-- Two commands of one width have one word exactly if they carry the same. -/
theorem encode_eq_iff {c d : Command} (h : c.verb.width = d.verb.width) : c.encode = d.encode ↔ c.carried = d.carried := by
  have hword : ∀ c : Command, c.carried.encode = c.encode := fun c => by
    rw [← decode_encode, encode_decode]
    exact withBit_false_of_clear c.indirect_clear
  constructor
  · intro hword
    rw [← decode_encode, ← decode_encode, h, hword]
  · intro hcarried
    rw [← hword c, ← hword d, hcarried]

/-- **Encoding and decoding are inverse, up to what a word has no room for.** Every command of a verb of any id is encoded
without misuse, its word never asks for indirect addressing, and taken apart under the verb's own width it gives back what
it holds: the codec modulo 16, the node modulo 128, the verb, and the payload modulo 256 (short) or whole (long).  Every
word, taken apart under either width and put together again, is the same with bit 27 cleared.  So two commands of one width
have the same word exactly if they agree in what it holds. -/
theorem encode_inverse_decode (width : VerbWidth) :
    (∀ (codec node : BitVec 8) (id payload : BitVec 16),
      let c : Command := ⟨codec, node, .ofId width id, payload⟩
      c.assemble = .ok c.encode ∧ c.encode.getLsbD 27 = false ∧
        decode c.encode c.verb.width = ⟨codec % 16, node % 128, .ofId width id, match width with
          | .short => payload % 256
          | .long => payload⟩) ∧
    (∀ word : BitVec 32, takeApart word width = .ok (decode word width) ∧
      (decode word width).encode = withBit word 27 false) ∧
    ∀ (codec node codec' node' : BitVec 8) (id payload id' payload' : BitVec 16),
      encode ⟨codec, node, .ofId width id, payload⟩ = encode ⟨codec', node', .ofId width id', payload'⟩ ↔
        codec % 16 = codec' % 16 ∧ node % 128 = node' % 128 ∧ Verb.ofId width id = Verb.ofId width id' ∧
          match width with
          | .short => payload % 256 = payload' % 256
          | .long => payload = payload' := by
  refine ⟨fun codec node id payload => ?_, fun word => ⟨takeApart_eq word width, encode_decode word width⟩, ?_⟩
  · refine ⟨assemble_eq _, indirect_clear _, ?_⟩
    rw [decode_encode]
    cases width <;> rfl
  · intro codec node codec' node' id payload id' payload'
    rw [encode_eq_iff (by cases width <;> rfl)]
    cases width <;> exact iff_of_eq (Command.mk.injEq ..)

/-- Codec 18 comes back as codec 2, node 133 as node 5, and of the payload its low byte. -/
example : decode (encode ⟨18, 133, .short 0xf00, 0x1ff⟩) .short = ⟨2, 5, .short 0xf00, 0xff⟩ := by decide

end Command
end AudioBringup
