import AudioBringup.Proofs.Lockstep
import AudioBringup.Proofs.StreamCalls
/-!
# Proofs.LockstepStreams — programming an engine over two ways to the same codecs

The stream registers and the allocator belong to the platform, which does the same on both sides.  Only the places it
gives memory at may differ; they reach nothing but the registers for addresses, which it does not look at.
-/
namespace AudioBringup

open Procedure

/-- What there is to tell of an engine but for its addresses. -/
def StreamEngine.outline (e : StreamEngine) : Nat × Nat := (e.descriptor, e.list.length)

/-- Two sets of streams that differ in where their memory lies. -/
structure Streams.Alike (s s' : Streams) : Prop where
  output : s.output.map (·.outline) = s'.output.map (·.outline)
  sample : s.sample.map (·.length) = s'.sample.map (·.length)
  low : ∀ e ∈ s.output, e.descriptor < 64

theorem Streams.Alike.refl {s : Streams} (h : ∀ e ∈ s.output, e.descriptor < 64) : s.Alike s := ⟨rfl, rfl, h⟩

/-- The output engines at the same place are alike. -/
theorem Streams.Alike.engine {s s' : Streams} (h : s.Alike s') (i : Nat) :
    (s.output[i]? = none ∧ s'.output[i]? = none) ∨ ∃ e e', s.output[i]? = some e ∧ s'.output[i]? = some e' ∧
      e.descriptor = e'.descriptor ∧ e.list.length = e'.list.length ∧ e.descriptor < 64 := by
  have hi : s.output[i]?.map (·.outline) = s'.output[i]?.map (·.outline) := by
    rw [← List.getElem?_map, ← List.getElem?_map, h.output]
  cases he : s.output[i]? with
  | none =>
    rw [he] at hi
    exact .inl ⟨rfl, Option.map_eq_none_iff.1 hi.symm⟩
  | some e =>
    rw [he] at hi
    obtain ⟨e', he', houtline⟩ := Option.map_eq_some_iff.1 hi.symm
    obtain ⟨hd, hl⟩ := Prod.mk.inj houtline
    exact .inr ⟨e, e', rfl, he', hd.symm, hl.symm, h.low e (List.mem_of_getElem? he)⟩

theorem Register.stream_foreign {d : Nat} {o : BitVec 32} (hd : d < 64) (ho : o.toNat < 0x20) :
    ¬Register.OfTransport (Register.stream d + o) := by
  rintro ⟨-, h⟩
  rw [Register.toNat_stream hd ho] at h
  omega

namespace Lockstep

variable {ω₁ ω₂ ρ : Type} {W₁ : World Call Call.Answer ω₁} {W₂ : World Call Call.Answer ω₂} {n : Nat} {link : Link}
  {P : Platform ρ} {D₁ : Channel W₁ n link P} {D₂ : Channel W₂ n link P} {c₀ : Controller} {α β : Type} {V : α → β → Prop}

/-- The controllers are level and the streams beside them alike. -/
def Beside (D₁ : Channel W₁ n link P) (D₂ : Channel W₂ n link P) (c₀ : Controller) (p : Controller × Streams) (w₁ : ω₁)
    (q : Controller × Streams) (w₂ : ω₂) : Prop :=
  Level D₁ D₂ c₀ p.1 w₁ q.1 w₂ ∧ p.2.Alike q.2

theorem Beside.sameSent {p q : Controller × Streams} {w₁ : ω₁} {w₂ : ω₂} (h : Beside D₁ D₂ c₀ p w₁ q w₂) :
    SameSent D₁ D₂ w₁ w₂ := h.1.sameSent

/-- Two steps of controllers in lockstep, with streams beside them. -/
abbrev Paired (D₁ : Channel W₁ n link P) (D₂ : Channel W₂ n link P) (c₀ : Controller) (V : α → β → Prop)
    (x : Procedure (Controller × Streams) α) (y : Procedure (Controller × Streams) β) : Prop :=
  Matched W₁ W₂ n (Beside D₁ D₂ c₀) (SameSent D₁ D₂) V x y

/-! ### The calls of the streams -/

/-- Two calls that go the same way for the platform. -/
theorem foreign_paired (c c' : Call) {f : c.Answer → Except Error α} {g : c'.Answer → Except Error β}
    (hc : c.Foreign) (hc' : c'.Foreign) (h : ∀ x a x' b x'', P.Answers x c a x' → P.Answers x c' b x'' →
      x' = x'' ∧ Together V (f a) (g b)) :
    Paired D₁ D₂ c₀ V (fun _ s => .ask c fun a => .pure (f a, s)) (fun _ s => .ask c' fun b => .pure (g b, s)) := by
  refine matched_ask ?_
  rintro p w₁ q w₂ ⟨⟨t₁, t₂, words, x, hp, hq, h₁, h₂⟩, halike⟩ a w₁' b w₂' ha hb
  obtain ⟨x', hx', h₁⟩ := D₁.foreign h₁ hc ha
  obtain ⟨x'', hx'', h₂⟩ := D₂.foreign h₂ hc' hb
  obtain ⟨rfl, hab⟩ := h x a x' b x'' hx' hx''
  exact ⟨hab, ⟨t₁, t₂, words, x', hp, hq, h₁, h₂⟩, halike⟩

theorem together_eq {r : Except Error α} : Together Eq r r := by
  cases r <;> rfl

theorem note_paired (m : Notice) : Paired D₁ D₂ c₀ (fun _ _ => True) (note m) (note m) := by
  refine foreign_paired (.note m) (.note m) trivial trivial ?_
  rintro x _ x' _ x'' rfl rfl
  exact ⟨rfl, trivial⟩

theorem read_paired {wd : Width} {o : BitVec 32} (ho : ¬Register.OfTransport o) :
    Paired D₁ D₂ c₀ Eq (read wd o) (read wd o) := by
  refine foreign_paired (.read wd o) (.read wd o) ho ho ?_
  rintro x a x' b x'' ha hb
  obtain ⟨rfl, rfl⟩ := Prod.mk.inj (ha.symm.trans hb)
  exact ⟨rfl, together_eq⟩

theorem read16_paired {o : BitVec 32} (ho : ¬Register.OfTransport o) : Paired D₁ D₂ c₀ Eq (read16 o) (read16 o) := by
  refine matched_bind (read_paired ho) ?_
  rintro v _ rfl
  exact matched_pure rfl

theorem write_paired {wd : Width} {o v v' : BitVec 32} (ho : ¬Register.OfTransport o)
    (hv : ∀ x, P.write wd o v x = P.write wd o v' x) : Paired D₁ D₂ c₀ Eq (write wd o v) (write wd o v') := by
  refine foreign_paired (.write wd o v) (.write wd o v') ho ho ?_
  rintro x a x' b x'' ha hb
  obtain ⟨rfl, rfl⟩ := Prod.mk.inj (ha.symm.trans ((hv x).trans hb))
  exact ⟨rfl, together_eq⟩

theorem allocate_paired (k : Nat) :
    Paired D₁ D₂ c₀ (fun g g' => g.length = g'.length) (allocate k) (allocate k) := by
  refine foreign_paired (.allocate k) (.allocate k) trivial trivial ?_
  rintro x (e | g) x' (e' | g') x'' ha hb
  · obtain ⟨he, rfl⟩ := Prod.mk.inj (ha.symm.trans hb)
    exact ⟨rfl, Except.error.inj he⟩
  · obtain ⟨he, -⟩ := Prod.mk.inj (ha.symm.trans hb)
    cases he
  · obtain ⟨he, -⟩ := Prod.mk.inj (ha.symm.trans hb)
    cases he
  · obtain ⟨he, rfl⟩ := Prod.mk.inj (ha.symm.trans hb)
    exact ⟨rfl, Except.ok.inj he⟩

theorem free_paired {g g' : Region} (hg : g.length = g'.length) : Paired D₁ D₂ c₀ Eq (free g) (free g') := by
  refine foreign_paired (.free g) (.free g') trivial trivial ?_
  rintro x a x' b x'' ha hb
  have ha' : P.free g'.length x = (a, x') := hg ▸ ha
  obtain ⟨rfl, rfl⟩ := Prod.mk.inj (ha'.symm.trans hb)
  exact ⟨rfl, together_eq⟩

/-- An access outside its region or off its size is one on both sides. -/
theorem locate_paired {g g' : Region} {offset size : Nat} (y : Nat → Procedure (Controller × Streams) α)
    (y' : Nat → Procedure (Controller × Streams) β) (hg : g.length = g'.length) (h : ∀ host host', Paired D₁ D₂ c₀ V (y host) (y' host')) :
    Paired D₁ D₂ c₀ V
      (match g.locate offset size with
        | .ok host => y host
        | .error m => misuse m)
      (match g'.locate offset size with
        | .ok host => y' host
        | .error m => misuse m) := by
  unfold Region.locate
  rw [hg]
  by_cases hlong : g'.length < offset + size
  · rw [if_pos hlong, if_pos hlong]
    exact matched_misuse _ fun _ _ _ _ => Beside.sameSent
  · rw [if_neg hlong, if_neg hlong]
    by_cases haligned : offset % size ≠ 0
    · rw [if_pos haligned, if_pos haligned]
      exact matched_misuse _ fun _ _ _ _ => Beside.sameSent
    · rw [if_neg haligned, if_neg haligned]
      exact h _ _

/-- Two calls that the platform does not notice. -/
theorem request_paired (c c' : Call) {V : c.Answer → c'.Answer → Prop} (hc : c.Foreign) (hc' : c'.Foreign)
    (hP : ∀ x a x', P.Answers x c a x' → x' = x) (hP' : ∀ x a x', P.Answers x c' a x' → x' = x) (hV : ∀ a b, V a b) :
    Paired D₁ D₂ c₀ V (request c) (request c') := by
  refine foreign_paired c c' hc hc' ?_
  intro x a x' b x'' ha hb
  exact ⟨(hP x a x' ha).trans (hP' x b x'' hb).symm, hV a b⟩

theorem store64_paired {g g' : Region} {offset : Nat} {v v' : BitVec 64} (hg : g.length = g'.length) :
    Paired D₁ D₂ c₀ Eq (g.store64 offset v) (g'.store64 offset v') := by
  refine locate_paired (fun host => request (.store64 host v)) (fun host => request (.store64 host v')) hg
    fun host host' => ?_
  exact request_paired (.store64 host v) (.store64 host' v') trivial trivial (fun _ _ _ => id) (fun _ _ _ => id)
    fun _ _ => rfl

theorem store32_paired {g g' : Region} {offset : Nat} {v v' : BitVec 32} (hg : g.length = g'.length) :
    Paired D₁ D₂ c₀ Eq (g.store32 offset v) (g'.store32 offset v') := by
  refine locate_paired (fun host => request (.store32 host v)) (fun host => request (.store32 host v')) hg
    fun host host' => ?_
  exact request_paired (.store32 host v) (.store32 host' v') trivial trivial (fun _ _ _ => id) (fun _ _ _ => id)
    fun _ _ => rfl

theorem fill_paired {g g' : Region} {offset : Nat} {data : Array Byte} (hg : g.length = g'.length) :
    Paired D₁ D₂ c₀ Eq (g.fill offset data) (g'.fill offset data) := by
  unfold Region.fill
  rw [hg]
  exact matched_ite (matched_misuse _ fun _ _ _ _ => Beside.sameSent)
    (request_paired (.fill (g.host + offset) data) (.fill (g'.host + offset) data) trivial trivial
      (fun _ _ _ => id) (fun _ _ _ => id) fun _ _ => rfl)

/-! ### The parts of programming -/

theorem onController_paired {x y : Procedure Controller α} {V : α → α → Prop} (h : Locked D₁ D₂ c₀ V x y) :
    Paired D₁ D₂ c₀ V (Streams.onController x) (Streams.onController y) := by
  rintro ⟨c₁, s⟩ w₁ ⟨c₂, s'⟩ w₂ ⟨hlevel, halike⟩ e₁ w₁' e₂ w₂' h₁ h₂
  obtain ⟨d₁, v₁, hd₁, h₁⟩ := Program.ends_bind (p := x n c₁) h₁
  obtain ⟨d₂, v₂, hd₂, h₂⟩ := Program.ends_bind (p := y n c₂) h₂
  cases h c₁ w₁ c₂ w₂ hlevel d₁ v₁ d₂ v₂ hd₁ hd₂ with
  | result hr hlevel =>
    obtain ⟨rfl, rfl⟩ := h₁
    obtain ⟨rfl, rfl⟩ := h₂
    exact .result hr ⟨hlevel, halike⟩
  | misused m hsent =>
    obtain ⟨rfl, rfl⟩ := h₁
    obtain ⟨rfl, rfl⟩ := h₂
    exact .misused m hsent
  | stuck hsent =>
    obtain ⟨rfl, rfl⟩ := h₁
    obtain ⟨rfl, rfl⟩ := h₂
    exact .stuck hsent

theorem update_paired {f g : Streams → Streams} (h : ∀ s s', s.Alike s' → (f s).Alike (g s')) :
    Paired D₁ D₂ c₀ (fun _ _ => True) (Streams.update f) (Streams.update g) :=
  matched_modify fun _ _ _ _ hs => ⟨hs.1, h _ _ hs.2⟩

theorem wait_paired {site : WaitSite} {limit : WaitLimit} {check : Procedure (Controller × Streams) Bool}
    (h : Paired D₁ D₂ c₀ Eq check check) :
    Paired D₁ D₂ c₀ (fun _ _ => True) (waitUntil site limit check) (waitUntil site limit check) :=
  matched_waitUntil h note_paired fun _ _ _ _ => Beside.sameSent

theorem resetEngine_paired {d : Nat} (hd : d < 64) (limit : WaitLimit) :
    Paired D₁ D₂ c₀ (fun _ _ => True) (Streams.resetEngine (Register.stream d) limit)
      (Streams.resetEngine (Register.stream d) limit) := by
  have hcontrol : ¬Register.OfTransport (Register.stream d + Register.sdctl) := Register.stream_foreign hd (by decide)
  have hcheck : ∀ f : StreamControl → Bool, Paired D₁ D₂ c₀ Eq
      (do return f (StreamControl.ofLow (← read16 (Register.stream d + Register.sdctl))))
      (do return f (StreamControl.ofLow (← read16 (Register.stream d + Register.sdctl)))) := by
    intro f
    refine matched_bind (read16_paired hcontrol) ?_
    rintro v _ rfl
    exact matched_pure rfl
  refine matched_bind (read16_paired hcontrol) ?_
  rintro v _ rfl
  refine matched_bind (write_paired hcontrol fun _ => rfl) fun _ _ _ => ?_
  refine matched_bind (wait_paired (hcheck (·.reset))) fun _ _ _ => ?_
  refine matched_bind (read16_paired hcontrol) ?_
  rintro v _ rfl
  refine matched_bind (write_paired hcontrol fun _ => rfl) fun _ _ _ => ?_
  exact wait_paired (hcheck fun control => !control.reset)

/-- As many pieces, whatever is in them. -/
theorem writePieces_paired {list list' : Region} (hlist : list.length = list'.length) : ∀ (index : Nat)
    {pieces pieces' : List BufferPiece}, pieces.length = pieces'.length →
    Paired D₁ D₂ c₀ (fun _ _ => True) (Streams.writePieces list index pieces) (Streams.writePieces list' index pieces')
  | _, [], [], _ => matched_pure trivial
  | index, _ :: rest, _ :: rest', h => by
    refine matched_bind (store64_paired hlist) fun _ _ _ => matched_bind (store32_paired hlist) fun _ _ _ => ?_
    refine matched_bind (store32_paired hlist) fun _ _ _ => ?_
    exact writePieces_paired hlist (index + 1) (Nat.succ.inj h)

theorem allocateSample_paired (waveform : Array Byte) (parts : Nat) :
    Paired D₁ D₂ c₀ (fun a b => a.1.length = b.1.length ∧ a.2.length = b.2.length) (Streams.allocateSample waveform parts)
      (Streams.allocateSample waveform parts) := by
  unfold Streams.allocateSample BufferList.split
  cases hshape : BufferList.checkShape waveform.size parts with
  | error e => exact matched_fail e
  | ok _ =>
    refine matched_bind (allocate_paired waveform.size) ?_
    intro g g' hg
    refine matched_bind (fill_paired hg) fun _ _ _ => matched_pure ⟨hg, ?_⟩
    rw [List.length_map, List.length_map]

theorem writeAddress_paired {d : Nat} (hd : d < 64) (a a' : BitVec 64) :
    Paired D₁ D₂ c₀ Eq
      (writeAddress (Register.stream d + Register.sdbdpl) (Register.stream d + Register.sdbdpu) a)
      (writeAddress (Register.stream d + Register.sdbdpl) (Register.stream d + Register.sdbdpu) a') := by
  refine matched_bind (write_paired (Register.stream_foreign hd (by decide)) fun x => ?_) fun _ _ _ => ?_
  · exact P.blind _ _ _ _ x ⟨d, hd, .inl rfl⟩
  · refine write_paired (Register.stream_foreign hd (by decide)) fun x => ?_
    exact P.blind _ _ _ _ x ⟨d, hd, .inr rfl⟩

theorem dropSample_paired : ∀ {old old' : Option Region}, old.map (·.length) = old'.map (·.length) →
    Paired D₁ D₂ c₀ Eq (Streams.dropSample old) (Streams.dropSample old')
  | none, none, _ => matched_pure rfl
  | some _, some _, h => free_paired (Option.some.inj h)

/-! ### Programming -/

/-- **Programming does the same on both sides**, where there is a codec behind every converter. -/
theorem program_paired {topology : Topology} (waveform : Array Byte)
    (hall : ∀ codec ∈ topology.codecs, link.Has codec.address) :
    Paired D₁ D₂ c₀ Eq (Streams.program topology waveform) (Streams.program topology waveform) := by
  have hconverters : ∀ addr ∈ topology.audioOutputs, link.Has addr.codec := by
    intro addr hmem
    obtain ⟨codec, hcodec, -, -, -, rfl⟩ := Topology.mem_audioOutputs.1 hmem
    exact hall codec hcodec
  rw [Streams.program_eq]
  refine matched_get ?_
  rintro ⟨c₁, s⟩ w₁ ⟨c₂, s'⟩ w₂ ⟨⟨t₁, t₂, words, x, rfl, rfl, -⟩, halike⟩
  dsimp only
  rcases halike.engine c₀.config.outputStream with ⟨he, he'⟩ | ⟨e, e', he, he', hd, hlist, hlow⟩
  · have hlength : s.output.length = s'.output.length := by
      rw [← List.length_map, halike.output, List.length_map]
    rw [he, he', hlength]
    exact matched_fail _
  · rw [he, he']
    unfold Streams.load Streams.describe
    dsimp only [StreamEngine.base]
    rw [← hd]
    refine matched_bind (resetEngine_paired hlow _) fun _ _ _ => ?_
    refine matched_bind (update_paired fun s s' h => ⟨h.output, rfl, h.low⟩) fun _ _ _ => ?_
    refine matched_bind (dropSample_paired halike.sample) fun _ _ _ => ?_
    refine matched_bind (allocateSample_paired waveform c₀.config.bdlEntries) ?_
    rintro ⟨g, pieces⟩ ⟨g', pieces'⟩ ⟨hg, hpieces⟩
    dsimp only at hg hpieces ⊢
    rw [← hpieces]
    refine matched_bind (writePieces_paired hlist 0 hpieces) fun _ _ _ => ?_
    refine matched_bind (write_paired (Register.stream_foreign hlow (by decide)) fun _ => rfl) fun _ _ _ => ?_
    refine matched_bind (write_paired (Register.stream_foreign hlow (by decide)) fun _ => rfl) fun _ _ _ => ?_
    refine matched_bind (writeAddress_paired hlow _ _) fun _ _ _ => ?_
    refine matched_bind (write_paired (Register.stream_foreign hlow (by decide)) fun _ => rfl) fun _ _ _ => ?_
    refine matched_bind (note_paired _) fun _ _ _ => ?_
    refine matched_bind (update_paired fun s s' h => ⟨h.output, congrArg some hg, h.low⟩) fun _ _ _ => ?_
    exact matched_bind (onController_paired (formatConverters_locked hconverters)) fun _ _ _ => matched_pure rfl

end Lockstep
end AudioBringup
