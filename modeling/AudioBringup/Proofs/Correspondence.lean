import AudioBringup.Proofs.Tours
/-!
# Proofs.Correspondence — the letters of a topology walk are those of a tour

Any exchange may come back with any response, and may fail.  What went over the transport is on record (`Correspondent`), as
a list of letters.  A procedure `Writes` what its letters are when it comes to a result; one that ends in another way was cut
short, and its letters are the first of such letters.
-/
namespace AudioBringup

open Procedure

/-! ### A transport on record -/

/-- The record after an attempt to send a word that came to nothing: the word may have gone out or not. -/
def Tried (word : BitVec 32) (l l' : List Letter) : Prop := l' = l ∨ l' = l ++ [⟨word, none⟩]

/-- What a transport has to say when an exchange comes back. -/
def Notice.EndsExchange : Notice → Prop
  | .answered .. | .unanswered _ => True
  | _ => False

/-- A transport in a world, with all that went over it on record.  Nothing else is known of it: an exchange may come back
with any response, and may end in any other way. -/
structure Correspondent {ω : Type} (W : World Call Call.Answer ω) (patience : Nat) where
  Ready : Transport → ω → Prop
  letters : ω → List Letter
  exchange : ∀ {t w} (word : BitVec 32), Ready t w → Ensures W patience (Transport.exchange word) t w
    ⟨fun response t' w' => Ready t' w' ∧ letters w' = letters w ++ [⟨word, some response⟩],
      fun _ _ w' => Tried word (letters w) (letters w'), fun w' => Tried word (letters w) (letters w'),
      fun w' => Tried word (letters w) (letters w')⟩
  note : ∀ {t w m w'}, ¬m.EndsExchange → Ready t w → W (.note m) w () w' → Ready t w' ∧ letters w' = letters w

namespace Correspondent

variable {ω α β : Type} {W : World Call Call.Answer ω} {n : Nat} {P : Correspondent W n} {c₀ c : Controller} {w : ω}
  {D : α → List Letter → Prop} {F : β → List Letter → Prop} {l : List Letter}

/-- The controller is as it was but for its transport, which is ready, and this is what went over it. -/
def At (P : Correspondent W n) (c₀ : Controller) (l : List Letter) (c : Controller) (w : ω) : Prop :=
  ∃ t, c = { c₀ with transport := some t } ∧ P.Ready t w ∧ P.letters w = l

/-- More went over the transport, as the beginning of something that is `D` with some result. -/
def CutShort (P : Correspondent W n) (l : List Letter) (D : α → List Letter → Prop) (w : ω) : Prop :=
  ∃ a whole more, D a whole ∧ Letter.Begins whole more ∧ P.letters w = l ++ more

/-- The outcome of going on from `l` with letters that are `D` with the result, or are cut short. -/
def written (P : Correspondent W n) (c₀ : Controller) (l : List Letter) (D : α → List Letter → Prop) :
    Outcome Controller α ω where
  ok a c w := ∃ more, D a more ∧ P.At c₀ (l ++ more) c w
  error _ _ := P.CutShort l D
  misused := P.CutShort l D
  stuck := P.CutShort l D

/-- Whatever went over the transport before, and however the procedure ends, the letters it adds are `D` with its result, or
begin as such letters do; and there are such letters. -/
structure Writes (P : Correspondent W n) (c₀ : Controller) (D : α → List Letter → Prop) (x : Procedure Controller α) :
    Prop where
  possible : ∃ a l, D a l
  ends : ∀ {l c w}, P.At c₀ l c w → Ensures W n x c w (P.written c₀ l D)

theorem CutShort.map {F : β → List Letter → Prop} (h : P.CutShort l D w)
    (hF : ∀ a whole, D a whole → ∃ b more, F b (whole ++ more)) : P.CutShort l F w := by
  obtain ⟨a, whole, more, hwhole, hbegins, hletters⟩ := h
  obtain ⟨b, rest, hF⟩ := hF a whole hwhole
  exact ⟨b, whole ++ rest, more, hF, hbegins.append rest, hletters⟩

/-- The outcome of adding letters to `l`: `D` with the result, `J` at every other ending. -/
def adds (P : Correspondent W n) (l : List Letter) (D : α → List Letter → Prop) (J : List Letter → Prop) :
    Outcome Controller α ω where
  ok a _ w := ∃ more, D a more ∧ P.letters w = l ++ more
  error _ _ w := ∃ more, J more ∧ P.letters w = l ++ more
  misused w := ∃ more, J more ∧ P.letters w = l ++ more
  stuck w := ∃ more, J more ∧ P.letters w = l ++ more

/-- From what a procedure writes to what letters it adds. -/
theorem Writes.adds {D' : α → List Letter → Prop} {J : List Letter → Prop} {x : Procedure Controller α} {t : Transport}
    (hx : P.Writes c D x) (hD : ∀ a l, D a l → D' a l) (hJ : ∀ a whole l, D a whole → Letter.Begins whole l → J l)
    (hready : P.Ready t w) : Ensures W n x { c with transport := some t } w (P.adds (P.letters w) D' J) := by
  have hcut : ∀ w', P.CutShort (P.letters w) D w' → ∃ l, J l ∧ P.letters w' = P.letters w ++ l := by
    rintro w' ⟨a, whole, l, hwhole, hbegins, hletters⟩
    exact ⟨l, hJ a whole l hwhole hbegins, hletters⟩
  apply (hx.ends ⟨t, rfl, hready, rfl⟩).mono
  · rintro a _ w' ⟨l, hl, -, -, -, hletters⟩
    exact ⟨l, hD a l hl, hletters⟩
  · exact fun _ _ => hcut
  · exact hcut
  · exact hcut

/-! ### One rule per way of building a procedure -/

section
variable {x y : Procedure Controller α} {f : α → Procedure Controller β}

theorem Writes.mono {D' : α → List Letter → Prop} (hx : P.Writes c₀ D x) (hD : ∀ a l, D a l → D' a l) :
    P.Writes c₀ D' x where
  possible := by
    obtain ⟨a, l, h⟩ := hx.possible
    exact ⟨a, l, hD a l h⟩
  ends := fun {l c w} h => by
    have hcut : ∀ w, P.CutShort l D w → P.CutShort l D' w := fun w hw => hw.map fun a whole hwhole =>
      ⟨a, [], by rw [List.append_nil]; exact hD a whole hwhole⟩
    apply (hx.ends h).mono
    · rintro a c w ⟨more, hmore, hat⟩
      exact ⟨more, hD a more hmore, hat⟩
    · exact fun _ _ => hcut
    · exact hcut
    · exact hcut

theorem writes_pure {a : α} (h : D a []) : P.Writes c₀ D (pure a : Procedure Controller α) where
  possible := ⟨a, [], h⟩
  ends := fun {l c w} hat => ⟨[], h, by rwa [List.append_nil]⟩

theorem writes_fail {e : Error} (h : ∃ a l, D a l) : P.Writes c₀ D (fail e : Procedure Controller α) where
  possible := h
  ends := by
    rintro l _ w ⟨t, rfl, -, hletters⟩
    obtain ⟨a, whole, hwhole⟩ := h
    exact ⟨a, whole, [], hwhole, Letter.begins_nil, by rw [hletters, List.append_nil]⟩

/-- What follows a procedure adds its letters to those of the procedure. -/
theorem writes_bind (hx : P.Writes c₀ D x) (hf : ∀ a l, D a l → P.Writes c₀ (fun b more => F b (l ++ more)) (f a)) :
    P.Writes c₀ F (x >>= f) where
  possible := by
    obtain ⟨a, l, h⟩ := hx.possible
    obtain ⟨b, more, h⟩ := (hf a l h).possible
    exact ⟨b, l ++ more, h⟩
  ends := fun {l c w} hat => by
    -- cut short before `f`, which could have gone on from any result
    have hcut : ∀ w, P.CutShort l D w → P.CutShort l F w := fun w hw => hw.map fun a whole hwhole =>
      (hf a whole hwhole).possible
    apply ensures_bind.2
    apply (hx.ends hat).mono
    · rintro a c w ⟨first, hfirst, hat⟩
      -- cut short in `f`, after all that `x` had to write
      have hcut : ∀ w, P.CutShort (l ++ first) (fun b more => F b (first ++ more)) w → P.CutShort l F w := by
        rintro w ⟨b, whole, more, hwhole, hbegins, hletters⟩
        exact ⟨b, first ++ whole, first ++ more, hwhole, hbegins.after first, by rw [hletters, List.append_assoc]⟩
      apply ((hf a first hfirst).ends hat).mono
      · rintro b c w ⟨more, hmore, hat⟩
        exact ⟨first ++ more, hmore, by rwa [← List.append_assoc]⟩
      · exact fun _ _ => hcut
      · exact hcut
      · exact hcut
    · exact fun _ _ => hcut
    · exact hcut
    · exact hcut

theorem writes_get_bind {f : Controller → Procedure Controller α}
    (hf : ∀ t, P.Writes c₀ D (f { c₀ with transport := some t })) : P.Writes c₀ D (Procedure.get >>= f) where
  possible := (hf (.immediate 0)).possible
  ends := by
    rintro l _ w ⟨t, rfl, hat⟩
    exact ensures_get_bind.2 ((hf t).ends ⟨t, rfl, hat⟩)

theorem writes_note_bind {m : Notice} (hm : ¬m.EndsExchange) (hx : P.Writes c₀ D x) :
    P.Writes c₀ D (do Procedure.note m; x) where
  possible := hx.possible
  ends := by
    rintro l _ w ⟨t, rfl, hready, hletters⟩
    apply ensures_bind.2
    apply ensures_note.2
    intro w' hw
    obtain ⟨hready, hletters'⟩ := P.note hm hready hw
    exact hx.ends ⟨t, rfl, hready, hletters'.trans hletters⟩

theorem writes_ite {p : Prop} [Decidable p] (hx : p → P.Writes c₀ D x) (hy : ¬p → P.Writes c₀ D y) :
    P.Writes c₀ D (if p then x else y) := by
  by_cases hp : p
  · rw [if_pos hp]
    exact hx hp
  · rw [if_neg hp]
    exact hy hp

end

theorem cutShort_of_tried {word : BitVec 32} (hletters : P.letters w = l) {w' : ω}
    (h : Tried word (P.letters w) (P.letters w')) :
    P.CutShort l (fun response more => more = [⟨word, some response⟩]) w' := by
  rw [hletters] at h
  rcases h with h | h
  · exact ⟨0, _, [], rfl, Letter.begins_nil, by rw [h, List.append_nil]⟩
  · exact ⟨0, _, _, rfl, Letter.begins_unanswered, h⟩

theorem writes_command (cmd : Command) :
    P.Writes c₀ (fun response l => l = [⟨cmd.encode, some response⟩]) (Controller.command cmd) where
  possible := ⟨0, _, rfl⟩
  ends := by
    have hsent : ∀ {l t w}, P.Ready t w → P.letters w = l → Ensures W n (on t (fun t (c : Controller) =>
        { c with transport := some t }) (Transport.exchange cmd.encode)) { c₀ with transport := some t } w
        (P.written c₀ l fun response l => l = [⟨cmd.encode, some response⟩]) := by
      intro l t w hready hletters
      apply ensures_on.2
      apply (P.exchange cmd.encode hready).mono
      · rintro response t' w' ⟨hready', hletters'⟩
        exact ⟨_, rfl, t', rfl, hready', by rw [hletters', hletters]⟩
      · exact fun _ _ _ => cutShort_of_tried hletters
      · exact fun _ => cutShort_of_tried hletters
      · exact fun _ => cutShort_of_tried hletters
    rintro l _ w ⟨t, rfl, hready, hletters⟩
    apply ensures_get_bind.2
    change Ensures W n (if cmd.indirect then (do
        Procedure.note (.indirectNode cmd.node cmd.codec)
        on t (fun t (c : Controller) => { c with transport := some t }) (Transport.exchange cmd.encode))
      else on t (fun t (c : Controller) => { c with transport := some t }) (Transport.exchange cmd.encode)) _ _ _
    split
    · apply ensures_bind.2
      apply ensures_note.2
      intro w' hw
      obtain ⟨hready, hletters'⟩ := P.note (m := .indirectNode cmd.node cmd.codec) nofun hready hw
      exact hsent hready (hletters'.trans hletters)
    · exact hsent hready hletters

theorem writes_command_bind {cmd : Command} {f : BitVec 32 → Procedure Controller α}
    (hf : ∀ response, P.Writes c₀ (fun a more => D a (⟨cmd.encode, some response⟩ :: more)) (f response)) :
    P.Writes c₀ D (Controller.command cmd >>= f) :=
  writes_bind (writes_command cmd) fun response _ hl => hl ▸ hf response

/-! ### One visit -/

theorem read_writes (addr : NodeAddr) (vendorId : BitVec 32) : P.Writes c₀ (fun node l => node.vendorId = vendorId ∧
    node.reading addr = ⟨Replies.vendorWord addr.codec addr.node, some vendorId⟩ :: l) (Node.read addr vendorId) := by
  unfold Node.read
  iterate 15
    apply writes_command_bind
    intro response
  exact writes_pure ⟨rfl, rfl⟩

/-- A command that is announced and sent only where it is wanted, and nothing made of its answer. -/
theorem writes_sendIf {wanted : Bool} {m : Notice} {cmd : Command} {cmds : List Command} {rest : Procedure Controller Unit}
    (hm : ¬m.EndsExchange) (hrest : P.Writes c₀ (fun _ => List.Forall₂ Letter.Carries cmds) rest) :
    P.Writes c₀ (fun _ => List.Forall₂ Letter.Carries ((if wanted then [cmd] else []) ++ cmds)) (if wanted then (do
      Procedure.note m
      let _ ← Controller.command cmd
      rest) else rest) := by
  cases wanted with
  | false => exact hrest
  | true =>
    apply writes_note_bind hm
    apply writes_command_bind
    intro response
    exact hrest.mono fun _ _ htold => .cons ⟨response, rfl⟩ htold

theorem configure_writes (addr : NodeAddr) (node : Node) :
    P.Writes c₀ (fun _ => List.Forall₂ Letter.Carries (node.bringUp addr)) (Node.configure addr node) := by
  have h : P.Writes c₀ (fun _ => List.Forall₂ Letter.Carries _) (Node.configure addr node) :=
    writes_sendIf nofun (writes_sendIf nofun (writes_sendIf nofun (writes_pure .nil)))
  rwa [List.append_nil, ← List.append_assoc] at h

theorem visit_writes (codec id : BitVec 8) : P.Writes c₀ (Codec.Visited codec id) (Codec.visit codec id) := by
  apply writes_command_bind
  intro vendorId
  apply writes_ite
  · intro hvendor
    refine writes_note_bind nofun ?_
    apply writes_pure
    rw [eq_of_beq hvendor]
    exact rfl
  · intro hvendor
    refine writes_bind (read_writes ⟨codec, id⟩ vendorId) fun node asked hasked => ?_
    obtain ⟨rfl, hasked⟩ := hasked
    refine writes_note_bind nofun ?_
    refine writes_bind (configure_writes ⟨codec, id⟩ node) fun _ told htold => ?_
    apply writes_pure
    refine ⟨fun h => hvendor (beq_iff_eq.2 h), told, htold, ?_⟩
    rw [hasked, List.append_nil]
    rfl

/-! ### One codec and all of them -/

/-- All of what is pending may time out. -/
theorem touredBelow_silent (codec : BitVec 8) : ∀ pending, ∃ l, Codec.TouredBelow codec pending l []
  | [] => ⟨[], .done⟩
  | _ :: pending => by
    obtain ⟨l, h⟩ := touredBelow_silent codec pending
    exact ⟨_, .skip rfl h⟩

/-- **The walk below a root is a tour**, whatever is still to be visited: one visit is its first, and the rest follows by
induction on the allowance. -/
theorem walkBelow_writes (codec : BitVec 8) : ∀ allowance pending table, P.Writes c₀
    (fun nodes l => ∃ found, Codec.TouredBelow codec pending l found ∧
      nodes = found.foldl (fun t e => t.insert e.1 e.2) table) (Codec.walkBelow codec allowance pending table)
  | 0, [], _ | _ + 1, [], _ => writes_pure ⟨[], .done, rfl⟩
  | 0, id :: pending, table => by
    -- the allowance is used up, and nothing rules out that all the rest would have timed out
    apply writes_fail
    obtain ⟨l, h⟩ := touredBelow_silent codec (id :: pending)
    exact ⟨table, l, [], h, rfl⟩
  | allowance + 1, id :: pending, table => by
    refine writes_bind (visit_writes codec id) fun node here hhere => ?_
    cases node with
    | none =>
      apply (walkBelow_writes codec allowance pending table).mono
      rintro nodes rest ⟨found, hrest, rfl⟩
      exact ⟨found, .skip hhere hrest, rfl⟩
    | some node =>
      apply (walkBelow_writes codec allowance (node.children ++ pending) (table.insert id node)).mono
      rintro nodes rest ⟨found, hrest, rfl⟩
      exact ⟨(id, node) :: found, .read hhere hrest, rfl⟩

theorem codecWalk_writes (address : BitVec 8) :
    P.Writes c₀ (fun codec l => Codec.Toured address l codec) (Codec.walk address) := by
  apply writes_command_bind
  intro vendorId
  apply writes_ite
  · intro hsilent
    refine writes_note_bind nofun ?_
    apply writes_pure
    exact .absent (by simpa using hsilent)
  · intro hvendor
    obtain ⟨habsent, htimedOut⟩ : vendorId ≠ Response.absent ∧ vendorId ≠ Response.timedOut := by simpa using hvendor
    refine writes_note_bind nofun ?_
    refine writes_bind (read_writes ⟨address, 0⟩ vendorId) fun root asked hasked => ?_
    obtain ⟨rfl, hasked⟩ := hasked
    refine writes_bind (configure_writes ⟨address, 0⟩ root) fun _ told htold => ?_
    apply writes_get_bind
    intro t
    refine writes_bind (walkBelow_writes address _ root.children []) fun nodes rest hrest => ?_
    obtain ⟨found, hrest, rfl⟩ := hrest
    refine writes_note_bind nofun ?_
    apply writes_pure
    have h := Codec.Toured.present habsent ⟨htimedOut, told, htold, rfl⟩ hrest
    rw [hasked, List.append_assoc, List.cons_append] at h
    rwa [List.append_nil]

theorem walkAll_writes : ∀ addresses,
    P.Writes c₀ (fun codecs l => Topology.Toured addresses l codecs) (Codec.walkAll addresses)
  | [] => writes_pure .done
  | address :: addresses => by
    refine writes_bind (codecWalk_writes address) fun codec here hhere => ?_
    refine writes_bind (walkAll_writes addresses) fun codecs rest hrest => ?_
    apply writes_pure
    rw [List.append_nil]
    exact .codec hhere hrest

/-- **The walk is a tour of the codecs that reported in.** -/
theorem walk_writes (c₀ : Controller) :
    P.Writes c₀ (fun topology l => Topology.Toured c₀.codecAddresses l topology.codecs) Topology.walk := by
  apply writes_get_bind
  intro t
  refine writes_bind (walkAll_writes c₀.codecAddresses) fun codecs l hl => ?_
  apply writes_pure
  rwa [List.append_nil]

end Correspondent
end AudioBringup
