import AudioBringup.Pci.Discovery
import AudioBringup.Proofs.Confined
/-!
# Proofs.Routine — the steps that neither have memory nor let the hardware at it

Discovery, bringing the controller up, commands, and the walk through the codecs make routine calls only.  They move the
cursors of a transport, but not what it holds.
-/
namespace AudioBringup

open Procedure

/-! ### What a transport holds -/

namespace Transport

/-- The memory a transport holds, with what it was had for. -/
def held : Transport → List (Use × Region)
  | .immediate _ => []
  | .rings r => [(.ring, r.corb), (.ring, r.rirb)]

end Transport

namespace Controller

/-- The memory a controller's transport holds, if there is a transport. -/
def held (c : Controller) : Option (List (Use × Region)) := c.transport.map Transport.held

end Controller

/-! ### Sending a command -/

namespace Call

/-- The registers that an exchange writes, over either transport, with the width of the access. -/
def postbox : List (Width × BitVec 32) :=
  [(.word, Register.corbwp), (.byte, Register.rirbsts), (.dword, Register.icoi), (.word, Register.icis)]

/-- A plain call that writes no register but those of an exchange. -/
def Posting : Call → Prop
  | .write w o _ => (w, o) ∈ postbox
  | c => c.Plain

theorem Posting.routine : ∀ {c : Call}, c.Posting → c.Routine
  | .write w o v, h => by
    have hlow : ∀ p ∈ postbox, p.2 < Register.dplbase := by decide
    exact hlow (w, o) h
  | .candidates, h | .identify _, h | .bindExclusive _, h | .read .., h | .stall _, h | .armTimer _, h | .timerExpired, h
  | .cancelTimer, h | .load32 _, h | .load64 _, h | .store32 .., h | .store64 .., h | .fill .., h | .clear .., h
  | .note _, h => h

end Call

section
variable {σ τ : Type} {f : σ → τ}

theorem confined_post {w : Width} {o v : BitVec 32} (h : (w, o) ∈ Call.postbox) : Confined Call.Posting f (write w o v) :=
  confined_write h

theorem confined_write_routine {w : Width} {o v : BitVec 32} (ho : o < Register.dplbase) :
    Confined Call.Routine f (write w o v) := confined_write ho

theorem confined_writeAddress {lower upper : BitVec 32} {address : BitVec 64} (hlower : lower < Register.dplbase)
    (hupper : upper < Register.dplbase) : Confined Call.Routine f (writeAddress lower upper address) :=
  confined_bind (confined_write_routine hlower) fun _ => confined_write_routine hupper

end

namespace Pci

variable {σ : Type}

theorem firstController_routine : ∀ candidates, Confined Call.Routine id (firstController (σ := σ) candidates)
  | [] => confined_fail _
  | _ :: rest => by
    refine confined_bind (confined_ask (c := .identify _) trivial) fun identity => ?_
    refine confined_bind (confined_note trivial) fun _ => confined_ite ?_ (firstController_routine rest)
    exact confined_bind (confined_note trivial) fun _ => confined_pure _

theorem discover_routine : Confined Call.Routine id (discover (σ := σ)) :=
  confined_bind (confined_ask (c := .candidates) trivial) fun _ => confined_bind (confined_note trivial) fun _ =>
    firstController_routine _

end Pci

namespace ImmediateInterface

variable {σ τ : Type} {f : σ → τ}

theorem confined_awaitResponse {P : Call → Prop} (hlook : P (.read .word Register.icis)) (hexpired : P .timerExpired) :
    ∀ patience, Confined P f (awaitResponse patience)
  | 0 => fun _ _ _ => .refl
  | patience + 1 => by
    refine confined_bind (confined_read16 hlook) fun status => confined_ite (confined_pure _) ?_
    refine confined_bind (confined_timerExpired hexpired) fun _ => ?_
    exact confined_ite (confined_pure _) (confined_awaitResponse hlook hexpired patience)

theorem exchange_posting (timeout : BitVec 64) (word : BitVec 32) : Confined Call.Posting f (exchange timeout word) := by
  refine confined_bind (confined_post (by decide)) fun _ => confined_bind (confined_post (by decide)) fun _ => ?_
  refine confined_bind (confined_post (by decide)) fun _ => confined_bind (confined_armTimer trivial) fun _ => ?_
  refine confined_bind (fun n => confined_awaitResponse trivial trivial n n) fun answered => ?_
  refine confined_bind (confined_cancelTimer trivial) fun _ => confined_ite ?_ ?_
  · refine confined_bind (confined_read trivial) fun response => confined_bind (confined_read16 trivial) fun status => ?_
    refine confined_bind (confined_post (by decide)) fun _ => ?_
    exact confined_bind (confined_note trivial) fun _ => confined_pure _
  · exact confined_bind (confined_note trivial) fun _ => confined_pure _

end ImmediateInterface

namespace CommandRings

theorem exchange_posting (word : BitVec 32) :
    Confined Call.Posting (fun r => Transport.held (.rings r)) (exchange word) := by
  refine confined_bind (confined_modify fun _ => rfl) fun _ => confined_bind confined_get fun rings => ?_
  refine confined_bind (confined_store32 trivial) fun _ => confined_bind (confined_post (by decide)) fun _ => ?_
  refine confined_bind (confined_waitUntil (confined_look16 trivial) fun _ => trivial) fun _ => ?_
  refine confined_bind (confined_waitUntil (confined_look16 trivial) fun _ => trivial) fun _ => ?_
  refine confined_bind (confined_modify fun _ => rfl) fun _ => confined_bind confined_get fun rings => ?_
  refine confined_bind (confined_load32 trivial) fun _ => confined_bind (confined_post (by decide)) fun _ => ?_
  exact confined_bind (confined_note trivial) fun _ => confined_pure _

end CommandRings

theorem Transport.exchange_posting (word : BitVec 32) : Confined Call.Posting Transport.held (Transport.exchange word)
  | n, .immediate timeout, h =>
    ImmediateInterface.exchange_posting (f := Transport.held) timeout word n (.immediate timeout) h
  | _, .rings r, _ =>
    ensures_bind.2 (confined_on (f := Transport.held) (s := .rings r) (CommandRings.exchange_posting word) fun _ => id)

namespace Controller

/-- A command changes nothing but the cursors of the transport. -/
theorem command_posting (c : Command) : Confined Call.Posting (fun c => (c.config, c.held)) (command c) := by
  rintro n ⟨config, codecs, _ | t⟩ h
  · exact confined_fail _ n _ h
  · have sent : ∀ h, Ensures recording n (on t (fun t (s : Controller) => { s with transport := some t })
        (Transport.exchange c.encode)) ⟨config, codecs, some t⟩ h
        (.always (fun s' h' => (s'.config, s'.held) = (config, held ⟨config, codecs, some t⟩) ∧ h.Grows Call.Posting h')
          (h.Grows Call.Posting)) :=
      fun h => confined_on (f := fun c : Controller => (c.config, c.held)) (Transport.exchange_posting c.encode)
        fun _ hheld => congrArg (config, some ·) hheld
    refine ensures_bind.2 (ensures_get.2 ?_)
    change Ensures recording n (if c.indirect then (do
        Procedure.note (.indirectNode c.node c.codec)
        on t (fun t (s : Controller) => { s with transport := some t }) (Transport.exchange c.encode))
      else on t (fun t (s : Controller) => { s with transport := some t }) (Transport.exchange c.encode)) _ _ _
    split
    · refine ensures_bind.2 (ensures_note.2 ?_)
      rintro _ rfl
      have noted : h.Grows Call.Posting (⟨.note (.indirectNode c.node c.codec), ()⟩ :: h) := .call trivial .refl
      exact (sent _).mono (fun _ _ _ hh => ⟨hh.1, noted.trans hh.2⟩) (fun _ _ _ hh => ⟨hh.1, noted.trans hh.2⟩)
        (fun _ hh => noted.trans hh) (fun _ hh => noted.trans hh)
    · exact sent h

theorem command_routine (c : Command) : Confined Call.Routine held (command c) :=
  ((command_posting c).mono fun _ => Call.Posting.routine).map Prod.snd

theorem getParameter_routine (codec node : BitVec 8) (p : Parameter) :
    Confined Call.Routine held (getParameter codec node p) := command_routine _

theorem reset_routine : Confined Call.Routine held reset := by
  refine confined_bind (confined_read trivial) fun control => ?_
  refine confined_bind (confined_write_routine (by decide)) fun _ => confined_bind confined_get fun c => ?_
  refine confined_bind (confined_waitUntil (confined_bind (confined_read trivial) fun _ => confined_pure _)
    fun _ => trivial) fun _ => ?_
  exact confined_note trivial

theorem waitForCodecs_routine : Confined Call.Routine held waitForCodecs :=
  confined_bind confined_get fun _ => confined_stall trivial

theorem scanCodecs_routine : Confined Call.Routine held scanCodecs := by
  refine confined_bind (confined_read16 trivial) fun _ => confined_bind (confined_write_routine (by decide)) fun _ => ?_
  refine confined_bind (confined_modify fun _ => rfl) fun _ => ?_
  exact confined_bind (confined_note trivial) fun _ => confined_pure _

theorem suppressInterrupts_routine : Confined Call.Routine held suppressInterrupts :=
  confined_bind (confined_write_routine (by decide)) fun _ => confined_write_routine (by decide)

end Controller

/-! ### The walk -/

namespace Node

theorem read_routine (addr : NodeAddr) (vendorId : BitVec 32) :
    Confined Call.Routine Controller.held (read addr vendorId) := by
  unfold read
  iterate 15 refine confined_bind (Controller.getParameter_routine _ _ _) fun _ => ?_
  exact confined_pure _

/-- A command that is announced and sent only where it is wanted, and nothing made of its answer. -/
theorem sendIf_routine {wanted : Bool} {m : Notice} {cmd : Command} {rest : Procedure Controller Unit}
    (hm : Call.Routine (.note m)) (hrest : Confined Call.Routine Controller.held rest) :
    Confined Call.Routine Controller.held (if wanted then (do
      note m
      let _ ← Controller.command cmd
      rest) else rest) :=
  confined_ite (confined_bind (confined_note hm) fun _ => confined_bind (Controller.command_routine cmd) fun _ => hrest) hrest

theorem configure_routine (addr : NodeAddr) (node : Node) :
    Confined Call.Routine Controller.held (configure addr node) :=
  sendIf_routine trivial (sendIf_routine trivial (sendIf_routine trivial (confined_pure _)))

end Node

namespace Codec

theorem visit_routine (codec id : BitVec 8) : Confined Call.Routine Controller.held (visit codec id) := by
  refine confined_bind (Controller.getParameter_routine _ _ _) fun vendorId => confined_ite ?_ ?_
  · exact confined_bind (confined_note trivial) fun _ => confined_pure _
  · refine confined_bind (Node.read_routine _ _) fun node => confined_bind (confined_note trivial) fun _ => ?_
    exact confined_bind (Node.configure_routine _ _) fun _ => confined_pure _

theorem walkBelow_routine (codec : BitVec 8) : ∀ allowance pending found,
    Confined Call.Routine Controller.held (walkBelow codec allowance pending found)
  | 0, [], _ | _ + 1, [], _ => confined_pure _
  | 0, _ :: _, _ => confined_fail _
  | allowance + 1, id :: pending, found => by
    refine confined_bind (visit_routine codec id) fun node => ?_
    cases node with
    | none => exact walkBelow_routine codec allowance pending found
    | some node => exact walkBelow_routine codec allowance _ _

theorem walk_routine (address : BitVec 8) : Confined Call.Routine Controller.held (walk address) := by
  refine confined_bind (Controller.getParameter_routine _ _ _) fun vendorId => confined_ite ?_ ?_
  · exact confined_bind (confined_note trivial) fun _ => confined_pure _
  · refine confined_bind (confined_note trivial) fun _ => confined_bind (Node.read_routine _ _) fun root => ?_
    refine confined_bind (Node.configure_routine _ _) fun _ => confined_bind confined_get fun c => ?_
    refine confined_bind (walkBelow_routine _ _ _ _) fun nodes => ?_
    exact confined_bind (confined_note trivial) fun _ => confined_pure _

theorem walkAll_routine : ∀ addresses, Confined Call.Routine Controller.held (walkAll addresses)
  | [] => confined_pure _
  | address :: rest => by
    refine confined_bind (walk_routine address) fun codec => ?_
    exact confined_bind (walkAll_routine rest) fun _ => confined_pure _

end Codec

theorem Topology.walk_routine : Confined Call.Routine Controller.held Topology.walk :=
  confined_bind confined_get fun _ => confined_bind (Codec.walkAll_routine _) fun _ => confined_pure _

theorem Streams.formatConverters_posting : ∀ converters,
    Confined Call.Posting (fun c : Controller => (c.config, c.held)) (Streams.formatConverters converters)
  | [] => confined_pure _
  | addr :: rest => by
    refine confined_bind confined_get fun c => confined_bind (confined_note trivial) fun _ => ?_
    refine confined_bind (Controller.command_posting _) fun _ => confined_bind (Controller.command_posting _) fun _ => ?_
    exact Streams.formatConverters_posting rest

theorem Streams.formatConverters_routine (converters : List NodeAddr) :
    Confined Call.Routine Controller.held (Streams.formatConverters converters) :=
  ((formatConverters_posting converters).mono fun _ => Call.Posting.routine).map Prod.snd

end AudioBringup
