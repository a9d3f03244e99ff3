import AudioBringup.Proofs.Expansion
import AudioBringup.Uefi.Host
/-!
# Proofs.FirmwareCalls — what a service comes to

A service is one firmware call whose status is judged: an error becomes a `Failure`, anything else lets the output through.
Every step of the host is made of such calls, and returns however they are answered (`Returns`).
-/
namespace AudioBringup
namespace Uefi

/-- A firmware call with its answer. -/
structure Served where
  call : Call
  answer : call.Answer

/-- The firmware calls made so far, the latest first. -/
abbrev Trace := List Served

/-- The firmware that may answer whatever it likes. -/
def tracing : World Call Call.Answer Trace := fun c t a t' => t' = ⟨c, a⟩ :: t

/-- What a service makes of a status and an output. -/
def judge {α : Type} (op : String) (status : Status) (output : α) : Except Failure α :=
  if status.isError then .error ⟨op, status⟩ else .ok output

namespace Firmware

variable {ω α β : Type} {W : World Call Call.Answer ω} {w : ω}

/-- Every run of the program returns, and `Q` holds of what it returns. -/
def Returns (W : World Call Call.Answer ω) (x : Firmware α) (w : ω) (Q : α → ω → Prop) : Prop :=
  Program.Ensures W (Program.Then (fun (_ : Ending Unit) _ => False) Q) x w

theorem Returns.mono {x : Firmware α} {Q Q' : α → ω → Prop} (hx : Returns W x w Q) (hQ : ∀ a w, Q a w → Q' a w) :
    Returns W x w Q' :=
  Program.Ensures.mono hx fun e w h => match e, h with
    | .result a, h => hQ a w h

@[simp] theorem returns_pure {a : α} {Q : α → ω → Prop} : Returns W (pure a) w Q ↔ Q a w := Iff.rfl

@[simp] theorem returns_bind {x : Firmware α} {f : α → Firmware β} {Q : β → ω → Prop} :
    Returns W (x >>= f) w Q ↔ Returns W x w fun a w => Returns W (f a) w Q := by
  refine Program.ensures_bind.trans (Program.ensures_congr ?_)
  rintro (a | m | _) w <;> rfl

@[simp] theorem returns_ask {c : Call} {Q : c.Answer → ω → Prop} :
    Returns W (ask c) w Q ↔ ∀ a w', W c w a w' → Q a w' := Iff.rfl

/-- What holds of all that is returned holds at every ending. -/
theorem Returns.ensures {x : Firmware α} {Q : Ending α → ω → Prop} (hx : Returns W x w fun a w => Q (.result a) w) :
    Program.Ensures W Q x w :=
  Program.Ensures.mono hx fun e _ h => match e, h with
    | .result _, h => h

/-- What follows a program that returns. -/
theorem Returns.followed {x : Firmware α} {f : α → Firmware β} {P : α → ω → Prop} {Q : Ending β → ω → Prop}
    (hx : Returns W x w P) (hf : ∀ a w, P a w → Program.Ensures W Q (f a) w) : Program.Ensures W Q (x >>= f) w :=
  Program.ensures_bind.2 (Program.Ensures.mono hx fun e w h => match e, h with
    | .result a, h => hf a w h)

/-- What is returned however the firmware answers is returned by every firmware. -/
theorem Returns.anywhere {x : Firmware α} {t : Trace} {Q : α → Trace → Prop} (hx : Returns tracing x t Q) :
    Returns W x w fun a _ => ∃ t', Q a t' :=
  (Program.Ensures.along (R := fun _ _ => True) (fun c a t _ _ _ _ _ => ⟨⟨c, a⟩ :: t, rfl, trivial⟩)
    (Program.asks_anything x) hx trivial).mono fun e _ ⟨t', _, h⟩ => match e, h with
      | .result _, h => ⟨t', h⟩

end Firmware

namespace Services
open Firmware
variable {ω α β : Type} {W : World Call Call.Answer ω} {w : ω}

/-- **A service returns its output or its failure**, by the status of its one call. -/
theorem returns_service {c : Call} {op : String} (status : c.Answer → Status) (output : c.Answer → α)
    {Q : Except Failure α → ω → Prop} :
    Returns W (do
        let a ← ask c
        check op (status a)
        return output a : Services α).run w Q ↔
      ∀ a w', W c w a w' → Q (judge op (status a) (output a)) w' := by
  refine forall_congr' fun a => forall_congr' fun w' => forall_congr' fun _ => ?_
  change Program.Ensures W _ (ExceptT.run (check op (status a) >>= fun _ => pure (output a))) w' ↔ _
  unfold check judge
  split <;> exact Iff.rfl

theorem returns_plainService {c : Call} {op : String} (status : c.Answer → Status) {Q : Except Failure Unit → ω → Prop} :
    Returns W (do check op (status (← ask c)) : Services Unit).run w Q ↔
      ∀ a w', W c w a w' → Q (judge op (status a) ()) w' := by
  refine forall_congr' fun a => forall_congr' fun w' => forall_congr' fun _ => ?_
  change Program.Ensures W _ (ExceptT.run (check op (status a))) w' ↔ _
  unfold check judge
  split <;> exact Iff.rfl

/-- What follows a service that did not fail. -/
theorem returns_andThen {x : Services α} {f : α → Services β} {Q : Except Failure β → ω → Prop} :
    Returns W (x >>= f).run w Q ↔ Returns W x.run w fun r w =>
      match r with
      | .ok a => Returns W (f a).run w Q
      | .error e => Q (.error e) w := by
  refine returns_bind.trans (Program.ensures_congr ?_)
  rintro (⟨e | a⟩ | m | _) w <;> exact Iff.rfl

/-- A look at an event finds it signalled, not yet, or fails. -/
theorem returns_checkEvent {event : Pointer} {Q : Except Failure Bool → ω → Prop} :
    Returns W (checkEvent event).run w Q ↔ ∀ (status : Status) w', W (.checkEvent event) w status w' →
      Q (if status = Status.notReady then .ok false else judge "CheckEvent" status true) w' := by
  refine forall_congr' fun (status : Status) => forall_congr' fun w' => forall_congr' fun _ => ?_
  change Program.Ensures W _ (ExceptT.run (if status = Status.notReady then pure false
    else check "CheckEvent" status >>= fun _ => pure true)) w' ↔ _
  unfold check judge
  split
  · exact Iff.rfl
  · split <;> exact Iff.rfl

/-- A protocol is opened if there is an interface. -/
theorem returns_openPciIo {handle agent : Pointer} {mode : OpenMode} {Q : Except Failure Unit → ω → Prop} :
    Returns W (openPciIo handle agent mode).run w Q ↔
      ∀ (a : Status × Pointer) w', W (.openProtocol handle .pciIo agent mode) w a w' →
        Q (if a.1.isError then .error ⟨"OpenProtocol", a.1⟩
          else if a.2 = 0 then .error ⟨"OpenProtocol", Status.unsupported⟩ else .ok ()) w' := by
  refine forall_congr' fun a => forall_congr' fun w' => forall_congr' fun _ => ?_
  change Program.Ensures W _ (ExceptT.run (check "OpenProtocol" (Prod.fst a) >>= fun _ =>
    if Prod.snd a = 0 then throw ⟨"OpenProtocol", Status.unsupported⟩ else pure ())) w' ↔ _
  unfold check
  split
  · exact Iff.rfl
  · change Program.Ensures W _ (ExceptT.run (if Prod.snd a = 0 then _ else _)) w' ↔ _
    split <;> exact Iff.rfl

/-- No handles are no failure. -/
theorem returns_locateHandles {Q : Except Failure HandleBuffer → ω → Prop} :
    Returns W locateHandles.run w Q ↔ ∀ (a : Status × HandleBuffer) w', W (.locateHandles .byProtocol .pciIo) w a w' →
      Q (if a.1 = Status.notFound then .ok .empty else judge "LocateHandleBuffer" a.1 a.2) w' := by
  refine forall_congr' fun a => forall_congr' fun w' => forall_congr' fun _ => ?_
  change Program.Ensures W _ (ExceptT.run (if Prod.fst a = Status.notFound then pure .empty
    else check "LocateHandleBuffer" (Prod.fst a) >>= fun _ => pure (Prod.snd a))) w' ↔ _
  unfold check judge
  split
  · exact Iff.rfl
  · split <;> exact Iff.rfl

@[simp] theorem returns_toAnswer {x : Services α} {Q : Except Error α → ω → Prop} :
    Returns W x.toAnswer w Q ↔ Returns W x.run w fun r => Q (r.mapError Failure.toError) := by
  unfold toAnswer
  rw [returns_bind]
  rfl

end Services

namespace Host
open Firmware
variable {ω α : Type} {W : World Call Call.Answer ω} {w : ω} {h : Host} {f : Function}

theorem returns_viaFunction (hf : h.bound = some f) {x : Function → Firmware α} {Q : α × Host → ω → Prop} :
    Returns W (h.viaFunction x) w Q ↔ Returns W (x f) w fun a => Q (a, h) := by
  unfold viaFunction
  simp [hf]

theorem returns_updateFunction (hf : h.bound = some f) {x : Function → Firmware (α × Function)} {Q : α × Host → ω → Prop} :
    Returns W (h.updateFunction x) w Q ↔ Returns W (x f) w fun a => Q (a.1, { h with bound := some a.2 }) := by
  unfold updateFunction
  simp [hf]

/-- The platform that the host is over a firmware. -/
def upon (W : World Call Call.Answer ω) : World AudioBringup.Call AudioBringup.Call.Answer (Beneath Host ω) :=
  Program.through answer W

theorem of_upon {c : AudioBringup.Call} {a : c.Answer} {t t' : Beneath Host ω} (h : upon W c t a t') (ht : t.intact = true)
    {Q : c.Answer × Host → ω → Prop} (hq : Returns W (answer c t.state) t.world Q) :
    t'.intact = true ∧ Q (a, t'.state) t'.world := by
  have hreturns := Program.ensures_iff_ends.1 hq
  rcases h with ⟨-, ht', hends⟩ | ⟨-, hbroken | ⟨e, w, hends, hnone⟩⟩
  · exact ⟨ht', hreturns _ _ hends⟩
  · rw [ht] at hbroken
    cases hbroken
  · cases e with
    | result b => exact absurd rfl (hnone b)
    | misused m => exact (hreturns _ _ hends).elim
    | stuck => exact (hreturns _ _ hends).elim

end Host

end Uefi
end AudioBringup
