import AudioBringup.Proofs.Candid
import AudioBringup.Proofs.StreamMemory
/-!
# Proofs.Steps — a run as the steps it takes

A step is one of the procedures a run is made of, with what it is started from and what it leaves.  `Goes` says that a
step can go so, and what it fails with if it does, and `Performed` that a run's calls are those of some steps in their order,
with nothing but notices in between.  What one step leaves is what the next one is started from.
-/
namespace AudioBringup

open Procedure

/-- One step of a run. -/
inductive Step
  | discover
  | bind
  | reset
  | settle
  | scan
  | suppress
  | establish
  | allocate
  | walk
  | program
  | start
  | linger
  | freeStreams
  | tearDown
  | release
  deriving DecidableEq

/-- What a run holds between two steps. -/
structure Holding extends Bringup where
  found : Option (Pci.Candidate × Pci.Identity) := none
  topology : Topology := {}

namespace Step

/-- The steps before the cleanup, in their order. -/
def order : List Step :=
  [.discover, .bind, .reset, .settle, .scan, .suppress, .establish, .allocate, .walk, .program, .start, .linger]

/-- What the first of some steps that failed, if any did, failed with. -/
def firstFailure (steps : List (Step × Option Error)) : Option Error := steps.findSome? Prod.snd

/-- The cleanup that is due after some steps, each with what it failed with if it did: one step for each thing they left. -/
def cleanup (steps : List (Step × Option Error)) : List Step :=
  (if (.allocate, none) ∈ steps then [.freeStreams] else []) ++
    (if (.establish, none) ∈ steps then [.tearDown] else []) ++ if (.bind, none) ∈ steps then [.release] else []

/-- Nothing is due for a step that failed. -/
theorem cleanup_failed (steps : List (Step × Option Error)) (step : Step) (e : Error) :
    cleanup (steps ++ [(step, some e)]) = cleanup steps := by simp [cleanup]

theorem firstFailure_append (steps steps' : List (Step × Option Error)) :
    firstFailure (steps ++ steps') = (firstFailure steps).or (firstFailure steps') := List.findSome?_append

theorem firstFailure_singleton (step : Step) (failed : Option Error) : firstFailure [(step, failed)] = failed := by
  cases failed with
  | none => rfl
  | some _ => rfl

/-- Steps that all went well. -/
theorem firstFailure_fine : ∀ steps : List Step, firstFailure (steps.map (·, none)) = none
  | [] => rfl
  | _ :: steps => firstFailure_fine steps

section
variable (n : Nat) (waveform : Array Byte)

/-- The step, started from the first holding and after the first history, can go well or fail with an error, and leave the
others. -/
inductive Goes : Step → Holding → History → Option Error → Holding → History → Prop
  | discover {σ : Type} {t : σ} {s : Holding} {h h' : History} {r : Except Error (Pci.Candidate × Pci.Identity)}
    (e : Ends recording n Pci.discover t h r t h') : Goes .discover s h (failureOf r) { s with found := r.toOption } h'
  | bind {σ : Type} {t : σ} {s : Holding} {h h' : History} {r : Except Error Unit} {candidate : Pci.Candidate}
    {identity : Pci.Identity} (found : s.found = some (candidate, identity))
    (e : Ends recording n (bindExclusive candidate) t h r t h') : Goes .bind s h (failureOf r) s h'
  | reset {s : Holding} {h h' : History} {r : Except Error Unit} {c : Controller}
    (e : Ends recording n Controller.reset s.controller h r c h') :
    Goes .reset s h (failureOf r) { s with controller := c } h'
  | settle {s : Holding} {h h' : History} {r : Except Error Unit} {c : Controller}
    (e : Ends recording n Controller.waitForCodecs s.controller h r c h') :
    Goes .settle s h (failureOf r) { s with controller := c } h'
  | scan {s : Holding} {h h' : History} {r : Except Error (BitVec 16)} {c : Controller}
    (e : Ends recording n Controller.scanCodecs s.controller h r c h') :
    Goes .scan s h (failureOf r) { s with controller := c } h'
  | suppress {s : Holding} {h h' : History} {r : Except Error Unit} {c : Controller}
    (e : Ends recording n Controller.suppressInterrupts s.controller h r c h') :
    Goes .suppress s h (failureOf r) { s with controller := c } h'
  | establish {s : Holding} {h h' : History} {r : Except Error TransportKind} {c : Controller}
    (e : Ends recording n Controller.establishTransport s.controller h r c h') :
    Goes .establish s h (failureOf r) { s with controller := c } h'
  | allocate {s : Holding} {h h' : History} {r : Except Error Streams} {c : Controller}
    (e : Ends recording n Streams.allocate s.controller h r c h') :
    Goes .allocate s h (failureOf r) { s with controller := c, streams := r.toOption } h'
  | walk {s : Holding} {h h' : History} {r : Except Error Topology} {c : Controller}
    (e : Ends recording n Topology.walk s.controller h r c h') :
    Goes .walk s h (failureOf r) { s with controller := c, topology := r.toOption.getD s.topology } h'
  | program {s : Holding} {h h' : History} {r : Except Error (List NodeAddr)} {streams : Streams}
    {t : Controller × Streams} (there : s.streams = some streams)
    (e : Ends recording n (Streams.program s.topology waveform) (s.controller, streams) h r t h') :
    Goes .program s h (failureOf r) { s with controller := t.1, streams := some t.2 } h'
  | start {s : Holding} {h h' : History} {r : Except Error Unit} {c : Controller} {streams : Streams}
    (there : s.streams = some streams) (e : Ends recording n streams.start s.controller h r c h') :
    Goes .start s h (failureOf r) { s with controller := c } h'
  | linger {s : Holding} {h h' : History} {r : Except Error Unit} (wanted : 0 < s.controller.config.playbackLinger)
    (e : Ends recording n (stall s.controller.config.playbackLinger) s.toBringup h r s.toBringup h') :
    Goes .linger s h (failureOf r) s h'
  | noLinger {s : Holding} {h : History} (unwanted : s.controller.config.playbackLinger = 0) : Goes .linger s h none s h
  | freeStreams {s : Holding} {h h' : History} {r : Except Error Unit} {c : Controller} {streams : Streams}
    (there : s.streams = some streams) (e : Ends recording n streams.release s.controller h r c h') :
    Goes .freeStreams s h (failureOf r) { s with controller := c, streams := none } h'
  | tearDown {s : Holding} {h h' : History} {r : Except Error Unit} {c : Controller}
    (there : s.controller.transport.isSome)
    (e : Ends recording n Controller.tearDownTransport s.controller h r c h') :
    Goes .tearDown s h (failureOf r) { s with controller := c } h'
  | release {σ : Type} {t : σ} {s : Holding} {h h' : History} {r : Except Error Unit}
    (e : Ends recording n Procedure.release t h r t h') : Goes .release s h (failureOf r) s h'

variable (config : Config)

/-- The steps a run took from its start, each with what it failed with if it did, what the run holds after them, and its
calls. -/
inductive Performed : List (Step × Option Error) → Holding → History → Prop
  | begin : Performed [] { controller := { config } } []
  | note {steps : List (Step × Option Error)} {s : Holding} {h : History} {m : Notice} (before : Performed steps s h) :
    Performed steps s (⟨.note m, ()⟩ :: h)
  | step {steps : List (Step × Option Error)} {s s' : Holding} {h h' : History} {step : Step} {failed : Option Error}
    (before : Performed steps s h) (goes : Goes n waveform step s h failed s' h') :
    Performed (steps ++ [(step, failed)]) s' h'

end
end Step
end AudioBringup
