import AudioBringup.Bringup
import AudioBringup.Playback.Tone
import AudioBringup.Uefi.Console
import AudioBringup.Uefi.Host
/-!
# Uefi.Application — the bring-up as a firmware application

A heap is had, the sequence is run with a test tone, the heap is given back, and the firmware learns how it went: success
only if the run completed, and the status of the call that failed where one did.
-/
namespace AudioBringup
namespace Uefi
namespace Application

/-- Bytes of the heap. -/
def heapSize : Nat := 4 * 1024 * 1024

/-- What the application asks of a run: to stay until the tone has gone round once. -/
def config (tone : Tone) : Config := { playbackLinger := tone.duration * 1000 }

/-- The status the application ends with after an error. -/
def exitStatus : Error → Status
  | .noController => .notFound
  | .outOfResources => .outOfResources
  | .waitTimedOut _ => .timeout
  | .badWaveform _ | .waveformTooShort .. => .invalidParameter
  | .deviceIo _ status => if Status.isError status then status else .deviceError
  | .topologyOverflow _ | .noTransport | .noOutputStream .. => .deviceError

/-- Runs the sequence with the standard tone and tells how it went. -/
def play : Procedure Unit Status := do
  let tone := Tone.standard
  let config := config tone
  match ← Procedure.attempt (Bringup.run config (tone.render config.format)) with
  | .ok summary =>
    summary.report
    return .success
  | .error e =>
    Procedure.note (.runFailed e)
    return exitStatus e

/-- The application but for its printing; waits without a limit are followed for `patience` checks. -/
def body (image : Pointer) (patience : Nat) : Firmware Status := do
  match ← (Services.allocatePool .loaderData heapSize).run with
  | .error e =>
    Firmware.ask (.note (.heapRefused e))
    return e.status
  | .ok heap =>
    let ((result, _), _) ← (play patience ()).expand Host.answer { image }
    let status :=
      match result with
      | .ok status => status
      | .error e => exitStatus e
    match ← (Services.freePool heap).run with
    | .ok () => pure ()
    | .error e => Firmware.ask (.note (.heapNotFreed e))
    return status

/-- The application from its entry point. -/
def run (image : Pointer) (patience : Nat) : Firmware Status :=
  Console.printing Console.initialLimit (body image patience)

end Application
end Uefi
end AudioBringup
