import AudioBringup.Bits
import AudioBringup.Bringup
import AudioBringup.Call
import AudioBringup.Codec.Node
import AudioBringup.Codec.Topology
import AudioBringup.Codec.Verb
import AudioBringup.Config
import AudioBringup.Controller
import AudioBringup.Controller.CommandRings
import AudioBringup.Controller.ImmediateInterface
import AudioBringup.Controller.Transport
import AudioBringup.Error
import AudioBringup.Hex
import AudioBringup.LittleEndian
import AudioBringup.Misuse
import AudioBringup.Notice
import AudioBringup.Pci.Discovery
import AudioBringup.Pci.Identity
import AudioBringup.Playback.BufferList
import AudioBringup.Playback.Streams
import AudioBringup.Playback.Tone
import AudioBringup.Procedure
import AudioBringup.Procedure.Wait
import AudioBringup.Program
import AudioBringup.Proofs.Accounts
import AudioBringup.Proofs.AllocatedPages
import AudioBringup.Proofs.Arena
import AudioBringup.Proofs.BitFields
import AudioBringup.Proofs.Blocks
import AudioBringup.Proofs.BoundedRun
import AudioBringup.Proofs.Budget
import AudioBringup.Proofs.BufferSplit
import AudioBringup.Proofs.Cause
import AudioBringup.Proofs.CausedRun
import AudioBringup.Proofs.Census
import AudioBringup.Proofs.Channel
import AudioBringup.Proofs.Cleanup
import AudioBringup.Proofs.CommandWords
import AudioBringup.Proofs.Completion
import AudioBringup.Proofs.Confined
import AudioBringup.Proofs.ConsoleBuffer
import AudioBringup.Proofs.ConsoleText
import AudioBringup.Proofs.Correspondence
import AudioBringup.Proofs.EngineLayout
import AudioBringup.Proofs.Ensures
import AudioBringup.Proofs.ExitStatus
import AudioBringup.Proofs.Expansion
import AudioBringup.Proofs.FieldLaws
import AudioBringup.Proofs.FirmwareCalls
import AudioBringup.Proofs.History
import AudioBringup.Proofs.HostCalls
import AudioBringup.Proofs.ImmediateChannel
import AudioBringup.Proofs.Keeps
import AudioBringup.Proofs.LateAnswers
import AudioBringup.Proofs.Ledger
import AudioBringup.Proofs.Light
import AudioBringup.Proofs.Loaded
import AudioBringup.Proofs.Lockstep
import AudioBringup.Proofs.LockstepStreams
import AudioBringup.Proofs.Mail
import AudioBringup.Proofs.MappedPages
import AudioBringup.Proofs.MemoryBytes
import AudioBringup.Proofs.NodeAddressing
import AudioBringup.Proofs.Partition
import AudioBringup.Proofs.Playback
import AudioBringup.Proofs.PositionBuffer
import AudioBringup.Proofs.PositionReports
import AudioBringup.Proofs.Programming
import AudioBringup.Proofs.RegionMemory
import AudioBringup.Proofs.ReleaseOrder
import AudioBringup.Proofs.Rendering
import AudioBringup.Proofs.Reprogramming
import AudioBringup.Proofs.RingChannel
import AudioBringup.Proofs.RingDevice
import AudioBringup.Proofs.RingEager
import AudioBringup.Proofs.RingFifo
import AudioBringup.Proofs.RingLag
import AudioBringup.Proofs.RingLeftovers
import AudioBringup.Proofs.RingSetup
import AudioBringup.Proofs.Routine
import AudioBringup.Proofs.SampleOwnership
import AudioBringup.Proofs.Sessions
import AudioBringup.Proofs.Shortage
import AudioBringup.Proofs.SideBySide
import AudioBringup.Proofs.Sine
import AudioBringup.Proofs.Steps
import AudioBringup.Proofs.StrandedMemory
import AudioBringup.Proofs.StreamMemory
import AudioBringup.Proofs.StreamRegisters
import AudioBringup.Proofs.Survey
import AudioBringup.Proofs.TimedOutAnswers
import AudioBringup.Proofs.TimerEvents
import AudioBringup.Proofs.TornPairs
import AudioBringup.Proofs.Tours
import AudioBringup.Proofs.TransportMemory
import AudioBringup.Proofs.TransportsAgree
import AudioBringup.Proofs.Underway
import AudioBringup.Proofs.Unfolding
import AudioBringup.Proofs.Unmoved
import AudioBringup.Proofs.Waits
import AudioBringup.Proofs.WalkBounds
import AudioBringup.Proofs.WordArithmetic
import AudioBringup.Region
import AudioBringup.Region.Access
import AudioBringup.Register
import AudioBringup.Simulation.Bus
import AudioBringup.Simulation.Device
import AudioBringup.Simulation.Event
import AudioBringup.Simulation.Fault
import AudioBringup.Simulation.Firmware
import AudioBringup.Simulation.Machine
import AudioBringup.Simulation.Memory
import AudioBringup.StreamFormat
import AudioBringup.Uefi.Application
import AudioBringup.Uefi.Call
import AudioBringup.Uefi.Console
import AudioBringup.Uefi.Host
import AudioBringup.Uefi.Services
import AudioBringup.Uefi.Status
import AudioBringup.Uefi.Workbench
import AudioBringup.Width
import AudioBringup.Workbench
