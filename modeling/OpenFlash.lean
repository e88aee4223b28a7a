import OpenFlash.Abi.Packing
import OpenFlash.Ftl.Capacity
import OpenFlash.Ftl.LiveData
import OpenFlash.Ftl.Conservation
import OpenFlash.Ftl.Atomicity
import OpenFlash.Ftl.Evacuation
import OpenFlash.Ftl.Checkpoint
import OpenFlash.Ftl.Recovery
import OpenFlash.Simulator.Accounting
import OpenFlash.Reference.BlockArrays
import OpenFlash.Reference.QueueFifo
import OpenFlash.Reference.FrameLaw
import OpenFlash.Qemu.Doorbell
import OpenFlash.Qemu.RingBounds
import OpenFlash.Qemu.Backpressure
import OpenFlash.Qemu.Refinement
import OpenFlash.Qemu.Validation
import OpenFlash.Qemu.Rejection
import OpenFlash.Driver.Fua
import OpenFlash.Driver.Protocol
import OpenFlash.Driver.Translation
import OpenFlash.Driver.SglTable
import OpenFlash.Driver.Flush
import OpenFlash.Driver.SoloCall
import OpenFlash.Driver.OwnershipSafe
import OpenFlash.Driver.AdminOutcome
import OpenFlash.Driver.BringUp
import OpenFlash.Driver.IoQueueSetup
import OpenFlash.Driver.Resume
import OpenFlash.Driver.Freeze
import OpenFlash.Driver.DrainLoops
import OpenFlash.Simulator.Percentile
import OpenFlash.Trace.Totality
import OpenFlash.Driver.Interrupts
import OpenFlash.Driver.BlockService
import OpenFlash.Driver.Lifecycle
import OpenFlash.Qemu.QueuePair
import OpenFlash.Ftl.JournalHistory
import OpenFlash.Driver.AdminChannel
import OpenFlash.Driver.Probe
import OpenFlash.Driver.AdminInterleaving
import OpenFlash.Driver.Levels
