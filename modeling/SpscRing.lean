import SpscRing.Abandoned
import SpscRing.AtomicBackoff
import SpscRing.AtomicWait.Backoff
import SpscRing.AtomicWait.Contract
import SpscRing.AtomicWait.Expiry
import SpscRing.AtomicWait.Native
import SpscRing.AtomicWait.Polling
import SpscRing.AtomicWait.Timeout
import SpscRing.AtomicWait.Tuning
import SpscRing.Channel.Blocking
import SpscRing.Channel.Ends
import SpscRing.Channel.Fixed
import SpscRing.Channel.Response
import SpscRing.Channel.Varlen
import SpscRing.Channel.Verdict
import SpscRing.ControlBlock
import SpscRing.Fixed.Construction
import SpscRing.Fixed.Copies
import SpscRing.Fixed.FullTest
import SpscRing.Fixed.Invariant
import SpscRing.Fixed.Occupancy
import SpscRing.Fixed.Overadvance
import SpscRing.Fixed.Refinement
import SpscRing.Fixed.SampledRoom
import SpscRing.Fixed.Sessions
import SpscRing.Fixed.Spin
import SpscRing.Fixed.SpinRead
import SpscRing.Fixed.Steps
import SpscRing.Fixed.System
import SpscRing.Fixed.WriteCall
import SpscRing.Foundation.Drain
import SpscRing.Foundation.Fifo
import SpscRing.Foundation.Machine
import SpscRing.Foundation.Memory
import SpscRing.Foundation.Positions
import SpscRing.Foundation.Refinement
import SpscRing.Foundation.Slots
import SpscRing.Foundation.Tiling
import SpscRing.NotifyWord.Backend
import SpscRing.NotifyWord.Platform
import SpscRing.NotifyWord.Protocol
import SpscRing.NotifyWord.Registrars
import SpscRing.NotifyWord.Sequence
import SpscRing.NotifyWord.WaiterBit
import SpscRing.NotifyWord.Wakeup
import SpscRing.NotifyWord.Word
import SpscRing.RingView
import SpscRing.Session
import SpscRing.Snapshot
import SpscRing.ThreadChannel.Delivered
import SpscRing.ThreadChannel.Draining
import SpscRing.ThreadChannel.Fixed
import SpscRing.ThreadChannel.Outcomes
import SpscRing.ThreadChannel.Unnotified
import SpscRing.ThreadChannel.Varlen
import SpscRing.Varlen.Alignment
import SpscRing.Varlen.Alone
import SpscRing.Varlen.Attach
import SpscRing.Varlen.Delivery
import SpscRing.Varlen.Drain
import SpscRing.Varlen.Footprint
import SpscRing.Varlen.Frame
import SpscRing.Varlen.Full
import SpscRing.Varlen.Header
import SpscRing.Varlen.Invariant
import SpscRing.Varlen.Overrun
import SpscRing.Varlen.Passes
import SpscRing.Varlen.Peek
import SpscRing.Varlen.ReaderSteps
import SpscRing.Varlen.Refused
import SpscRing.Varlen.Region
import SpscRing.Varlen.Representation
import SpscRing.Varlen.ReserveRun
import SpscRing.Varlen.Runs
import SpscRing.Varlen.SampledRoom
import SpscRing.Varlen.Scan
import SpscRing.Varlen.SlotSize
import SpscRing.Varlen.Spin
import SpscRing.Varlen.System
import SpscRing.Varlen.WriterSteps
