import Cdj2000Emulator.Board.Scheduler
import Cdj2000Emulator.Board.Staging
import Cdj2000Emulator.C674x.Boundary
import Cdj2000Emulator.C674x.Footprint
import Cdj2000Emulator.C674x.Issuing
import Cdj2000Emulator.C674x.LoopFrame
import Cdj2000Emulator.C674x.Retire
import Cdj2000Emulator.C674x.Step
import Cdj2000Emulator.Card.Clusters
import Cdj2000Emulator.Card.Directories
import Cdj2000Emulator.Card.Entries
import Cdj2000Emulator.Card.Failures
import Cdj2000Emulator.Card.Put
import Cdj2000Emulator.Card.Steps
import Cdj2000Emulator.Card.Volume
import Cdj2000Emulator.Checkpoint.Migration
import Cdj2000Emulator.Cosim.Promises
import Cdj2000Emulator.Dmac.Lines
import Cdj2000Emulator.Dsp.Jobs
import Cdj2000Emulator.Dsp.Loops
import Cdj2000Emulator.Dsp.Position
import Cdj2000Emulator.Edma.Block
import Cdj2000Emulator.Edma.CheckCommit
import Cdj2000Emulator.Edma.Events
import Cdj2000Emulator.Edma.Halves
import Cdj2000Emulator.Edma.Model
import Cdj2000Emulator.Edma.Quiescence
import Cdj2000Emulator.Flash.Repack
import Cdj2000Emulator.GuiLink.Deliveries
import Cdj2000Emulator.Iic.Transfers
import Cdj2000Emulator.Library.Strided
import Cdj2000Emulator.Link.Membership
import Cdj2000Emulator.Link.Renumber
import Cdj2000Emulator.Link.Rounds
import Cdj2000Emulator.Link.Timeline
import Cdj2000Emulator.LoopBuffer.Schedule
import Cdj2000Emulator.Mcasp.DmaPort
import Cdj2000Emulator.Mmu.FastPaths
import Cdj2000Emulator.SimCore.PageCache
import Cdj2000Emulator.Panel.Acks
import Cdj2000Emulator.Panel.Analogue
import Cdj2000Emulator.Panel.Lines
import Cdj2000Emulator.Sdhi.Transfers
import Cdj2000Emulator.Sh7764Eth.Rings
import Cdj2000Emulator.Spi.Runs
import Cdj2000Emulator.SportLink.Announcements
import Cdj2000Emulator.SportLink.Deliveries
import Cdj2000Emulator.Timer64.Checkpointable
import Cdj2000Emulator.Timer64.Periods
import Cdj2000Emulator.Rtl8201fl.Exchanges
import Cdj2000Emulator.C674x.FetchStream
import Cdj2000Emulator.C674x.PacketTiming
import Cdj2000Emulator.C674x.InterruptReturn
import Cdj2000Emulator.C674x.LoopDrain
import Cdj2000Emulator.Checksum.Routines
import Cdj2000Emulator.Inject.BulkParts
import Cdj2000Emulator.Inject.StatusPrefix
import Cdj2000Emulator.Update.RoundTrip
import Cdj2000Emulator.Cfi.Amd
import Cdj2000Emulator.SportLink.Unusable
import Cdj2000Emulator.Dmac.BulkCopy
import Cdj2000Emulator.Checkpoint.DecodePacket
import Cdj2000Emulator.Checkpoint.Readers
import Cdj2000Emulator.Transcript.Accepts
import Cdj2000Emulator.Display.Unchanged
import Cdj2000Emulator.FloatingPoint.Compare
import Cdj2000Emulator.FloatingPoint.Conversions
import Cdj2000Emulator.FloatingPoint.Integers
import Cdj2000Emulator.Replayer.Divergence
import Cdj2000Emulator.Usbh.Delivery
import Cdj2000Emulator.Usbh.Completions
import Cdj2000Emulator.Usbh.Replies
import Cdj2000Emulator.C6747.Pll
import Cdj2000Emulator.C6747.PllClock
