import SoftRadio.Flat.Interface
import SoftRadio.Proofs.Session.View
import SoftRadio.Proofs.Session.Effect
import SoftRadio.Proofs.Session.Tied
import SoftRadio.Proofs.Session.Interleaving
import SoftRadio.Proofs.Session.Quiescence
import SoftRadio.Proofs.Session.Ledger
import SoftRadio.Proofs.Session.LastError
import SoftRadio.Proofs.Session.LatestCall
import SoftRadio.Proofs.Session.AttachOutcome
import SoftRadio.Proofs.Stream.News
import SoftRadio.Proofs.Stream.Round
import SoftRadio.Proofs.Stream.PartialIssue
import SoftRadio.Proofs.Stream.Attempt
import SoftRadio.Proofs.Stream.Burst
import SoftRadio.Proofs.Stream.Chunking
import SoftRadio.Proofs.Stream.Transmission
import SoftRadio.Proofs.Stream.LateRest
import SoftRadio.Proofs.Device.Change
import SoftRadio.Proofs.Device.Office
import SoftRadio.Proofs.Device.SingleMailbox
import SoftRadio.Proofs.Device.Channels
import SoftRadio.Proofs.Device.Isolation
import SoftRadio.Proofs.Device.ClockRates
import SoftRadio.Proofs.Text.ListCodec
import SoftRadio.Proofs.Text.CutList
import SoftRadio.Proofs.Address
import SoftRadio.Proofs.PropertyMap
import SoftRadio.Proofs.PropertyChildren
import SoftRadio.Proofs.Device.Labels
import SoftRadio.Proofs.Device.Memories
import SoftRadio.Proofs.Discovery
import SoftRadio.Proofs.Session.Numbers
import SoftRadio.Proofs.Session.Failure
import SoftRadio.Proofs.Session.Stale
import SoftRadio.Proofs.Session.CountedTable
import SoftRadio.Proofs.Flat.Boundary
import SoftRadio.Proofs.Flat.LatestFailure
import SoftRadio.Proofs.Text.Buffer
import SoftRadio.Proofs.Session.SlotGrowth
import SoftRadio.Proofs.WholeSeconds
import SoftRadio.Proofs.Stream.Looks
import SoftRadio.Proofs.Stream.FirstSample
import SoftRadio.Proofs.Stream.TimedStart
import SoftRadio.Proofs.Stream.Overflow
import SoftRadio.Proofs.Stream.BufferAccess
import SoftRadio.Proofs.Device.SmallTimes
import SoftRadio.Proofs.AddressMerge
import SoftRadio.Proofs.Frontend.AutoTuning
import SoftRadio.Proofs.Frontend.OverallGain
import SoftRadio.Proofs.Device.Synchronization
import SoftRadio.Proofs.Flat.SubdevReadBack
import SoftRadio.Proofs.Device.Pins
import SoftRadio.Proofs.Range.Clip
import SoftRadio.Proofs.Frontend.ManualTuning
import SoftRadio.Proofs.DboardRecord
import SoftRadio.Proofs.Time.Ticks
import SoftRadio.Proofs.Time.Carry
