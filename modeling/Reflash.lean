import Reflash.Word
import Reflash.IndexSet
import Reflash.AddressMap
import Reflash.Sector
import Reflash.Job
import Reflash.Job.Plan
import Reflash.Upload
import Reflash.Slot
import Reflash.Message
import Reflash.Job.Text
import Reflash.Machine
import Reflash.Device
import Reflash.Volume
import Reflash.Memory
import Reflash.RebootTimer
import Reflash.Rp2040
import Reflash.Rp2040.Chip
import Reflash.Wire.Varint
import Reflash.Wire.Stuffing
import Reflash.Wire.Codec
import Reflash.Text
import Reflash.ImageFile
import Reflash.Loader.Map
import Reflash.Loader.Receiver
import Reflash.Loader.Service
import Reflash.Loader.Startup
import Reflash.Tool.Number
import Reflash.Tool.Arguments
import Reflash.Tool.Failure
import Reflash.Tool.PathError
import Reflash.Tool.TokenCounter
import Reflash.Tool.Link
import Reflash.Tool.Program
import Reflash.Bench.Panel
import Reflash.Bench.Surroundings
import Reflash.Bench.Desk
import Reflash.Bench.FarEnds
import Reflash.Main
import Reflash.Proofs.IndexSet
import Reflash.Proofs.AddressMap
import Reflash.Proofs.Upload
import Reflash.Proofs.Run
import Reflash.Proofs.Sector
import Reflash.Proofs.PageJob
import Reflash.Proofs.Attribution
import Reflash.Proofs.MemoryMachine
import Reflash.Proofs.MemoryRequest
import Reflash.Proofs.FlatMemory
import Reflash.Proofs.PackedImage
import Reflash.Proofs.ImageJob
import Reflash.Proofs.Delivery
import Reflash.Proofs.CompletedImage
import Reflash.Proofs.AbortedUpload
import Reflash.Proofs.RunHistory
import Reflash.Proofs.Bookkeeping
import Reflash.Proofs.CallBounds
import Reflash.Proofs.RebootLatch
import Reflash.Proofs.ErasedSectors
import Reflash.Proofs.EraseDiscipline
import Reflash.Proofs.Session
import Reflash.Proofs.HostMutation
import Reflash.Proofs.CompleteDelivery
import Reflash.Proofs.Framing
import Reflash.Proofs.RoundTrip
import Reflash.Proofs.Attended
import Reflash.Proofs.Answers
import Reflash.Proofs.LeftAlone
import Reflash.Proofs.SerialLine
import Reflash.Proofs.ChipMemory
import Reflash.Proofs.LoaderUpload
import Reflash.Proofs.Conversation
import Reflash.Proofs.EndToEnd
import Reflash.Proofs.FrameRoundTrip
import Reflash.Proofs.Producers
import Reflash.Proofs.ExclusiveAccess
import Reflash.Proofs.ChipHistory
import Reflash.Proofs.LoaderProtection
import Reflash.Proofs.TimerRegisters
import Reflash.Proofs.StartDecision
import Reflash.Proofs.DiskSide
import Reflash.Proofs.OneCommand
import Reflash.Proofs.ImageRuns
import Reflash.Proofs.ImageStarts
import Reflash.Proofs.InStep
import Reflash.Proofs.LoaderMemory
import Reflash.Proofs.Chunks
import Reflash.Proofs.WriteThenRead
import Reflash.Proofs.CheckOrder
import Reflash.Proofs.AcceptedJobs
import Reflash.Proofs.DroppedBlocks
import Reflash.Proofs.WriterHistory
import Reflash.Proofs.PacketCuts
import Reflash.Proofs.SectorCodec
import Reflash.Proofs.Packing
import Reflash.Proofs.NoFaults
import Reflash.Proofs.RebootRequests
import Reflash.Proofs.StartHistory
import Reflash.Proofs.NumberGrammar
import Reflash.Proofs.ShortAnswers
import Reflash.Proofs.ExactLookUp
import Reflash.Proofs.IndexSetHistory
