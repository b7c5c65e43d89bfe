import Spead.Cancellation
import Spead.Generator
import Spead.Group.Update
import Spead.Heap.Layout
import Spead.Reassembler.Report
import Spead.Simulation.Run
import Spead.Stream.Receiver
import Spead.Stream.Sender
import Spead.Main
import Spead.Proofs.Buffer
import Spead.Proofs.Coverage
import Spead.Proofs.Reassembler.Block
import Spead.Proofs.Table
import Spead.Proofs.Reassembler.Run
import Spead.Proofs.Reassembler.Assembly
import Spead.Proofs.Bytes
import Spead.Proofs.Packet
import Spead.Proofs.Heap.Cutting
import Spead.Proofs.Heap.Resolving
import Spead.Proofs.Reassembler.Sent
import Spead.Proofs.Reassembler.Integrity
import Spead.Proofs.Reassembler.Bounds
import Spead.Proofs.Reassembler.Effects
import Spead.Proofs.Reassembler.Counters
import Spead.Proofs.Reassembler.Account
import Spead.Proofs.Reassembler.Ledger
import Spead.Proofs.Reassembler.Balance
import Spead.Proofs.Reassembler.Ending
import Spead.Proofs.Reassembler.History
import Spead.Proofs.Reassembler.Separation
import Spead.Proofs.Reassembler.Progress
import Spead.Proofs.Reassembler.ExactlyOnce
import Spead.Proofs.Decimal
import Spead.Proofs.ArrayHeader
import Spead.Proofs.Descriptor
import Spead.Proofs.Bits
import Spead.Proofs.Shape
import Spead.Proofs.Value
import Spead.Proofs.Group.Basic
import Spead.Proofs.Group.Update
import Spead.Proofs.Generator
import Spead.Proofs.Reassembler.Delivery
import Spead.Proofs.Mirror
import Spead.Proofs.Convergence
import Spead.Proofs.Packet.Frame
import Spead.Proofs.Packet.Codec
import Spead.Proofs.Descriptor.Writable
import Spead.Proofs.ElementOrder
import Spead.Proofs.Value.Elements
import Spead.Proofs.Wrapping
import Spead.Proofs.Bits.Cursor
import Spead.Proofs.FloatingPoint
import Spead.Proofs.FloatingPoint.Bounds
import Spead.Proofs.HandedOff
import Spead.Proofs.Relay
import Spead.Proofs.Stream.Receiver
import Spead.Proofs.Heap.Packetizer
import Spead.Proofs.Heap.Partition
import Spead.Proofs.MachineWords
import Spead.Proofs.Reassembler.Unbroken
import Spead.Proofs.Simulation.Checking
import Spead.Proofs.Heap.Tiling
import Spead.Proofs.Heap.Arrival
import Spead.Proofs.Group.Repetition
import Spead.Proofs.Group.Isolation
import Spead.Proofs.Group.Consistency
import Spead.Proofs.Generator.Changes
import Spead.Proofs.Value.Transport
import Spead.Proofs.ArrayHeader.Reading
import Spead.Proofs.Coverage.CanonicalForm
import Spead.Proofs.Bits.ByteByByte
import Spead.Proofs.Bits.OneString
import Spead.Proofs.Reassembler.EndMark
import Spead.Proofs.Value.Bounded
import Spead.Proofs.Stream.Sending
import Spead.Proofs.PacketBuffer
import Spead.Proofs.Reassembler.Standing
import Spead.Proofs.Network
import Spead.Proofs.Value.Columns
import Spead.Proofs.Pointer.Shifts
import Spead.Proofs.Value.AnyOrder
import Spead.Proofs.Simulation.Planning
