import ProjektCore.Automaton.Automaton
import ProjektCore.Automaton.Compiler
import ProjektCore.Automaton.Script
import ProjektCore.Automaton.State
import ProjektCore.Automaton.Transition
import ProjektCore.Beacon
import ProjektCore.Errors
import ProjektCore.Foundation.Bytes
import ProjektCore.Foundation.Conn
import ProjektCore.Foundation.Forgery
import ProjektCore.Foundation.Hex
import ProjektCore.Foundation.History
import ProjektCore.Foundation.Lists
import ProjektCore.Foundation.Panic
import ProjektCore.Foundation.Runs
import ProjektCore.Foundation.Stream
import ProjektCore.Foundation.Wire
import ProjektCore.Foundation.WireReader
import ProjektCore.Local.Accept
import ProjektCore.Local.Broadcast
import ProjektCore.Local.Handshake
import ProjektCore.Local.Replay
import ProjektCore.Local.Requester
import ProjektCore.Packet
import ProjektCore.Packet.Accounting
import ProjektCore.Packet.Sequence
import ProjektCore.Programs.Calm
import ProjektCore.Programs.Completion
import ProjektCore.Programs.Handshake
import ProjektCore.Programs.Meeting
import ProjektCore.Programs.Panics
import ProjektCore.Programs.Rank
import ProjektCore.Programs.Refinement
import ProjektCore.Programs.Sound
import ProjektCore.Programs.Stack
import ProjektCore.Programs.Transfer
import ProjektCore.Programs.TransferRun
import ProjektCore.Protocol.Client
import ProjektCore.Protocol.Discipline
import ProjektCore.Protocol.Failure
import ProjektCore.Protocol.Loop
import ProjektCore.Protocol.LoopOrder
import ProjektCore.Protocol.Network
import ProjektCore.Protocol.Pair
import ProjektCore.Protocol.Solo
import ProjektCore.Relay.AcceptFailure
import ProjektCore.Relay.Acceptance
import ProjektCore.Relay.Audit
import ProjektCore.Relay.Cleanup
import ProjektCore.Relay.Client.FailedAccepts
import ProjektCore.Relay.Client.Outcomes
import ProjektCore.Relay.Client.Protocol
import ProjektCore.Relay.Client.Requests
import ProjektCore.Relay.Client.Waits
import ProjektCore.Relay.Failures
import ProjektCore.Relay.FirstUse
import ProjektCore.Relay.Forward
import ProjektCore.Relay.Message
import ProjektCore.Relay.Registration
import ProjektCore.Relay.Server
import ProjektCore.Relay.ServerEffect
import ProjektCore.Relay.ServerWrite
import ProjektCore.Relay.SessionEffect
import ProjektCore.Relay.Sessions
import ProjektCore.Relay.Traffic
import ProjektCore.Relay.Unwrap
import ProjektCore.Secure
import ProjektCore.Session.Agreement
import ProjektCore.Session.Announced
import ProjektCore.Session.Closing
import ProjektCore.Session.Delivery
import ProjektCore.Session.Effect
import ProjektCore.Session.Link
import ProjektCore.Session.Loss
import ProjektCore.Session.Marshal
import ProjektCore.Session.Message
import ProjektCore.Session.Move
import ProjektCore.Session.Numbers
import ProjektCore.Session.Panics
import ProjektCore.Session.PayloadSize
import ProjektCore.Session.ReadMessage
import ProjektCore.Session.Registry
import ProjektCore.Session.Routing
import ProjektCore.Session.SameProtocol
import ProjektCore.Session.State
import ProjektCore.Session.Taken
import ProjektCore.Transfer.Agreement
import ProjektCore.Transfer.Block.Copies
import ProjektCore.Transfer.Block.Filled
import ProjektCore.Transfer.Block.Partition
import ProjektCore.Transfer.Block.Reader
import ProjektCore.Transfer.Block.Reassembly
import ProjektCore.Transfer.Block.Redo
import ProjektCore.Transfer.Block.Size
import ProjektCore.Transfer.Block.Writer
import ProjektCore.Transfer.Block.WriterRuns
import ProjektCore.Transfer.Codec
import ProjektCore.Transfer.Corruption
import ProjektCore.Transfer.Counters
import ProjektCore.Transfer.Course
import ProjektCore.Transfer.Fits
import ProjektCore.Transfer.Lockstep
import ProjektCore.Transfer.LoopEnd
import ProjektCore.Transfer.Message
import ProjektCore.Transfer.Pipeline
import ProjektCore.Transfer.Protobuf
import ProjektCore.Transfer.Receipts
import ProjektCore.Transfer.Receiver
import ProjektCore.Transfer.ReceiverCalls
import ProjektCore.Transfer.ReceiverRun
import ProjektCore.Transfer.Repair
import ProjektCore.Transfer.Requested
import ProjektCore.Transfer.Retry
import ProjektCore.Transfer.Sender
import ProjektCore.Transfer.SenderCalls
import ProjektCore.Transfer.SenderHistory
import ProjektCore.Transfer.SenderRun
import ProjektCore.Transfer.Sides
import ProjektCore.Transfer.Sturdy
import ProjektCore.Transfer.Unreliable
