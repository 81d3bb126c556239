import ValueRpc.Lib.Runs
import ValueRpc.Lib.Orbit
import ValueRpc.Lib.ByteStream
import ValueRpc.Lib.Tally
import ValueRpc.Lib.Mutex
import ValueRpc.Lib.Fifo
import ValueRpc.Lib.Mealy
import ValueRpc.Lib.Keyed
import ValueRpc.Core.Value
import ValueRpc.Core.Credit
import ValueRpc.Core.CreditRun
import ValueRpc.Core.Backoff
import ValueRpc.Core.Pump
import ValueRpc.Core.PumpRun
import ValueRpc.Core.Error
import ValueRpc.Core.MessageType
import ValueRpc.Core.HashChain
import ValueRpc.Core.HashStep
import ValueRpc.Core.Message
import ValueRpc.Core.Verify
import ValueRpc.Core.Envelope
import ValueRpc.Stream.Endpoint
import ValueRpc.Stream.Flow
import ValueRpc.Stream.FlowInv
import ValueRpc.Stream.FlowStep
import ValueRpc.Stream.Conservation
import ValueRpc.Stream.Inbound
import ValueRpc.Stream.PutReconnect
import ValueRpc.Stream.PutReconnectProofs
import ValueRpc.Stream.Served
import ValueRpc.Stream.CloseOnce
import ValueRpc.Stream.HandlerContext
import ValueRpc.Stream.Overrun
import ValueRpc.Stream.Accusation
import ValueRpc.Stream.Responders
import ValueRpc.Call.Retry
import ValueRpc.Call.RetryProofs
import ValueRpc.Call.Sla
import ValueRpc.Session.Resume
import ValueRpc.Session.Server
import ValueRpc.Session.SelfHeal
import ValueRpc.Session.Connect
import ValueRpc.Session.ConnectProofs
import ValueRpc.Session.Handshake
import ValueRpc.Session.FirstFrame
import ValueRpc.Session.Attach
import ValueRpc.Serve.Session
import ValueRpc.Serve.Cancel
import ValueRpc.Serve.Disconnect
import ValueRpc.Wire.Codec
import ValueRpc.Wire.Sender
import ValueRpc.Route.Session
import ValueRpc.Route.CrossTalk
import ValueRpc.Route.Routed
import ValueRpc.Reverse.Session
import ValueRpc.Reverse.Flow
import ValueRpc.Reverse.Holes
import ValueRpc.Quic.Transport
import ValueRpc.Quic.Streams
import ValueRpc.Quic.Steps
import ValueRpc.Quic.Delivery
import ValueRpc.Quic.Freed
import ValueRpc.Ledger.Session
import ValueRpc.Ledger.Requests
import ValueRpc.Ledger.Streams
import ValueRpc.Ledger.Retire
import ValueRpc.Client.Reconnect
import ValueRpc.Client.Disposal
import ValueRpc.Client.Conns
import ValueRpc.Client.Drops
import ValueRpc.Client.Ownership
import ValueRpc.Client.Closing
import ValueRpc.Client.Released
import ValueRpc.Client.ResultLoop
import ValueRpc.Client.Redial
import ValueRpc.Server.Run
import ValueRpc.Link.Loops
import ValueRpc.Link.Request
import ValueRpc.Link.Stale
import ValueRpc.Resilience.Breaker
import ValueRpc.Resilience.Tripping
import ValueRpc.Resilience.Cancelled
import ValueRpc.Resilience.Retry
import ValueRpc.Resilience.Policies
import ValueRpc.Resilience.Chain
import ValueRpc.Unary.Session
import ValueRpc.Unary.Frames
import ValueRpc.Unary.Replies
import ValueRpc.Unary.Typed
