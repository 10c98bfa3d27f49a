import QuicTunnel.Base.Transition
import QuicTunnel.Client.Retry
import QuicTunnel.Client.RetryBudget
import QuicTunnel.Ffi.Run
import QuicTunnel.Ffi.Cancellation
import QuicTunnel.Base.Watch
import QuicTunnel.Client.Bracketing
import QuicTunnel.Client.Identity
import QuicTunnel.Client.Leadership
import QuicTunnel.Protocol.Exchange
import QuicTunnel.Protocol.H2InStep
import QuicTunnel.Protocol.Lockstep
import QuicTunnel.Base.Segments
import QuicTunnel.Client.Followers
import QuicTunnel.Client.PoolProgress
import QuicTunnel.Client.Rejections
import QuicTunnel.Client.Tunnel
import QuicTunnel.Common.Codec
import QuicTunnel.Common.H2Io
import QuicTunnel.Protocol.Acceptance
import QuicTunnel.Protocol.Replay
import QuicTunnel.Relay.Pending
import QuicTunnel.Relay.Registry
import QuicTunnel.Relay.Verdicts
import QuicTunnel.Base.IpAddr
import QuicTunnel.Client.Backoff
import QuicTunnel.Client.RateLimits
import QuicTunnel.Client.RelayAddr
import QuicTunnel.Client.Seeding
import QuicTunnel.Common.EndOfStream
import QuicTunnel.Relay.Balance
import QuicTunnel.Relay.Renewal
import QuicTunnel.Relay.Sniffing
import QuicTunnel.Relay.Txt
import QuicTunnel.Client.Liveness
import QuicTunnel.Base.Files
import QuicTunnel.Base.Poll
import QuicTunnel.Base.SideBySide
import QuicTunnel.Common.KeepAlive
import QuicTunnel.Common.Order
import QuicTunnel.Relay.Admission
import QuicTunnel.Relay.Deadlines
import QuicTunnel.Relay.H2Tasks
import QuicTunnel.Relay.Provision
import QuicTunnel.Relay.RenewalRuns
import QuicTunnel.Relay.Restarts
import QuicTunnel.Relay.Routing
import QuicTunnel.Client.ConnectionRun
import QuicTunnel.Client.WindDown
import QuicTunnel.Ffi.Closing
import QuicTunnel.Ffi.Shutdown
import QuicTunnel.Ffi.Views
import QuicTunnel.Base.Refinement
import QuicTunnel.Ffi.LazyRuntime
