import Trpc.Core.Client
import Trpc.Core.Clients
import Trpc.Core.Server
import Trpc.Core.Coroutine
import Trpc.Core.Variant
import Trpc.Theory.Scan.Terminator
import Trpc.Theory.Scan.Prefix
import Trpc.Theory.Text.RoundTrip
import Trpc.Theory.Text.Relay
import Trpc.Theory.Rpc.WriteAlign
import Trpc.Theory.Rpc.ServerRuns
import Trpc.Theory.Rpc.Bounds
import Trpc.Theory.Rpc.Dispatch
import Trpc.Theory.Rpc.Drain
import Trpc.Theory.Rpc.Effort
import Trpc.Theory.Rpc.Outcome
import Trpc.Theory.Rpc.Ownership
import Trpc.Theory.Text.Lifetime
import Trpc.Theory.Text.Soundness
import Trpc.Theory.Text.Numbers
import Trpc.Theory.Text.Integers
import Trpc.Theory.Text.Exponents
import Trpc.Theory.Text.Choice
import Trpc.Theory.Rpc.Pace
import Trpc.Theory.Rpc.Remainder
import Trpc.Theory.Rpc.Requests
import Trpc.Theory.Rpc.Conversation
import Trpc.Theory.Rpc.Service
import Trpc.Theory.Rpc.Transparency
import Trpc.Theory.Rpc.Timeouts
import Trpc.Lib.Prog
import Trpc.Lib.Monitor
import Trpc.Lib.Framing
import Trpc.Theory.Co.Wakeup
import Trpc.Theory.Co.Polling
import Trpc.Theory.Co.Backoff
import Trpc.Theory.Co.Nesting
import Trpc.Theory.Co.Threads
import Trpc.Theory.Co.Descriptors
import Trpc.Lib.Storage
import Trpc.Core.Process
import Trpc.Theory.Co.Registers
import Trpc.Theory.Co.Hosting
import Trpc.Theory.Co.Resumption
import Trpc.Theory.Co.Pool
import Trpc.Theory.Rpc.Delivery
import Trpc.Theory.Rpc.Answers
import Trpc.Theory.Rpc.Streaming
import Trpc.Core.Listener
import Trpc.Theory.Rpc.Listening
import Trpc.Theory.Rpc.Budget
