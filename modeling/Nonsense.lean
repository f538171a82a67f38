import Nonsense.Lib.Machine
import Nonsense.Lib.OrdMap
import Nonsense.Lib.Edit
import Nonsense.Lib.Follow
import Nonsense.Lib.Potential
import Nonsense.Lib.Undo
import Nonsense.Lib.Shell
import Nonsense.Lib.Utf8
import Nonsense.Lib.InTurn
import Nonsense.Lib.Nested
import Nonsense.Lib.Threads
import Nonsense.Json
import Nonsense.Bus
import Nonsense.Config.Basic
import Nonsense.Config.Writes
import Nonsense.Config.WellFormed
import Nonsense.Config.Validate
import Nonsense.Config.Accepted
import Nonsense.Config.Uplinks
import Nonsense.Transactions.Basic
import Nonsense.Transactions.Effects
import Nonsense.Transactions.Ledger
import Nonsense.Transactions.Commits
import Nonsense.Entity.Queue
import Nonsense.Entity.Basic
import Nonsense.Daemon.Basic
import Nonsense.Entity.Steps
import Nonsense.Daemon.Steps
import Nonsense.Daemon.Tokens
import Nonsense.Daemon.Queues
import Nonsense.Config.Grows
import Nonsense.Daemon.Chains
import Nonsense.Daemon.Replies
import Nonsense.Daemon.References
import Nonsense.Daemon.Holders
import Nonsense.Daemon.Guard
import Nonsense.Daemon.Live
import Nonsense.Daemon.AllOrNothing
import Nonsense.Daemon.UplinkOrder
import Nonsense.Config.Defaults
import Nonsense.Transactions.Access
import Nonsense.Transactions.Extends
import Nonsense.Entityd.Basic
import Nonsense.Entityd.Scripts
import Nonsense.Entity.Component
import Nonsense.Entityd.Addresses
import Nonsense.Entityd.Runs
import Nonsense.Entityd.Accepted
import Nonsense.Entityd.Failures
import Nonsense.Entityd.DefaultNamespace
import Nonsense.Entityd.Runnable
import Nonsense.Entityd.Routes
import Nonsense.Entityd.Net
import Nonsense.Entityd.Fitting
import Nonsense.Entityd.Fabric
import Nonsense.Entityd.Taken
import Nonsense.Entityd.Gateways
import Nonsense.Entityd.Settled
import Nonsense.Entityd.Shutdown
import Nonsense.Entityd.Commands
import Nonsense.Entityd.Assigned
import Nonsense.Config.Parameters
import Nonsense.Config.Assembly
import Nonsense.Config.Verdict
import Nonsense.Config.Escapes
import Nonsense.Config.Atomic
import Nonsense.Config.Loading
import Nonsense.Config.Accepting
import Nonsense.Transactions.Additions
import Nonsense.Daemon.Names
import Nonsense.Entity.Slices
import Nonsense.Config.Elsewhere
import Nonsense.Transactions.Independent
import Nonsense.Transactions.Commute
import Nonsense.Lib.TextStream
import Nonsense.Control.Tokens
import Nonsense.Lib.OneShot
import Nonsense.Async.Signals
import Nonsense.Async.Coroutines
import Nonsense.Async.Sound
import Nonsense.Async.Propagation
import Nonsense.Daemon.Work
import Nonsense.Daemon.Readable
import Nonsense.Daemon.Completion
import Nonsense.Daemon.Conversation
import Nonsense.System.Basic
import Nonsense.System.Agreement
import Nonsense.Text.Lexer
import Nonsense.Text.Parser
import Nonsense.Text.Serializer
import Nonsense.Text.Strings
import Nonsense.Text.Numbers
import Nonsense.Text.Grammar
import Nonsense.Text.RoundTrip
import Nonsense.Text.Accepted
import Nonsense.Config.Textual
import Nonsense.Daemon.Wire
