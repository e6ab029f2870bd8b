import EvoClaw.AgentLoop.Arguments
import EvoClaw.AgentLoop.ByteBudget
import EvoClaw.AgentLoop.Exchange
import EvoClaw.AgentLoop.KeyPool
import EvoClaw.AgentLoop.Ordering
import EvoClaw.AgentLoop.Retention
import EvoClaw.AgentLoop.RetryWarning
import EvoClaw.AgentLoop.Stream
import EvoClaw.AgentTools.Edit
import EvoClaw.AgentTools.Files
import EvoClaw.AgentTools.Paging
import EvoClaw.AgentTools.Read
import EvoClaw.AgentTools.Summarizer
import EvoClaw.AgentTools.WebGuard
import EvoClaw.Bridge.Liveness
import EvoClaw.Channels.Delivery
import EvoClaw.Channels.GmailInbox
import EvoClaw.Channels.MatrixSync
import EvoClaw.Channels.TelegramLimit
import EvoClaw.ContainerRunner.Accounting
import EvoClaw.ContainerRunner.CircuitBreaker
import EvoClaw.ContainerRunner.Mounts
import EvoClaw.ContainerRunner.Output
import EvoClaw.ContainerRunner.Permits
import EvoClaw.ContainerRunner.Redaction
import EvoClaw.Dashboard.EnvFile
import EvoClaw.Dashboard.LogStream
import EvoClaw.DevEngine.Cancellation
import EvoClaw.DevEngine.Rendering
import EvoClaw.DevEngine.Review
import EvoClaw.Dream.LostUpdates
import EvoClaw.Dream.WarmLog
import EvoClaw.Enterprise.Hpc
import EvoClaw.EventSystem.Runs
import EvoClaw.Evolution.AuditChain
import EvoClaw.Evolution.Fitness
import EvoClaw.Expiring
import EvoClaw.Greedy
import EvoClaw.GroupQueue.Accounting
import EvoClaw.GroupQueue.Amplification
import EvoClaw.GroupQueue.Attribution
import EvoClaw.GroupQueue.Backoff
import EvoClaw.GroupQueue.Conservation
import EvoClaw.GroupQueue.Exclusion
import EvoClaw.GroupQueue.Fairness
import EvoClaw.GroupQueue.Ledger
import EvoClaw.GroupQueue.Wakeup
import EvoClaw.Health.Alerts
import EvoClaw.Hooks.Aggregation
import EvoClaw.Identity.AgentIdentity
import EvoClaw.Identity.CrossBot
import EvoClaw.Identity.Discovery
import EvoClaw.Identity.Handshakes
import EvoClaw.Identity.Wire
import EvoClaw.Immune.Thresholds
import EvoClaw.Ipc.Failures
import EvoClaw.Ipc.FileDelivery
import EvoClaw.Ipc.Isolation
import EvoClaw.Ipc.Results
import EvoClaw.JsonText.CodePoints
import EvoClaw.JsonText.PyValue
import EvoClaw.JsonText.Reading
import EvoClaw.JsonText.TrailingCommas
import EvoClaw.Keyed
import EvoClaw.KnowledgeGraph.Timeline
import EvoClaw.LastWriter
import EvoClaw.LeaderElection.SplitBrain
import EvoClaw.Logging.SecretUrls
import EvoClaw.Mcp.Server
import EvoClaw.Memory.Indexes
import EvoClaw.Memory.Vectorised
import EvoClaw.MemoryBus.Confidentiality
import EvoClaw.MemoryBus.Forget
import EvoClaw.MemoryBus.HotMemory
import EvoClaw.MemoryBus.Pending
import EvoClaw.MemoryBus.VectorStore
import EvoClaw.MemoryBus.WakeUp
import EvoClaw.MessageLoop.Admission
import EvoClaw.MessageLoop.Batch
import EvoClaw.MessageLoop.Dedup
import EvoClaw.MessageLoop.Delivery
import EvoClaw.MessageLoop.FailureStorm
import EvoClaw.MessageLoop.GroupLimit
import EvoClaw.MessageLoop.Independence
import EvoClaw.MessageLoop.RateLimit
import EvoClaw.Migrations.Exclusion
import EvoClaw.Posix.Walk
import EvoClaw.Rbac.Monotone
import EvoClaw.Rbac.Revocation
import EvoClaw.RecencyTable
import EvoClaw.RingBuffer
import EvoClaw.Router.Outbound
import EvoClaw.Router.Preview
import EvoClaw.Scheduler.AtMostOnce
import EvoClaw.Scheduler.Evaluators
import EvoClaw.Scheduler.FailureAccounting
import EvoClaw.Scheduler.LostUpdates
import EvoClaw.Scheduler.OnSchedule
import EvoClaw.Scheduler.Recovery
import EvoClaw.SdkApi.Connections
import EvoClaw.SelfUpdate.Allowlist
import EvoClaw.SelfUpdate.Leftovers
import EvoClaw.Skills.Loader
import EvoClaw.SkillsEngine.Atomicity
import EvoClaw.SkillsEngine.Closure
import EvoClaw.SkillsEngine.Containment
import EvoClaw.SkillsEngine.EnvMerge
import EvoClaw.SkillsEngine.Lock
import EvoClaw.SlidingWindow
import EvoClaw.Sqlite.Immediate
import EvoClaw.Strikes
import EvoClaw.Telegram.Reconnect
import EvoClaw.Text.Blanks
import EvoClaw.Text.Chunks
import EvoClaw.Text.Delimited
import EvoClaw.Text.LineEnds
import EvoClaw.Text.Substitute
import EvoClaw.Text.Utf8
import EvoClaw.Text.WithoutBlocks
import EvoClaw.WebPortal.Polling
import EvoClaw.Workflow.Termination
