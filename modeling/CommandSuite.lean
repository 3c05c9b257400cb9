import CommandSuite.Core.ContextControl
import CommandSuite.Core.Diagnostics.Honesty
import CommandSuite.Core.Diagnostics.Caps
import CommandSuite.Core.EnvNamespace.Migration
import CommandSuite.Core.Files.Grants
import CommandSuite.Core.Files.Bytes
import CommandSuite.Core.Files.Tree
import CommandSuite.Core.History
import CommandSuite.Core.Members.Administration
import CommandSuite.Core.Notifications.Outcomes
import CommandSuite.Core.Broker.Acknowledgement
import CommandSuite.Core.Objectives.AllOrNothing
import CommandSuite.Core.Objectives.AuditLog
import CommandSuite.Core.Objectives.Authority
import CommandSuite.Core.Objectives.Watchers
import CommandSuite.Core.MemberActivity.Pages
import CommandSuite.Core.TeamProcess
import CommandSuite.Core.SessionTotp.Lockouts
import CommandSuite.Server.ActivityDb.Retention
import CommandSuite.Server.GenaiCorrelator.Failures
import CommandSuite.Cli.Runtime.Restart.Bounds
import CommandSuite.Cli.Runtime.ChannelFormat
import CommandSuite.Core.Enrollments.Approval
import CommandSuite.Core.Enrollments.Delivery
import CommandSuite.Core.Channels.Audit
import CommandSuite.Core.Channels.Slugs
import CommandSuite.Core.Notifications.Composition
import CommandSuite.Core.EventLogReads
import CommandSuite.Cli.Runtime.AgentSession.Swaps
import CommandSuite.Cli.Runtime.AgentSession.Teardown
import CommandSuite.Cli.Runtime.JsonRpc.Exchanges
import CommandSuite.Cli.Runtime.Trace.ActivityUploader.Timers
import CommandSuite.Cli.Runtime.Trace.HookServer
import CommandSuite.Cli.Runtime.AuthRecovery
import CommandSuite.Cli.Runtime.TranscriptReader.Tailing
import CommandSuite.Core.Trace.Redact.Exemptions
import CommandSuite.Core.ToolSources.Exceptions
import CommandSuite.Core.ToolSources.ResponseCap
import CommandSuite.Core.Notifications.RateLimit
import CommandSuite.Core.Notifications.DispatchedOnce
import CommandSuite.WebUi.TraceJoin
import CommandSuite.WebUi.Messages
import CommandSuite.WebUi.Routes
import CommandSuite.WebUi.MemberActivity
import CommandSuite.Server.Kek
import CommandSuite.Server.McpClient
import CommandSuite.Cli.Runtime.Forwarder.Routes
import CommandSuite.Cli.Runtime.Forwarder.Receipts
import CommandSuite.Cli.Runtime.ContextControl.Answers
import CommandSuite.Cli.Runtime.ClaudeSink.Consumers
import CommandSuite.Cli.Runtime.Codex.RolloutParser.Contents
import CommandSuite.Cli.Runtime.Codex.Compaction
import CommandSuite.Cli.Commands.AuthConfig
import CommandSuite.Cli.Runtime.Codex.RolloutReader.FinalDrain
import CommandSuite.Cli.Runtime.Snapshots
import CommandSuite.Cli.Runtime.Trace.ActivityUploader.Immediate
import CommandSuite.Cli.Runtime.IdleSwaps
import CommandSuite.Cli.Runtime.Ipc.Answers
