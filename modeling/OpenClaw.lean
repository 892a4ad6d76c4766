import OpenClaw.Approval.Authority
import OpenClaw.Delivery.Once
import OpenClaw.Cron.Exclusion
import OpenClaw.Cron.OneShot
import OpenClaw.Cron.Interval
import OpenClaw.Cron.Maintenance
import OpenClaw.Cron.Recovery
import OpenClaw.Lanes.Waiters
import OpenClaw.AuthProfiles.Availability
import OpenClaw.AuthProfiles.Cleared
import OpenClaw.Tasks.Finality
import OpenClaw.Tasks.FailedWrites
import OpenClaw.Followup.Once
import OpenClaw.Followup.Apart
import OpenClaw.Pipeline.Policy
import OpenClaw.Pairing.Devices
import OpenClaw.Sessions.Maintenance
import OpenClaw.Routing.Caches
import OpenClaw.Heartbeat.Turns
import OpenClaw.Config.Candidate
import OpenClaw.Config.EnvPreserve
import OpenClaw.Transcript.ProviderValid
import OpenClaw.Facts.NoLoss
import OpenClaw.PluginState.BoundedMap
import OpenClaw.Reasoning.NoLeak
import OpenClaw.ToolCallIds.Result
import OpenClaw.Ssrf.NeverInternal
import OpenClaw.Pairing.OneDevice
import OpenClaw.Pairing.Settles
import OpenClaw.Chunking.CodeKept
import OpenClaw.Chunking.WithinLimit
import OpenClaw.OcPath.Codec
import OpenClaw.OcPath.JsoncKeyed
import OpenClaw.Exec.CommandText
import OpenClaw.Exec.WindowsQuoting
import OpenClaw.ExecApprovals.EntryFrame
import OpenClaw.ExecApprovals.Migrated
import OpenClaw.Chunking.RenderedFit
import OpenClaw.Infra.JsonBytes
import OpenClaw.Infra.Dedupe
import OpenClaw.Exec.PosixInline
import OpenClaw.Exec.SafeBinLimits
import OpenClaw.Exec.BlankArguments
import OpenClaw.Cron.Shifted
import OpenClaw.Compaction.Exchanges
import OpenClaw.Shell.Enforced
