import HlHelper.Live.ExactlyOnce
import HlHelper.Live.Finished
import HlHelper.Outbox.HonestRuns
import HlHelper.Audit.Conflicts
import HlHelper.Reporting.Progress
import HlHelper.Reporting.Acceptance
import HlHelper.Events.AfterCommit
import HlHelper.Audit.Evidence
import HlHelper.Approvals.Authority
import HlHelper.Approvals.Concurrency
import HlHelper.Dispatch.HighRisk
import HlHelper.Dispatch.Authorisation
import HlHelper.Advisory.Matcher
import HlHelper.Advisory.Osv
import HlHelper.Events.Accounting
import HlHelper.Inbound.Quarantine
import HlHelper.Idempotency.Once
import HlHelper.Idempotency.Exact
import HlHelper.Secrets.Capture
import HlHelper.Secrets.Sealed
import HlHelper.Auth.Authentication
import HlHelper.Enrollment.SingleUse
import HlHelper.Certificates.CutOff
import HlHelper.Rbac.Roles
import HlHelper.Groups.Acyclic
import HlHelper.Mfa.RecoveryOnce
import HlHelper.Auth.LockoutCounts
import HlHelper.Scheduling.Reflects
import HlHelper.Updates.Authentic
import HlHelper.Keystore.Pair
import HlHelper.Releases.Published
import HlHelper.Signing.Anchors
import HlHelper.Mfa.Ceremonies
import HlHelper.Oidc.Agreement
import HlHelper.Oidc.Soundness
import HlHelper.Bootstrap.OneShot
import HlHelper.ReEnroll.State
import HlHelper.ReEnroll.Blocking
import HlHelper.Rotation.Completion
import HlHelper.Posture.Triggers
import HlHelper.Agent.ReplaySafety
import HlHelper.Replay.Window
import HlHelper.Tasks.Redispatch
import HlHelper.Recovery.Halting
import HlHelper.Advisory.MatchQueue
import HlHelper.Plugins.Acknowledged
import HlHelper.Secrets.Disclosure
import HlHelper.Secrets.Refs
import HlHelper.Settings.Precedence
import HlHelper.Catalog.Convergence
import HlHelper.CommandQueue.Fifo
import HlHelper.Tasks.PerHost
import HlHelper.Rbac.Hierarchy
import HlHelper.Inbound.Packages
import HlHelper.Inbound.SurveyFacts
import HlHelper.Agent.DpkgFiles
import HlHelper.RateLimit.Limiter
import HlHelper.Auth.LockoutQueries
import HlHelper.Auth.ApiKeys
import HlHelper.Mfa.Guessing
import HlHelper.Posture.Weighting
import HlHelper.Exposure.HighestTier
import HlHelper.Pagination.EveryRow
import HlHelper.Exposure.ProcNet
import HlHelper.Advisory.DistributionRanges
