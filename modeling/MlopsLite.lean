import MlopsLite.Lib.Dict
import MlopsLite.Lib.Interleaving
import MlopsLite.Lib.Slots
import MlopsLite.Lib.Versions
import MlopsLite.Lib.Base64
import MlopsLite.Lib.Ranked
import MlopsLite.HostAgent.Coordinator.Cleanup
import MlopsLite.HostAgent.Coordinator.Budget
import MlopsLite.HostAgent.Coordinator.Jobs
import MlopsLite.HostAgent.Coordinator.Joiners
import MlopsLite.HostAgent.Coordinator.Departures
import MlopsLite.HostAgent.Coordinator.Claims
import MlopsLite.HostAgent.Admission.OneTenant
import MlopsLite.HostAgent.Admission.Swaps
import MlopsLite.PlatformLib.Metering.Quota
import MlopsLite.PlatformLib.BrokerJobs.Order
import MlopsLite.PlatformLib.BrokerJobs.Pauses
import MlopsLite.PlatformLib.BrokerJobs.Recovery
import MlopsLite.Gateway.BrokerConn
import MlopsLite.Gateway.Activation.Attempts
import MlopsLite.Gateway.Activation.Workers
import MlopsLite.Gateway.Console.Compatibility
import MlopsLite.Gateway.Console.Catalog
import MlopsLite.Lib.Json
import MlopsLite.PlatformLib.Jobs.Rows
import MlopsLite.HostAgent.Jobs.Journal
import MlopsLite.HostAgent.Jobs.Manager
import MlopsLite.HostAgent.Jobs.Lease
import MlopsLite.HostAgent.Jobs.Relaunch
import MlopsLite.Gateway.Policy.Evaluation
import MlopsLite.Gateway.Policy.World
import MlopsLite.Gateway.Policy.Scheduler
import MlopsLite.Gateway.Policy.Suggestions
import MlopsLite.Gateway.Policy.Promotions
import MlopsLite.Gateway.Policy.Checks
import MlopsLite.Gateway.Console.Gate
import MlopsLite.HostAgent.EngineRows
import MlopsLite.Gateway.Console.Endpoints
import MlopsLite.Gateway.Console.Jobs
import MlopsLite.Gateway.Console.Joins
import MlopsLite.Gateway.Console.Drift
import MlopsLite.HostAgent.Jobs.States
import MlopsLite.Gateway.Console.Vocabulary
import MlopsLite.Lib.Keyed
import MlopsLite.PlatformLib.Migrations.Files
import MlopsLite.PlatformLib.Migrations.Runner
import MlopsLite.Gateway.Quality.Inputs
import MlopsLite.Gateway.Quality.Captures
import MlopsLite.Gateway.Quality.Retention
import MlopsLite.Gateway.Quality.Windows
import MlopsLite.Gateway.Registry
import MlopsLite.HostAgent.ServingLlm
import MlopsLite.PlatformLib.LlmResolve
import MlopsLite.HostAgent.Scheduler
import MlopsLite.HostAgent.Coordinator.Permanence
import MlopsLite.HostAgent.Coordinator.Discipline
import MlopsLite.Ui.GatewayProxy
import MlopsLite.Gateway.Datasets
import MlopsLite.PlatformLib.Tenancy
import MlopsLite.HostAgent.LlamaAdapter
import MlopsLite.HostAgent.BoundedServer
import MlopsLite.Gateway.ServedIdentity
import MlopsLite.HostAgent.RequestBody
import MlopsLite.HostAgent.JournalRead
import MlopsLite.Gateway.Scorers.Auc
import MlopsLite.Supervisor.Supervise
import MlopsLite.HostAgent.Coordinator.Victims
import MlopsLite.Gateway.Compare
import MlopsLite.Gateway.Monitoring
import MlopsLite.HostAgent.Routes.Answers
import MlopsLite.Gateway.TenantSurface
import MlopsLite.Gateway.StreamRelay
import MlopsLite.Gateway.Meter
import MlopsLite.Gateway.Validation.Decisions
import MlopsLite.Gateway.Validation.Training
import MlopsLite.Gateway.Validation.RoundTrip
import MlopsLite.Lib.Parked
import MlopsLite.PlatformLib.BrokerJobs.Pauses
import MlopsLite.Gateway.Console.Predictions
import MlopsLite.Gateway.Console.Review
import MlopsLite.Gateway.Console.Reveal
import MlopsLite.Gateway.Console.CatalogPages
import MlopsLite.Gateway.Console.Complete
import MlopsLite.Gateway.Console.SingleFlight
import MlopsLite.Gateway.Console.GateEvidence
import MlopsLite.Gateway.Credentials
import MlopsLite.HostAgent.Batch.Orderly
import MlopsLite.Lib.Doubles
import MlopsLite.Lib.Utf16Json
import MlopsLite.Ui.StreamSse
import MlopsLite.Gateway.ChatStream
import MlopsLite.Gateway.Console.SpanDepths
import MlopsLite.Gateway.Console.SpanTree
import MlopsLite.Lib.Filling
import MlopsLite.Scripts.Backfill.Steps
import MlopsLite.Training.Hpo
import MlopsLite.Training.HpoTrials
import MlopsLite.Training.HpoWinner
import MlopsLite.Scripts.Backfill.Converge
import MlopsLite.Gateway.Outbox
import MlopsLite.Gateway.Settlement.Once
import MlopsLite.Gateway.Policy.Watches
import MlopsLite.Gateway.Policy.Parks
import MlopsLite.HostAgent.Reload.Displacement
import MlopsLite.HostAgent.Reload.Operations
import MlopsLite.Scripts.Mirror
import MlopsLite.Ui.UseLive
import MlopsLite.Gateway.Promotion
import MlopsLite.Supervisor.Shutdown
import MlopsLite.Gateway.Tracing
