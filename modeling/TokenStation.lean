import TokenStation.Library.Outcome
import TokenStation.Library.Saturating
import TokenStation.Library.SortByKey
import TokenStation.Library.Survivors
import TokenStation.Library.Triple
import TokenStation.Protocol.Chat
import TokenStation.Protocol.Containment
import TokenStation.Router.LocalLock
import TokenStation.Router.TierRouting
import TokenStation.Router.LastResort
import TokenStation.Router.QuotaFirst
import TokenStation.Router.Health
import TokenStation.Quota.Settlement
import TokenStation.Gateway.Bookkeeping
import TokenStation.Gateway.Replies
import TokenStation.Gateway.NoReplay
import TokenStation.Gateway.SseChunks
import TokenStation.AgentIntegration.Dotenv
import TokenStation.AgentIntegration.DotenvLines
import TokenStation.AgentIntegration.DotenvProjection
import TokenStation.AgentIntegration.DotenvDisconnect
import TokenStation.AgentIntegration.JsonDocument
import TokenStation.Library.PathTree
import TokenStation.AgentIntegration.JsonOrder
import TokenStation.AgentIntegration.JsonRestore
import TokenStation.AgentIntegration.JsonDisconnect
import TokenStation.AgentIntegration.Snapshot
import TokenStation.AgentIntegration.SnapshotStore
import TokenStation.AgentIntegration.RollbackMaterial
import TokenStation.Library.SelfDelimiting
import TokenStation.AgentIntegration.PlainCodec
import TokenStation.Library.Keyed
import TokenStation.AgentIntegration.Ownership
import TokenStation.AgentIntegration.OwnedValues
import TokenStation.AgentIntegration.Plan
import TokenStation.AgentIntegration.Transaction
import TokenStation.Library.Exits
import TokenStation.AgentIntegration.TransactionSteps
import TokenStation.AgentIntegration.TransactionRecovery
import TokenStation.AgentIntegration.TransactionChecks
import TokenStation.AgentIntegration.TransactionRun
import TokenStation.AgentIntegration.LocalEngine
import TokenStation.AgentIntegration.Atomicity
import TokenStation.AgentIntegration.ManagedRevision
import TokenStation.Gateway.Accounting
import TokenStation.Library.LastReport
import TokenStation.Gateway.UsageFold
import TokenStation.Inbound.Request
import TokenStation.Inbound.Anthropic
import TokenStation.Inbound.Gemini
import TokenStation.Inbound.OpenAi
import TokenStation.Inbound.Continuation
import TokenStation.Inbound.Responses
import TokenStation.Inbound.HostPrivate
import TokenStation.Outbound.AnthropicStream
import TokenStation.Gateway.StreamMaps
import TokenStation.Gateway.StreamCleanup
import TokenStation.Library.Blocks
import TokenStation.Outbound.AnthropicGrammar
import TokenStation.Gateway.RenderedStreams
import TokenStation.Library.Decoder
import TokenStation.Protocol.Utf8
import TokenStation.Gateway.NativeRelay
import TokenStation.Gateway.RawRelays
import TokenStation.Gateway.RelayText
import TokenStation.Gateway.FaithfulRelays
import TokenStation.Gateway.ImageRouting
import TokenStation.Gateway.ImageTargets
import TokenStation.Inbound.ResponsesReplies
import TokenStation.Inbound.Retention
import TokenStation.Inbound.Dialogues
import TokenStation.Inbound.DialogueRuns
import TokenStation.Library.Listings
import TokenStation.Release.PluginPackage
import TokenStation.Release.PackageFiles
import TokenStation.Release.SignedPackages
import TokenStation.Gateway.Admission
import TokenStation.Gateway.AdmissionSlots
import TokenStation.Client.AgentRouters
import TokenStation.Client.Validation
import TokenStation.Client.Secrets
import TokenStation.Client.ConfigRevisions
import TokenStation.Client.RevisionRuns
import TokenStation.Client.RevisionIdentity
import TokenStation.Client.Desktop
import TokenStation.Client.SaveDraft
import TokenStation.Client.ProviderPurge
import TokenStation.Client.ProviderCommands
import TokenStation.Client.KeyBook
import TokenStation.Client.KeySteps
import TokenStation.Client.LastKey
import TokenStation.Quota.Reading
import TokenStation.Quota.Headers
import TokenStation.Quota.Exhaustion
import TokenStation.Library.NestedTables
import TokenStation.Quota.Leases
import TokenStation.Quota.LiveTracker
import TokenStation.Quota.Cooldown
import TokenStation.Quota.Viewer
import TokenStation.Router.DistinctTargets
import TokenStation.Library.PartialRuns
import TokenStation.Serving.Lifecycle
import TokenStation.Serving.Handoff
import TokenStation.Serving.LastCommand
import TokenStation.Router.Footprint
import TokenStation.Serving.HomeGateway
import TokenStation.Library.Calendar
import TokenStation.Quota.ResetTimes
import TokenStation.Protocol.EndpointRoundTrip
import TokenStation.Gateway.ReportedCost
import TokenStation.AgentIntegration.Json5Document
import TokenStation.Library.Undo
import TokenStation.AgentIntegration.Json5View
import TokenStation.AgentIntegration.JsonReach
import TokenStation.AgentIntegration.ConfigDocument
import TokenStation.AgentIntegration.ReversePatches
import TokenStation.AgentIntegration.DotenvReverse
import TokenStation.AgentIntegration.ReverseRuns
import TokenStation.Library.TreeEditor
import TokenStation.AgentIntegration.Projection
import TokenStation.AgentIntegration.DocumentEditors
import TokenStation.AgentIntegration.ClearedParents
import TokenStation.AgentIntegration.Drift
import TokenStation.AgentIntegration.DriftProjection
import TokenStation.Release.HexTexts
import TokenStation.Outbound.FailedRenders
import TokenStation.Outbound.AnthropicReplies
import TokenStation.Library.Weights
import TokenStation.Inbound.ContinuationAccounts
import TokenStation.Inbound.ContinuationRuns
import TokenStation.Gateway.TapChunks
import TokenStation.Client.ModelLimits
import TokenStation.Client.PriceSync
import TokenStation.Client.SpentRevisions
import TokenStation.Client.SpentRevisionRuns
import TokenStation.Client.SpentRevisionLaw
import TokenStation.Router.Scoring
import TokenStation.Router.Vocabulary
import TokenStation.Pricing.Cost
import TokenStation.Pricing.PriceLookup
import TokenStation.Library.Keyset
import TokenStation.Pricing.Backfill
import TokenStation.Inbound.NativeSessionKey
import TokenStation.Inbound.GeminiHistory
import TokenStation.Inbound.GeminiTurns
import TokenStation.Library.Allowance
import TokenStation.Library.Lossy
import TokenStation.Gateway.LossyText
import TokenStation.Gateway.HttpTrace
import TokenStation.Gateway.TraceBudget
import TokenStation.Gateway.OfferedTrace
import TokenStation.Gateway.TraceChunks
import TokenStation.Gateway.NativeAttempt
import TokenStation.Client.PurgeCrashes
import TokenStation.Gateway.WebSearch
