import TopicHub.Configuration.Load
import TopicHub.Configuration.Seed
import TopicHub.Proofs.ConditionText
import TopicHub.Proofs.Configuration.CircularInclusion
import TopicHub.Proofs.HistoryWindow
import TopicHub.Proofs.Persistence
import TopicHub.Proofs.ReadSubstitution
import TopicHub.Proofs.Router.PayloadChange
import TopicHub.Proofs.Router.PublishAccounting
import TopicHub.Proofs.TemplateArithmetic
import TopicHub.Proofs.TextComparison
import TopicHub.Proofs.TimerInterleaving
import TopicHub.Service
import TopicHub.Proofs.Configuration.SeededRules
import TopicHub.Proofs.KnownTopics
import TopicHub.Proofs.Router.Tracking
import TopicHub.Proofs.Router.Restart
import TopicHub.Proofs.Router.Fallback
import TopicHub.Proofs.WatchedTimers
import TopicHub.Proofs.Router.Eviction
import TopicHub.Proofs.Configuration.Seeding
import TopicHub.Proofs.Router.Quiescence
import TopicHub.Proofs.Router.Registration
import TopicHub.Proofs.Router.AuditTrail
import TopicHub.Proofs.ScriptFailures
import TopicHub.Proofs.BusAccounting
import TopicHub.Proofs.ServiceRestart
import TopicHub.Proofs.BusChannels
import TopicHub.Proofs.Router.DeviceRegistration
import TopicHub.Proofs.ScriptSubstitution
import TopicHub.Proofs.ReadConfinement
import TopicHub.Proofs.Marker.ReadSearch
import TopicHub.Proofs.Marker.ScriptSearch
import TopicHub.Proofs.BareNames
import TopicHub.Proofs.NameChoice
import TopicHub.Proofs.AddressForm
import TopicHub.Proofs.Escape
import TopicHub.Proofs.Json.QuotedKeys
import TopicHub.Proofs.Configuration.DerivedIds
import TopicHub.Proofs.Configuration.ResolvedTags
import TopicHub.Proofs.LiteralContainment
import TopicHub.Proofs.LeftmostCuts
