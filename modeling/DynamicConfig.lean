import DynamicConfig.Tree.Entries
import DynamicConfig.Tree.Basic
import DynamicConfig.Tree.Path
import DynamicConfig.Config.DottedPath
import DynamicConfig.Config.Value
import DynamicConfig.Loader.Figment
import DynamicConfig.Config.Text
import DynamicConfig.Transition.Parties
import DynamicConfig.Config.UnixPath
import DynamicConfig.Loader.Spec
import DynamicConfig.Loader.Providers
import DynamicConfig.Loader.Messages
import DynamicConfig.Loader.Build
import DynamicConfig.Loader.AliasesPass
import DynamicConfig.Tree.Fill
import DynamicConfig.Loader.Gaps
import DynamicConfig.Loader.Recover
import DynamicConfig.Cache.Write
import DynamicConfig.Cache.Redaction
import DynamicConfig.Cache.Read
import DynamicConfig.Cache.RoundTrip
import DynamicConfig.Remote.Fencing
import DynamicConfig.Remote.Reloads
import DynamicConfig.Explain.Table
import DynamicConfig.Tree.Layers
import DynamicConfig.Explain.Agreement
import DynamicConfig.Cell.Record
import DynamicConfig.Cell.Chain
import DynamicConfig.Cell.Generation
import DynamicConfig.Cell.Coherence
import DynamicConfig.Cell.WakeUp
import DynamicConfig.Loader.Isolation
import DynamicConfig.Cache.LastGood
import DynamicConfig.Polling.Loop
import DynamicConfig.Polling.Sources
import DynamicConfig.Remote.Replacement
import DynamicConfig.Polling.StartUp
import DynamicConfig.Etcd.Source
import DynamicConfig.Etcd.Watch
import DynamicConfig.Etcd.Recovery
import DynamicConfig.Explain.Secrecy
import DynamicConfig.Redis.Source
import DynamicConfig.Redis.Watch
import DynamicConfig.Bindings.Node
import DynamicConfig.Bindings.Python
import DynamicConfig.Server.Auth
import DynamicConfig.Server.Config
import DynamicConfig.Server.State
import DynamicConfig.Server.Admit
import DynamicConfig.Server.Endpoints
import DynamicConfig.Server.Client
import DynamicConfig.Server.Document
import DynamicConfig.Server.Subscriptions
import DynamicConfig.Server.Resumption
import DynamicConfig.Watch.Relevance
import DynamicConfig.Watch.Coverage
import DynamicConfig.Server.Permits
import DynamicConfig.Async.OffThread
import DynamicConfig.Lifecycle.Group
import DynamicConfig.Lifecycle.Counters
import DynamicConfig.Cell.Hooks
import DynamicConfig.Cell.Dispatch
import DynamicConfig.Embedded.Waiters
import DynamicConfig.Schema.Pointer
import DynamicConfig.Schema.File
import DynamicConfig.Stores.Documents
import DynamicConfig.Tree.Ordered
import DynamicConfig.Tree.Sorted
import DynamicConfig.Tree.Shown
import DynamicConfig.Tree.Writes
import DynamicConfig.Tree.Clash
import DynamicConfig.Values.Document
import DynamicConfig.Values.Folding
import DynamicConfig.Values.Overlap
import DynamicConfig.Stores.Prefix
import DynamicConfig.Stores.Relogin
import DynamicConfig.Tree.Difference
import DynamicConfig.Values.Diff
import DynamicConfig.Tree.Leaves
import DynamicConfig.Cache.Drift
import DynamicConfig.Schema.Required
import DynamicConfig.Transition.Chain
import DynamicConfig.Loader.Aliases
import DynamicConfig.Loader.Layer
import DynamicConfig.Loader.Secrets
import DynamicConfig.Loader.Bound
import DynamicConfig.Loader.Rounds
import DynamicConfig.Explain.Carrier
import DynamicConfig.Files.Disk
import DynamicConfig.Files.Save
import DynamicConfig.Alignment.Distance
import DynamicConfig.Check.Suggestion
import DynamicConfig.Stores.Credential
import DynamicConfig.Stores.Address
import DynamicConfig.Prometheus.Text
import DynamicConfig.Telemetry.Exposition
import DynamicConfig.Telemetry.Scrape
import DynamicConfig.Config.Trim
import DynamicConfig.Units.Bytes
import DynamicConfig.Units.Duration
import DynamicConfig.Loader.Dotenv
import DynamicConfig.Bindings.OnChange
import DynamicConfig.Loader.Variant
import DynamicConfig.Watch.Debounce
import DynamicConfig.Watch.Registry
import DynamicConfig.Bindings.Overrides
import DynamicConfig.Values.Roads
import DynamicConfig.Uri.Grammar
import DynamicConfig.Server.Url
import DynamicConfig.Transition.Loop
import DynamicConfig.Git.Tree
import DynamicConfig.Git.Path
import DynamicConfig.Git.Walk
import DynamicConfig.Git.Read
import DynamicConfig.Git.Working
import DynamicConfig.Files.Resolve
import DynamicConfig.Git.Claimed
import DynamicConfig.Redis.Scan
import DynamicConfig.Git.Auth
import DynamicConfig.Text.Delimited
import DynamicConfig.Values.Stream
import DynamicConfig.Server.Listing
import DynamicConfig.Firestore.Value
import DynamicConfig.Firestore.Batch
import DynamicConfig.Cell.Slots
import DynamicConfig.Watch.Convergence
import DynamicConfig.Transition.Paging
import DynamicConfig.S3.Listing
import DynamicConfig.Loader.DotenvText
import DynamicConfig.Transition.Changes
import DynamicConfig.Consul.Blocking
import DynamicConfig.Transition.Timed
import DynamicConfig.Server.Serve
import DynamicConfig.Transition.Compacted
import DynamicConfig.Nats.Program
import DynamicConfig.Nats.Watch
import DynamicConfig.Check.Report
import DynamicConfig.Server.Router
import DynamicConfig.Server.Audit
