import TagTypes.Event.Bus
import TagTypes.Main
import TagTypes.Timer
import TagTypes.Proofs.Json.Layout
import TagTypes.Proofs.Json.RoundTrip
import TagTypes.Proofs.Json.Legible
import TagTypes.Proofs.Schema.Reader
import TagTypes.Proofs.Udt.Definition
import TagTypes.Proofs.TagStore.Path
import TagTypes.Proofs.TagStore.Memory
import TagTypes.Proofs.TagStore.Import
import TagTypes.Proofs.Registry.Memory
import TagTypes.Proofs.Registry.Backed
import TagTypes.Proofs.SchemaCache
import TagTypes.Proofs.Service.Memory
import TagTypes.Proofs.Udt.Dependency
import TagTypes.Proofs.Service.Run
import TagTypes.Proofs.Service.Sharing
import TagTypes.Proofs.Service.Scan
import TagTypes.Proofs.Disk.Directory
import TagTypes.Proofs.Registry.Mirror
import TagTypes.Proofs.SchemaCache.Files
import TagTypes.Proofs.Service.Messages
import TagTypes.Proofs.Schema.References
import TagTypes.Proofs.Udt.Nested
import TagTypes.Proofs.Service.Startup
import TagTypes.Proofs.Disk.Writing
import TagTypes.Proofs.SchemaCache.Reload
import TagTypes.Proofs.Service.Agreement
import TagTypes.Proofs.Udt.Kahn
import TagTypes.Proofs.Registry.Delivery
import TagTypes.Proofs.Udt.Naming
import TagTypes.Proofs.SchemaCache.Run
import TagTypes.Proofs.SchemaCache.Durable
import TagTypes.Proofs.TagStore.Reopen
import TagTypes.Proofs.SchemaCache.Unchanged
import TagTypes.Proofs.Service.Trace
import TagTypes.Proofs.Service.Broken
import TagTypes.Proofs.Registry.Exchange
import TagTypes.Proofs.SchemaCache.Calls
import TagTypes.Proofs.Service.Effect
import TagTypes.Proofs.Service.Independence
import TagTypes.Proofs.Registry.Growth
import TagTypes.Proofs.Service.Growth
import TagTypes.Proofs.Service.Leftover
import TagTypes.Proofs.Service.Settling
import TagTypes.Proofs.Registry.Throwing
import TagTypes.Proofs.Registry.History
import TagTypes.Proofs.Registry.Export
import TagTypes.Proofs.Schema.Grammar
import TagTypes.Proofs.Broker.Watchers
import TagTypes.Proofs.Service.Topics
import TagTypes.Proofs.Udt.Spelling
import TagTypes.Proofs.SchemaCache.Difference
import TagTypes.Proofs.CommandLine.Publish
import TagTypes.Proofs.Settings.Reader
import TagTypes.Proofs.Settings.File
import TagTypes.Proofs.Settings.RoundTrip
import TagTypes.Proofs.TagStore.Browse
import TagTypes.Proofs.TagStore.Batch
import TagTypes.Proofs.TagStore.Failure
import TagTypes.Proofs.Udt.Members
import TagTypes.Proofs.Broker.Address
import TagTypes.Proofs.Udt.Referred
import TagTypes.Proofs.Udt.Sequence
