import Gohan.Logic.Kleene
import Gohan.Logic.Machine
import Gohan.Logic.Journal
import Gohan.Logic.Reach
import Gohan.Logic.Descent
import Gohan.Logic.Visit
import Gohan.Logic.Selection
import Gohan.Logic.Paging
import Gohan.Logic.Sorting
import Gohan.Logic.KeyedUpdate
import Gohan.Logic.Truncate
import Gohan.Logic.Like
import Gohan.Logic.Joined
import Gohan.Logic.DeepMerge
import Gohan.Logic.Toposort
import Gohan.Logic.Program
import Gohan.Lang.Value
import Gohan.Lang.Text
import Gohan.Lang.Regexp
import Gohan.Schema.Basic
import Gohan.Schema.Nested
import Gohan.Schema.Tenant
import Gohan.Schema.Condition
import Gohan.Schema.PropertyCondition
import Gohan.Schema.Actions
import Gohan.Schema.Access
import Gohan.Schema.Policy
import Gohan.Schema.Verdict
import Gohan.Schema.Load
import Gohan.Schema.LoadOrder
import Gohan.Schema.LoadErrors
import Gohan.Schema.LoadRetry
import Gohan.Schema.Definition
import Gohan.Schema.LoadDefinitions
import Gohan.Schema.Init
import Gohan.Schema.PropertyOrder
import Gohan.Schema.Registry
import Gohan.Schema.Reorder
import Gohan.Schema.Defaults
import Gohan.Schema.DefaultsFilled
import Gohan.Schema.Extend
import Gohan.Schema.Reinit
import Gohan.Extension.Filter
import Gohan.Schema.Block
import Gohan.Schema.CustomFilter
import Gohan.Schema.SameTenancy
import Gohan.Schema.Update
import Gohan.Schema.Merge
import Gohan.Db.Where
import Gohan.Db.BlockMeaning
import Gohan.Db.Custom
import Gohan.Db.FilterMeaning
import Gohan.Db.Select
import Gohan.Db.State
import Gohan.Db.Handlers
import Gohan.Db.CacheKey
import Gohan.Db.Fetch
import Gohan.Db.Cache
import Gohan.Db.Update
import Gohan.Db.WriteBack
import Gohan.Db.Projection
import Gohan.Db.Retry
import Gohan.Db.Migrate
import Gohan.Db.PostMigration
import Gohan.Db.ConstraintNames
import Gohan.Server.List
import Gohan.Server.View
import Gohan.Server.RowFilter
import Gohan.Server.Search
import Gohan.Server.PolicyFilter
import Gohan.Server.Comparison
import Gohan.Server.Noninterference
import Gohan.Server.Paging
import Gohan.Db.Join
import Gohan.Db.JoinQuery
import Gohan.Db.JoinDepth
import Gohan.Db.Aliases
import Gohan.Db.JoinDecode
import Gohan.Db.Counting
import Gohan.Server.Admission
import Gohan.Server.All
import Gohan.Server.Delete
import Gohan.Server.CustomAction
import Gohan.Server.FilterAgreement
import Gohan.Server.DeleteRace
import Gohan.Server.UpdateRace
import Gohan.Server.UpdateScope
import Gohan.Server.Attach
import Gohan.Server.Attachments
import Gohan.Server.Traversal
import Gohan.Server.StateWatcher
import Gohan.Server.StateVersions
import Gohan.Server.PathWatcher
import Gohan.Server.PathEvents
import Gohan.Server.SyncWatcher
import Gohan.Server.IdentityCache
import Gohan.Sync.Event
import Gohan.Sync.Routing
import Gohan.Sync.Poison
import Gohan.Sync.Writer
import Gohan.Sync.SingleWriter
import Gohan.Sync.Race
import Gohan.Sync.Tables
import Gohan.Sync.Logger
import Gohan.Sync.Completeness
import Gohan.Sync.Mirror
import Gohan.Sync.Resync
import Gohan.Sync.Versions
import Gohan.Sync.Wakeup
import Gohan.Etcd.Fetch
import Gohan.Etcd.Lock
import Gohan.Converter.Item
import Gohan.Converter.Inheritance
import Gohan.Converter.Agreement
import Gohan.Logic.Fingerprint
import Gohan.Logic.Rose
import Gohan.Logic.Ancestor
import Gohan.Logic.Neighbours
import Gohan.Logic.Numerals
import Gohan.Logic.Masks
import Gohan.Converter.Graph
import Gohan.Converter.Hash
import Gohan.Converter.HashTree
import Gohan.Converter.Ancestors
import Gohan.Converter.Sharing
import Gohan.Converter.Collect
import Gohan.Extension.MaybeJson
import Gohan.Schema.Formats
import Gohan.Schema.FormatLanguages
import Gohan.Db.JoinView
import Gohan.Extension.Listing
import Gohan.Extension.Struct
import Gohan.Extension.Resource
import Gohan.Extension.RoundTrip
import Gohan.Extension.Intact
import Gohan.Extension.SchemaEvents
import Gohan.Logic.Snapshot
import Gohan.Logic.Buckets
import Gohan.Etcd.Watch
import Gohan.Server.Membership
import Gohan.Server.StateReports
import Gohan.Server.Cron
import Gohan.Server.Create
import Gohan.Extension.Dispatch
import Gohan.Server.Put
import Gohan.Logic.Optimistic
import Gohan.Sync.Delivery
import Gohan.Extension.DeleteFilter
import Gohan.Extension.Scopes
import Gohan.Logic.Precedence
import Gohan.Schema.CreationOrder
import Gohan.Db.Initialize
import Gohan.Server.Populate
import Gohan.Server.SchemaView
import Gohan.Extension.Watchdog
