import IndexedStore.Cbor.Item
import IndexedStore.Cbor.Reader
import IndexedStore.Cbor.View
import IndexedStore.Cbor.Width
import IndexedStore.Cbor.Writer
import IndexedStore.Codec.Model
import IndexedStore.Codec.Payload
import IndexedStore.Codec.Query
import IndexedStore.Codec.Value
import IndexedStore.Collection.Assoc
import IndexedStore.Collection.Dict
import IndexedStore.Entity.Entity
import IndexedStore.Entity.Path
import IndexedStore.Entity.Value
import IndexedStore.Error
import IndexedStore.Geo.Distance
import IndexedStore.Geo.Point
import IndexedStore.Index.Entries
import IndexedStore.Index.Plan
import IndexedStore.Key.Layout
import IndexedStore.Key.Segment
import IndexedStore.Number.FloatText
import IndexedStore.Number.MulAdd
import IndexedStore.Number.Saturating
import IndexedStore.Number.Shortest
import IndexedStore.Observe.Event
import IndexedStore.Observe.Log
import IndexedStore.Observe.Report
import IndexedStore.Operation.Database
import IndexedStore.Operation.Delete
import IndexedStore.Operation.Load
import IndexedStore.Operation.Reference
import IndexedStore.Operation.Save
import IndexedStore.Operation.Search
import IndexedStore.Proofs.Cbor.RoundTrip
import IndexedStore.Proofs.Cbor.Scalar
import IndexedStore.Proofs.Cbor.View
import IndexedStore.Proofs.Codec.Depth
import IndexedStore.Proofs.Codec.Payload
import IndexedStore.Proofs.Codec.RoundTrip
import IndexedStore.Proofs.Codec.Value
import IndexedStore.Proofs.Collection.Dict
import IndexedStore.Proofs.Entity.Normalize
import IndexedStore.Proofs.Entity.Points
import IndexedStore.Proofs.Entity.References
import IndexedStore.Proofs.Index.Derive
import IndexedStore.Proofs.Index.Planned
import IndexedStore.Proofs.Index.Refs
import IndexedStore.Proofs.Index.Stage
import IndexedStore.Proofs.Key.Finds
import IndexedStore.Proofs.Key.Layout
import IndexedStore.Proofs.Key.Segment
import IndexedStore.Proofs.Key.Slot
import IndexedStore.Proofs.Key.Spelling
import IndexedStore.Proofs.Operation.Atomic
import IndexedStore.Proofs.Operation.Delete
import IndexedStore.Proofs.Operation.Healthy
import IndexedStore.Proofs.Operation.Save
import IndexedStore.Proofs.Query.Answer
import IndexedStore.Proofs.Query.Evaluate
import IndexedStore.Proofs.Query.Found
import IndexedStore.Proofs.Query.Holds
import IndexedStore.Proofs.Query.Page
import IndexedStore.Proofs.Query.Paging
import IndexedStore.Proofs.Query.Sound
import IndexedStore.Proofs.Schema.Names
import IndexedStore.Proofs.Storage.Batch
import IndexedStore.Proofs.Storage.Calls
import IndexedStore.Proofs.Storage.Reading
import IndexedStore.Proofs.Storage.Scan
import IndexedStore.Proofs.Store.Absent
import IndexedStore.Proofs.Store.Bounded
import IndexedStore.Proofs.Store.Entities
import IndexedStore.Proofs.Store.History
import IndexedStore.Proofs.Store.Image
import IndexedStore.Proofs.Store.Local
import IndexedStore.Proofs.Store.Located
import IndexedStore.Proofs.Store.Lookup
import IndexedStore.Proofs.Store.OneLevel
import IndexedStore.Proofs.Store.Owned
import IndexedStore.Proofs.Store.ReadBack
import IndexedStore.Proofs.Store.Referring
import IndexedStore.Proofs.Store.Removed
import IndexedStore.Proofs.Store.Resolved
import IndexedStore.Proofs.Store.Rewritten
import IndexedStore.Proofs.Store.Saved
import IndexedStore.Proofs.Store.Served
import IndexedStore.Proofs.Store.Skipped
import IndexedStore.Proofs.Store.Stuck
import IndexedStore.Proofs.Text.Order
import IndexedStore.Query.Page
import IndexedStore.Query.Plan
import IndexedStore.Query.Predicate
import IndexedStore.Query.Query
import IndexedStore.Schema.File
import IndexedStore.Schema.Model
import IndexedStore.Schema.Schema
import IndexedStore.Storage.Batch
import IndexedStore.Storage.Content
import IndexedStore.Storage.Engine
import IndexedStore.Text.Quoted
import IndexedStore.Text.Shown
import IndexedStore.Toml.Document
import IndexedStore.Toml.Quote
import IndexedStore.Toml.Reader
import IndexedStore.Toml.Scalar
import IndexedStore.Toml.Syntax
import IndexedStore.Typed.Directory
import IndexedStore.Typed.Repository
import IndexedStore.Proofs.Query.Algebra
import IndexedStore.Proofs.Query.Fetched
import IndexedStore.Proofs.Number.Interval
import IndexedStore.Proofs.Number.Shortest
import IndexedStore.Proofs.Number.Numeral
import IndexedStore.Proofs.Number.Double
import IndexedStore.Proofs.Entity.Token
import IndexedStore.Proofs.Query.Decodable
import IndexedStore.Proofs.Query.Navigation
import IndexedStore.Proofs.Query.Servable
import IndexedStore.Proofs.Storage.Trace
import IndexedStore.Proofs.Query.Asked
import IndexedStore.Proofs.Query.Traced
import IndexedStore.Proofs.Store.Emptied
import IndexedStore.Proofs.Storage.Staging
import IndexedStore.Proofs.Storage.Activities
import IndexedStore.Proofs.Operation.Progress
import IndexedStore.Proofs.Operation.Counted
import IndexedStore.Proofs.Store.Reported
import IndexedStore.Proofs.Query.Emitted
import IndexedStore.Proofs.Store.Blocks
import IndexedStore.Proofs.Typed.Directory
import IndexedStore.Proofs.Typed.Repository
import IndexedStore.Proofs.Typed.RoundTrip
import IndexedStore.Observe.Recorder
import IndexedStore.Storage.Mutation
import IndexedStore.Proofs.Entity.Path
import IndexedStore.Proofs.Number.Saturating
import IndexedStore.Proofs.Observe.Totals
import IndexedStore.Proofs.Schema.Accepted
import IndexedStore.Proofs.Storage.Scanned
