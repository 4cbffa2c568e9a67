import Myko.Server.IndexCoherence
import Myko.Server.PairUniqueness
import Myko.Server.BatchSequence
import Myko.Postgres.Delivery
import Myko.Postgres.Convergence
import Myko.Query.Union
import Myko.Query.Replica
import Myko.Server.Containment
import Myko.Server.EnsureEdge
import Myko.Server.ForeignKeys
import Myko.Postgres.DerivedState
import Myko.Client.AutoSocket
import Myko.Session.Subscriptions
import Myko.TypeScript.Subscriptions
import Myko.Search.Index
import Myko.Postgres.Producer
import Myko.TypeScript.Projections
import Myko.Graph.Related
import Myko.Graph.DeletePlan
import Myko.Graph.Scan
import Myko.Graph.Replacement
import Myko.Graph.ExactTraversal
import Myko.Graph.TraversalLayout
import Myko.Graph.Window
import Myko.Server.ResultCache
import Myko.Client.Readdress
import Myko.Server.RestrictDelete
import Myko.Relation.EnsureCycle
import Myko.Query.Pushed
import Myko.Session.LastWindow
import Myko.Graph.Routing
import Myko.Server.Reservations
import Myko.Server.ParentArrays
import Myko.Server.LiveWindow
import Myko.Server.GraphSync
import Myko.Mcp.Filter
import Myko.Query.Buckets
import Myko.Query.MapWindow
import Myko.Query.DiffResponse
import Myko.Session.ViewSampling
import Myko.Search.Typed.LiveSearch
import Myko.Search.Typed.BestHits
import Myko.Search.Typed.ExactTier
import Myko.Lib.Comparison
import Myko.Query.Filter
import Myko.Query.FilterWire
import Myko.Query.EntityQuery
import Myko.Query.Route
import Myko.Postgres.ProducerLoop
import Myko.Postgres.QueueGauge
import Myko.Lib.BreadthFirst
import Myko.Relation.ExportTree
import Myko.Client.SampleRate
import Myko.Client.MapReadiness
import Myko.Lib.InsertionMap
import Myko.TypeScript.LiveIndex
import Myko.TypeScript.CursorPaging
import Myko.Server.OrphanClaim
import Myko.Server.ComputeGate
import Myko.Client.WasmSocket
import Myko.Graph.LiveWatch
import Myko.Server.LiveWatch
import Myko.Graph.EdgeIdSet
import Myko.Http.Segmentation
import Myko.Client.CborJson
import Myko.Server.DanglingEdges
import Myko.Server.CascadeClosure
import Myko.Query.LiveQuery
import Myko.Query.LiveTest
import Myko.Query.BucketDiffs
import Myko.Query.LiveFeed
import Myko.Query.LiveReconcile
import Myko.Query.LiveExact
import Myko.Lib.PolledStream
import Myko.Saga.Stream
import Myko.Saga.Runtime
import Myko.Session.BlockingLane
import Myko.Lib.Relay
import Myko.Server.Ingest
import Myko.Peer.Mesh
import Myko.Client.EntitySync
