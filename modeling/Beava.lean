import Beava.Wal.Maintenance
import Beava.Wal.BufferRing
import Beava.Server.Recovery
import Beava.Server.Pipeline
import Beava.Server.Installed
import Beava.Server.Lookup
import Beava.Server.AlreadyPresent
import Beava.Server.Representation
import Beava.Wal.Watermarks
import Beava.Wal.Durability
import Beava.Server.SnapshotCut
import Beava.Server.LsnSpace
import Beava.Server.Fed
import Beava.Server.Forced
import Beava.Server.ResolvedDag
import Beava.Server.Dedupe
import Beava.Server.ReadPaths
import Beava.Core.ChainPresence
import Beava.Sketch.TopK
import Beava.Server.TableSnapshot
import Beava.Server.Extraction
import Beava.Server.WindowedFeature
import Beava.Core.Wire
import Beava.Persistence.Reader
import Beava.Persistence.Worker
import Beava.Core.ExprPanic
import Beava.Core.ParseTree
import Beava.Core.ExprDepth
import Beava.Sdk.Literal
import Beava.Server.FieldsOnce
import Beava.Agg.WindowMembership
import Beava.Agg.Durations
import Beava.Agg.LastValues
import Beava.Agg.Moments
import Beava.Agg.Decay
import Beava.Agg.Extremes
import Beava.Agg.WindowFold
import Beava.Server.TransportsAgree
import Beava.Server.ColdAfter
import Beava.Sketch.DistinctSet
import Beava.Sketch.QuantileError
import Beava.Sketch.HeavyValues
import Beava.Agg.EntropyCounts
import Beava.Agg.Histogram
import Beava.Server.CreatedStates
import Beava.Server.ReplyOrder
import Beava.Registry.Positions
import Beava.Server.FieldPositions
import Beava.Core.Renaming
import Beava.Server.Cascade
import Beava.Registry.CyclePaths
import Beava.Lib.Response
import Beava.Wal.RingProgress
import Beava.Server.RingCapacity
import Beava.Lib.Delimiter
import Beava.Server.HttpFraming
import Beava.Server.ChunkedBodies
import Beava.Server.ChunkedRequests
import Beava.Server.ChunkedFraming
import Beava.Lib.MessagePack
import Beava.Server.MsgpackScan
import Beava.Server.MsgpackEnvelope
import Beava.Lib.JsonStrings
import Beava.Server.EnvelopePositions
import Beava.Server.EnvelopeObjects
import Beava.Server.EnvelopeScanned
import Beava.Persistence.SnapshotHeader
import Beava.Persistence.Snapshot
import Beava.Sketch.HeapRuns
import Beava.Registry.FieldResolvers
import Beava.Sdk.Col
import Beava.Server.PayloadExpressions
import Beava.Server.Isolation
import Beava.Sdk.TcpTransport
import Beava.Server.SnapshotDirectory
import Beava.Server.WindowedReads
