import HlOrderbook.Lib.Slab
import HlOrderbook.Lib.GroupBy
import HlOrderbook.Lib.Runs
import HlOrderbook.Lib.KeyedDiff
import HlOrderbook.Lib.Trail
import HlOrderbook.Lib.RefCount
import HlOrderbook.Lib.Lines
import HlOrderbook.Lib.Cursor
import HlOrderbook.Lib.SigFigs
import HlOrderbook.Lib.ClosedRuns
import HlOrderbook.Lib.InTurn
import HlOrderbook.Lib.NearestEven
import HlOrderbook.LinkedList
import HlOrderbook.LinkedListRuns
import HlOrderbook.Types
import HlOrderbook.PriceLevel
import HlOrderbook.Matching
import HlOrderbook.OrderBook
import HlOrderbook.BookSpec
import HlOrderbook.BookRuns
import HlOrderbook.RefBook
import HlOrderbook.BookRefinement
import HlOrderbook.Aggregates
import HlOrderbook.SnapshotRoundTrip
import HlOrderbook.MultiBook
import HlOrderbook.State
import HlOrderbook.StateSpec
import HlOrderbook.Outcomes
import HlOrderbook.PairingOrder
import HlOrderbook.BookViews
import HlOrderbook.Pairing
import HlOrderbook.Panics
import HlOrderbook.Untriggered
import HlOrderbook.TriggerTails
import HlOrderbook.FailedBatches
import HlOrderbook.NewDiffs
import HlOrderbook.NodeHistory
import HlOrderbook.Replay
import HlOrderbook.Trades
import HlOrderbook.Levels
import HlOrderbook.L2Snapshots
import HlOrderbook.IncrementalL2
import HlOrderbook.L2Frames
import HlOrderbook.Buckets
import HlOrderbook.BucketBounds
import HlOrderbook.Listener
import HlOrderbook.TradePairing
import HlOrderbook.Ingest
import HlOrderbook.L2Flush
import HlOrderbook.SpotIsolation
import HlOrderbook.L2Feed
import HlOrderbook.L2Agreement
import HlOrderbook.L2Continuity
import HlOrderbook.L2Views
import HlOrderbook.L2WholeBooks
import HlOrderbook.L2Convergence
import HlOrderbook.Bbo
import HlOrderbook.Subscriptions
import HlOrderbook.LiveSubscriptions
import HlOrderbook.CacheKeys
import HlOrderbook.Cancelling
import HlOrderbook.L4Cache
import HlOrderbook.L4Stream
import HlOrderbook.Resync
import HlOrderbook.Timeless
import HlOrderbook.CatchUp
import HlOrderbook.LiveMerge
import HlOrderbook.MergeOrder
import HlOrderbook.BookLoop
import HlOrderbook.Text
import HlOrderbook.MsgPack
import HlOrderbook.AbciState
import HlOrderbook.FileReader
import HlOrderbook.Backfill
import HlOrderbook.ChunkedReading
import HlOrderbook.FileWatcher
import HlOrderbook.WatchedLines
import HlOrderbook.Handoff
import HlOrderbook.LiveBook
import HlOrderbook.MainLoop
import HlOrderbook.Numbers
import HlOrderbook.Outbound
import HlOrderbook.SinceSnapshot
import HlOrderbook.L4Answers
import HlOrderbook.Heartbeats
