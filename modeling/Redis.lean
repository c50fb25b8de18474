import Redis.Aof.BackgroundRewrite
import Redis.Aof.Flush
import Redis.Aof.FlushRuns
import Redis.Aof.Format
import Redis.Aof.Load
import Redis.Aof.WriteErrors
import Redis.Cluster.Commands
import Redis.Cluster.Election
import Redis.Cluster.ElectionSafety
import Redis.Cluster.EpochRuns
import Redis.Cluster.Epochs
import Redis.Cluster.FailureReports
import Redis.Cluster.FailureRuns
import Redis.Cluster.KeySlots
import Redis.Cluster.PacketBounds
import Redis.Cluster.Packets
import Redis.Cluster.PingOutcomes
import Redis.Cluster.Quiet
import Redis.Cluster.Rearranging
import Redis.Cluster.TakenEpochs
import Redis.Cluster.Votes
import Redis.Cluster.VotingRuns
import Redis.Commands.KeyAgreement
import Redis.Commands.KeyExtraction
import Redis.Commands.ProcessCommand
import Redis.Commands.Propagation
import Redis.Commands.Transactions
import Redis.Dict.IterationExactness
import Redis.Dict.Iterator
import Redis.Dict.IteratorEdits
import Redis.Dict.ScanCompleteness
import Redis.Dict.ScanExactness
import Redis.Eviction.MemoryLimit
import Redis.Eviction.Pool
import Redis.Hashes.Encodings
import Redis.Hashes.Model
import Redis.Hashes.Refinement
import Redis.Hashes.Runs
import Redis.Hashes.Updates
import Redis.Hyperloglog.CachedCount
import Redis.Hyperloglog.Filling
import Redis.Hyperloglog.Model
import Redis.Hyperloglog.Opcodes
import Redis.Hyperloglog.Refinement
import Redis.Hyperloglog.Safety
import Redis.Hyperloglog.SparseAdd
import Redis.Hyperloglog.Sums
import Redis.Hyperloglog.Values
import Redis.Intset.Model
import Redis.Intset.Refinement
import Redis.Intset.Runs
import Redis.Keyspace.Commands
import Redis.Keyspace.ExpireTimes
import Redis.Keyspace.IndexConsistency
import Redis.Keyspace.IndexRuns
import Redis.Keyspace.Loading
import Redis.Keyspace.Model
import Redis.Keyspace.ObjectDb
import Redis.Keyspace.Replay
import Redis.Keyspace.Serving
import Redis.Keyspace.SideIndexes
import Redis.Keyspace.SlotKeys
import Redis.Keyspace.SlotSkiplist
import Redis.Keyspace.TimeoutExactness
import Redis.Library.Announcements
import Redis.Library.ByteStrings
import Redis.Library.FiniteMaps
import Redis.Library.Lanes
import Redis.Library.Majorities
import Redis.Library.OrderedIndex
import Redis.Library.PackedCounters
import Redis.Library.PointerDictionary
import Redis.Library.RefCounts
import Redis.Library.Ring
import Redis.Library.Shuffles
import Redis.Library.Towers
import Redis.Library.Words
import Redis.Lists.Conservation
import Redis.Lists.Model
import Redis.Lists.Queues
import Redis.Lists.Ready
import Redis.Lists.Runs
import Redis.Lists.Serving
import Redis.Networking.OutputBuffer
import Redis.Networking.OutputInvariant
import Redis.Networking.OutputOrder
import Redis.Networking.OutputReplies
import Redis.Networking.OutputRuns
import Redis.Networking.QueryBuffer
import Redis.Networking.ReplyBytes
import Redis.Networking.UnblockedClients
import Redis.Pubsub.Delivery
import Redis.Pubsub.Mirrors
import Redis.Pubsub.SubscriptionRuns
import Redis.Rdb.Objects
import Redis.Replication.Acknowledgement
import Redis.Replication.Attachment
import Redis.Replication.Backlog
import Redis.Replication.Encoding
import Redis.Replication.PartialResync
import Redis.Replication.Segments
import Redis.Replication.Server
import Redis.Replication.Wait
import Redis.Scripting.Commands
import Redis.Scripting.Knowledge
import Redis.Scripting.Master
import Redis.Scripting.Runs
import Redis.Scripting.ScriptCache
import Redis.Sentinel.Agreement
import Redis.Sentinel.Leader
import Redis.Sets.Algebra
import Redis.Sets.Commands
import Redis.Sets.Loops
import Redis.Sets.RandomMembers
import Redis.Sets.WrongTypes
import Redis.Sort.ErrnoHistory
import Redis.Sort.LimitExactness
import Redis.Sort.LimitSlice
import Redis.Sort.Model
import Redis.Sort.PartialSort
import Redis.Sort.SortedVector
import Redis.Sort.SortedWindow
import Redis.SortedSet.Skiplist
import Redis.SortedSet.SkiplistDeletion
import Redis.SortedSet.SkiplistInsertion
import Redis.SortedSet.SkiplistInvariant
import Redis.SortedSet.SkiplistLevels
import Redis.SortedSet.SkiplistRanges
import Redis.SortedSet.SkiplistRank
import Redis.SortedSet.SkiplistRuns
import Redis.SortedSet.SkiplistSearch
import Redis.SortedSet.ZaddCommand
import Redis.SortedSet.ZaddOutcomes
import Redis.Strings.BitCounting
import Redis.Strings.BitFolding
import Redis.Strings.BitOperations
import Redis.Strings.BitPositions
import Redis.Strings.BitposCommand
import Redis.Strings.Counters
import Redis.Strings.Integers
import Redis.Strings.Objects
import Redis.Strings.Ranges
import Redis.Util.GlobCorrectness
import Redis.Util.GlobGrammar
import Redis.Util.GlobMatching
import Redis.Util.GlobOutcomes
import Redis.Util.IntegerEncoding
import Redis.Util.QuoteErrors
import Redis.Util.Quoting
import Redis.Util.Sds
import Redis.Watch.Detection
import Redis.Watch.Execution
import Redis.Watch.Runs
import Redis.Watch.Server
import Redis.Watch.Silent
import Redis.Ziplist.Cascade
import Redis.Ziplist.CascadeCorrectness
import Redis.Ziplist.Contents
import Redis.Ziplist.Deletion
import Redis.Ziplist.Encoding
import Redis.Ziplist.Insertion
import Redis.Ziplist.InsertionCorrectness
import Redis.Ziplist.Lookup
import Redis.Ziplist.Model
import Redis.Ziplist.RoundTrip
import Redis.Ziplist.Traversal
