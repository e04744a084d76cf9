import ScuffedRedis.Protocol.Parser
import ScuffedRedis.Protocol.ParserLaws
import ScuffedRedis.Protocol.RoundTrip
import ScuffedRedis.Protocol.ReadBounds
import ScuffedRedis.Protocol.HasMessage
import ScuffedRedis.Data.HashTable
import ScuffedRedis.Foundation.Simulation
import ScuffedRedis.Data.HashTableLaws
import ScuffedRedis.Data.HashTableRefinement
import ScuffedRedis.Server.KvStore
import ScuffedRedis.Server.KvRefinement
import ScuffedRedis.Data.TtlManager
import ScuffedRedis.Data.TtlManagerLaws
import ScuffedRedis.Data.TtlSweep
import ScuffedRedis.Data.TtlRuns
import ScuffedRedis.Data.TtlHeap
import ScuffedRedis.Server.Connection
import ScuffedRedis.Server.ConnectionLaws
import ScuffedRedis.Server.Feeding
import ScuffedRedis.Server.Framing
import ScuffedRedis.Server.Isolation
import ScuffedRedis.Data.AvlInvariant
import ScuffedRedis.Data.AvlQueries
import ScuffedRedis.Data.AvlRenaming
import ScuffedRedis.Data.SortedSet
import ScuffedRedis.Data.SortedSetLaws
import ScuffedRedis.Data.SortedSetNaN
import ScuffedRedis.Data.SortedSetRanks
import ScuffedRedis.Client.NodeClient
import ScuffedRedis.Client.NodeEncoding
import ScuffedRedis.Client.NodePairing
import ScuffedRedis.Client.NodeReplies
import ScuffedRedis.Client.RedisClient
import ScuffedRedis.Client.RedisPairing
import ScuffedRedis.Client.MockLiveness
import ScuffedRedis.Data.TtlContents
import ScuffedRedis.Data.TtlExpiry
import ScuffedRedis.Data.TtlIndex
import ScuffedRedis.Data.TtlMutex
import ScuffedRedis.Data.HashTableIterator
import ScuffedRedis.Data.HashTableLoad
import ScuffedRedis.Foundation.PrefixCode
import ScuffedRedis.Foundation.InsertionMap
import ScuffedRedis.Client.MockCache
import ScuffedRedis.Server.SimpleServer
import ScuffedRedis.Server.SimpleReads
import ScuffedRedis.Server.SimpleBuffer
import ScuffedRedis.Server.SimpleAnswers
import ScuffedRedis.Client.NodeSegments
import ScuffedRedis.Client.NodeTtl
import ScuffedRedis.Foundation.Interleaving
import ScuffedRedis.Server.Atomicity
import ScuffedRedis.Data.TtlOverflow
import ScuffedRedis.Client.TrafficGenerator
import ScuffedRedis.Data.SortedSetRanges
import ScuffedRedis.Protocol.Canonical
import ScuffedRedis.Protocol.Draining
import ScuffedRedis.Data.GlobMatching
import ScuffedRedis.Client.MockKeys
import ScuffedRedis.Data.GlobSafety
import ScuffedRedis.Protocol.Sizes
import ScuffedRedis.Client.CommandLine
import ScuffedRedis.Data.SortedSetBulk
import ScuffedRedis.Data.HashTableMoves
import ScuffedRedis.Server.EventLoop
import ScuffedRedis.Protocol.Decodability
import ScuffedRedis.Server.KvLedger
import ScuffedRedis.Server.Serving
import ScuffedRedis.Client.RedisArrival
import ScuffedRedis.Client.RedisCalls
import ScuffedRedis.Server.SimpleSerial
import ScuffedRedis.Foundation.Ownership
import ScuffedRedis.Server.Sockets
import ScuffedRedis.Client.CacheAside
import ScuffedRedis.Client.LineResponses
import ScuffedRedis.Data.SortedSetManager
import ScuffedRedis.Server.EventRounds
import ScuffedRedis.Client.Interactive
import ScuffedRedis.Client.Sessions
import ScuffedRedis.Data.TtlChecker
import ScuffedRedis.Foundation.Words
import ScuffedRedis.Client.ExecuteEndpoint
import ScuffedRedis.Client.NodeItems
import ScuffedRedis.Foundation.RegExpRenaming
import ScuffedRedis.Server.Acceptor
