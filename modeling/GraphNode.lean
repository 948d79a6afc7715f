import GraphNode.Library.MapFold
import GraphNode.Library.KeyedList
import GraphNode.Library.WriteLog
import GraphNode.Library.Period
import GraphNode.Library.Suffix
import GraphNode.Store.Value
import GraphNode.Store.BigDecimal
import GraphNode.Store.Operations
import GraphNode.Store.EntityCache
import GraphNode.Store.EntityCacheRun
import GraphNode.Store.EntityCacheHandler
import GraphNode.Util.LfuCache
import GraphNode.Util.LfuCacheInvariant
import GraphNode.Store.EntityCacheModifications
import GraphNode.Store.EntityCacheGet
import GraphNode.Store.BlockRange
import GraphNode.Store.BlockRangeTable
import GraphNode.Store.BlockRangeLayout
import GraphNode.Store.BlockRangeHistory
import GraphNode.Store.Deployment
import GraphNode.GraphQL.Filter
import GraphNode.Subgraph.BlockState
import GraphNode.Subgraph.Runner
import GraphNode.GraphQL.Query
import GraphNode.Library.Bytes
import GraphNode.Runtime.AscHeap
import GraphNode.Runtime.AscAbi
import GraphNode.Runtime.AscRoundTrip
import GraphNode.Library.Saturating
import GraphNode.Runtime.Gas
import GraphNode.Util.Backoff
import GraphNode.Runtime.GasSizeOf
import GraphNode.Store.Scalar
import GraphNode.GraphQL.QueryCache
import GraphNode.Library.MachineNumbers
import GraphNode.Store.Copy
import GraphNode.Library.IndexMap
import GraphNode.Library.GraphMap
import GraphNode.Chain.EthereumLogFilter
import GraphNode.Chain.EthereumTriggerFilter
import GraphNode.Chain.EthGetLogs
import GraphNode.Util.Stats
import GraphNode.Blockchain.PollingBlockStream
import GraphNode.Blockchain.PollingBlockStreamInvariant
import GraphNode.Subgraph.DynamicDataSources
import GraphNode.Subgraph.DynamicDataSourcesSync
import GraphNode.Subgraph.RunnerPollingStream
import GraphNode.Subgraph.RunnerUnfail
import GraphNode.Subgraph.RunnerBlock
import GraphNode.Store.WriteQueue
import GraphNode.Library.StableHash
import GraphNode.Subgraph.ProofOfIndexing
import GraphNode.Subgraph.ProofOfIndexingCheck
import GraphNode.Subgraph.ProofOfIndexingHandlers
